/-!
# Sorting

A stable sort by insertion. It recurses on the list, so what is sorted can be computed inside a
proof.
-/

namespace WorkerBundler.Ordered

variable {α : Type}

/-- Puts an item before the first one that it may precede. -/
def insert (le : α → α → Bool) (a : α) : List α → List α
  | [] => [a]
  | b :: rest => if le a b then a :: b :: rest else b :: insert le a rest

/-- The items in ascending order; items that may precede each other keep theirs. -/
def sort (le : α → α → Bool) : List α → List α
  | [] => []
  | a :: rest => insert le a (sort le rest)

theorem perm_insert (le : α → α → Bool) (a : α) (items : List α) :
    (insert le a items).Perm (a :: items) := by
  induction items with
  | nil => exact .refl _
  | cons b rest ih =>
    rw [insert]
    split
    · exact .refl _
    · exact (ih.cons b).trans (.swap a b rest)

/-- Sorting neither adds nor loses an item. -/
theorem perm_sort (le : α → α → Bool) (items : List α) : (sort le items).Perm items := by
  induction items with
  | nil => exact .nil
  | cons a rest ih => exact (perm_insert le a _).trans (ih.cons a)

section

variable {le : α → α → Bool} (total : ∀ a b, le a b = true ∨ le b a = true)
  (trans : ∀ a b c, le a b = true → le b c = true → le a c = true)

include total trans

theorem pairwise_insert (a : α) {items : List α} (ordered : items.Pairwise (le · · = true)) :
    (insert le a items).Pairwise (le · · = true) := by
  induction items with
  | nil => exact List.pairwise_singleton _ _
  | cons b rest ih =>
    obtain ⟨first, others⟩ := List.pairwise_cons.1 ordered
    rw [insert]
    split
    · rename_i here
      refine List.pairwise_cons.2 ⟨?_, ordered⟩
      intro c mem
      rcases List.mem_cons.1 mem with rfl | mem
      · exact here
      · exact trans a b c here (first c mem)
    · rename_i later
      refine List.pairwise_cons.2 ⟨?_, ih others⟩
      intro c mem
      rcases List.mem_cons.1 ((perm_insert le a rest).mem_iff.1 mem) with rfl | mem
      · exact (total b c).resolve_right later
      · exact first c mem

/-- Sorted items ascend. -/
theorem pairwise_sort (items : List α) : (sort le items).Pairwise (le · · = true) := by
  induction items with
  | nil => exact .nil
  | cons a rest ih => exact pairwise_insert total trans a ih

end

end WorkerBundler.Ordered
