import Mathlib.Data.List.Forall2
import Mathlib.Data.List.Nodup

/-!
# Lists of a build

The modules of a graph, the chunks, their file names and the emissions are lists that are searched
by a key. With distinct keys the search for the key of an item finds that item (`find?_key`). Lists
that correspond item by item are related by `List.Forall₂`, and items have a counterpart on the
other side. Work under way is a list too, of which one item at a time is removed or replaced.
-/

namespace WorkerBundler

variable {α β κ : Type}

theorem find?_key [DecidableEq κ] {key : α → κ} {items : List α} (distinct : (items.map key).Nodup)
    {a : α} (mem : a ∈ items) : items.find? (fun x => decide (key x = key a)) = some a := by
  induction items with
  | nil => cases mem
  | cons b rest ih =>
    rw [List.map_cons, List.nodup_cons] at distinct
    rcases List.mem_cons.1 mem with rfl | mem
    · rw [List.find?_cons_of_pos (by simp)]
    · have other : key b ≠ key a := by
        intro same
        exact distinct.1 (same ▸ List.mem_map_of_mem mem)
      rw [List.find?_cons_of_neg (by simpa using other), ih distinct.2 mem]

/-- Items with the same key are the same. -/
theorem eq_of_key {key : α → κ} {items : List α} (distinct : (items.map key).Nodup) {a b : α}
    (left : a ∈ items) (right : b ∈ items) (same : key a = key b) : a = b :=
  List.inj_on_of_nodup_map distinct left right same

theorem exists_of_forall₂_right {R : α → β → Prop} {as : List α} {bs : List β}
    (h : List.Forall₂ R as bs) {b : β} (mem : b ∈ bs) : ∃ a ∈ as, R a b := by
  induction h with
  | nil => cases mem
  | cons related _ ih =>
    rcases List.mem_cons.1 mem with rfl | mem
    · exact ⟨_, List.mem_cons_self, related⟩
    · obtain ⟨a, old, related⟩ := ih mem
      exact ⟨a, List.mem_cons_of_mem _ old, related⟩

theorem exists_of_forall₂_left {R : α → β → Prop} {as : List α} {bs : List β}
    (h : List.Forall₂ R as bs) {a : α} (mem : a ∈ as) : ∃ b ∈ bs, R a b :=
  exists_of_forall₂_right (R := flip R) h.flip mem

/-- Items of lists that correspond through a list between them have a common counterpart there. -/
theorem forall₂_through {R : α → β → Prop} {S : β → κ → Prop} {as : List α} {bs : List β}
    {cs : List κ} (first : List.Forall₂ R as bs) (second : List.Forall₂ S bs cs) :
    List.Forall₂ (fun a c => ∃ b, R a b ∧ S b c) as cs := by
  induction first generalizing cs with
  | nil =>
    cases second
    exact .nil
  | cons related _ ih =>
    cases second with
    | cons related' others => exact .cons ⟨_, related, related'⟩ (ih others)

/-- The counterpart of a list that is cut at an item is cut at the counterpart of the item. -/
theorem exists_split_of_forall₂ {R : α → β → Prop} {before after : List α} {a : α} {bs : List β}
    (h : List.Forall₂ R (before ++ a :: after) bs) :
    ∃ left b right, bs = left ++ b :: right ∧ List.Forall₂ R before left ∧ R a b ∧
      List.Forall₂ R after right := by
  induction before generalizing bs with
  | nil =>
    cases h with
    | cons related others => exact ⟨[], _, _, rfl, .nil, related, others⟩
  | cons first before ih =>
    cases h with
    | cons related others =>
      obtain ⟨left, b, right, rfl, lefts, here, rights⟩ := ih others
      exact ⟨_ :: left, b, right, rfl, .cons related lefts, here, rights⟩

theorem mem_of_mem_removed {before after : List α} {a b : α} (mem : a ∈ before ++ after) :
    a ∈ before ++ b :: after := by
  rcases List.mem_append.1 mem with left | right
  · exact List.mem_append_left _ left
  · exact List.mem_append_right _ (List.mem_cons_of_mem _ right)

theorem eq_or_mem_of_mem_replaced {before after : List α} {a b new : α}
    (mem : a ∈ before ++ new :: after) : a = new ∨ a ∈ before ++ b :: after := by
  rcases List.mem_append.1 mem with left | right
  · exact Or.inr (List.mem_append_left _ left)
  · rcases List.mem_cons.1 right with here | right
    · exact Or.inl here
    · exact Or.inr (List.mem_append_right _ (List.mem_cons_of_mem _ right))

end WorkerBundler
