import WorkerBundler.Ordered

/-!
# Module ids

A module is known by its id and by whether it lies outside the bundle. Module ids are ordered by
their ids and then internal before external.
-/

namespace WorkerBundler

/-- The id of a module and whether it lies outside the bundle. -/
structure ModuleId where
  id : String
  isExternal : Bool
  deriving DecidableEq, Repr

namespace ModuleId

/-- Whether a module id does not come after another. -/
def le (a b : ModuleId) : Bool :=
  if a.id = b.id then !a.isExternal || b.isExternal else a.id < b.id

theorem le_iff {a b : ModuleId} : le a b = true ↔
    a.id < b.id ∨ a.id = b.id ∧ (a.isExternal = false ∨ b.isExternal = true) := by
  unfold le
  by_cases same : a.id = b.id
  · have level : ¬a.id < b.id := same ▸ String.lt_irrefl a.id
    rw [if_pos same, or_iff_right level, and_iff_right same]
    simp
  · simp [same]

theorem le_total (a b : ModuleId) : le a b = true ∨ le b a = true := by
  rw [le_iff, le_iff]
  by_cases before : a.id < b.id
  · exact Or.inl (Or.inl before)
  · by_cases behind : b.id < a.id
    · exact Or.inr (Or.inl behind)
    · have same : a.id = b.id :=
        String.le_antisymm (String.not_lt.1 behind) (String.not_lt.1 before)
      cases external : a.isExternal with
      | false => exact Or.inl (Or.inr ⟨same, Or.inl rfl⟩)
      | true => exact Or.inr (Or.inr ⟨same.symm, Or.inr rfl⟩)

theorem le_trans (a b c : ModuleId) (first : le a b = true) (second : le b c = true) :
    le a c = true := by
  rw [le_iff] at first second ⊢
  rcases first with before | ⟨same, internal⟩
  · rcases second with before' | ⟨same', _⟩
    · exact Or.inl (String.lt_trans before before')
    · exact Or.inl (same' ▸ before)
  · rcases second with before' | ⟨same', internal'⟩
    · exact Or.inl (same ▸ before')
    · refine Or.inr ⟨same.trans same', ?_⟩
      rcases internal with inside | outside
      · exact Or.inl inside
      · exact Or.inr (internal'.resolve_left (by simp [outside]))

/-- The module ids in ascending order without repetitions. -/
def sortUnique (ids : List ModuleId) : List ModuleId :=
  Ordered.sort le ids.eraseDups

end ModuleId

end WorkerBundler
