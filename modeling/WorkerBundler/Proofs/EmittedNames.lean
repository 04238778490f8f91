import WorkerBundler.Proofs.Chunks

/-!
# References and the names behind them

While modules are loaded the emitter only grows: references are minted and stay distinct, what was
handed out is a start of the emissions, and none has a file name (`Emitter.Unnamed`).
`Chunk.assignNames` then gives a file name to each recorded emission (`fileName_of_assignNames`) and
to no other (`find?_of_assignNames`). In every state that the operations lead to, what has a file
name was minted (`Emitter.Reached.minted`).
-/

namespace WorkerBundler

/-! ## While modules are loaded -/

namespace Emitter

/-- An emitter before the files have names. -/
structure Unnamed (e : Emitter) : Prop where
  distinct : (e.emissions.map Emission.reference).Nodup
  minted : ∀ m ∈ e.emissions, ∃ seed, m.reference = mint m.chunk seed
  drained_le : e.drained ≤ e.emissions.length
  unnamed : ∀ m ∈ e.emissions, m.fileName = none

variable {e after : Emitter} {chunk : EmittedChunk} {reference name : String}

theorem unnamed_empty : Emitter.empty.Unnamed :=
  ⟨.nil, nofun, Nat.le_refl 0, nofun⟩

/-- What was handed out is a start of the emissions. -/
theorem take_append_pending (e : Emitter) :
    e.emissions.take e.drained ++ e.pending = e.emissions :=
  List.take_append_drop _ _

theorem isTaken_iff : e.isTaken reference = true ↔
    reference ∈ e.emissions.map Emission.reference := by
  rw [isTaken, find?, List.find?_isSome]
  simp

theorem drained_of_emit (minted : e.emit chunk = some (reference, after)) :
    after.drained = e.drained := by
  obtain ⟨⟨fresh, seed⟩, _, same⟩ := Option.map_eq_some_iff.1 minted
  obtain ⟨_, rfl⟩ := Prod.mk.inj same
  rfl

theorem Unnamed.emit (h : e.Unnamed) (minted : e.emit chunk = some (reference, after)) :
    after.Unnamed := by
  obtain ⟨emissions, free⟩ := emissions_of_emit minted
  have new : reference ∉ e.emissions.map Emission.reference := by
    intro taken
    rw [isTaken_iff.2 taken] at free
    cases free
  refine ⟨?_, ?_, ?_, ?_⟩
  · rw [emissions, List.map_append]
    exact List.Nodup.append h.distinct (List.nodup_singleton _) (by simpa using new)
  · intro m mem
    rw [emissions] at mem
    rcases List.mem_append.1 mem with old | new
    · exact h.minted m old
    · rw [List.mem_singleton.1 new]
      exact minted_of_emit minted
  · rw [emissions, drained_of_emit minted, List.length_append]
    exact Nat.le_add_right_of_le h.drained_le
  · intro m mem
    rw [emissions] at mem
    rcases List.mem_append.1 mem with old | new
    · exact h.unnamed m old
    · rw [List.mem_singleton.1 new]

theorem Unnamed.takePending (h : e.Unnamed) : e.takePending.2.Unnamed :=
  ⟨h.distinct, h.minted, Nat.le_refl _, h.unnamed⟩

/-! ## Giving names -/

theorem assign_ok (taken : reference ∈ e.emissions.map Emission.reference) (name : String) :
    ∃ after, e.assign reference name = .ok after :=
  ⟨_, by rw [assign, if_pos (isTaken_iff.2 taken)]⟩

/-- A name is given under a reference that is taken. -/
theorem of_assign (assigned : e.assign reference name = .ok after) :
    reference ∈ e.emissions.map Emission.reference ∧
      after.emissions = e.emissions.map fun m =>
        if m.reference = reference then { m with fileName := some name } else m := by
  unfold assign at assigned
  split at assigned
  · rename_i taken
    cases assigned
    exact ⟨isTaken_iff.1 taken, rfl⟩
  · cases assigned

theorem map_reference_assign (assigned : e.assign reference name = .ok after) :
    after.emissions.map Emission.reference = e.emissions.map Emission.reference := by
  rw [(of_assign assigned).2, List.map_map]
  apply List.map_congr_left
  intro m _
  by_cases same : m.reference = reference <;> simp [same]

/-- Giving a name to one emission leaves the others alone. -/
theorem find?_assign (assigned : e.assign reference name = .ok after) (r : String) :
    after.find? r =
      (e.find? r).map fun m => if r = reference then { m with fileName := some name } else m := by
  have same : (fun m : Emission => decide (m.reference = r)) ∘ (fun m =>
      if m.reference = reference then { m with fileName := some name } else m) =
      fun m => decide (m.reference = r) := by
    funext m
    by_cases here : m.reference = reference <;> simp [here]
  rw [find?, find?, (of_assign assigned).2, List.find?_map, same]
  apply Option.map_congr
  intro m found
  have here : m.reference = r := by simpa using List.find?_some found
  rw [here]

/-- The emission under the reference has the name from then on. -/
theorem fileName_assign (assigned : e.assign reference name = .ok after) :
    after.fileName reference = .ok name := by
  obtain ⟨m, found⟩ := Option.isSome_iff_exists.1 (isTaken_iff.2 (of_assign assigned).1)
  rw [fileName, find?_assign assigned, found]
  simp

theorem fileName_congr (same : after.find? reference = e.find? reference) :
    after.fileName reference = e.fileName reference := by
  rw [fileName, fileName, same]

/-- A file name is that of an emission. -/
theorem exists_of_fileName (named : e.fileName reference = .ok name) :
    ∃ m ∈ e.emissions, m.fileName = some name := by
  rw [fileName] at named
  split at named
  · cases named
  · rename_i m found
    split at named
    · cases named
    · rename_i given
      cases named
      exact ⟨m, List.mem_of_find?_eq_some found, given⟩

/-- An emission of an unnamed emitter has no file name yet. -/
theorem Unnamed.fileName (h : e.Unnamed) {m : Emission} (mem : m ∈ e.emissions) :
    e.fileName m.reference = .error (.of (.fileNameNotGenerated m.reference)) := by
  have found : e.find? m.reference = some m := find?_key h.distinct mem
  rw [Emitter.fileName, found]
  simp only [h.unnamed m mem]

/-! ## All states -/

/-- The states of an emitter: those that its operations lead to. -/
inductive Reached : Emitter → Prop
  | empty : Reached .empty
  | emit {e after : Emitter} {chunk : EmittedChunk} {reference : String} :
    Reached e → e.emit chunk = some (reference, after) → Reached after
  | takePending {e : Emitter} : Reached e → Reached e.takePending.2
  | assign {e after : Emitter} {reference name : String} :
    Reached e → e.assign reference name = .ok after → Reached after

/-- A reference with a file name was minted. -/
theorem Reached.minted (reached : e.Reached) (named : e.fileName reference = .ok name) :
    ∃ chunk seed, reference = mint chunk seed := by
  have all : ∀ r ∈ e.emissions.map Emission.reference, ∃ chunk seed, r = mint chunk seed := by
    clear named
    induction reached with
    | empty => nofun
    | emit _ emitted ih =>
      intro r mem
      rw [(emissions_of_emit emitted).1, List.map_append] at mem
      rcases List.mem_append.1 mem with old | new
      · exact ih r old
      · rw [List.mem_singleton.1 new]
        exact ⟨_, minted_of_emit emitted⟩
    | takePending _ ih => exact ih
    | assign _ assigned ih =>
      rw [map_reference_assign assigned]
      exact ih
  unfold Emitter.fileName at named
  split at named
  · cases named
  · rename_i m found
    have here : m.reference = reference := by simpa using List.find?_some found
    exact all reference (here ▸ List.mem_map_of_mem (List.mem_of_find?_eq_some found))

end Emitter

/-! ## The names of recorded emissions -/

namespace Chunk

variable {names : FileNames} {entries : List EmittedEntry} {e after : Emitter}

theorem assignNames_cons {entry : EmittedEntry}
    (h : assignNames names (entry :: entries) e = .ok after) :
    (names.of? entry.module = none ∧ assignNames names entries e = .ok after) ∨
      ∃ name e', names.of? entry.module = some name ∧ e.assign entry.reference name = .ok e' ∧
        assignNames names entries e' = .ok after := by
  unfold assignNames at h
  split at h
  · rename_i none
    exact Or.inl ⟨none, h⟩
  · rename_i name some
    obtain ⟨e', assigned, rest⟩ := exists_of_bind_ok h
    exact Or.inr ⟨name, e', some, assigned, rest⟩

/-- The first of several entries is given its name, and then the others are. -/
theorem exists_assignNames_first {entry : EmittedEntry}
    (h : assignNames names (entry :: entries) e = .ok after) :
    ∃ given, assignNames names [entry] e = .ok given ∧
      assignNames names entries given = .ok after := by
  rcases assignNames_cons h with ⟨none, rest⟩ | ⟨name, given, some, assigned, rest⟩
  · refine ⟨e, ?_, rest⟩
    rw [assignNames, none]
    rfl
  · refine ⟨given, ?_, rest⟩
    simp only [assignNames, some, assigned]
    rfl

theorem assignNames_ok
    (taken : ∀ entry ∈ entries, entry.reference ∈ e.emissions.map Emission.reference) :
    ∃ after, assignNames names entries e = .ok after := by
  induction entries generalizing e with
  | nil => exact ⟨e, rfl⟩
  | cons entry entries ih =>
    have others : ∀ x ∈ entries, x.reference ∈ e.emissions.map Emission.reference :=
      fun x mem => taken x (List.mem_cons_of_mem _ mem)
    unfold assignNames
    split
    · exact ih others
    · rename_i name _
      obtain ⟨e', assigned⟩ := Emitter.assign_ok (taken entry List.mem_cons_self) name
      rw [assigned]
      apply ih
      rw [Emitter.map_reference_assign assigned]
      exact others

/-- What is not recorded is not named. -/
theorem find?_of_assignNames (h : assignNames names entries e = .ok after) {reference : String}
    (unrecorded : ∀ entry ∈ entries, entry.reference ≠ reference) :
    after.find? reference = e.find? reference := by
  induction entries generalizing e with
  | nil =>
    cases h
    rfl
  | cons entry entries ih =>
    have others : ∀ x ∈ entries, x.reference ≠ reference :=
      fun x mem => unrecorded x (List.mem_cons_of_mem _ mem)
    rcases assignNames_cons h with ⟨_, rest⟩ | ⟨name, e', _, assigned, rest⟩
    · exact ih rest others
    · have other : reference ≠ entry.reference :=
        fun same => unrecorded entry List.mem_cons_self same.symm
      rw [ih rest others, Emitter.find?_assign assigned]
      simp [other]

/-- A recorded emission has the file name of its module in the end. -/
theorem fileName_of_assignNames (h : assignNames names entries e = .ok after)
    (distinct : (entries.map EmittedEntry.reference).Nodup) {entry : EmittedEntry}
    (mem : entry ∈ entries) {name : String} (named : names.of? entry.module = some name) :
    after.fileName entry.reference = .ok name := by
  induction entries generalizing e with
  | nil => cases mem
  | cons x entries ih =>
    rw [List.map_cons, List.nodup_cons] at distinct
    rcases List.mem_cons.1 mem with rfl | mem
    · rcases assignNames_cons h with ⟨none, _⟩ | ⟨name', e', some, assigned, rest⟩
      · rw [named] at none
        cases none
      · have same : name' = name := Option.some.inj (some.symm.trans named)
        have unrecorded : ∀ y ∈ entries, y.reference ≠ entry.reference := by
          intro y mem equal
          exact distinct.1 (equal ▸ List.mem_map_of_mem mem)
        rw [Emitter.fileName_congr (find?_of_assignNames rest unrecorded), ← same]
        exact Emitter.fileName_assign assigned
    · rcases assignNames_cons h with ⟨_, rest⟩ | ⟨_, _, _, _, rest⟩
      · exact ih rest distinct.2 mem
      · exact ih rest distinct.2 mem

end Chunk

end WorkerBundler
