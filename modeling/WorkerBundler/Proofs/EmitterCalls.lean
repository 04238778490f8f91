import Mathlib.Data.List.Induction
import WorkerBundler.Proofs.FreshReferences

/-!
# Any sequence of calls of an emitter

`Emitter.callAll` carries out a sequence of operations and lists the answered calls. `Accounts` says
what the calls since the last reset tell about the emitter: which references were given out, what
was handed out and what is still to be, and what each text is answered when it is taken for a
reference. It holds after every sequence that the references are enough for
(`accounts_of_callAll`). `Books` is the invariant behind it, and `Books.call` is the step.
-/

namespace WorkerBundler.Emitter

/-! ## Calls -/

/-- What an emitter can be asked to do. -/
inductive Operation where
  | emit (chunk : EmittedChunk)
  | takePending
  | assign (reference name : String)
  | fileName (reference : String)
  | reset

/-- An operation with its answer. -/
inductive Call where
  | emit (chunk : EmittedChunk) (reference : String)
  | takePending (taken : List (String × EmittedChunk))
  | assign (reference name : String) (result : Except BuildError Unit)
  | fileName (reference : String) (result : Except BuildError String)
  | reset

/-- The operation that was called. -/
def Call.operation : Call → Operation
  | .emit chunk _ => .emit chunk
  | .takePending _ => .takePending
  | .assign reference name _ => .assign reference name
  | .fileName reference _ => .fileName reference
  | .reset => .reset

/-- Whether the answer is an error. -/
def Call.failed : Call → Bool
  | .assign _ _ (.error _) => true
  | .fileName _ (.error _) => true
  | _ => false

/-- An emission as it is handed out: its reference and its chunk. -/
def handout (m : Emission) : String × EmittedChunk := (m.reference, m.chunk)

/-- Carries out an operation. There is no answer only where no reference is left for a chunk. -/
def call (e : Emitter) : Operation → Option (Call × Emitter)
  | .emit chunk => (e.emit chunk).map fun (reference, after) => (.emit chunk reference, after)
  | .takePending => some (.takePending (e.takePending.1.map handout), e.takePending.2)
  | .assign reference name =>
    match e.assign reference name with
    | .ok after => some (.assign reference name (.ok ()), after)
    | .error x => some (.assign reference name (.error x), e)
  | .fileName reference => some (.fileName reference (e.fileName reference), e)
  | .reset => some (.reset, .empty)

/-- Carries out operations one after the other. -/
def callAll (e : Emitter) : List Operation → Option (List Call × Emitter)
  | [] => some ([], e)
  | operation :: rest =>
    match e.call operation with
    | none => none
    | some (answered, after) =>
      (callAll after rest).map fun (calls, last) => (answered :: calls, last)

/-! ## What calls tell -/

/-- The calls after the last reset. -/
def sinceReset (calls : List Call) : List Call :=
  calls.foldl (fun since call => match call with
    | .reset => []
    | call => since ++ [call]) []

/-- The emissions that the calls made. -/
def emitted (calls : List Call) : List (String × EmittedChunk) :=
  calls.filterMap fun call => match call with
    | .emit chunk reference => some (reference, chunk)
    | _ => none

/-- The emissions that the calls were handed. -/
def taken (calls : List Call) : List (String × EmittedChunk) :=
  calls.flatMap fun call => match call with
    | .takePending taken => taken
    | _ => []

/-- The last name that a call gave to the reference. -/
def lastName? (calls : List Call) (reference : String) : Option String :=
  calls.foldl (fun name? call => match call with
    | .assign r name (.ok ()) => if reference = r then some name else name?
    | _ => name?) none

/-- How an operation changes the number of chunks that an emitter holds. -/
def heldAfter (count : Nat) : Operation → Nat
  | .emit _ => count + 1
  | .reset => 0
  | _ => count

/-- The number of chunks that an emitter holds after the operations. -/
def held (operations : List Operation) : Nat :=
  operations.foldl heldAfter 0

/-- A small ASCII letter or digit. -/
def isReferenceChar (c : Char) : Bool :=
  ('0' ≤ c && c ≤ '9') || ('a' ≤ c && c ≤ 'z')

/-- What the calls since the last reset tell about an emitter. -/
structure Accounts (calls : List Call) (e : Emitter) : Prop where
  distinct : ((emitted calls).map Prod.fst).Nodup
  shaped : ∀ reference ∈ (emitted calls).map Prod.fst,
    reference.length = 8 ∧ ∀ c ∈ reference.toList, isReferenceChar c = true
  handedOut : taken calls ++ e.takePending.1.map handout = emitted calls
  named : ∀ reference name, lastName? calls reference = some name →
    reference ∈ (emitted calls).map Prod.fst ∧ e.fileName reference = .ok name
  unnamed : ∀ reference ∈ (emitted calls).map Prod.fst, lastName? calls reference = none →
    ∃ x : BuildError, e.fileName reference = .error x ∧
      x = .of (.fileNameNotGenerated reference) ∧ x.code = "FILE_NAME_NOT_GENERATED"
  unknown : ∀ reference ∉ (emitted calls).map Prod.fst,
    ∃ x : BuildError, e.fileName reference = .error x ∧
      x = .of (.unknownReference reference) ∧ x.code = "FILE_NOT_FOUND"

/-! ## Books -/

/-- How the state of an emitter follows from the calls since the last reset. -/
structure Books (calls : List Call) (e : Emitter) : Prop where
  emissions : e.emissions.map handout = emitted calls
  distinct : (e.emissions.map Emission.reference).Nodup
  minted : ∀ m ∈ e.emissions, ∃ seed, m.reference = mint m.chunk seed
  drained_le : e.drained ≤ e.emissions.length
  taken : taken calls = (e.emissions.take e.drained).map handout
  names : ∀ reference, (e.find? reference).bind Emission.fileName = lastName? calls reference

variable {calls : List Call} {e after : Emitter} {answered : Call} {operation : Operation}
  {operations : List Operation}

theorem books_empty : Books [] .empty :=
  ⟨rfl, .nil, nofun, Nat.le_refl 0, rfl, fun _ => rfl⟩

theorem map_fst_handout (ms : List Emission) :
    (ms.map handout).map Prod.fst = ms.map Emission.reference := by
  rw [List.map_map]
  rfl

/-- An emission has no name at first. -/
theorem find?_emit {chunk : EmittedChunk} {reference : String}
    (minted : e.emit chunk = some (reference, after)) (r : String) :
    (after.find? r).bind Emission.fileName = (e.find? r).bind Emission.fileName := by
  rw [find?, (emissions_of_emit minted).1, List.find?_append, ← find?]
  cases e.find? r with
  | some m => rfl
  | none =>
    rw [Option.none_or]
    by_cases here : reference = r <;> simp [here]

theorem Books.emit (h : Books calls e) {chunk : EmittedChunk} {reference : String}
    (minted : e.emit chunk = some (reference, after)) :
    Books (calls ++ [.emit chunk reference]) after where
  emissions := by
    rw [(emissions_of_emit minted).1, List.map_append, h.emissions, emitted, emitted,
      List.filterMap_append]
    rfl
  distinct := by
    have new : reference ∉ e.emissions.map Emission.reference := by
      intro old
      have free := (emissions_of_emit minted).2
      rw [isTaken_iff.2 old] at free
      cases free
    rw [(emissions_of_emit minted).1, List.map_append]
    exact List.Nodup.append h.distinct (List.nodup_singleton _) (by simpa using new)
  minted := by
    intro m mem
    rw [(emissions_of_emit minted).1] at mem
    rcases List.mem_append.1 mem with old | new
    · exact h.minted m old
    · rw [List.mem_singleton.1 new]
      exact minted_of_emit minted
  drained_le := by
    rw [(emissions_of_emit minted).1, drained_of_emit minted, List.length_append]
    exact Nat.le_add_right_of_le h.drained_le
  taken := by
    rw [(emissions_of_emit minted).1, drained_of_emit minted,
      List.take_append_of_le_length h.drained_le, ← h.taken, Emitter.taken, Emitter.taken,
      List.flatMap_append]
    exact List.append_nil _
  names := by
    intro r
    rw [find?_emit minted, h.names, lastName?, lastName?, List.foldl_append]
    rfl

theorem Books.takePending (h : Books calls e) :
    Books (calls ++ [.takePending (e.takePending.1.map handout)]) e.takePending.2 where
  emissions := by
    rw [emitted, List.filterMap_append, ← emitted, ← h.emissions]
    exact (List.append_nil _).symm
  distinct := h.distinct
  minted := h.minted
  drained_le := Nat.le_refl _
  taken := by
    have all : e.emissions.take e.takePending.2.drained = e.emissions := List.take_length
    rw [Emitter.taken, List.flatMap_append, ← Emitter.taken, h.taken]
    show _ ++ (e.takePending.1.map handout ++ []) =
      (e.emissions.take e.takePending.2.drained).map handout
    rw [all, List.append_nil, ← List.map_append]
    exact congrArg (List.map handout) e.take_append_pending
  names := by
    intro r
    rw [lastName?, List.foldl_append, ← lastName?]
    exact h.names r

/-- A call that changes no emission and hands out none. -/
theorem Books.keep (h : Books calls e) (emitted_eq : emitted [answered] = [])
    (taken_eq : Emitter.taken [answered] = [])
    (lastName?_eq : ∀ r, lastName? (calls ++ [answered]) r = lastName? calls r) :
    Books (calls ++ [answered]) e where
  emissions := by
    rw [emitted, List.filterMap_append, ← emitted, ← emitted, emitted_eq, List.append_nil]
    exact h.emissions
  distinct := h.distinct
  minted := h.minted
  drained_le := h.drained_le
  taken := by
    rw [Emitter.taken, List.flatMap_append, ← Emitter.taken, ← Emitter.taken, taken_eq,
      List.append_nil]
    exact h.taken
  names := by
    intro r
    rw [lastName?_eq]
    exact h.names r

theorem Books.assign (h : Books calls e) {reference name : String}
    (assigned : e.assign reference name = .ok after) :
    Books (calls ++ [.assign reference name (.ok ())]) after := by
  have emissions := (of_assign assigned).2
  have drained : after.drained = e.drained := by
    unfold Emitter.assign at assigned
    split at assigned
    · cases assigned
      rfl
    · cases assigned
  have handouts : ∀ m : Emission,
      handout (if m.reference = reference then { m with fileName := some name } else m) =
        handout m := by
    intro m
    split <;> rfl
  refine ⟨?_, ?_, ?_, ?_, ?_, ?_⟩
  · rw [emissions, List.map_map, emitted, List.filterMap_append, ← emitted, ← h.emissions]
    simp [Function.comp_def, handouts]
  · rw [map_reference_assign assigned]
    exact h.distinct
  · rw [emissions]
    intro m mem
    obtain ⟨m', old, rfl⟩ := List.mem_map.1 mem
    split
    · exact h.minted m' old
    · exact h.minted m' old
  · rw [emissions, drained, List.length_map]
    exact h.drained_le
  · rw [emissions, drained, ← List.map_take, List.map_map, Emitter.taken, List.flatMap_append,
      ← Emitter.taken, h.taken]
    simp [Function.comp_def, handouts]
  · intro r
    rw [lastName?, List.foldl_append, ← lastName?, find?_assign assigned, ← h.names r]
    by_cases here : r = reference
    · subst here
      obtain ⟨m, found⟩ := Option.isSome_iff_exists.1 (isTaken_iff.2 (of_assign assigned).1)
      rw [found]
      simp
    · simp [here]

/-- **The books stay right in each call.** -/
theorem Books.call (h : Books (sinceReset calls) e)
    (called : e.call operation = some (answered, after)) :
    Books (sinceReset (calls ++ [answered])) after := by
  rw [sinceReset, List.foldl_append, ← sinceReset]
  cases operation with
  | emit chunk =>
    obtain ⟨⟨reference, after'⟩, minted, same⟩ := Option.map_eq_some_iff.1 called
    cases same
    exact h.emit minted
  | takePending =>
    cases called
    exact h.takePending
  | assign reference name =>
    cases assigned : e.assign reference name with
    | ok after' =>
      simp only [Emitter.call, assigned] at called
      cases called
      exact h.assign assigned
    | error x =>
      simp only [Emitter.call, assigned] at called
      cases called
      refine h.keep rfl rfl fun r => ?_
      rw [lastName?, List.foldl_append, ← lastName?]
      rfl
  | fileName reference =>
    cases called
    refine h.keep rfl rfl fun r => ?_
    rw [lastName?, List.foldl_append, ← lastName?]
    rfl
  | reset =>
    cases called
    exact books_empty

/-- A call that fails changes nothing. -/
theorem eq_of_failed (called : e.call operation = some (answered, after))
    (failed : answered.failed = true) : after = e := by
  cases operation with
  | emit chunk =>
    obtain ⟨_, _, same⟩ := Option.map_eq_some_iff.1 called
    cases same
    cases failed
  | takePending =>
    cases called
    cases failed
  | assign reference name =>
    cases assigned : e.assign reference name with
    | ok after' =>
      simp only [Emitter.call, assigned] at called
      cases called
      cases failed
    | error x =>
      simp only [Emitter.call, assigned] at called
      cases called
      rfl
  | fileName reference =>
    cases called
    rfl
  | reset =>
    cases called
    cases failed

/-! ## What follows from the books -/

theorem isReferenceChar_digitChar : ∀ n < 36, isReferenceChar (Digest.digitChar n) = true := by
  decide

/-- A minted reference has eight small letters and digits. -/
theorem shape_mint (chunk : EmittedChunk) (seed : UInt64) :
    (mint chunk seed).length = 8 ∧ ∀ c ∈ (mint chunk seed).toList, isReferenceChar c = true := by
  constructor
  · rw [mint, String.length_ofList, List.length_map, Digest.length_digits]
    rfl
  · intro c mem
    rw [mint, String.toList_ofList] at mem
    obtain ⟨n, digit, rfl⟩ := List.mem_map.1 mem
    exact isReferenceChar_digitChar n (Digest.lt_of_mem_digits (by decide) digit)

theorem fileName_eq (e : Emitter) (reference : String) :
    e.fileName reference =
      match (e.find? reference).bind Emission.fileName with
      | some name => .ok name
      | none => if e.isTaken reference then .error (.of (.fileNameNotGenerated reference))
        else .error (.of (.unknownReference reference)) := by
  rw [fileName, isTaken]
  cases e.find? reference with
  | none => rfl
  | some m => cases named : m.fileName <;> simp [named]

theorem Books.accounts (h : Books calls e) : Accounts calls e := by
  have references : (emitted calls).map Prod.fst = e.emissions.map Emission.reference := by
    rw [← h.emissions, map_fst_handout]
  have free : ∀ reference ∉ e.emissions.map Emission.reference,
      e.isTaken reference = false ∧ e.find? reference = none := by
    intro reference new
    have untaken : e.isTaken reference = false :=
      Bool.eq_false_iff.2 fun taken => new (isTaken_iff.1 taken)
    exact ⟨untaken, Option.isNone_iff_eq_none.1 (Option.isSome_eq_false_iff.1 untaken)⟩
  refine ⟨?_, ?_, ?_, ?_, ?_, ?_⟩
  · rw [references]
    exact h.distinct
  · rw [references]
    intro reference mem
    obtain ⟨m, emitted, rfl⟩ := List.mem_map.1 mem
    obtain ⟨seed, same⟩ := h.minted m emitted
    exact same ▸ shape_mint m.chunk seed
  · rw [h.taken, ← List.map_append, ← h.emissions]
    exact congrArg (List.map handout) e.take_append_pending
  · rw [references]
    intro reference name last
    rw [← h.names] at last
    refine ⟨?_, by rw [fileName_eq, last]⟩
    by_contra new
    rw [(free reference new).2] at last
    cases last
  · rw [references]
    intro reference mem last
    refine ⟨_, ?_, rfl, rfl⟩
    rw [fileName_eq, h.names, last]
    simp only [isTaken_iff.2 mem, ↓reduceIte]
  · rw [references]
    intro reference new
    refine ⟨_, ?_, rfl, rfl⟩
    rw [fileName_eq, (free reference new).2]
    simp [(free reference new).1]

/-! ## Sequences of calls -/

theorem callAll_append {more : List Operation}
    (called : e.callAll operations = some (calls, after)) :
    e.callAll (operations ++ more) =
      (after.callAll more).map fun (others, last) => (calls ++ others, last) := by
  induction operations generalizing e calls with
  | nil =>
    cases called
    simp
  | cons first rest ih =>
    rw [callAll] at called
    rw [List.cons_append, callAll]
    split at called
    · cases called
    · rename_i answered next here
      obtain ⟨⟨others, last⟩, ran, same⟩ := Option.map_eq_some_iff.1 called
      cases same
      simp only [ih ran, Option.map_map, Function.comp_def, List.cons_append]

theorem size_assign {reference name : String} (assigned : e.assign reference name = .ok after) :
    after.size = e.size := by
  rw [size, (of_assign assigned).2, List.length_map]
  rfl

/-- An operation is answered if there are references enough for what is held after it. -/
theorem exists_call (operation : Operation) (room : heldAfter e.size operation ≤ capacity) :
    ∃ answered after, e.call operation = some (answered, after) ∧
      answered.operation = operation ∧ after.size = heldAfter e.size operation := by
  cases operation with
  | emit chunk =>
    obtain ⟨reference, after, minted⟩ := exists_emit (Nat.lt_of_succ_le room) chunk
    refine ⟨.emit chunk reference, after, by rw [Emitter.call, minted]; rfl, rfl, ?_⟩
    rw [size, (emissions_of_emit minted).1, List.length_append]
    rfl
  | takePending => exact ⟨_, _, rfl, rfl, rfl⟩
  | assign reference name =>
    cases assigned : e.assign reference name with
    | ok after =>
      refine ⟨.assign reference name (.ok ()), after, ?_, rfl, size_assign assigned⟩
      rw [Emitter.call, assigned]
    | error x =>
      refine ⟨.assign reference name (.error x), e, ?_, rfl, rfl⟩
      rw [Emitter.call, assigned]
  | fileName reference => exact ⟨_, _, rfl, rfl, rfl⟩
  | reset => exact ⟨_, _, rfl, rfl, rfl⟩

/-- A sequence that the references are enough for is answered call by call, and the books are right
at its end. -/
theorem books_of_callAll (room : ∀ before, before <+: operations → held before ≤ capacity) :
    ∃ calls e, callAll .empty operations = some (calls, e) ∧
      calls.map Call.operation = operations ∧ Books (sinceReset calls) e ∧
      e.size = held operations := by
  induction operations using List.reverseRecOn with
  | nil => exact ⟨[], .empty, rfl, rfl, books_empty, rfl⟩
  | append_singleton before operation ih =>
    obtain ⟨calls, e, called, asked, books, size⟩ :=
      ih fun shorter start => room shorter (start.trans (List.prefix_append _ _))
    have one_more : held (before ++ [operation]) = heldAfter e.size operation := by
      rw [held, List.foldl_append, ← held, size]
      rfl
    obtain ⟨answered, after, here, same, size'⟩ :=
      exists_call operation (one_more ▸ room _ (List.prefix_refl _))
    refine ⟨calls ++ [answered], after, ?_, ?_, books.call here, size'.trans one_more.symm⟩
    · rw [callAll_append called, callAll, here]
      rfl
    · rw [List.map_append, asked, List.map_singleton, same]

/-- **An emitter keeps its accounts over any sequence of calls.** Where it never holds more chunks
than there are references, every operation is answered; the calls since the last reset tell which
references are known, what is pending and what each text is answered; and a call that fails changes
nothing. -/
theorem accounts_of_callAll
    (room : ∀ before, before <+: operations → held before ≤ 36 ^ 8) :
    ∃ calls e, callAll .empty operations = some (calls, e) ∧
      calls.map Call.operation = operations ∧ Accounts (sinceReset calls) e ∧
      ∀ operation answered after, e.call operation = some (answered, after) →
        answered.failed = true → after = e := by
  obtain ⟨calls, e, called, asked, books, _⟩ := books_of_callAll room
  exact ⟨calls, e, called, asked, books.accounts, fun _ _ _ => eq_of_failed⟩

/-! ## A short sequence -/

/-- Two chunks, of which one is handed out and one is named, between resets. -/
def taskOperations : List Operation :=
  [.emit ⟨"./old.js", none, none⟩, .reset, .emit ⟨"./task.js", some "/a.js", none⟩, .takePending,
    .emit ⟨"./task.js", some "/a.js", some "task"⟩, .assign "unknown" "task.js",
    .assign "bx9tbpve" "task.js"]

theorem held_le_length (operations : List Operation) : held operations ≤ operations.length := by
  induction operations using List.reverseRecOn with
  | nil => exact Nat.le_refl 0
  | append_singleton before operation ih =>
    rw [held, List.foldl_append, ← held, List.length_append]
    cases operation with
    | emit _ => exact Nat.succ_le_succ ih
    | reset => exact Nat.zero_le _
    | _ => exact Nat.le_succ_of_le ih

/-- The first chunk is named, and the second one is pending. -/
theorem accounts_taskOperations : ∃ calls e, callAll .empty taskOperations = some (calls, e) ∧
    Accounts (sinceReset calls) e := by
  have room : ∀ before, before <+: taskOperations → held before ≤ 36 ^ 8 := fun before start =>
    calc held before
      _ ≤ before.length := held_le_length before
      _ ≤ taskOperations.length := start.length_le
      _ ≤ 36 ^ 8 := by decide
  obtain ⟨calls, e, called, _, accounts, _⟩ := accounts_of_callAll room
  exact ⟨calls, e, called, accounts⟩

end WorkerBundler.Emitter
