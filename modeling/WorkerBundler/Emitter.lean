import WorkerBundler.BuildError
import WorkerBundler.Digest

/-!
# Emitted chunks

While modules are loaded, chunks are emitted before their file names are known. Each emission gets a
reference of eight characters, and the file name is looked up by it later. `emit` mints the
reference from the chunk and a seed and tries the next seed where the reference is taken;
`takePending` hands out the emissions since the last call; `assign` and `fileName` set and get
names.

The emissions are kept in order, so the pending ones are those after the first `drained`. A
reference is given out once (`emissions_of_emit`).
-/

namespace WorkerBundler

/-- A module to be bundled as a chunk of its own. -/
structure EmittedChunk where
  /-- The request for the module, not yet resolved. -/
  id : String
  importer : Option String
  name : Option String
  deriving DecidableEq, Repr

/-- An emitted chunk with its reference and, once it is known, its file name. -/
structure Emission where
  reference : String
  chunk : EmittedChunk
  fileName : Option String
  deriving DecidableEq, Repr

/-- The emissions of a build in order. The first `drained` ones have been handed out. -/
structure Emitter where
  emissions : List Emission
  drained : Nat
  seed : UInt64
  deriving DecidableEq, Repr

namespace Emitter

/-- The emitter at the start of a build. -/
def empty : Emitter := ⟨[], 0, 0⟩

/-- The number of characters of a reference. -/
def referenceLength : Nat := 8

/-- The reference of a chunk under a seed: the lowest digits, in base 36, of their digest. -/
def mint (chunk : EmittedChunk) (seed : UInt64) : String :=
  let d := ((Digest.empty.addText chunk.id).addText? chunk.importer).add seed
  String.ofList ((Digest.digits 36 referenceLength d.word.toNat).map Digest.digitChar)

/-- The number of emitted chunks. -/
def size (e : Emitter) : Nat := e.emissions.length

/-- Whether nothing has been emitted. -/
def isEmpty (e : Emitter) : Bool := e.emissions.isEmpty

/-- The emission with the reference. -/
def find? (e : Emitter) (reference : String) : Option Emission :=
  e.emissions.find? (·.reference = reference)

/-- Whether the reference has been given out. -/
def isTaken (e : Emitter) (reference : String) : Bool :=
  (e.find? reference).isSome

/-- The first reference from a seed on that is not taken, and the seed after it. -/
def freshFrom (taken : String → Bool) (chunk : EmittedChunk) :
    (fuel : Nat) → UInt64 → Option (String × UInt64)
  | 0, _ => none
  | fuel + 1, seed =>
    let reference := mint chunk seed
    if taken reference then freshFrom taken chunk fuel (seed + 1)
    else some (reference, seed + 1)

/-- Emits a chunk. Every seed is tried, so there is no answer only if no seed gives a reference that
is free. -/
def emit (e : Emitter) (chunk : EmittedChunk) : Option (String × Emitter) :=
  (freshFrom e.isTaken chunk UInt64.size e.seed).map fun (reference, seed) =>
    (reference, { e with emissions := e.emissions ++ [⟨reference, chunk, none⟩], seed := seed })

/-- The emissions that have not been handed out. -/
def pending (e : Emitter) : List Emission :=
  e.emissions.drop e.drained

/-- Hands out the pending emissions. -/
def takePending (e : Emitter) : List Emission × Emitter :=
  (e.pending, { e with drained := e.emissions.length })

/-- Gives an emitted chunk its file name. -/
def assign (e : Emitter) (reference fileName : String) : Except BuildError Emitter :=
  if e.isTaken reference then
    .ok { e with
      emissions := e.emissions.map fun m =>
        if m.reference = reference then { m with fileName := some fileName } else m }
  else .error (.of (.unknownReference reference))

/-- The file name of an emitted chunk. -/
def fileName (e : Emitter) (reference : String) : Except BuildError String :=
  match e.find? reference with
  | none => .error (.of (.unknownReference reference))
  | some m =>
    match m.fileName with
    | none => .error (.of (.fileNameNotGenerated reference))
    | some name => .ok name

theorem not_taken_of_freshFrom {taken : String → Bool} {chunk : EmittedChunk} {fuel : Nat}
    {seed next : UInt64} {reference : String}
    (h : freshFrom taken chunk fuel seed = some (reference, next)) : taken reference = false := by
  induction fuel generalizing seed with
  | zero => simp [freshFrom] at h
  | succ fuel ih =>
    rw [freshFrom] at h
    split at h
    · exact ih h
    · rename_i free
      obtain ⟨rfl, _⟩ := Prod.mk.inj (Option.some.inj h)
      exact Bool.eq_false_iff.2 free

theorem minted_of_freshFrom {taken : String → Bool} {chunk : EmittedChunk} {fuel : Nat}
    {seed next : UInt64} {reference : String}
    (h : freshFrom taken chunk fuel seed = some (reference, next)) :
    ∃ seed, reference = mint chunk seed := by
  induction fuel generalizing seed with
  | zero => simp [freshFrom] at h
  | succ fuel ih =>
    rw [freshFrom] at h
    split at h
    · exact ih h
    · obtain ⟨rfl, _⟩ := Prod.mk.inj (Option.some.inj h)
      exact ⟨seed, rfl⟩

/-- Emitting adds one emission at the end, under a reference that was free. -/
theorem emissions_of_emit {e after : Emitter} {chunk : EmittedChunk} {reference : String}
    (h : e.emit chunk = some (reference, after)) :
    after.emissions = e.emissions ++ [⟨reference, chunk, none⟩] ∧
      e.isTaken reference = false := by
  obtain ⟨⟨fresh, seed⟩, found, same⟩ := Option.map_eq_some_iff.1 h
  obtain ⟨rfl, rfl⟩ := Prod.mk.inj same
  exact ⟨rfl, not_taken_of_freshFrom found⟩

theorem minted_of_emit {e after : Emitter} {chunk : EmittedChunk} {reference : String}
    (h : e.emit chunk = some (reference, after)) : ∃ seed, reference = mint chunk seed := by
  obtain ⟨⟨fresh, seed⟩, found, same⟩ := Option.map_eq_some_iff.1 h
  obtain ⟨rfl, _⟩ := Prod.mk.inj same
  exact minted_of_freshFrom found

/-- After the pending emissions were handed out, none is pending. -/
theorem pending_takePending (e : Emitter) : e.takePending.2.pending = [] := by
  simp [takePending, pending]

end Emitter

end WorkerBundler
