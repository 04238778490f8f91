import WorkerBundler.Emitter

/-!
# Hooks

What a plugin does when it is asked something is a hook: a program that emits chunks, reads the file
names, reads and writes the notes that the plugins of a build share, and ends with an answer or an
error. A hook reaches the emitter by these requests only. `run` carries a hook out in a session;
what it emitted before an error stays emitted.
-/

namespace WorkerBundler

/-- A program of a plugin with notes of type `σ` that answers an `α`. -/
inductive Hook (σ α : Type) where
  | answer (result : Except BuildError α)
  | emit (chunk : EmittedChunk) (next : String → Hook σ α)
  | readNames (next : (String → Except BuildError String) → Hook σ α)
  | readNotes (next : σ → Hook σ α)
  | writeNotes (notes : σ) (next : Hook σ α)

/-- The state that the hooks of a build work on. -/
structure Session (σ : Type) where
  emitter : Emitter
  notes : σ

namespace Hook

variable {σ α β : Type}

/-- Goes on with the answer of a hook; an error ends both. -/
def bind : Hook σ α → (α → Hook σ β) → Hook σ β
  | .answer (.ok a), f => f a
  | .answer (.error e), _ => .answer (.error e)
  | .emit chunk next, f => .emit chunk fun reference => (next reference).bind f
  | .readNames next, f => .readNames fun fileName => (next fileName).bind f
  | .readNotes next, f => .readNotes fun notes => (next notes).bind f
  | .writeNotes notes next, f => .writeNotes notes (next.bind f)

instance : Monad (Hook σ) where
  pure a := .answer (.ok a)
  bind := bind

/-- The hook that fails. -/
def fail (e : BuildError) : Hook σ α := .answer (.error e)

/-- The hook that answers what has been computed. -/
def ofExcept (result : Except BuildError α) : Hook σ α := .answer result

/-- Emits a chunk and answers its reference. -/
def emitChunk (chunk : EmittedChunk) : Hook σ String :=
  .emit chunk fun reference => .answer (.ok reference)

/-- Answers what the file names of the emitted chunks are, or why there is none. -/
def fileNames : Hook σ (String → Except BuildError String) :=
  .readNames fun fileName => .answer (.ok fileName)

/-- Answers the notes. -/
def notes : Hook σ σ :=
  .readNotes fun notes => .answer (.ok notes)

/-- Replaces the notes. -/
def setNotes (notes : σ) : Hook σ Unit :=
  .writeNotes notes (.answer (.ok ()))

/-- Carries a hook out in a session. -/
def run : Hook σ α → Session σ → Except BuildError α × Session σ
  | .answer result, s => (result, s)
  | .emit chunk next, s =>
    match s.emitter.emit chunk with
    | none => (.error (.fatal .referencesExhausted), s)
    | some (reference, emitter) => (next reference).run { s with emitter := emitter }
  | .readNames next, s => (next s.emitter.fileName).run s
  | .readNotes next, s => (next s.notes).run s
  | .writeNotes notes next, s => next.run { s with notes := notes }

/-- Carries out hooks one after the other, also after one has failed. -/
def runEach : List (Hook σ α) → Session σ → List (Except BuildError α) × Session σ
  | [], s => ([], s)
  | h :: rest, s =>
    let (result, s) := h.run s
    let (results, s) := runEach rest s
    (result :: results, s)

theorem run_bind (h : Hook σ α) (f : α → Hook σ β) (s : Session σ) :
    (h.bind f).run s =
      match h.run s with
      | (.ok a, s) => (f a).run s
      | (.error e, s) => (.error e, s) := by
  induction h generalizing s with
  | answer result => cases result <;> rfl
  | emit chunk next ih =>
    simp only [bind, run]
    split
    · rfl
    · exact ih _ _
  | readNames next ih => simp only [bind, run]; exact ih _ s
  | readNotes next ih => simp only [bind, run]; exact ih _ s
  | writeNotes notes next ih => simp only [bind, run]; exact ih _

theorem run_bind_ok {h : Hook σ α} {s s' : Session σ} {a : α} (answered : h.run s = (.ok a, s'))
    (f : α → Hook σ β) : (h.bind f).run s = (f a).run s' := by
  rw [run_bind, answered]

theorem run_bind_error {h : Hook σ α} {s s' : Session σ} {e : BuildError}
    (failed : h.run s = (.error e, s')) (f : α → Hook σ β) :
    (h.bind f).run s = (.error e, s') := by
  rw [run_bind, failed]

end Hook

end WorkerBundler
