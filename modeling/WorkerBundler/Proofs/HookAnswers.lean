import WorkerBundler.Loading
import WorkerBundler.Proofs.Keyed

/-!
# The answers of a hook

`Hook.MayAnswer given` lists the answers that a hook can come to when each chunk it emits gets the
reference of an emission of that chunk in `given`. Names, notes and the order of turns are left
open, so the answers are those of every run and of every interleaving: `Hook.Continues` says that
no request of a hook adds to them, and `Continues.tick` is the step. The answers of a composed hook
are composed of answers (`MayAnswer.of_bind`).

`Hook.Silent` says that a hook emits no chunk. Of the emitter a request changes nothing, or it emits
one chunk (`Hook.grows_of_tick`).
-/

namespace WorkerBundler

/-- The emitter has stayed as it was, or a chunk has been emitted. -/
def Emitter.Grows (e after : Emitter) : Prop :=
  after = e ∨ ∃ chunk reference, e.emit chunk = some (reference, after)

theorem Emitter.Grows.subset {e after : Emitter} (grows : e.Grows after) :
    e.emissions ⊆ after.emissions := by
  rcases grows with rfl | ⟨chunk, reference, minted⟩
  · exact List.Subset.refl _
  · rw [(Emitter.emissions_of_emit minted).1]
    exact List.subset_append_left _ _

namespace Hook

variable {σ α β κ : Type} {given : List Emission}

/-- The hook can end with the answer if the references it is given are those of `given`. -/
inductive MayAnswer (given : List Emission) : Hook σ α → α → Prop
  | answer {a : α} : MayAnswer given (.answer (.ok a)) a
  | emit {chunk : EmittedChunk} {reference : String} {next : String → Hook σ α} {a : α} :
    ⟨reference, chunk, none⟩ ∈ given → MayAnswer given (next reference) a →
    MayAnswer given (.emit chunk next) a
  | readNames {next : (String → Except BuildError String) → Hook σ α} {a : α}
    (fileName : String → Except BuildError String) :
    MayAnswer given (next fileName) a → MayAnswer given (.readNames next) a
  | readNotes {next : σ → Hook σ α} {a : α} (notes : σ) :
    MayAnswer given (next notes) a → MayAnswer given (.readNotes next) a
  | writeNotes {notes : σ} {next : Hook σ α} {a : α} :
    MayAnswer given next a → MayAnswer given (.writeNotes notes next) a

/-- The hook emits no chunk. -/
def Silent : Hook σ α → Prop
  | .answer _ => True
  | .emit _ _ => False
  | .readNames next => ∀ fileName, (next fileName).Silent
  | .readNotes next => ∀ notes, (next notes).Silent
  | .writeNotes _ next => next.Silent

/-! ## Composed hooks -/

theorem mayAnswer_answer {result : Except BuildError α} {a : α} :
    (answer result : Hook σ α).MayAnswer given a ↔ result = .ok a := by
  constructor
  · intro h
    cases h
    rfl
  · rintro rfl
    exact .answer

theorem MayAnswer.of_bind {h : Hook σ α} {f : α → Hook σ β} {b : β}
    (answers : (h.bind f).MayAnswer given b) :
    ∃ a, h.MayAnswer given a ∧ (f a).MayAnswer given b := by
  induction h with
  | answer result =>
    cases result with
    | ok a => exact ⟨a, .answer, answers⟩
    | error e => cases answers
  | emit chunk next ih =>
    cases answers with
    | emit mem rest =>
      obtain ⟨a, first, second⟩ := ih _ rest
      exact ⟨a, .emit mem first, second⟩
  | readNames next ih =>
    cases answers with
    | readNames fileName rest =>
      obtain ⟨a, first, second⟩ := ih _ rest
      exact ⟨a, .readNames fileName first, second⟩
  | readNotes next ih =>
    cases answers with
    | readNotes notes rest =>
      obtain ⟨a, first, second⟩ := ih _ rest
      exact ⟨a, .readNotes notes first, second⟩
  | writeNotes notes next ih =>
    cases answers with
    | writeNotes rest =>
      obtain ⟨a, first, second⟩ := ih rest
      exact ⟨a, .writeNotes first, second⟩

theorem Silent.bind {h : Hook σ α} {f : α → Hook σ β} (first : h.Silent)
    (second : ∀ a, (f a).Silent) : (h.bind f).Silent := by
  induction h with
  | answer result =>
    cases result with
    | ok a => exact second a
    | error e => trivial
  | emit chunk next ih => exact first.elim
  | readNames next ih => exact fun fileName => ih fileName (first fileName)
  | readNotes next ih => exact fun notes => ih notes (first notes)
  | writeNotes notes next ih => exact ih first

/-! ## What a request leaves -/

/-- A request leaves the emitter alone or emits one chunk. -/
theorem grows_of_tick {h h' : Hook σ α} {s s' : Session σ} (step : h.tick s = some (h', s')) :
    s.emitter.Grows s'.emitter := by
  cases h with
  | answer result => cases step
  | emit chunk next =>
    rw [Hook.tick] at step
    split at step
    · cases step
      exact Or.inl rfl
    · rename_i reference emitter minted
      cases step
      exact Or.inr ⟨chunk, reference, minted⟩
  | readNames next => cases step; exact Or.inl rfl
  | readNotes next => cases step; exact Or.inl rfl
  | writeNotes notes next => cases step; exact Or.inl rfl

/-- A silent hook stays silent and leaves the emitter alone. -/
theorem Silent.tick {h h' : Hook σ α} {s s' : Session σ} (silent : h.Silent)
    (step : h.tick s = some (h', s')) : h'.Silent ∧ s'.emitter = s.emitter := by
  cases h with
  | answer result => cases step
  | emit chunk next => exact silent.elim
  | readNames next => cases step; exact ⟨silent _, rfl⟩
  | readNotes next => cases step; exact ⟨silent _, rfl⟩
  | writeNotes notes next => cases step; exact ⟨silent, rfl⟩

/-- A request adds no answer. -/
theorem MayAnswer.of_tick {h h' : Hook σ α} {s s' : Session σ} {a : α}
    (step : h.tick s = some (h', s')) (known : s'.emitter.emissions ⊆ given)
    (answers : h'.MayAnswer given a) : h.MayAnswer given a := by
  cases h with
  | answer result => cases step
  | emit chunk next =>
    rw [Hook.tick] at step
    split at step
    · cases step
      cases answers
    · rename_i reference emitter minted
      cases step
      refine .emit (known ?_) answers
      rw [(Emitter.emissions_of_emit minted).1]
      exact List.mem_append_right _ List.mem_cons_self
  | readNames next => cases step; exact .readNames _ answers
  | readNotes next => cases step; exact .readNotes _ answers
  | writeNotes notes next => cases step; exact .writeNotes answers

/-- All that the second hook can answer, the first one can, now and after further emissions. -/
def Continues (given : List Emission) (start h : Hook σ α) : Prop :=
  ∀ (more : List Emission) (a : α), given ⊆ more → h.MayAnswer more a → start.MayAnswer more a

theorem Continues.refl (h : Hook σ α) : Continues given h h :=
  fun _ _ _ answers => answers

theorem Continues.mono {start h : Hook σ α} {more : List Emission} (known : given ⊆ more)
    (continues : Continues given start h) : Continues more start h :=
  fun _ _ further answers => continues _ _ (List.Subset.trans known further) answers

theorem Continues.tick {start h h' : Hook σ α} {s s' : Session σ}
    (continues : Continues s.emitter.emissions start h) (step : h.tick s = some (h', s')) :
    Continues s'.emitter.emissions start h' :=
  fun _ _ known answers =>
    continues _ _ (List.Subset.trans (grows_of_tick step).subset known)
      (answers.of_tick step known)

theorem Continues.mayAnswer {start : Hook σ α} {a : α}
    (continues : Continues given start (.answer (.ok a))) : start.MayAnswer given a :=
  continues _ _ (List.Subset.refl _) .answer

/-- Several hooks that take turns keep to their answers. -/
theorem continues_of_tickOne (start : κ → Hook σ α) {jobs jobs' : List (κ × Hook σ α)}
    {s s' : Session σ}
    (continues : ∀ job ∈ jobs, Continues s.emitter.emissions (start job.1) job.2)
    (step : TickOne jobs s jobs' s') :
    jobs'.map Prod.fst = jobs.map Prod.fst ∧
      (∀ job ∈ jobs', Continues s'.emitter.emissions (start job.1) job.2) ∧
      s.emitter.emissions ⊆ s'.emitter.emissions := by
  cases step with
  | tick ticks =>
    have grows := (grows_of_tick ticks).subset
    refine ⟨by simp, ?_, grows⟩
    intro job mem
    rcases eq_or_mem_of_mem_replaced mem with rfl | old
    · exact (continues _ (List.mem_append_right _ List.mem_cons_self)).tick ticks
    · exact (continues job old).mono grows

end Hook

namespace Loader

variable {σ : Type} {env : Environment σ} {given : List Emission}

/-- An entry or an emitted chunk is what its request resolves to, and lies inside the bundle. -/
theorem mayAnswer_of_resolveEntry {specifier : String} {importer : Option String} {id : ModuleId}
    (answers : (resolveEntry env specifier importer).MayAnswer given id) :
    id.isExternal = false ∧
      (Resolver.resolve env ⟨specifier, importer⟩).MayAnswer given (some id) := by
  obtain ⟨resolved, first, second⟩ := answers.of_bind
  cases resolved with
  | none => cases importer <;> cases second
  | some found =>
    cases external : found.isExternal with
    | true =>
      simp only [external, ↓reduceIte] at second
      cases second
    | false =>
      simp only [external, Bool.false_eq_true, ↓reduceIte] at second
      cases second
      exact ⟨external, first⟩

/-- An import is what its request resolves to. -/
theorem mayAnswer_of_resolveImport {specifier importer : String} {id : ModuleId}
    (answers : (resolveImport env importer specifier).MayAnswer given id) :
    (Resolver.resolve env ⟨specifier, some importer⟩).MayAnswer given (some id) := by
  obtain ⟨resolved, first, second⟩ := answers.of_bind
  cases resolved with
  | none => cases second
  | some found =>
    cases second
    exact first

/-- Resolving an entry emits nothing if resolving its request does not. -/
theorem resolveEntry_silent {specifier : String} {importer : Option String}
    (silent : (Resolver.resolve env ⟨specifier, importer⟩).Silent) :
    (resolveEntry env specifier importer).Silent := by
  apply Hook.Silent.bind silent
  intro resolved
  cases resolved with
  | none => cases importer <;> trivial
  | some id => cases external : id.isExternal <;> simp [external, Hook.fail, pure, Hook.Silent]

end Loader

end WorkerBundler
