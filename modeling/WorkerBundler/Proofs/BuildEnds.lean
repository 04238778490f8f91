import WorkerBundler.Building
import WorkerBundler.Proofs.Builds
import WorkerBundler.Proofs.Finishing

/-!
# How builds end

The modules of a build may be loaded in any order while plugins finish the chunks one after the
other: `Bundler.EndsInTurn`. `Bundler.build` ends so (`endsInTurn_of_build`), and a build that ends
so is one of the builds under way, whatever strays stand beside it (`EndsInTurn.mayEnd`).

Strays come from builds that are given up or that refuse an entry behind others, and from no others
(`strays_of_reach`).
-/

namespace WorkerBundler

variable {σ : Type} {env : Environment σ} {input : List InputItem} {session : Session σ}

/-! ## Loads that fail -/

/-- Some order of steps brings the load to `l`, where it fails with the error: no entry is given,
one of them is refused, or the error is the first of those that the loader ends with. -/
inductive FailsTo (env : Environment σ) (input : List InputItem) (session : Session σ) :
    Loading σ → BuildError → Prop
  | noInput : input = [] →
    FailsTo env input session (.start env input session) (.fatal .noInput)
  | refused {l : Loading σ} {results : List (InputItem × Except BuildError ModuleId)}
    {e : BuildError} : input ≠ [] →
    Loading.Reach env (.start env input session) l →
    l.phase = .opening (results.map fun r => (r.1, .answer r.2)) →
    l.loader.addEntries results = .error e → FailsTo env input session l e
  | failed {l : Loading σ} {e : BuildError} {later : List BuildError} : input ≠ [] →
    Loading.Reach env (.start env input session) l → l.Done → l.loader.errors = e :: later →
    FailsTo env input session l e

theorem fails_of_opened {after : Session σ} {e : BuildError}
    (h : Loader.opened env input session = (.error e, after)) :
    ∃ l, FailsTo env input session l e ∧ l.loader.session = after := by
  unfold Loader.opened at h
  split at h
  · rename_i empty
    cases h
    exact ⟨_, .noInput empty, rfl⟩
  · rename_i some
    rcases ran : Hook.runEach
      (input.map fun item => Loader.resolveEntry env item.specifier none) session with
      ⟨resolved, s⟩
    rw [ran] at h
    simp only at h
    split at h
    · rename_i refused
      cases h
      exact ⟨_, .refused some (Loading.reach_resolved ran) rfl refused, rfl⟩
    · cases h

/-- Loading one module after the other fails as some load does. -/
theorem fails_of_fetch {limit : Nat} {after : Session σ} {e : BuildError}
    (h : Loader.fetch env limit input session = some (.error e, after)) :
    ∃ l, FailsTo env input session l e ∧ l.loader.session = after := by
  unfold Loader.fetch at h
  split at h
  · rename_i opened
    cases h
    exact fails_of_opened opened
  · rename_i l _ opened
    obtain ⟨l', ran, ends⟩ := Option.map_eq_some_iff.1 h
    obtain ⟨outcome, rfl⟩ := Prod.mk.inj ends
    have some : input ≠ [] := by
      rintro rfl
      simp [Loader.opened] at opened
    obtain ⟨handedOut, first⟩ := Loading.reach_opened opened
    obtain ⟨empty, begun, _, others⟩ := Loading.reach_run ran [] handedOut
    unfold Loader.outcome at outcome
    split at outcome
    · cases outcome
    · rename_i errors
      cases outcome
      exact ⟨_, .failed some (first.trans others) ⟨rfl, empty, rfl⟩ errors, rfl⟩

/-! ## Stages in a row -/

theorem Strays.not_step_none {left : Strays σ} {s s' : Session σ} :
    ¬ Strays.Step env .none s left s' := by
  intro step
  generalize nothing : (Strays.none : Strays σ) = strays at step
  cases step with
  | begin => simpa [Strays.none] using congrArg Strays.queue nothing
  | work _ => simpa [Strays.none] using congrArg Strays.working nothing
  | ends _ => simpa [Strays.none] using congrArg Strays.working nothing

namespace Building

variable {options : InputOptions σ} {disk : Disk} {o : OutputOptions} {strays : Strays σ}

/-- A load goes on beside strays that stand still. -/
theorem reach_loading {l l' : Loading σ}
    (h : Loading.Reach (options.environment disk) l l') :
    Reach options disk o ⟨.loading l, strays⟩ ⟨.loading l', strays⟩ :=
  Relation.ReflTransGen.lift (fun l => (⟨.loading l, strays⟩ : Building σ))
    (fun _ _ step => .stage (.load step)) _ _ h

/-- The file names of emitted chunks are known to the emitter one after the other. -/
theorem reach_naming {g : Graph} {names : FileNames} {entries : List EmittedEntry} {s : Session σ}
    {emitter : Emitter} (h : Chunk.assignNames names entries s.emitter = .ok emitter) :
    Reach options disk o ⟨.naming g names entries s, strays⟩
      ⟨.naming g names [] { s with emitter := emitter }, strays⟩ := by
  induction entries generalizing s with
  | nil =>
    cases h
    exact .refl
  | cons entry rest ih =>
    obtain ⟨given, first, others⟩ := Chunk.exists_assignNames_first h
    exact (ih (s := { s with emitter := given }) others).head (.stage (.assigned first))

theorem reach_finishing {changes changes' : Changes σ} {r r' : Plugin.Rendering σ}
    (h : ChangeMany o.sourceMap (changes, r) (changes', r')) :
    Reach options disk o ⟨.finishing changes r, strays⟩ ⟨.finishing changes' r', strays⟩ :=
  reach_place (r := ChangeOne o.sourceMap)
    (fun changes r => (⟨.finishing changes r, strays⟩ : Building σ))
    (fun step => .stage (.change step)) h

/-- What a loaded graph is bundled as, chunk by chunk, a build may end with. -/
theorem reach_ofGraph {l : Loading σ}
    (loads : LoadsTo (options.environment disk) options.input session l)
    {result : Except BuildError (List Asset)} {r : Plugin.Rendering σ}
    (bundled :
      Bundle.ofGraph options.plugins options.cwd o l.graph l.loader.session = (result, r)) :
    Reach options disk o ⟨.loading l, strays⟩ ⟨.ended ⟨result, r.warnings⟩ r.session, strays⟩ := by
  obtain ⟨names, emitter, recorded⟩ := Loading.exists_recorded loads o
  have assigned : Chunk.assignNames names l.graph.emittedEntries l.loader.session.emitter =
      .ok emitter := recorded.assigned
  have named : Reach options disk o ⟨.loading l, strays⟩ _ :=
    (reach_naming assigned).head (.stage (.named loads.done loads.errors recorded.named))
  unfold Bundle.ofGraph at bundled
  simp only [recorded.named, assigned] at bundled
  split at bundled
  · rename_i unrendered
    cases bundled
    exact named.tail (.stage (.unrendered unrendered))
  · rename_i rendered rendering
    obtain ⟨changes, finishes, ends⟩ := reach_finishChunks options.plugins names o.sourceMap
      rendered ⟨{ l.loader.session with emitter := emitter }, []⟩ []
    rw [bundled] at finishes ends
    have ends : ChangesEnd o.sourceMap changes result := by
      cases result with
      | error e => exact ends
      | ok assets => exact ends
    exact ((named.tail (.stage (.rendered rendering))).trans (reach_finishing finishes)).tail
      (.stage (.finished ends))

end Building

namespace Bundler

variable {b after : Bundler σ} {disk : Disk} {o : OutputOptions} {strays : Strays σ}

/-! ## Chunks in turn -/

/-- A build of the bundler ends with the report and leaves the session if the modules arrive in some
order and the plugins finish the chunks one after the other. -/
inductive EndsInTurn (b : Bundler σ) (disk : Disk) (o : OutputOptions) :
    Report → Session σ → Prop
  | failed {l : Loading σ} {e : BuildError} :
    FailsTo (b.options.environment disk) b.options.input ⟨.empty, b.session.notes⟩ l e →
    EndsInTurn b disk o ⟨.error e, []⟩ l.loader.session
  | bundled {l : Loading σ} {result : Except BuildError (List Asset)} {r : Plugin.Rendering σ} :
    LoadsTo (b.options.environment disk) b.options.input ⟨.empty, b.session.notes⟩ l →
    Bundle.ofGraph b.options.plugins b.options.cwd o l.graph l.loader.session = (result, r) →
    EndsInTurn b disk o ⟨result, r.warnings⟩ r.session

/-- A build without a pause ends so. -/
theorem endsInTurn_of_build {limit : Nat} {report : Report}
    (h : b.build disk limit o = some (report, after)) :
    b.EndsInTurn disk o report after.session := by
  unfold build at h
  dsimp only at h
  split at h
  · cases h
  · rename_i e s fetched
    cases h
    obtain ⟨l, fails, rfl⟩ := fails_of_fetch fetched
    exact .failed fails
  · rename_i g s fetched
    obtain ⟨l, loads, rfl, rfl⟩ := loads_of_fetch fetched
    cases h
    exact .bundled loads rfl

theorem begin_of_ne_nil (some : b.options.input ≠ []) : b.begin disk strays =
    ⟨.loading (.start (b.options.environment disk) b.options.input ⟨.empty, b.session.notes⟩),
      strays⟩ := by
  rw [begin, Stage.start, if_neg some]

/-- A build loads its input as any load does. -/
theorem reach_begin {l : Loading σ} (some : b.options.input ≠ [])
    (reach : Loading.Reach (b.options.environment disk)
      (.start (b.options.environment disk) b.options.input ⟨.empty, b.session.notes⟩) l) :
    Building.Reach b.options disk o (b.begin disk strays) ⟨.loading l, strays⟩ := by
  rw [begin_of_ne_nil some]
  exact Building.reach_loading reach

/-- **A build that ends with its chunks in turn is a build under way**, whatever strays there are.
-/
theorem EndsInTurn.mayEnd {report : Report} (h : b.EndsInTurn disk o report session)
    (strays : Strays σ) : ∃ left, b.MayEnd disk o strays report session left := by
  cases h with
  | failed fails =>
    cases fails with
    | noInput empty =>
      refine ⟨strays, ?_⟩
      rw [MayEnd, begin, Stage.start, if_pos empty]
      exact .refl
    | refused some reach phase refused =>
      exact ⟨_, (reach_begin some reach).tail (.refused phase refused)⟩
    | failed some reach done errors =>
      exact ⟨strays, (reach_begin some reach).tail (.stage (.failed done errors))⟩
  | bundled loads bundled =>
    exact ⟨strays, (reach_begin loads.input_ne_nil loads.reach).trans
      (Building.reach_ofGraph loads bundled)⟩

/-! ## Where strays come from -/

/-- A build of the bundler may refuse an entry with the error when it has taken in others before. -/
def MayRefuse (b : Bundler σ) (disk : Disk) (e : BuildError) : Prop :=
  ∃ (l : Loading σ) (results : List (InputItem × Except BuildError ModuleId)),
    b.options.input ≠ [] ∧ Loading.Reach (b.options.environment disk)
      (.start (b.options.environment disk) b.options.input ⟨.empty, b.session.notes⟩) l ∧
    l.phase = .opening (results.map fun r => (r.1, .answer r.2)) ∧
    l.loader.addEntries results = .error e ∧ (l.loader.accept results).queue ≠ []

/-- A build that may do so may leave strays. -/
theorem MayRefuse.exists_mayEnd {e : BuildError} (h : b.MayRefuse disk e) :
    ∃ session left, b.MayEnd disk o .none ⟨.error e, []⟩ session left ∧ left ≠ .none := by
  obtain ⟨l, results, some, reach, phase, refused, queued⟩ := h
  refine ⟨_, _, (reach_begin some reach).tail (.refused phase refused), ?_⟩
  intro nothing
  exact queued (congrArg Strays.queue nothing)

/-- A build has no strays beside it, and what it loads is loaded by its own steps. -/
structure Alone (b : Bundler σ) (disk : Disk) (x : Building σ) : Prop where
  strays : x.strays = .none
  loading : ∀ l, x.stage = .loading l → b.options.input ≠ [] ∧
    Loading.Reach (b.options.environment disk)
      (.start (b.options.environment disk) b.options.input ⟨.empty, b.session.notes⟩) l

/-- A build has ended with an entry that it refused. -/
def HasRefused (b : Bundler σ) (disk : Disk) (x : Building σ) : Prop :=
  ∃ e s, b.MayRefuse disk e ∧ x.stage = .ended ⟨.error e, []⟩ s

theorem alone_begin (b : Bundler σ) (disk : Disk) : b.Alone disk (b.begin disk .none) where
  strays := rfl
  loading := by
    intro l loading
    by_cases empty : b.options.input = []
    · rw [begin, Stage.start, if_pos empty] at loading
      cases loading
    · rw [begin_of_ne_nil empty] at loading
      cases loading
      exact ⟨empty, .refl⟩

/-- A build without strays stays so until it refuses an entry. -/
theorem Alone.step {x x' : Building σ} (alone : b.Alone disk x)
    (step : Building.Step b.options disk o x x') : b.Alone disk x' ∨ b.HasRefused disk x' := by
  obtain ⟨none, loading⟩ := alone
  cases step with
  | stage steps =>
    refine Or.inl ⟨none, ?_⟩
    rintro l ⟨⟩
    cases steps with
    | load loads =>
      obtain ⟨some, reach⟩ := loading _ rfl
      exact ⟨some, reach.tail loads⟩
  | @refused l results e strays phase refused =>
    obtain ⟨some, reach⟩ := loading _ rfl
    obtain rfl : strays = .none := none
    by_cases queued : (l.loader.accept results).queue = []
    · refine Or.inl ⟨?_, nofun⟩
      rw [queued]
      rfl
    · exact Or.inr ⟨_, _, ⟨_, _, some, reach, phase, refused, queued⟩, rfl⟩
  | stray strays =>
    cases none
    exact absurd strays Strays.not_step_none

theorem HasRefused.step {x x' : Building σ} (refused : b.HasRefused disk x)
    (step : Building.Step b.options disk o x x') : b.HasRefused disk x' := by
  obtain ⟨e, s, may, ended⟩ := refused
  cases step with
  | stage steps =>
    cases ended
    cases steps
  | refused _ _ => cases ended
  | stray _ =>
    cases ended
    exact ⟨e, _, may, rfl⟩

/-- **A build without strays beside it has none until it refuses an entry** behind others. -/
theorem strays_of_reach {x : Building σ}
    (h : Building.Reach b.options disk o (b.begin disk .none) x) :
    b.Alone disk x ∨ b.HasRefused disk x := by
  induction h with
  | refl => exact Or.inl (b.alone_begin disk)
  | tail _ step ih =>
    rcases ih with alone | refused
    · exact alone.step step
    · exact Or.inr (refused.step step)

end Bundler

end WorkerBundler
