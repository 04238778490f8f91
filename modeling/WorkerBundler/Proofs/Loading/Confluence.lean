import Mathlib.Data.List.Flatten
import WorkerBundler.Proofs.Loading.Termination

/-!
# The order of completion does not matter

In an environment that follows a behaviour, whether a load succeeds and what it loads does not
depend on the order in which hooks take turns and results arrive (`same_outcome`). Each direction
goes through the behaviour: a load that succeeds has loaded what the behaviour needs
(`describes_of_loads`), so that all of it can be loaded (`loadable_of_loads`); and where all of it
can be loaded, no order of steps comes to an error (`not_failing_of_reach`).

References run out in neither order or in both: the emissions of a load that succeeds are those of
all needed modules, whatever their order, and a reference is refused only when none is left.
-/

namespace WorkerBundler

variable {σ : Type} {env : Environment σ} {b : Behaviour} {input : List InputItem} {notes : σ}

/-! ## What is loaded -/

/-- The graph has just what the input needs. -/
structure Behaviour.Describes (b : Behaviour) (input : List InputItem) (g : Graph) : Prop where
  entries : List.Forall₂ (fun item e => e.name = item.name ∧
    b.entry item.specifier none = some e.module) input g.entries
  nodup : (g.modules.map Module.id).Nodup
  mem_iff : ∀ id, id ∈ g.modules.map Module.id ↔ b.Needs input id
  imports : ∀ m ∈ g.modules, b.Imports m.id.id (m.imports.map ImportRecord.target)
  emittedEntries : (g.emittedEntries.map fun e => some e.module).Perm
    ((g.modules.map Module.id).flatMap fun id => b.emits id.id)

/-- All that the input needs can be loaded, and there are references enough for it. -/
structure Behaviour.Loadable (b : Behaviour) (input : List InputItem) : Prop where
  input_ne_nil : input ≠ []
  entries : ∀ item ∈ input, b.entry item.specifier none ≠ none
  imports : ∀ id, b.Needs input id → ∃ targets, b.Imports id.id targets
  emits : ∀ id, b.Needs input id → none ∉ b.emits id.id
  references : ∃ ids : List ModuleId, (∀ id, b.Needs input id → id ∈ ids) ∧
    (ids.flatMap fun id => b.emits id.id).length ≤ Emitter.capacity

/-- The graphs have the same entries, the same modules with the same dependencies, and emitted
entries for the same modules. -/
structure Graph.Agrees (g g' : Graph) : Prop where
  entries : g.entries = g'.entries
  modules : ∀ id, id ∈ g.modules.map Module.id ↔ id ∈ g'.modules.map Module.id
  dependencies : ∀ m ∈ g.modules, ∀ m' ∈ g'.modules, m.id = m'.id → m.dependencies = m'.dependencies
  emittedEntries : (g.emittedEntries.map EmittedEntry.module).Perm
    (g'.emittedEntries.map EmittedEntry.module)

/-- Two graphs that a behaviour describes agree. -/
theorem Behaviour.Describes.agrees {g g' : Graph} (h : b.Describes input g)
    (h' : b.Describes input g') : g.Agrees g' := by
  have modules : ∀ id, id ∈ g.modules.map Module.id ↔ id ∈ g'.modules.map Module.id :=
    fun id => (h.mem_iff id).trans (h'.mem_iff id).symm
  refine ⟨?_, modules, ?_, ?_⟩
  · have one : Relator.RightUnique fun (item : InputItem) (e : UserEntry) =>
        e.name = item.name ∧ b.entry item.specifier none = some e.module := by
      rintro item ⟨_, _⟩ ⟨_, _⟩ ⟨rfl, found⟩ ⟨rfl, found'⟩
      cases Option.some.inj (found.symm.trans found')
      rfl
    exact one.forall₂ h.entries h'.entries
  · intro m mem m' mem' same
    have targets := (h.imports m mem).unique (same ▸ h'.imports m' mem')
    rw [Module.dependencies, Module.dependencies, targets]
  · have ids : (g.modules.map Module.id).Perm (g'.modules.map Module.id) :=
      (List.perm_ext_iff_of_nodup h.nodup h'.nodup).2 modules
    have perm := (h.emittedEntries.trans (ids.flatMap_right _)).trans h'.emittedEntries.symm
    simpa [List.filterMap_map, Function.comp_def, List.filterMap_some] using perm.filterMap id

/-! ## Loads that succeed -/

namespace Loading

variable {l l' : Loading σ}

theorem Balanced.nothing_left {owed : List (List (Option ModuleId))}
    {lost : List (Option ModuleId)} (balanced : l.Balanced b owed lost) (working : l.working = [])
    (errors : l.loader.errors = []) : owed = [] ∧ lost = [] := by
  constructor
  · have nothing := balanced.working
    rw [working] at nothing
    cases nothing
    rfl
  · by_contra some_lost
    rcases balanced.failing some_lost with failed | ⟨p, mem, _⟩
    · exact failed errors
    · rw [working] at mem
      cases mem

end Loading

theorem Hook.Yields.silent {α β γ : Type} {look : EmittedChunk → β}
    {view : Except BuildError α → γ} {outcome : γ} {h : Hook σ α}
    (yields : h.Yields look view [] outcome) : h.Silent := by
  induction h with
  | answer result => trivial
  | emit chunk next ih =>
    obtain ⟨rest, nothing, _⟩ := yields
    exact absurd nothing (List.not_perm_nil_cons _ _)
  | readNames next ih => exact fun fileName => ih fileName (yields fileName)
  | readNotes next ih => exact fun notes => ih notes (yields notes)
  | writeNotes notes next ih => exact ih yields

variable {l l' : Loading σ}

/-- A load that succeeds conforms. -/
theorem conforms_of_loads (follows : env.Follows b)
    (loads : LoadsTo env input ⟨.empty, notes⟩ l) : l.Conforms b input := by
  rcases Loading.conforms_of_reach follows loads.reach with ⟨jobs, entering⟩ | ⟨_, conforms⟩
  · have phase := congrArg Loading.phase entering.blank
    rw [loads.done.waiting] at phase
    cases phase
  · exact conforms

/-- What a load that succeeds has emitted is what the loaded modules emit. -/
theorem denoted_of_loads (follows : env.Follows b)
    (loads : LoadsTo env input ⟨.empty, notes⟩ l) :
    (l.denoted b).Perm ((l.graph.modules.map Module.id).flatMap fun id => b.emits id.id) := by
  obtain ⟨owed, lost, balanced⟩ := (conforms_of_loads follows loads).balanced
  obtain ⟨rfl, rfl⟩ := balanced.nothing_left loads.done.working loads.errors
  have perm := balanced.perm
  rw [List.flatten_nil, List.append_nil, List.append_nil] at perm
  exact perm.trans ((begun_of_loads loads).2.flatMap_right _)

theorem imports_of_loads (follows : env.Follows b)
    (loads : LoadsTo env input ⟨.empty, notes⟩ l) {m : Module} (mem : m ∈ l.graph.modules) :
    b.Imports m.id.id (m.imports.map ImportRecord.target) := by
  have minted := (Loading.orderly_of_reach loads.reach).unnamed.minted
  have origin := (comesFrom_of_loads loads).modules m mem
  refine ⟨_, ((follows.code m.id.id).of_mayAnswer minted origin.code).symm, ?_⟩
  show List.Forall₂ _ ((ImportScan.imports m.code).map Import.specifier) _
  rw [← origin.sites, List.map_map, List.forall₂_map_left_iff, List.forall₂_map_right_iff,
    List.forall₂_same]
  intro r listed
  exact ((follows.resolveImport m.id.id r.site.specifier).of_mayAnswer minted
    (origin.targets r listed)).symm

/-- **A load that succeeds has loaded what the behaviour says.** -/
theorem describes_of_loads (follows : env.Follows b)
    (loads : LoadsTo env input ⟨.empty, notes⟩ l) : b.Describes input l.graph := by
  have orderly := Loading.orderly_of_reach loads.reach
  have minted := orderly.unnamed.minted
  have origin := comesFrom_of_loads loads
  have complete := complete_of_loads loads
  have conforms := conforms_of_loads follows loads
  have entries : List.Forall₂ (fun item e => e.name = item.name ∧
      b.entry item.specifier none = some e.module) input l.graph.entries := by
    apply origin.entries.imp
    rintro item e ⟨name, answers⟩
    exact ⟨name, ((follows.resolveEntry item.specifier none).of_mayAnswer minted answers).symm⟩
  have emitted : (l.graph.emittedEntries.map fun e => some e.module).Perm
      ((l.graph.modules.map Module.id).flatMap fun id => b.emits id.id) := by
    have silent : ∀ request, (Resolver.resolve env request).Silent :=
      fun request => (follows.resolve request).silent
    have all : l.emitter.emissions = l.handedOut := by
      have split := orderly.emissions_eq
      rwa [(Loading.settled_of_silent loads silent {}).1, List.append_nil] at split
    have denoted : l.denoted b = l.graph.emittedEntries.map fun e => some e.module := by
      rw [Loading.denoted, all, ← List.forall₂_eq_eq_eq, List.forall₂_map_left_iff,
        List.forall₂_map_right_iff]
      apply origin.emittedEntries.imp
      rintro m e ⟨_, _, answers⟩
      exact ((follows.resolveEntry m.chunk.id m.chunk.importer).of_mayAnswer minted answers).symm
    exact denoted ▸ denoted_of_loads follows loads
  refine ⟨entries, complete.nodup, fun id => ⟨?_, ?_⟩, fun m => imports_of_loads follows loads,
    emitted⟩
  · intro loaded
    exact conforms.needs_of_begun ((begun_of_loads loads).2.mem_iff.2 loaded)
  · intro needs
    induction needs with
    | entry mem found =>
      obtain ⟨e, listed, _, found'⟩ := exists_of_forall₂_left entries mem
      rw [Option.some.inj (found.symm.trans found')]
      exact (complete.mem_iff _).2 (.entry listed)
    | @emitted m id _ emits ih =>
      have owed : some id ∈ (l.graph.modules.map Module.id).flatMap fun id => b.emits id.id :=
        List.mem_flatMap.2 ⟨m, ih, emits⟩
      obtain ⟨e, listed, same⟩ := List.mem_map.1 (emitted.mem_iff.2 owed)
      rw [← Option.some.inj same]
      exact (complete.mem_iff _).2 (.emittedEntry listed)
    | @dependency _ id targets _ imports mem internal ih =>
      obtain ⟨m, listed, rfl⟩ := List.mem_map.1 ih
      have same := imports.unique (imports_of_loads follows loads listed)
      have dependency : id ∈ m.dependencies :=
        List.mem_filter.2 ⟨same ▸ mem, by simpa using internal⟩
      exact (complete.mem_iff _).2 (.dependency listed ((complete.mem_iff _).1 ih) dependency)

/-- What a load has loaded can be loaded. -/
theorem loadable_of_loads (follows : env.Follows b)
    (loads : LoadsTo env input ⟨.empty, notes⟩ l) : b.Loadable input := by
  have describes := describes_of_loads follows loads
  have unnamed := (Loading.orderly_of_reach loads.reach).unnamed
  refine ⟨loads.input_ne_nil, ?_, ?_, ?_, ?_⟩
  · intro item mem
    obtain ⟨e, _, _, found⟩ := exists_of_forall₂_left describes.entries mem
    rw [found]
    nofun
  · intro id needs
    obtain ⟨m, listed, rfl⟩ := List.mem_map.1 ((describes.mem_iff id).2 needs)
    exact ⟨_, describes.imports m listed⟩
  · intro id needs unresolved
    have owed : none ∈ (l.graph.modules.map Module.id).flatMap fun id => b.emits id.id :=
      List.mem_flatMap.2 ⟨id, (describes.mem_iff id).2 needs, unresolved⟩
    obtain ⟨e, _, same⟩ := List.mem_map.1 (describes.emittedEntries.mem_iff.2 owed)
    cases same
  · refine ⟨_, fun id needs => (describes.mem_iff id).2 needs, ?_⟩
    rw [← (denoted_of_loads follows loads).length_eq, Loading.denoted, List.length_map]
    exact Emitter.length_le_capacity unnamed.distinct unnamed.minted

/-! ## Loads that cannot fail -/

namespace Behaviour

theorem Loadable.specifiers (loadable : b.Loadable input) {id : ModuleId}
    (needs : b.Needs input id) : b.specifiers id.id ≠ none := by
  obtain ⟨_, specifiers, read, _⟩ := loadable.imports id needs
  rw [read]
  nofun

theorem Loadable.target (loadable : b.Loadable input) {id : ModuleId} (needs : b.Needs input id)
    {specifiers : List String} (read : b.specifiers id.id = some specifiers) {s : String}
    (mem : s ∈ specifiers) : b.target ⟨s, some id.id⟩ ≠ none := by
  obtain ⟨targets, specifiers', read', each⟩ := loadable.imports id needs
  obtain rfl : specifiers = specifiers' := Option.some.inj (read.symm.trans read')
  obtain ⟨target, _, found⟩ := exists_of_forall₂_left each mem
  rw [found]
  nofun

/-- Work that keeps to the behaviour has not failed if the module can be loaded. -/
theorem Loadable.not_unread (loadable : b.Loadable input) {id : ModuleId}
    (needs : b.Needs input id) {w : Work σ} {rest : List (Option ModuleId)}
    (owes : b.Owes id.id w rest) : ¬ Loading.Unread w := by
  rintro ⟨e, rfl⟩
  cases owes with
  | coding yields => exact loadable.specifiers needs yields.2.symm

theorem Loadable.not_error (loadable : b.Loadable input) {task : Task}
    (needs : b.Needs input task.id) {w : Work σ} {rest : List (Option ModuleId)}
    (owes : b.Owes task.id.id w rest) {e : BuildError} : ¬ w.Ends task (.error e) := by
  intro ends
  cases ends with
  | unread => exact loadable.not_unread needs owes ⟨e, rfl⟩
  | unresolved mem =>
    cases owes with
    | resolving read yields =>
      exact loadable.target needs read (List.mem_map_of_mem mem) (yields _ mem).2.symm

/-- There is a reference for each chunk that the work under way owes. -/
theorem Loadable.room (loadable : b.Loadable input) (conforms : l.Conforms b input)
    {owed : List (List (Option ModuleId))} {lost rest : List (Option ModuleId)}
    (balanced : l.Balanced b owed lost) (mem : rest ∈ owed) (owing : rest ≠ []) :
    l.emitter.size < Emitter.capacity := by
  obtain ⟨ids, all, enough⟩ := loadable.references
  have nodup : l.begun.Nodup :=
    (conforms.lists.perm.nodup_iff.1 conforms.lists.nodup).of_append_right
  obtain ⟨part, same, below⟩ :=
    List.subperm_of_subset nodup fun id mem => all id (conforms.needs_of_begun mem)
  have total : (l.begun.flatMap fun id => b.emits id.id).length ≤
      (ids.flatMap fun id => b.emits id.id).length := by
    rw [← (same.flatMap_right fun id => b.emits id.id).length_eq]
    exact (below.flatMap _).length_le
  have some_owed : 0 < owed.flatten.length := by
    rw [List.length_pos_iff]
    intro nothing
    exact owing (List.flatten_eq_nil_iff.1 nothing rest mem)
  have count := balanced.perm.length_eq
  rw [List.length_append, List.length_append, Loading.denoted, List.length_map] at count
  show l.emitter.emissions.length < Emitter.capacity
  omega

end Behaviour

namespace Loading

theorem Unread.of_replaced {before after : List (Task × Work σ)} {task : Task} {w w' : Work σ}
    (working : l.working = before ++ (task, w) :: after)
    (unread : ∃ p ∈ before ++ (task, w') :: after, Unread p.2) : Unread w' ∨ l.Failing := by
  obtain ⟨p, mem, failed⟩ := unread
  rcases eq_or_mem_of_mem_replaced mem with rfl | old
  · exact Or.inl failed
  · exact Or.inr (Or.inr ⟨p, working ▸ old, failed⟩)

/-- A step of a load that can succeed and has not failed does not fail. -/
theorem not_failing_of_step (follows : env.Follows b) (loadable : b.Loadable input)
    (isOpen : l.IsOpen) (conforms : l.Conforms b input) (sound : ¬ l.Failing)
    (step : Step env l l') : ¬ l'.Failing := by
  have needs {task : Task} {w : Work σ} (mem : (task, w) ∈ l.working) : b.Needs input task.id :=
    conforms.needs_of_begun (conforms.working _ mem)
  obtain ⟨owed, lost, balanced⟩ := conforms.balanced
  cases step with
  | resolveEntry phase _ => exact absurd phase (isOpen _)
  | opened phase _ => exact absurd phase (isOpen _)
  | take _ => exact sound
  | @begin before after task queue =>
    rintro (errors | ⟨p, mem, unread⟩)
    · exact sound (Or.inl errors)
    · rcases List.mem_append.1 mem with old | new
      · exact sound (Or.inr ⟨p, old, unread⟩)
      · rw [List.mem_singleton.1 new] at unread
        have waiting : task.id ∈ l.loader.queue.map Task.id :=
          List.mem_map_of_mem (queue ▸ List.mem_append_right _ List.mem_cons_self)
        have needs := conforms.lists.each _
          (conforms.lists.perm.mem_iff.2 (List.mem_append_left _ waiting))
        exact loadable.not_unread needs (.coding (follows.code task.id.id)) unread
  | @work before after task w w' s working steps =>
    have worked : (task, w) ∈ l.working := working ▸ List.mem_append_right _ List.mem_cons_self
    obtain ⟨rest, listed, owes⟩ :=
      balanced.exists_owes worked fun unread => unread.not_step steps
    have read : ¬ Unread w' := by
      cases owes.step follows steps with
      | quiet _ still => exact loadable.not_unread (needs worked) still
      | emits _ _ still => exact loadable.not_unread (needs worked) still
      | refused full _ owing _ =>
        exact absurd (loadable.room conforms balanced listed owing) (Nat.not_lt.2 full)
    rintro (errors | unread)
    · exact sound (Or.inl errors)
    · exact (Unread.of_replaced working unread).elim read sound
  | @arrive before after task w result phase working ends =>
    have worked : (task, w) ∈ l.working := working ▸ List.mem_append_right _ List.mem_cons_self
    obtain ⟨rest, _, owes⟩ :=
      balanced.exists_owes worked fun unread => sound (Or.inr ⟨_, worked, unread⟩)
    rintro (errors | ⟨p, mem, unread⟩)
    · cases result with
      | error e => exact loadable.not_error (needs worked) owes ends
      | ok m => exact sound (Or.inl ((Loader.enqueueAll_errors l.loader m.dependencies) ▸ errors))
    · exact sound (Or.inr ⟨p, working ▸ mem_of_mem_removed mem, unread⟩)
  | drain drains =>
    cases drains with
    | tick _ _ => exact sound
    | @takeIn m result rest phase =>
      rintro (errors | working)
      · cases result with
        | error e =>
          have emitted : m ∈ l.emitter.emissions := by
            have taken := conforms.toTakeIn
            rw [phase] at taken
            exact taken List.mem_cons_self
          have unresolved : b.look m.chunk = none := (conforms.draining _ _ _ phase).2.symm
          have listed : none ∈ l.denoted b := unresolved ▸ List.mem_map_of_mem emitted
          have begun := balanced.perm.subset
            (List.mem_append_left _ (List.mem_append_left _ listed))
          obtain ⟨id, mem, emits⟩ := List.mem_flatMap.1 begun
          exact loadable.emits id (conforms.needs_of_begun mem) emits
        | ok id =>
          rw [Loader.addResolved, Loader.addEmitted, Loader.enqueue_errors] at errors
          exact sound (Or.inl errors)
      · exact sound (Or.inr working)

/-- **Where all can be loaded, no order of steps comes to an error.** -/
theorem not_failing_of_reach (follows : env.Follows b) (loadable : b.Loadable input)
    (h : Reach env (start env input ⟨.empty, notes⟩) l) : ¬ l.Failing := by
  have blank : ∀ {s : Session σ} {phase : Phase σ},
      ¬ Failing ⟨.start s, phase, [], [], []⟩ := by
    rintro s phase (errors | ⟨p, mem, _⟩)
    · exact errors rfl
    · cases mem
  induction h with
  | refl => exact blank
  | @tail l l' reach step ih =>
    rcases conforms_of_reach follows reach with ⟨jobs, entering⟩ | ⟨isOpen, conforms⟩
    · rw [entering.blank] at step
      rcases step_of_blank step with ⟨jobs', s, _, rfl⟩ | ⟨results, entries, _, _, rfl⟩
      · exact blank
      · rintro (errors | ⟨p, mem, _⟩)
        · exact errors (Loader.withEntries_errors _ entries)
        · cases mem
    · exact not_failing_of_step follows loadable isOpen conforms ih step

end Loading

theorem Loader.error_of_addEntries {l : Loader σ}
    {results : List (InputItem × Except BuildError ModuleId)} {e : BuildError}
    (h : l.addEntries results = .error e) : ∃ r ∈ results, r.2 = .error e := by
  induction results generalizing l with
  | nil => cases h
  | cons r results ih =>
    obtain ⟨item, result⟩ := r
    cases result with
    | error e' =>
      cases h
      exact ⟨_, List.mem_cons_self, rfl⟩
    | ok id =>
      obtain ⟨r, mem, failed⟩ := ih h
      exact ⟨r, List.mem_cons_of_mem _ mem, failed⟩

/-- Where all can be loaded, every load that has come to its end has succeeded. -/
theorem loads_of_loadable (follows : env.Follows b) (loadable : b.Loadable input)
    (h : Loading.Reach env (.start env input ⟨.empty, notes⟩) l) (stopped : l.Stopped) :
    LoadsTo env input ⟨.empty, notes⟩ l := by
  have sound := Loading.not_failing_of_reach follows loadable h
  rcases stopped with done | ⟨results, e, phase, failed⟩
  · refine ⟨loadable.input_ne_nil, h, done, ?_⟩
    by_contra errors
    exact sound (Or.inl errors)
  · exfalso
    rcases Loading.conforms_of_reach follows h with ⟨jobs, entering⟩ | ⟨isOpen, _⟩
    · obtain rfl : jobs = results.map fun r => (r.1, .answer r.2) := by
        have same := congrArg Loading.phase entering.blank
        rw [phase] at same
        exact (Phase.opening.inj same).symm
      obtain ⟨r, mem, error⟩ := Loader.error_of_addEntries failed
      obtain ⟨item, listed, unresolved⟩ := exists_of_forall₂_right entering.entries mem
      rw [error] at unresolved
      exact loadable.entries item listed unresolved.symm
    · exact isOpen _ phase

/-! ## Two orders -/

/-- **The order of completion does not matter.** Of two loads of an input that have come to their
end, both succeed or neither does, and if they do, their graphs agree; and where one order of steps
succeeds, none goes on for ever. -/
theorem same_outcome (follows : env.Follows b) {l₁ l₂ : Loading σ}
    (reach₁ : Loading.Reach env (.start env input ⟨.empty, notes⟩) l₁)
    (reach₂ : Loading.Reach env (.start env input ⟨.empty, notes⟩) l₂)
    (stopped₁ : l₁.Stopped) (stopped₂ : l₂.Stopped) :
    (LoadsTo env input ⟨.empty, notes⟩ l₁ ↔ LoadsTo env input ⟨.empty, notes⟩ l₂) ∧
      (LoadsTo env input ⟨.empty, notes⟩ l₁ → l₁.graph.Agrees l₂.graph ∧
        ¬ Loading.Endless env (.start env input ⟨.empty, notes⟩)) := by
  have both : LoadsTo env input ⟨.empty, notes⟩ l₁ ↔ LoadsTo env input ⟨.empty, notes⟩ l₂ := by
    constructor
    · intro loads
      exact loads_of_loadable follows (loadable_of_loads follows loads) reach₂ stopped₂
    · intro loads
      exact loads_of_loadable follows (loadable_of_loads follows loads) reach₁ stopped₁
  refine ⟨both, fun loads => ?_⟩
  have describes := describes_of_loads follows loads
  exact ⟨describes.agrees (describes_of_loads follows (both.1 loads)),
    Loading.not_endless follows fun id needs => (describes.mem_iff id).2 needs⟩

/-! ## Two orders of one load -/

/-- A plugin whose modules `left` and `right` import `shared` and emit `worker` twice, the second
time under a name that holds the first reference. -/
def twinPlugin : Plugin Unit where
  name := "twin"
  resolveId request := pure (some ⟨request.specifier, false⟩)
  load id :=
    if id = "left" ∨ id = "right" then do
      let reference ← Hook.emitChunk ⟨"worker", some id, none⟩
      let _ ← Hook.emitChunk ⟨"worker", some id, some reference⟩
      return some "import 'shared';"
    else pure (some "")

def twinEnvironment : Environment Unit where
  disk := ⟨[], []⟩
  cwd := "/"
  plugins := [twinPlugin]
  externalTest _ _ _ := .ok false

def twinInput : List InputItem := [⟨"left", "left"⟩, ⟨"right", "right"⟩]

def twinBehaviour : Behaviour where
  target request := some ⟨request.specifier, false⟩
  emits id :=
    if id = "left" ∨ id = "right" then [some ⟨"worker", false⟩, some ⟨"worker", false⟩] else []
  specifiers id := some (if id = "left" ∨ id = "right" then ["shared"] else [])

theorem follows_twinBehaviour : twinEnvironment.Follows twinBehaviour where
  resolve request := ⟨rfl, rfl⟩
  code id := by
    have shared : (ImportScan.imports "import 'shared';").map Import.specifier = ["shared"] := by
      decide
    have nothing : (ImportScan.imports "").map Import.specifier = [] := by decide
    by_cases emitting : id = "left" ∨ id = "right"
    · simp only [twinBehaviour, emitting, ↓reduceIte]
      have code : Loader.transformedCode twinEnvironment id =
          .emit ⟨"worker", some id, none⟩ fun reference =>
            .emit ⟨"worker", some id, some reference⟩ fun _ =>
              .answer (.ok "import 'shared';") := by
        simp [Loader.transformedCode, Loader.readCode, twinEnvironment, Plugin.firstAnswer,
          twinPlugin, emitting, Plugin.transformAll, bind, pure, Hook.bind, Hook.emitChunk]
      rw [code]
      exact ⟨_, .refl _, fun _ => ⟨_, .refl _, fun _ => ⟨rfl, congrArg some shared⟩⟩⟩
    · simp only [twinBehaviour, emitting, ↓reduceIte]
      have code : Loader.transformedCode twinEnvironment id = .answer (.ok "") := by
        simp [Loader.transformedCode, Loader.readCode, twinEnvironment, Plugin.firstAnswer,
          twinPlugin, emitting, Plugin.transformAll, bind, pure, Hook.bind]
      rw [code]
      exact ⟨rfl, congrArg some nothing⟩

/-- The ids of the modules in a loader without errors. -/
def Loader.loadedIds (l : Loader σ) : Option (List String) :=
  if l.errors.isEmpty then some (l.graph.modules.map (·.id.id)) else none

/-- The module `left` or the module `right` is loaded first. -/
theorem orders_twins :
    ((Loader.opened twinEnvironment twinInput ⟨.empty, ()⟩).1.toOption.bind fun l =>
      (Loader.run twinEnvironment 4 l).bind fun first =>
        (Loader.run twinEnvironment 3
          (Loader.step twinEnvironment { l with queue := l.queue.reverse })).map fun second =>
            (l.queue, first.loadedIds, second.loadedIds)) =
      some ([⟨⟨"left", false⟩, true⟩, ⟨⟨"right", false⟩, true⟩],
        some ["left", "right", "shared", "worker"],
        some ["right", "left", "shared", "worker"]) := by
  decide

theorem Loader.of_loadedIds {l : Loader σ} {ids : List String} (h : l.loadedIds = some ids) :
    l.errors = [] ∧ l.graph.modules.map (·.id.id) = ids := by
  unfold loadedIds at h
  split at h
  · rename_i none_left
    exact ⟨List.isEmpty_iff.1 none_left, Option.some.inj h⟩
  · cases h

/-- Both orders load the twins, their graphs agree, and no order goes on for ever. -/
theorem same_outcome_twins : ∃ l₁ l₂ : Loading Unit,
    LoadsTo twinEnvironment twinInput ⟨.empty, ()⟩ l₁ ∧
      LoadsTo twinEnvironment twinInput ⟨.empty, ()⟩ l₂ ∧
      l₁.graph.modules.map (·.id.id) = ["left", "right", "shared", "worker"] ∧
      l₂.graph.modules.map (·.id.id) = ["right", "left", "shared", "worker"] ∧
      l₁.graph.Agrees l₂.graph ∧
      ¬ Loading.Endless twinEnvironment (.start twinEnvironment twinInput ⟨.empty, ()⟩) := by
  obtain ⟨l, opened, runs⟩ := Option.bind_eq_some_iff.1 orders_twins
  obtain ⟨first, ran, runs⟩ := Option.bind_eq_some_iff.1 runs
  obtain ⟨second, ran', found⟩ := Option.map_eq_some_iff.1 runs
  obtain ⟨queue, found⟩ := Prod.mk.inj found
  obtain ⟨ids, ids'⟩ := Prod.mk.inj found
  obtain ⟨errors, ids⟩ := Loader.of_loadedIds ids
  obtain ⟨errors', ids'⟩ := Loader.of_loadedIds ids'
  have opened_eq : Loader.opened twinEnvironment twinInput ⟨.empty, ()⟩ = (.ok l, _) :=
    Prod.ext (eq_ok_of_toOption opened) rfl
  obtain ⟨handedOut, start⟩ := Loading.reach_opened opened_eq
  obtain ⟨empty, _, _, others⟩ := Loading.reach_run ran [] handedOut
  have queue_eq : l.queue = [⟨⟨"left", false⟩, true⟩] ++ ⟨⟨"right", false⟩, true⟩ :: [] := queue
  obtain ⟨handedOut', picks⟩ := Loading.reach_pick twinEnvironment queue_eq [] handedOut
  rw [queue] at ran'
  obtain ⟨empty', _, _, others'⟩ := Loading.reach_run ran' [⟨"right", false⟩] handedOut'
  have reach := start.trans others
  have reach' := (start.trans picks).trans others'
  have stopped {l : Loader Unit} {begun : List ModuleId} {handedOut : List Emission}
      (empty : l.queue = []) : Loading.Done ⟨l, .waiting, [], begun, handedOut⟩ :=
    ⟨rfl, empty, rfl⟩
  obtain ⟨both, agrees⟩ := same_outcome follows_twinBehaviour reach reach'
    (.inl (stopped empty)) (.inl (stopped empty'))
  have loads := LoadsTo.mk (by decide) reach (stopped empty) errors
  exact ⟨_, _, loads, both.1 loads, ids, ids', agrees loads⟩

end WorkerBundler
