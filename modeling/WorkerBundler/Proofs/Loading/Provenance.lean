import WorkerBundler.Proofs.Loading.Invariants

/-!
# Where the graph of a load comes from

`Graph.ComesFrom` traces a module graph back to the environment: its entries are what the entries of
the input may resolve to, its emitted entries what the emissions handed out may resolve to, in their
order, and each of its modules has code that the plugins and the disk may answer and one record for
each import in that code. `comesFrom_of_loads` shows it of the graph of every load, whatever the
order of its steps; `Explained` is the invariant behind it.
-/

namespace WorkerBundler

variable {σ : Type} {env : Environment σ} {given more : List Emission}

theorem Hook.MayAnswer.mono {α : Type} {h : Hook σ α} {a : α} (known : given ⊆ more)
    (answers : h.MayAnswer given a) : h.MayAnswer more a := by
  induction answers with
  | answer => exact .answer
  | emit mem _ ih => exact .emit (known mem) ih
  | readNames fileName _ ih => exact .readNames fileName ih
  | readNotes notes _ ih => exact .readNotes notes ih
  | writeNotes _ ih => exact .writeNotes ih

/-! ## Parts of a graph -/

/-- The entry is what the item of the input resolves to. -/
def UserEntry.ComesFrom (env : Environment σ) (given : List Emission) (item : InputItem)
    (e : UserEntry) : Prop :=
  e.name = item.name ∧ (Loader.resolveEntry env item.specifier none).MayAnswer given e.module

/-- The entry is what the emission resolves to. -/
def EmittedEntry.ComesFrom (env : Environment σ) (given : List Emission) (m : Emission)
    (e : EmittedEntry) : Prop :=
  e.reference = m.reference ∧ e.name = m.chunk.name ∧
    (Loader.resolveEntry env m.chunk.id m.chunk.importer).MayAnswer given e.module

/-- The code of the module is an answer for its id, and its records are those of the imports in
that code. -/
structure Module.ComesFrom (env : Environment σ) (given : List Emission) (m : Module) : Prop where
  code : (Loader.transformedCode env m.id.id).MayAnswer given m.code
  sites : m.imports.map ImportRecord.site = ImportScan.imports m.code
  targets : ∀ r ∈ m.imports,
    (Loader.resolveImport env m.id.id r.site.specifier).MayAnswer given r.target

structure Graph.ComesFrom (env : Environment σ) (input : List InputItem)
    (handedOut given : List Emission) (g : Graph) : Prop where
  entries : List.Forall₂ (UserEntry.ComesFrom env given) input g.entries
  emittedEntries : List.Forall₂ (EmittedEntry.ComesFrom env given) handedOut g.emittedEntries
  modules : ∀ m ∈ g.modules, m.ComesFrom env given

/-- What work under way has come to so far is explained likewise. -/
def Work.ComesFrom (env : Environment σ) (given : List Emission) (id : String) : Work σ → Prop
  | .coding h => Hook.Continues given (Loader.transformedCode env id) h
  | .resolving code jobs =>
    (Loader.transformedCode env id).MayAnswer given code ∧
      jobs.map Prod.fst = ImportScan.imports code ∧
      ∀ job ∈ jobs, Hook.Continues given (Loader.resolveImport env id job.1.specifier) job.2

theorem UserEntry.ComesFrom.mono {item : InputItem} {e : UserEntry} (known : given ⊆ more)
    (h : e.ComesFrom env given item) : e.ComesFrom env more item :=
  ⟨h.1, h.2.mono known⟩

theorem EmittedEntry.ComesFrom.mono {m : Emission} {e : EmittedEntry} (known : given ⊆ more)
    (h : e.ComesFrom env given m) : e.ComesFrom env more m :=
  ⟨h.1, h.2.1, h.2.2.mono known⟩

theorem Module.ComesFrom.mono {m : Module} (known : given ⊆ more) (h : m.ComesFrom env given) :
    m.ComesFrom env more :=
  ⟨h.code.mono known, h.sites, fun r mem => (h.targets r mem).mono known⟩

theorem Work.ComesFrom.mono {id : String} {w : Work σ} (known : given ⊆ more)
    (h : w.ComesFrom env given id) : w.ComesFrom env more id := by
  cases w with
  | coding hook => exact Hook.Continues.mono known h
  | resolving code jobs =>
    obtain ⟨answered, sites, continues⟩ := h
    exact ⟨answered.mono known, sites, fun job mem => (continues job mem).mono known⟩

theorem Work.comesFrom_begin (id : String) : (Work.begin env id).ComesFrom env given id :=
  Hook.Continues.refl _

/-- A step of the work on a module. -/
theorem Work.ComesFrom.step {id : String} {w w' : Work σ} {s s' : Session σ}
    (h : w.ComesFrom env s.emitter.emissions id) (step : Work.Step env id w s w' s') :
    w'.ComesFrom env s'.emitter.emissions id := by
  cases step with
  | coding ticks => exact Hook.Continues.tick h ticks
  | scanned =>
    refine ⟨Hook.Continues.mayAnswer h, by simp [Function.comp_def], ?_⟩
    intro job mem
    obtain ⟨site, _, rfl⟩ := List.mem_map.1 mem
    exact .refl _
  | resolving ticks =>
    obtain ⟨answered, sites, continues⟩ := h
    obtain ⟨same, still, grows⟩ := Hook.continues_of_tickOne
      (fun site : Import => Loader.resolveImport env id site.specifier) continues ticks
    exact ⟨answered.mono grows, same.trans sites, still⟩

/-- A module whose work has ended. -/
theorem Work.ComesFrom.ends {task : Task} {w : Work σ} {m : Module}
    (h : w.ComesFrom env given task.id.id) (ends : w.Ends task (.ok m)) :
    m.id = task.id ∧ m.isUserEntry = task.isUserEntry ∧ m.ComesFrom env given := by
  cases ends with
  | @loaded code records =>
    obtain ⟨answered, sites, continues⟩ := h
    refine ⟨rfl, rfl, answered, by simpa [Function.comp_def] using sites, ?_⟩
    intro r mem
    have job : (r.site, (.answer (.ok r.target) : Hook σ ModuleId)) ∈
        records.map fun r => (r.site, .answer (.ok r.target)) := List.mem_map.2 ⟨r, mem, rfl⟩
    exact (continues _ job).mayAnswer

/-! ## Loads under way -/

namespace Loading

/-- What a load has come to so far is explained by its environment. -/
structure Explained (env : Environment σ) (input : List InputItem) (given : List Emission)
    (l : Loading σ) : Prop where
  entries : List.Forall₂ (UserEntry.ComesFrom env given) input l.graph.entries
  taken : ∃ taken, l.handedOut = taken ++ l.phase.toTakeIn ∧
    List.Forall₂ (EmittedEntry.ComesFrom env given) taken l.graph.emittedEntries
  draining : ∀ m h rest, l.phase = .draining m h rest →
    Hook.Continues given (Loader.resolveEntry env m.chunk.id m.chunk.importer) h
  working : ∀ p ∈ l.working, p.2.ComesFrom env given p.1.id.id
  modules : ∀ m ∈ l.graph.modules, m.ComesFrom env given

variable {input : List InputItem} {session : Session σ} {l l' : Loading σ}

theorem Explained.mono (known : given ⊆ more) (h : Explained env input given l) :
    Explained env input more l where
  entries := h.entries.imp fun _ _ => UserEntry.ComesFrom.mono known
  taken := by
    obtain ⟨taken, handed, each⟩ := h.taken
    exact ⟨taken, handed, each.imp fun _ _ => EmittedEntry.ComesFrom.mono known⟩
  draining := fun m hook rest phase => (h.draining m hook rest phase).mono known
  working := fun p mem => (h.working p mem).mono known
  modules := fun m mem => (h.modules m mem).mono known

/-- Emissions handed out are yet to be taken in. -/
theorem toTakeIn_drain (ms : List Emission) : (Phase.drain env ms).toTakeIn = ms := by
  cases ms <;> rfl

theorem continues_of_drain {ms rest : List Emission} {m : Emission} {h : Hook σ ModuleId}
    (phase : Phase.drain env ms = .draining m h rest) :
    Hook.Continues given (Loader.resolveEntry env m.chunk.id m.chunk.importer) h := by
  cases ms with
  | nil => cases phase
  | cons _ _ =>
    cases phase
    exact .refl _

theorem Explained.takePending (idle : l.phase.toTakeIn = []) (h : Explained env input given l) :
    Explained env input given (l.takePending env) where
  entries := h.entries
  taken := by
    obtain ⟨taken, handed, each⟩ := h.taken
    rw [idle, List.append_nil] at handed
    refine ⟨taken, ?_, each⟩
    show l.handedOut ++ l.emitter.pending = taken ++ (Phase.drain env l.emitter.pending).toTakeIn
    rw [toTakeIn_drain, handed]
  draining := fun _ _ _ phase => continues_of_drain phase
  working := h.working
  modules := h.modules

/-- The loader takes in the result of a module. -/
theorem Explained.receive {before after : List (Task × Work σ)} {task : Task} {w : Work σ}
    {m : Module} (h : Explained env input given l) (idle : l.phase.toTakeIn = [])
    (working : l.working = before ++ (task, w) :: after) (ends : w.Ends task (.ok m)) :
    Explained env input given
      { l with
        loader := l.loader.receive (.ok m), working := before ++ after, phase := .taking } where
  entries := by simpa [graph, Loader.receive, Loader.addModule] using h.entries
  taken := by
    obtain ⟨taken, handed, each⟩ := h.taken
    rw [idle] at handed
    refine ⟨taken, handed, ?_⟩
    simpa [graph, Loader.receive, Loader.addModule] using each
  draining := nofun
  working := by
    intro p mem
    exact h.working p (working ▸ mem_of_mem_removed mem)
  modules := by
    intro m' mem
    rcases List.mem_append.1 mem with old | new
    · exact h.modules m' (by simpa [graph] using old)
    · rw [List.mem_singleton.1 new]
      have worked : (task, w) ∈ l.working :=
        working ▸ List.mem_append_right _ List.mem_cons_self
      exact ((h.working _ worked).ends ends).2.2

/-- The loader takes in what an emission has been resolved to. -/
theorem Explained.addResolved {m : Emission} {id : ModuleId} {rest : List Emission}
    (h : Explained env input given l) (phase : l.phase = .draining m (.answer (.ok id)) rest) :
    Explained env input given
      { l with loader := l.loader.addResolved m (.ok id), phase := .drain env rest } where
  entries := by simpa [graph, Loader.addResolved, Loader.addEmitted] using h.entries
  taken := by
    obtain ⟨taken, handed, each⟩ := h.taken
    refine ⟨taken ++ [m], ?_, ?_⟩
    · rw [phase] at handed
      show l.handedOut = taken ++ [m] ++ (Phase.drain env rest).toTakeIn
      rw [toTakeIn_drain, handed, List.append_assoc]
      rfl
    · have answers : EmittedEntry.ComesFrom env given m ⟨m.reference, m.chunk.name, id⟩ :=
        ⟨rfl, rfl, (h.draining m _ rest phase).mayAnswer⟩
      have more := List.rel_append each (.cons answers .nil)
      simpa [graph, Loader.addResolved, Loader.addEmitted] using more
  draining := fun _ _ _ phase => continues_of_drain phase
  working := h.working
  modules := by simpa [graph, Loader.addResolved, Loader.addEmitted] using h.modules

theorem Explained.step (isOpen : l.IsOpen) (step : Step env l l') (errors : l'.loader.errors = [])
    (h : Explained env input l.emitter.emissions l) :
    Explained env input l'.emitter.emissions l' := by
  have grown : Explained env input l'.emitter.emissions l := h.mono (emissions_subset_of_step step)
  cases step with
  | resolveEntry phase _ => exact absurd phase (isOpen _)
  | opened phase _ => exact absurd phase (isOpen _)
  | take phase => exact grown.takePending (by rw [phase]; rfl)
  | begin _ =>
    refine ⟨grown.entries, grown.taken, grown.draining, ?_, grown.modules⟩
    intro p mem
    rcases List.mem_append.1 mem with old | new
    · exact grown.working p old
    · rw [List.mem_singleton.1 new]
      exact Work.comesFrom_begin _
  | @work before after task w w' s working steps =>
    refine ⟨grown.entries, grown.taken, grown.draining, ?_, grown.modules⟩
    intro p mem
    rcases eq_or_mem_of_mem_replaced mem with rfl | old
    · have worked : (task, w) ∈ l.working :=
        working ▸ List.mem_append_right _ List.mem_cons_self
      exact (h.working _ worked).step steps
    · exact grown.working p (working ▸ old)
  | arrive phase working ends =>
    obtain ⟨_, m, rfl⟩ := Loader.receive_errors errors
    exact grown.receive (by rw [phase]; rfl) working ends
  | drain drains =>
    cases drains with
    | @tick m hook hook' rest s phase ticks =>
      refine ⟨grown.entries, ?_, ?_, grown.working, grown.modules⟩
      · obtain ⟨taken, handed, each⟩ := grown.taken
        rw [phase] at handed
        exact ⟨taken, handed, each⟩
      · intro m' h' rest' same
        cases same
        exact (h.draining m hook rest phase).tick ticks
    | takeIn phase =>
      obtain ⟨_, id, rfl⟩ := Loader.addResolved_errors errors
      exact grown.addResolved phase

/-- Every load without an error is explained once its entries have been taken in. -/
theorem explained_of_reach (h : Reach env (start env input session) l) (isOpen : l.IsOpen)
    (errors : l.loader.errors = []) : Explained env input l.emitter.emissions l := by
  refine invariant_of_reach (P := fun l => Explained env input l.emitter.emissions l) ?_ ?_ h
    isOpen errors
  · intro entries s resolved
    have graph : ((Loader.start s).withEntries entries).graph = ⟨entries, [], []⟩ :=
      Loader.withEntries_graph _ _
    have explained : Explained env input s.emitter.emissions (entered entries s) :=
      { entries := by
          show List.Forall₂ _ input ((Loader.start s).withEntries entries).graph.entries
          rw [graph]
          exact resolved
        taken := by
          refine ⟨[], rfl, ?_⟩
          show List.Forall₂ _ [] ((Loader.start s).withEntries entries).graph.emittedEntries
          rw [graph]
          exact .nil
        draining := nofun
        working := nofun
        modules := by
          show ∀ m ∈ ((Loader.start s).withEntries entries).graph.modules, _
          rw [graph]
          nofun }
    have same : (entered entries s).emitter.emissions = s.emitter.emissions := by
      simp [entered, emitter, Loader.start]
    rw [same]
    exact explained
  · intro l l' _ isOpen step errors explained
    exact explained.step isOpen step errors

end Loading

/-- **The graph of a load comes from its environment.** -/
theorem comesFrom_of_loads {input : List InputItem} {session : Session σ} {l : Loading σ}
    (loads : LoadsTo env input session l) :
    l.graph.ComesFrom env input l.handedOut l.emitter.emissions := by
  have waiting : l.phase = .waiting := loads.done.waiting
  have isOpen : l.IsOpen := by
    intro jobs phase
    rw [waiting] at phase
    cases phase
  have explained := Loading.explained_of_reach loads.reach isOpen loads.errors
  obtain ⟨taken, handed, each⟩ := explained.taken
  rw [waiting] at handed
  have all : l.handedOut = taken := by simpa [Phase.toTakeIn] using handed
  exact ⟨explained.entries, all ▸ each, explained.modules⟩

end WorkerBundler
