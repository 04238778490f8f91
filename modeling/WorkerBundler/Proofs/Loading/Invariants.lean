import Mathlib.Data.List.Forall2
import WorkerBundler.Proofs.HookAnswers

/-!
# Invariants of loads

A load resolves its entries first and then takes them in all at once; until then it has nothing
else (`Opening`, `start_or_open`). So a property holds of every load that is past its entries and
free of errors if it holds right after they were taken in and every step that leaves no error keeps
it (`invariant_of_reach`). Errors stay (`errors_of_step`), and the emitter loses no emission, since
a step either lets it grow or hands out what is pending (`emitter_of_step`).
-/

namespace WorkerBundler

variable {σ : Type} {env : Environment σ}

/-! ## Entries -/

namespace Loader

@[simp] theorem addEntry_errors (l : Loader σ) (name : String) (id : ModuleId) :
    (l.addEntry name id).errors = l.errors :=
  enqueue_errors _ _

@[simp] theorem addEntry_session (l : Loader σ) (name : String) (id : ModuleId) :
    (l.addEntry name id).session = l.session :=
  enqueue_session _ _

/-- Takes in entries that have been resolved. -/
def withEntries (l : Loader σ) (entries : List UserEntry) : Loader σ :=
  entries.foldl (fun l e => l.addEntry e.name e.module) l

@[simp] theorem withEntries_cons (l : Loader σ) (e : UserEntry) (entries : List UserEntry) :
    l.withEntries (e :: entries) = (l.addEntry e.name e.module).withEntries entries := rfl

@[simp] theorem withEntries_errors (l : Loader σ) (entries : List UserEntry) :
    (l.withEntries entries).errors = l.errors := by
  induction entries generalizing l with
  | nil => rfl
  | cons e entries ih => rw [withEntries_cons, ih, addEntry_errors]

@[simp] theorem withEntries_session (l : Loader σ) (entries : List UserEntry) :
    (l.withEntries entries).session = l.session := by
  induction entries generalizing l with
  | nil => rfl
  | cons e entries ih => rw [withEntries_cons, ih, addEntry_session]

/-- Taking in entries changes nothing of the graph but its entries. -/
theorem withEntries_graph (l : Loader σ) (entries : List UserEntry) :
    (l.withEntries entries).graph = { l.graph with entries := l.graph.entries ++ entries } := by
  induction entries generalizing l with
  | nil => simp [withEntries]
  | cons e entries ih => rw [withEntries_cons, ih, addEntry, enqueue_graph]; simp

/-- Entries are taken in only if all of them were resolved. -/
theorem addEntries_ok {l loader : Loader σ}
    {results : List (InputItem × Except BuildError ModuleId)}
    (h : l.addEntries results = .ok loader) :
    ∃ entries, loader = l.withEntries entries ∧
      List.Forall₂ (fun r e => e.name = r.1.name ∧ r.2 = .ok e.module) results entries := by
  induction results generalizing l with
  | nil =>
    cases h
    exact ⟨[], rfl, .nil⟩
  | cons r results ih =>
    obtain ⟨item, result⟩ := r
    cases result with
    | error e => cases h
    | ok id =>
      obtain ⟨entries, rfl, each⟩ := ih h
      exact ⟨⟨item.name, id⟩ :: entries, rfl, .cons ⟨rfl, rfl⟩ each⟩

/-! ## Errors and emissions -/

@[simp] theorem receive_session (l : Loader σ) (result : Except BuildError Module) :
    (l.receive result).session = l.session := by
  cases result with
  | error e => rfl
  | ok m => exact enqueueAll_session _ _

@[simp] theorem addResolved_session (l : Loader σ) (m : Emission)
    (result : Except BuildError ModuleId) : (l.addResolved m result).session = l.session := by
  cases result with
  | error e => rfl
  | ok id => exact enqueue_session _ _

/-- What leaves no error is the result of a module, and there was no error before. -/
theorem receive_errors {l : Loader σ} {result : Except BuildError Module}
    (h : (l.receive result).errors = []) : l.errors = [] ∧ ∃ m, result = .ok m := by
  cases result with
  | error e => simp [receive, reject] at h
  | ok m => exact ⟨(enqueueAll_errors l m.dependencies).symm.trans h, m, rfl⟩

theorem addResolved_errors {l : Loader σ} {m : Emission} {result : Except BuildError ModuleId}
    (h : (l.addResolved m result).errors = []) : l.errors = [] ∧ ∃ id, result = .ok id := by
  cases result with
  | error e => simp [addResolved, reject] at h
  | ok id =>
    rw [addResolved, addEmitted, enqueue_errors] at h
    exact ⟨h, id, rfl⟩

end Loader

theorem TickOne.grows {α κ : Type} {jobs jobs' : List (κ × Hook σ α)} {s s' : Session σ}
    (step : TickOne jobs s jobs' s') : s.emitter.Grows s'.emitter := by
  cases step with
  | tick ticks => exact Hook.grows_of_tick ticks

theorem Work.Step.grows {id : String} {w w' : Work σ} {s s' : Session σ}
    (step : Work.Step env id w s w' s') : s.emitter.Grows s'.emitter := by
  cases step with
  | coding ticks => exact Hook.grows_of_tick ticks
  | scanned => exact Or.inl rfl
  | resolving ticks => exact ticks.grows

namespace Loading

theorem DrainStep.grows {l l' : Loading σ} (step : DrainStep env l l') :
    l.emitter.Grows l'.emitter := by
  cases step with
  | tick _ ticks => exact Hook.grows_of_tick ticks
  | takeIn _ => exact Or.inl (congrArg Session.emitter (Loader.addResolved_session _ _ _))

/-- What a step may do to the emitter: it emits a chunk or leaves it alone, or else the loader takes
the pending emissions. -/
theorem emitter_of_step {l l' : Loading σ} (step : Step env l l') :
    (l'.handedOut = l.handedOut ∧ l.emitter.Grows l'.emitter) ∨
      (l'.handedOut = l.handedOut ++ l.emitter.pending ∧
        l'.emitter = l.emitter.takePending.2) := by
  cases step with
  | resolveEntry _ ticks => exact Or.inl ⟨rfl, ticks.grows⟩
  | @opened results loader _ added =>
    obtain ⟨entries, rfl, _⟩ := Loader.addEntries_ok added
    exact Or.inl ⟨rfl, Or.inl (congrArg Session.emitter (Loader.withEntries_session _ _))⟩
  | take _ => exact Or.inr ⟨rfl, rfl⟩
  | begin _ => exact Or.inl ⟨rfl, Or.inl rfl⟩
  | work _ steps => exact Or.inl ⟨rfl, steps.grows⟩
  | arrive _ _ _ =>
    exact Or.inl ⟨rfl, Or.inl (congrArg Session.emitter (Loader.receive_session _ _))⟩
  | drain drains =>
    refine Or.inl ⟨?_, drains.grows⟩
    cases drains with
    | tick _ _ => rfl
    | takeIn _ => rfl

/-- No emission is withdrawn. -/
theorem emissions_subset_of_step {l l' : Loading σ} (step : Step env l l') :
    l.emitter.emissions ⊆ l'.emitter.emissions := by
  rcases emitter_of_step step with ⟨_, grows⟩ | ⟨_, taken⟩
  · exact grows.subset
  · rw [taken]
    exact List.Subset.refl _

/-- What has been handed out was emitted. -/
theorem handedOut_subset_of_reach {input : List InputItem} {session : Session σ} {l : Loading σ}
    (h : Reach env (start env input session) l) : l.handedOut ⊆ l.emitter.emissions := by
  induction h with
  | refl => exact List.nil_subset _
  | tail _ step ih =>
    have grows := emissions_subset_of_step step
    rcases emitter_of_step step with ⟨handedOut, _⟩ | ⟨handedOut, _⟩
    · rw [handedOut]
      exact List.Subset.trans ih grows
    · rw [handedOut]
      refine List.append_subset.2 ⟨List.Subset.trans ih grows, ?_⟩
      exact List.Subset.trans (List.drop_subset _ _) grows

/-- Errors stay. -/
theorem errors_of_step {l l' : Loading σ} (step : Step env l l') (errors : l'.loader.errors = []) :
    l.loader.errors = [] := by
  cases step with
  | resolveEntry _ _ => exact errors
  | @opened results loader _ added =>
    obtain ⟨entries, rfl, _⟩ := Loader.addEntries_ok added
    exact (Loader.withEntries_errors _ _).symm.trans errors
  | take _ => exact errors
  | begin _ => exact errors
  | work _ _ => exact errors
  | arrive _ _ _ => exact (Loader.receive_errors errors).1
  | drain drains =>
    cases drains with
    | tick _ _ => exact errors
    | takeIn _ => exact (Loader.addResolved_errors errors).1

/-! ## Before and after the entries -/

/-- The entries of the load have been taken in. -/
def IsOpen (l : Loading σ) : Prop := ∀ jobs, l.phase ≠ .opening jobs

theorem drain_ne_opening (ms : List Emission) (jobs : List (InputItem × Hook σ ModuleId)) :
    Phase.drain env ms ≠ .opening jobs := by
  cases ms with
  | nil => nofun
  | cons m rest => nofun

/-- A load that resolves its entries and has done nothing else. -/
structure Opening (env : Environment σ) (input : List InputItem) (l : Loading σ)
    (jobs : List (InputItem × Hook σ ModuleId)) : Prop where
  blank : l = ⟨.start l.loader.session, .opening jobs, [], [], []⟩
  items : jobs.map Prod.fst = input
  continues : ∀ job ∈ jobs, Hook.Continues l.emitter.emissions
    (Loader.resolveEntry env job.1.specifier none) job.2

variable {input : List InputItem} {session : Session σ}

theorem opening_start : Opening env input (start env input session)
    (input.map fun item => (item, Loader.resolveEntry env item.specifier none)) where
  blank := rfl
  items := by simp [Function.comp_def]
  continues := by
    intro job mem
    obtain ⟨item, _, rfl⟩ := List.mem_map.1 mem
    exact .refl _

/-- The load after its entries have been taken in. -/
def entered (entries : List UserEntry) (s : Session σ) : Loading σ :=
  ⟨(Loader.start s).withEntries entries, .taking, [], [], []⟩

/-- Entries that have been resolved are what the items of the input may resolve to. -/
theorem Opening.resolved {l : Loading σ} {results : List (InputItem × Except BuildError ModuleId)}
    {entries : List UserEntry}
    (opening : Opening env input l (results.map fun r => (r.1, .answer r.2)))
    (each : List.Forall₂ (fun r e => e.name = r.1.name ∧ r.2 = .ok e.module) results entries) :
    List.Forall₂ (fun item e => e.name = item.name ∧
      (Loader.resolveEntry env item.specifier none).MayAnswer l.emitter.emissions e.module)
      input entries := by
  have items : results.map Prod.fst = input := by
    simpa [Function.comp_def] using opening.items
  have answers : ∀ r ∈ results, ∀ id, r.2 = .ok id →
      (Loader.resolveEntry env r.1.specifier none).MayAnswer l.emitter.emissions id := by
    intro r mem id ok
    have continues := opening.continues _ (List.mem_map.2 ⟨r, mem, rfl⟩)
    rw [ok] at continues
    exact continues.mayAnswer
  rw [← items, List.forall₂_map_left_iff]
  apply ((List.forall₂_and_left _ _).2 ⟨answers, each⟩).imp
  rintro r e ⟨answered, name, ok⟩
  exact ⟨name, answered _ ok⟩

/-- What a load can do that resolves its entries and has done nothing else. -/
theorem step_of_blank {s : Session σ} {jobs : List (InputItem × Hook σ ModuleId)} {l' : Loading σ}
    (step : Step env ⟨.start s, .opening jobs, [], [], []⟩ l') :
    (∃ jobs' s', TickOne jobs s jobs' s' ∧ l' = ⟨.start s', .opening jobs', [], [], []⟩) ∨
      ∃ (results : List (InputItem × Except BuildError ModuleId)) (entries : List UserEntry),
        jobs = results.map (fun r => (r.1, .answer r.2)) ∧
        List.Forall₂ (fun r e => e.name = r.1.name ∧ r.2 = .ok e.module) results entries ∧
        l' = entered entries s := by
  cases step with
  | @resolveEntry _ jobs' s' phase ticks =>
    cases phase
    exact Or.inl ⟨jobs', s', ticks, rfl⟩
  | @opened results loader phase added =>
    cases phase
    obtain ⟨entries, rfl, each⟩ := Loader.addEntries_ok added
    exact Or.inr ⟨results, entries, rfl, each, rfl⟩
  | take phase => cases phase
  | begin queue => simp [Loader.start] at queue
  | work working _ => simp at working
  | arrive phase _ _ => cases phase
  | drain drains =>
    cases drains with
    | tick phase _ => cases phase
    | takeIn phase => cases phase

/-- A load that resolves its entries goes on with that or takes them in. -/
theorem Opening.step {l l' : Loading σ} {jobs : List (InputItem × Hook σ ModuleId)}
    (opening : Opening env input l jobs) (step : Step env l l') :
    (∃ jobs', Opening env input l' jobs') ∨
      ∃ entries, List.Forall₂ (fun item e => e.name = item.name ∧
          (Loader.resolveEntry env item.specifier none).MayAnswer l.emitter.emissions e.module)
          input entries ∧ l' = entered entries l.loader.session := by
  rw [opening.blank] at step
  rcases step_of_blank step with ⟨jobs', s, ticks, rfl⟩ | ⟨results, entries, rfl, each, rfl⟩
  · obtain ⟨items, continues, _⟩ := Hook.continues_of_tickOne
      (fun item : InputItem => Loader.resolveEntry env item.specifier none) opening.continues ticks
    exact Or.inl ⟨jobs', rfl, items.trans opening.items, continues⟩
  · exact Or.inr ⟨entries, opening.resolved each, rfl⟩

theorem IsOpen.step {l l' : Loading σ} (isOpen : l.IsOpen) (step : Step env l l') :
    l'.IsOpen := by
  cases step with
  | resolveEntry phase _ => exact absurd phase (isOpen _)
  | opened phase _ => exact absurd phase (isOpen _)
  | take _ => exact drain_ne_opening _
  | begin _ => exact isOpen
  | work _ _ => exact isOpen
  | arrive _ _ _ => nofun
  | drain drains =>
    cases drains with
    | tick _ _ => nofun
    | takeIn _ => exact drain_ne_opening _

/-- A load resolves its entries, or has taken them in. -/
theorem start_or_open {l : Loading σ} (h : Reach env (start env input session) l) :
    (∃ jobs, Opening env input l jobs) ∨ l.IsOpen := by
  induction h with
  | refl => exact Or.inl ⟨_, opening_start⟩
  | tail _ step ih =>
    rcases ih with ⟨jobs, opening⟩ | isOpen
    · rcases opening.step step with still | ⟨entries, _, rfl⟩
      · exact Or.inl still
      · exact Or.inr nofun
    · exact Or.inr (isOpen.step step)

/-- What holds when the entries have been taken in, and what each step without an error keeps,
holds of every load that is past its entries and free of errors. -/
theorem invariant_of_reach {P : Loading σ → Prop}
    (enter : ∀ {entries s},
      List.Forall₂ (fun item e => e.name = item.name ∧
        (Loader.resolveEntry env item.specifier none).MayAnswer s.emitter.emissions e.module)
        input entries →
      P (entered entries s))
    (keep : ∀ {l l'}, Reach env (start env input session) l → l.IsOpen → Step env l l' →
      l'.loader.errors = [] → P l → P l')
    {l : Loading σ} (h : Reach env (start env input session) l) (isOpen : l.IsOpen)
    (errors : l.loader.errors = []) : P l := by
  induction h with
  | refl => exact absurd rfl (isOpen _)
  | @tail l l' reach step ih =>
    rcases start_or_open reach with ⟨jobs, opening⟩ | before
    · rcases opening.step step with ⟨jobs', still⟩ | ⟨entries, resolved, rfl⟩
      · exact absurd (congrArg Loading.phase still.blank) (isOpen _)
      · exact enter resolved
    · exact keep reach before step errors (ih before (errors_of_step step errors))

end Loading

end WorkerBundler
