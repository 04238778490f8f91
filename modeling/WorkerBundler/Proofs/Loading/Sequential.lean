import WorkerBundler.Loading

/-!
# Loading one module after the other

`Loader.fetch` is one of the orders that `Loads` allows: what holds of every load holds of what it
returns (`loads_of_fetch`). Each section carries one kind of work from its single run to the steps
of a load: a hook, several hooks one after the other, the work on a module, the work on emitted
chunks, and the whole run.
-/

namespace WorkerBundler

variable {σ α κ : Type} {env : Environment σ}

/-! ## Hooks -/

/-- A hook that is carried out request by request, whatever stands around it, comes to the answer
of its run. -/
theorem Hook.reach_run {β : Type} {r : β → β → Prop} (place : Hook σ α → Session σ → β)
    (each : ∀ {h h' s s'}, h.tick s = some (h', s') → r (place h s) (place h' s'))
    (h : Hook σ α) (s : Session σ) :
    Relation.ReflTransGen r (place h s) (place (.answer (h.run s).1) (h.run s).2) := by
  induction h generalizing s with
  | answer result => exact .refl
  | emit chunk next ih =>
    cases minted : s.emitter.emit chunk with
    | none =>
      have tick : (Hook.emit chunk next).tick s =
          some (.answer (.error (.fatal .referencesExhausted)), s) := by
        simp [Hook.tick, minted]
      simpa [Hook.run, minted] using Relation.ReflTransGen.single (each tick)
    | some given =>
      have tick : (Hook.emit chunk next).tick s =
          some (next given.1, { s with emitter := given.2 }) := by
        simp [Hook.tick, minted]
      have rest := ih given.1 { s with emitter := given.2 }
      simpa [Hook.run, minted] using rest.head (each tick)
  | readNames next ih => exact (ih _ s).head (each rfl)
  | readNotes next ih => exact (ih _ s).head (each rfl)
  | writeNotes notes next ih => exact (ih _).head (each rfl)

/-- Steps of a part of a state stay steps in a larger one. -/
theorem reach_place {β τ γ : Type} {r : β → τ → β → τ → Prop} {q : γ → γ → Prop}
    (place : β → τ → γ) (each : ∀ {x y s s'}, r x s y s' → q (place x s) (place y s'))
    {p p' : β × τ} (h : Relation.ReflTransGen (fun p q => r p.1 p.2 q.1 q.2) p p') :
    Relation.ReflTransGen q (place p.1 p.2) (place p'.1 p'.2) :=
  Relation.ReflTransGen.lift (fun p : β × τ => place p.1 p.2) (fun _ _ step => each step) _ _ h

/-- Several hooks and their session after some requests of theirs. -/
abbrev TickMany : List (κ × Hook σ α) × Session σ → List (κ × Hook σ α) × Session σ → Prop :=
  Relation.ReflTransGen fun p q => TickOne p.1 p.2 q.1 q.2

/-- One of several hooks can run to its answer while the others stand still. -/
theorem tickMany_run (before after : List (κ × Hook σ α)) (key : κ) (h : Hook σ α)
    (s : Session σ) :
    TickMany (before ++ (key, h) :: after, s)
      (before ++ (key, .answer (h.run s).1) :: after, (h.run s).2) :=
  Hook.reach_run (fun h s => (before ++ (key, h) :: after, s)) (fun ticks => .tick ticks) h s

/-- Hooks that run one after the other all reach their answers. -/
theorem tickMany_runEach (before jobs : List (κ × Hook σ α)) (s : Session σ) :
    TickMany (before ++ jobs, s)
      (before ++ ((jobs.map Prod.fst).zip (Hook.runEach (jobs.map Prod.snd) s).1).map
          (fun r => (r.1, .answer r.2)),
        (Hook.runEach (jobs.map Prod.snd) s).2) := by
  induction jobs generalizing before s with
  | nil => simpa [Hook.runEach] using Relation.ReflTransGen.refl
  | cons job jobs ih =>
    have first := tickMany_run before jobs job.1 job.2 s
    have others := ih (before ++ [(job.1, .answer (job.2.run s).1)]) (job.2.run s).2
    apply first.trans
    simpa [Hook.runEach] using others

/-! ## The work on a module -/

/-- Imports that are resolved one after the other either all have an answer in the end, or one of
them has failed. -/
theorem tickMany_resolveImports (env : Environment σ) (importer : String) (sites : List Import)
    (before : List (Import × Hook σ ModuleId)) (s : Session σ) :
    ∃ jobs,
      TickMany
        (before ++ sites.map fun site =>
          (site, Loader.resolveImport env importer site.specifier), s)
        (before ++ jobs, ((Loader.resolveImports env importer sites).run s).2) ∧
      match ((Loader.resolveImports env importer sites).run s).1 with
      | .ok records => jobs = records.map fun r => (r.site, .answer (.ok r.target))
      | .error e => ∃ site, (site, .answer (.error e)) ∈ jobs := by
  induction sites generalizing before s with
  | nil => exact ⟨[], .refl, rfl⟩
  | cons site sites ih =>
    have unfolded : Loader.resolveImports env importer (site :: sites) =
        (Loader.resolveImport env importer site.specifier).bind fun target =>
          (Loader.resolveImports env importer sites).bind fun records =>
            .answer (.ok (⟨site, target⟩ :: records)) := rfl
    have first := tickMany_run before
      (sites.map fun site => (site, Loader.resolveImport env importer site.specifier)) site
      (Loader.resolveImport env importer site.specifier) s
    rw [unfolded]
    rcases answered : (Loader.resolveImport env importer site.specifier).run s with ⟨e | target, s₁⟩
    · rw [answered] at first
      rw [Hook.run_bind_error answered]
      exact ⟨_, first, site, List.mem_cons_self⟩
    · rw [answered] at first
      rw [Hook.run_bind_ok answered]
      obtain ⟨jobs, others, outcome⟩ := ih (before ++ [(site, .answer (.ok target))]) s₁
      have ticks := first.trans (by simpa using others)
      rcases rest : (Loader.resolveImports env importer sites).run s₁ with ⟨e | records, s₂⟩
      · rw [rest] at ticks outcome
        rw [Hook.run_bind_error rest]
        obtain ⟨failed, mem⟩ := outcome
        exact ⟨_, ticks, failed, List.mem_cons_of_mem _ mem⟩
      · rw [rest] at ticks outcome
        rw [Hook.run_bind_ok rest]
        exact ⟨_, ticks, by rw [outcome]; rfl⟩

/-- Steps of the work on a module. -/
abbrev Work.Reach (env : Environment σ) (id : String) :
    Work σ × Session σ → Work σ × Session σ → Prop :=
  Relation.ReflTransGen fun p q => Work.Step env id p.1 p.2 q.1 q.2

/-- The work on a module can be carried out without a pause. -/
theorem Work.reach_loadModule (env : Environment σ) (task : Task) (s : Session σ) :
    ∃ w, Work.Reach env task.id.id (.begin env task.id.id, s)
        (w, ((Loader.loadModule env task).run s).2) ∧
      w.Ends task ((Loader.loadModule env task).run s).1 := by
  have unfolded : Loader.loadModule env task =
      (Loader.transformedCode env task.id.id).bind fun code =>
        (Loader.resolveImports env task.id.id (ImportScan.imports code)).bind fun records =>
          .answer (.ok ⟨task.id, code, records, task.isUserEntry⟩) := rfl
  have coded : Work.Reach env task.id.id (.begin env task.id.id, s)
      (.coding (.answer ((Loader.transformedCode env task.id.id).run s).1),
        ((Loader.transformedCode env task.id.id).run s).2) :=
    Hook.reach_run (fun h s => (Work.coding h, s)) (fun ticks => Work.Step.coding ticks) _ s
  rw [unfolded]
  rcases answered : (Loader.transformedCode env task.id.id).run s with ⟨e | code, s₁⟩
  · rw [answered] at coded
    rw [Hook.run_bind_error answered]
    exact ⟨_, coded, .unread⟩
  · rw [answered] at coded
    rw [Hook.run_bind_ok answered]
    obtain ⟨jobs, ticks, outcome⟩ :=
      tickMany_resolveImports env task.id.id (ImportScan.imports code) [] s₁
    have resolved : Work.Reach env task.id.id _ _ :=
      reach_place (r := TickOne) (fun jobs s => (Work.resolving code jobs, s))
        (fun ticks => .resolving ticks) ticks
    have whole := (coded.tail .scanned).trans resolved
    rcases rest : (Loader.resolveImports env task.id.id (ImportScan.imports code)).run s₁ with
      ⟨e | records, s₂⟩
    · rw [rest] at whole outcome
      rw [Hook.run_bind_error rest]
      obtain ⟨site, mem⟩ := outcome
      exact ⟨_, whole, .unresolved mem⟩
    · rw [rest] at whole outcome
      rw [Hook.run_bind_ok rest]
      refine ⟨_, whole, ?_⟩
      rw [outcome]
      exact .loaded records

/-! ## Emitted chunks -/

namespace Loading

theorem reach_drain (env : Environment σ) (ms : List Emission) (l : Loader σ)
    (working : List (Task × Work σ)) (begun : List ModuleId) (handedOut : List Emission) :
    Reach env ⟨l, .drain env ms, working, begun, handedOut⟩
      ⟨ms.foldl (Loader.drainOne env) l, .waiting, working, begun, handedOut⟩ := by
  induction ms generalizing l with
  | nil => exact .refl
  | cons m ms ih =>
    have ticks : Reach env _ _ := Hook.reach_run
      (fun h s =>
        (⟨{ l with session := s }, .draining m h ms, working, begun, handedOut⟩ : Loading σ))
      (fun ticks => .drain (.tick rfl ticks))
      (Loader.resolveEntry env m.chunk.id m.chunk.importer) l.session
    exact (ticks.tail (.drain (.takeIn rfl))).trans (ih _)

/-- The work on the pending emissions can be carried out without a pause. -/
theorem reach_taking (env : Environment σ) (l : Loader σ) (working : List (Task × Work σ))
    (begun : List ModuleId) (handedOut : List Emission) :
    Reach env ⟨l, .taking, working, begun, handedOut⟩
      ⟨l.drain env, .waiting, working, begun, handedOut ++ l.session.emitter.pending⟩ :=
  (reach_drain _ _ _ _ _ _).head (.take rfl)

/-! ## The whole run -/

/-- The work on any waiting module and what follows from it are steps of a load. -/
theorem reach_pick (env : Environment σ) {l : Loader σ} {before after : List Task} {task : Task}
    (queue : l.queue = before ++ task :: after) (begun : List ModuleId)
    (handedOut : List Emission) :
    ∃ handedOut', Reach env ⟨l, .waiting, [], begun, handedOut⟩
      ⟨({ l with queue := task :: (before ++ after) } : Loader σ).step env, .waiting, [],
        begun ++ [task.id], handedOut'⟩ := by
  obtain ⟨w, work, ends⟩ := Work.reach_loadModule env task l.session
  have begins : Step env ⟨l, .waiting, [], begun, handedOut⟩
      ⟨{ l with queue := before ++ after }, .waiting, [(task, .begin env task.id.id)],
        begun ++ [task.id], handedOut⟩ :=
    .begin queue
  have works : Reach env _ _ :=
    reach_place (r := Work.Step env task.id.id)
      (fun w s => (⟨{ l with queue := before ++ after, session := s }, .waiting, [(task, w)],
        begun ++ [task.id], handedOut⟩ : Loading σ))
      (fun step => @Step.work _ _ _ [] [] _ _ _ _ rfl step) work
  have arrives : Step env
      ⟨{ l with
          queue := before ++ after
          session := ((Loader.loadModule env task).run l.session).2 },
        .waiting, [(task, w)], begun ++ [task.id], handedOut⟩ _ :=
    @Step.arrive _ _ _ [] [] _ _ _ rfl rfl ends
  have drains := reach_taking env
    (({ l with
        queue := before ++ after
        session := ((Loader.loadModule env task).run l.session).2 }
      : Loader σ).receive ((Loader.loadModule env task).run l.session).1)
    [] (begun ++ [task.id]) handedOut
  exact ⟨_, ((works.head begins).tail arrives).trans drains⟩

/-- The work on the oldest module and what follows from it are steps of a load. -/
theorem reach_step (env : Environment σ) {l : Loader σ} {task : Task} {rest : List Task}
    (queue : l.queue = task :: rest) (begun : List ModuleId) (handedOut : List Emission) :
    ∃ handedOut', Reach env ⟨l, .waiting, [], begun, handedOut⟩
      ⟨l.step env, .waiting, [], begun ++ [task.id], handedOut'⟩ := by
  have picks := reach_pick env (queue.trans (List.nil_append _).symm) begun handedOut
  rwa [List.nil_append, ← queue] at picks

theorem reach_run {limit : Nat} {l l' : Loader σ} (h : Loader.run env limit l = some l')
    (begun : List ModuleId) (handedOut : List Emission) :
    l'.queue = [] ∧ ∃ begun' handedOut', Reach env ⟨l, .waiting, [], begun, handedOut⟩
      ⟨l', .waiting, [], begun', handedOut'⟩ := by
  induction limit generalizing l begun handedOut with
  | zero =>
    unfold Loader.run at h
    split at h
    · rename_i empty
      cases h
      exact ⟨empty, begun, handedOut, .refl⟩
    · cases h
  | succ limit ih =>
    unfold Loader.run at h
    split at h
    · rename_i empty
      cases h
      exact ⟨empty, begun, handedOut, .refl⟩
    · rename_i nonempty
      obtain ⟨task, rest, queue⟩ := List.exists_cons_of_ne_nil nonempty
      obtain ⟨handedOut₁, first⟩ := reach_step env queue begun handedOut
      obtain ⟨empty, begun₂, handedOut₂, others⟩ := ih h (begun ++ [task.id]) handedOut₁
      exact ⟨empty, begun₂, handedOut₂, first.trans others⟩

/-- The entries of a load can be resolved one after the other. -/
theorem reach_resolved {input : List InputItem} {session after : Session σ}
    {resolved : List (Except BuildError ModuleId)}
    (ran : Hook.runEach (input.map fun item => Loader.resolveEntry env item.specifier none)
      session = (resolved, after)) :
    Reach env (.start env input session)
      ⟨.start after, .opening ((input.zip resolved).map fun r => (r.1, .answer r.2)), [], [],
        []⟩ := by
  have ticks := tickMany_runEach []
    (input.map fun item => (item, Loader.resolveEntry env item.specifier none)) session
  have resolves : Reach env _ _ :=
    reach_place (r := TickOne)
      (fun jobs s => (⟨.start s, .opening jobs, [], [], []⟩ : Loading σ))
      (fun tick => .resolveEntry rfl tick) ticks
  simp only [List.map_map, Function.comp_def, List.map_id', List.nil_append] at resolves
  rwa [ran] at resolves

/-- The loader after the entries is that of a load. -/
theorem reach_opened {input : List InputItem} {session after : Session σ} {l : Loader σ}
    (h : Loader.opened env input session = (.ok l, after)) :
    ∃ handedOut, Reach env (.start env input session) ⟨l, .waiting, [], [], handedOut⟩ := by
  unfold Loader.opened at h
  split at h
  · cases h
  · rcases ran : Hook.runEach
      (input.map fun item => Loader.resolveEntry env item.specifier none) session with
      ⟨resolved, s₁⟩
    rw [ran] at h
    simp only at h
    split at h
    · cases h
    · rename_i added
      cases h
      have opens : Step env ⟨.start s₁, .opening _, [], [], []⟩ _ :=
        @Step.opened _ _ _ (input.zip resolved) _ rfl added
      exact ⟨_, ((reach_resolved ran).tail opens).trans (reach_taking _ _ _ _ _)⟩

end Loading

/-- **Loading one module after the other is a load.** -/
theorem loads_of_fetch {limit : Nat} {input : List InputItem} {session after : Session σ}
    {g : Graph} (h : Loader.fetch env limit input session = some (.ok g, after)) :
    Loads env input session g after := by
  unfold Loader.fetch at h
  split at h
  · cases h
  · rename_i l _ opened
    obtain ⟨l', ran, ends⟩ := Option.map_eq_some_iff.1 h
    obtain ⟨outcome, rfl⟩ := Prod.mk.inj ends
    have input_ne_nil : input ≠ [] := by
      rintro rfl
      simp [Loader.opened] at opened
    obtain ⟨handedOut, first⟩ := Loading.reach_opened opened
    obtain ⟨empty, begun, _, others⟩ := Loading.reach_run ran [] handedOut
    unfold Loader.outcome at outcome
    split at outcome
    · rename_i errors
      cases outcome
      exact ⟨_, ⟨input_ne_nil, first.trans others, ⟨rfl, empty, rfl⟩, errors⟩, rfl, rfl⟩
    · cases outcome

/-- What can be computed from an outcome without an error is true of a load. -/
theorem exists_loadsTo {limit : Nat} {input : List InputItem} {session : Session σ}
    {f : Graph → Session σ → α} {a : α}
    (h : ((Loader.fetch env limit input session).bind fun r =>
      r.1.toOption.map fun g => f g r.2) = some a) :
    ∃ l, LoadsTo env input session l ∧ f l.graph l.loader.session = a := by
  obtain ⟨⟨result, after⟩, fetched, outcome⟩ := Option.bind_eq_some_iff.1 h
  obtain ⟨g, ok, same⟩ := Option.map_eq_some_iff.1 outcome
  obtain rfl : result = .ok g := eq_ok_of_toOption ok
  obtain ⟨l, loads, rfl, rfl⟩ := loads_of_fetch fetched
  exact ⟨l, loads, same⟩

end WorkerBundler
