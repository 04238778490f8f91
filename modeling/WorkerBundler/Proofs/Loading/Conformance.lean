import WorkerBundler.Proofs.Loading.Behaviour
import WorkerBundler.Proofs.Loading.Worklist

/-!
# Loads of an environment that follows a behaviour

In every load of an environment that follows a behaviour, with errors or without, only modules that
the input needs are queued, each of them once (`Loader.Lists`), and the emissions are those that the
modules begun so far emit, except for what their work still owes and for what was lost when a hook
found no reference (`Loading.Balanced`). `Loading.Conforms` collects this, and `conforms_of_reach`
shows it of every load that is past its entries.
-/

namespace WorkerBundler

variable {σ : Type} {env : Environment σ} {b : Behaviour} {input : List InputItem}

/-! ## The queue -/

namespace Loader

variable {P : ModuleId → Prop} {known : List ModuleId} {l : Loader σ}

/-- The ids seen so far are those that wait and the known ones, each of them once, and all of them
have the property. -/
structure Lists (P : ModuleId → Prop) (known : List ModuleId) (l : Loader σ) : Prop where
  nodup : l.seen.Nodup
  perm : l.seen.Perm (l.queue.map Task.id ++ known)
  each : ∀ id ∈ l.seen, P id

theorem Lists.enqueue {task : Task} (h : l.Lists P known) (new : P task.id) :
    (l.enqueue task).Lists P known := by
  refine ⟨nodup_enqueue h.nodup, perm_enqueue h.perm, ?_⟩
  intro id mem
  rcases mem_seen_enqueue.1 mem with old | rfl
  · exact h.each id old
  · exact new

theorem Lists.enqueueAll {ids : List ModuleId} (h : l.Lists P known) (new : ∀ id ∈ ids, P id) :
    (l.enqueueAll ids).Lists P known := by
  induction ids generalizing l with
  | nil => exact h
  | cons id ids ih =>
    rw [enqueueAll_cons]
    exact ih (h.enqueue (new id List.mem_cons_self)) fun x mem => new x (List.mem_cons_of_mem _ mem)

theorem Lists.withEntries {entries : List UserEntry} (h : l.Lists P known)
    (new : ∀ e ∈ entries, P e.module) : (l.withEntries entries).Lists P known := by
  induction entries generalizing l with
  | nil => exact h
  | cons e entries ih =>
    rw [withEntries_cons]
    refine ih (Lists.enqueue ⟨h.nodup, h.perm, h.each⟩ (new e List.mem_cons_self)) ?_
    exact fun x mem => new x (List.mem_cons_of_mem _ mem)

theorem Lists.receive {result : Except BuildError Module} (h : l.Lists P known)
    (new : ∀ m, result = .ok m → ∀ id ∈ m.dependencies, P id) :
    (l.receive result).Lists P known := by
  cases result with
  | error e => exact ⟨h.nodup, h.perm, h.each⟩
  | ok m =>
    have listed := h.enqueueAll (new m rfl)
    exact ⟨listed.nodup, listed.perm, listed.each⟩

theorem Lists.addResolved {m : Emission} {result : Except BuildError ModuleId}
    (h : l.Lists P known) (new : ∀ id, result = .ok id → P id) :
    (l.addResolved m result).Lists P known := by
  cases result with
  | error e => exact ⟨h.nodup, h.perm, h.each⟩
  | ok id => exact Lists.enqueue ⟨h.nodup, h.perm, h.each⟩ (new id rfl)

/-- A waiting module becomes a known one. -/
theorem Lists.begin {before after : List Task} {task : Task} (h : l.Lists P known)
    (queue : l.queue = before ++ task :: after) :
    Lists P (known ++ [task.id]) { l with queue := before ++ after } := by
  refine ⟨h.nodup, ?_, h.each⟩
  have perm := h.perm
  rw [queue] at perm
  rw [List.perm_iff_count] at perm ⊢
  intro id
  have count := perm id
  simp only [List.map_append, List.map_cons, List.count_append, List.count_cons,
    List.count_nil] at count ⊢
  omega

end Loader

/-! ## The balance of the emissions -/

namespace Loading

variable {l l' : Loading σ} {notes : σ}

/-- The code of the module cannot be had. -/
def Unread (w : Work σ) : Prop := ∃ e, w = .coding (.answer (.error e))

/-- The load has an error, or some work is about to give it one. -/
def Failing (l : Loading σ) : Prop :=
  l.loader.errors ≠ [] ∨ ∃ p ∈ l.working, Unread p.2

/-- What the emitted chunks denote. -/
def denoted (b : Behaviour) (l : Loading σ) : List (Option ModuleId) :=
  l.emitter.emissions.map fun m => b.look m.chunk

/-- What has been emitted, what the work under way owes and what was lost is what the modules emit
on which work has begun. Something is lost only in a load that fails. -/
structure Balanced (b : Behaviour) (l : Loading σ) (owed : List (List (Option ModuleId)))
    (lost : List (Option ModuleId)) : Prop where
  working : List.Forall₂ (fun p rest => b.Owes p.1.id.id p.2 rest ∨ (rest = [] ∧ Unread p.2))
    l.working owed
  perm : (l.denoted b ++ owed.flatten ++ lost).Perm (l.begun.flatMap fun id => b.emits id.id)
  failing : lost ≠ [] → l.Failing

/-- How a load of an environment looks that follows the behaviour. -/
structure Conforms (b : Behaviour) (input : List InputItem) (l : Loading σ) : Prop where
  lists : l.loader.Lists (b.Needs input) l.begun
  working : ∀ p ∈ l.working, p.1.id ∈ l.begun
  balanced : ∃ owed lost, l.Balanced b owed lost
  toTakeIn : l.phase.toTakeIn ⊆ l.emitter.emissions
  draining : ∀ m h rest, l.phase = .draining m h rest →
    h.Yields b.look Except.toOption [] (b.look m.chunk)

theorem Conforms.needs_of_begun (h : Conforms b input l) {id : ModuleId} (mem : id ∈ l.begun) :
    b.Needs input id :=
  h.lists.each id (h.lists.perm.mem_iff.2 (List.mem_append_right _ mem))

/-- What an emitted chunk denotes is needed. -/
theorem Conforms.needs_of_emission (h : Conforms b input l) {m : Emission} {id : ModuleId}
    (mem : m ∈ l.emitter.emissions) (denotes : b.look m.chunk = some id) : b.Needs input id := by
  obtain ⟨owed, lost, balanced⟩ := h.balanced
  have listed : some id ∈ l.denoted b := denotes ▸ List.mem_map_of_mem mem
  have begun := balanced.perm.subset (List.mem_append_left _ (List.mem_append_left _ listed))
  obtain ⟨x, mem, emits⟩ := List.mem_flatMap.1 begun
  exact .emitted (h.needs_of_begun mem) emits

/-- Work that has not failed keeps to the behaviour. -/
theorem Balanced.exists_owes {owed : List (List (Option ModuleId))} {lost : List (Option ModuleId)}
    (balanced : l.Balanced b owed lost) {task : Task} {w : Work σ} (mem : (task, w) ∈ l.working)
    (read : ¬ Unread w) : ∃ rest ∈ owed, b.Owes task.id.id w rest := by
  obtain ⟨rest, listed, owes⟩ := exists_of_forall₂_left balanced.working mem
  exact ⟨rest, listed, owes.resolve_right fun failed => read failed.2⟩

theorem draining_of_drain (follows : env.Follows b) {ms rest : List Emission} {m : Emission}
    {h : Hook σ ModuleId} (phase : Phase.drain env ms = .draining m h rest) :
    h.Yields b.look Except.toOption [] (b.look m.chunk) := by
  cases ms with
  | nil => cases phase
  | cons first ms =>
    cases phase
    exact follows.resolveEntry m.chunk.id m.chunk.importer

/-- The loader takes the pending emissions. -/
theorem Conforms.takePending (follows : env.Follows b) (h : Conforms b input l) :
    Conforms b input (takePending env l) where
  lists := ⟨h.lists.nodup, h.lists.perm, h.lists.each⟩
  working := h.working
  balanced := by
    obtain ⟨owed, lost, balanced⟩ := h.balanced
    exact ⟨owed, lost, balanced.working, balanced.perm, balanced.failing⟩
  toTakeIn := by
    show (Phase.drain env l.emitter.pending).toTakeIn ⊆ l.emitter.emissions
    rw [toTakeIn_drain]
    exact List.drop_subset _ _
  draining := fun _ _ _ phase => draining_of_drain follows phase

theorem Conforms.begin (follows : env.Follows b) {before after : List Task} {task : Task}
    (h : Conforms b input l) (queue : l.loader.queue = before ++ task :: after) :
    Conforms b input
      { l with
        loader := { l.loader with queue := before ++ after }
        working := l.working ++ [(task, .begin env task.id.id)]
        begun := l.begun ++ [task.id] } where
  lists := h.lists.begin queue
  working := by
    intro p mem
    rcases List.mem_append.1 mem with old | new
    · exact List.mem_append_left _ (h.working p old)
    · rw [List.mem_singleton.1 new]
      exact List.mem_append_right _ List.mem_cons_self
  balanced := by
    obtain ⟨owed, lost, balanced⟩ := h.balanced
    refine ⟨owed ++ [b.emits task.id.id], lost, ?_, ?_, ?_⟩
    · exact List.rel_append balanced.working
        (.cons (.inl (.coding (follows.code task.id.id))) .nil)
    · have perm := balanced.perm
      rw [List.perm_iff_count] at perm ⊢
      intro id
      have count := perm id
      simp only [denoted, emitter, List.flatten_append, List.flatten_cons, List.flatten_nil,
        List.flatMap_append, List.flatMap_cons, List.flatMap_nil, List.append_nil,
        List.count_append] at count ⊢
      omega
    · intro some_lost
      rcases balanced.failing some_lost with errors | ⟨p, mem, failed⟩
      · exact Or.inl errors
      · exact Or.inr ⟨p, List.mem_append_left _ mem, failed⟩
  toTakeIn := h.toTakeIn
  draining := h.draining

/-- Failed work takes no step. -/
theorem Unread.not_step {id : String} {w w' : Work σ} {s s' : Session σ} (unread : Unread w) :
    ¬ Work.Step env id w s w' s' := by
  obtain ⟨e, rfl⟩ := unread
  intro step
  cases step with
  | coding ticks => cases ticks

theorem Unread.not_ends {task : Task} {w : Work σ} {m : Module} (unread : Unread w) :
    ¬ w.Ends task (.ok m) := by
  obtain ⟨e, rfl⟩ := unread
  intro ends
  cases ends

theorem Conforms.work (follows : env.Follows b) {before after : List (Task × Work σ)} {task : Task}
    {w w' : Work σ} {s : Session σ} (h : Conforms b input l)
    (working : l.working = before ++ (task, w) :: after)
    (step : w.Step env task.id.id l.loader.session w' s) :
    Conforms b input { l.withSession s with working := before ++ (task, w') :: after } where
  lists := ⟨h.lists.nodup, h.lists.perm, h.lists.each⟩
  working := by
    intro p mem
    rcases List.mem_append.1 mem with left | right
    · exact h.working p (working ▸ List.mem_append_left _ left)
    · rcases List.mem_cons.1 right with rfl | right
      · exact h.working (task, w) (working ▸ List.mem_append_right _ List.mem_cons_self)
      · exact h.working p (working ▸ List.mem_append_right _ (List.mem_cons_of_mem _ right))
  balanced := by
    obtain ⟨owed, lost, balanced⟩ := h.balanced
    have owes := balanced.working
    rw [working] at owes
    obtain ⟨left, rest, right, rfl, lefts, owes, rights⟩ := exists_split_of_forall₂ owes
    have still_failing : l.Failing → Failing
        { l.withSession s with working := before ++ (task, w') :: after } := by
      rintro (errors | ⟨p, mem, unread⟩)
      · exact Or.inl errors
      · rw [working] at mem
        refine Or.inr ⟨p, ?_, unread⟩
        rcases List.mem_append.1 mem with left | right
        · exact List.mem_append_left _ left
        · rcases List.mem_cons.1 right with rfl | right
          · exact absurd step unread.not_step
          · exact List.mem_append_right _ (List.mem_cons_of_mem _ right)
    have perm := balanced.perm
    have owes : b.Owes task.id.id w rest := owes.resolve_right fun failed => failed.2.not_step step
    cases owes.step follows step with
    | quiet same still =>
      refine ⟨left ++ rest :: right, lost,
        List.rel_append lefts (.cons (.inl still) rights), ?_, ?_⟩
      · simpa only [denoted, emitter, withSession, same] using perm
      · exact fun some_lost => still_failing (balanced.failing some_lost)
    | @emits chunk reference rest' minted rest_eq still =>
      refine ⟨left ++ rest' :: right, lost,
        List.rel_append lefts (.cons (.inl still) rights), ?_, ?_⟩
      · rw [List.perm_iff_count] at perm rest_eq ⊢
        intro id
        have count := perm id
        have moved := rest_eq id
        simp only [denoted, emitter, withSession, (Emitter.emissions_of_emit minted).1,
          List.map_append, List.map_cons, List.map_nil, List.flatten_append, List.flatten_cons,
          List.count_append, List.count_cons, List.count_nil] at count moved ⊢
        omega
      · exact fun some_lost => still_failing (balanced.failing some_lost)
    | refused _ same _ unread =>
      refine ⟨left ++ [] :: right, rest ++ lost, ?_, ?_, ?_⟩
      · exact List.rel_append lefts (.cons (.inr ⟨rfl, unread⟩) rights)
      · rw [List.perm_iff_count] at perm ⊢
        intro id
        have count := perm id
        simp only [denoted, emitter, withSession, same, List.flatten_append, List.flatten_cons,
          List.nil_append, List.count_append] at count ⊢
        omega
      · intro _
        exact Or.inr ⟨_, List.mem_append_right _ List.mem_cons_self, unread⟩
  toTakeIn := by
    have grown : l.emitter.emissions ⊆ s.emitter.emissions := step.grows.subset
    exact List.Subset.trans h.toTakeIn grown
  draining := h.draining

theorem Failing.of_receive {result : Except BuildError Module}
    {before after : List (Task × Work σ)} {task : Task} {w : Work σ}
    (failing : l.Failing) (was : l.working = before ++ (task, w) :: after)
    (ends : w.Ends task result) :
    Failing { l with loader := l.loader.receive result, working := before ++ after } := by
  rcases failing with errors | ⟨p, mem, unread⟩
  · left
    intro none_left
    exact errors (Loader.receive_errors none_left).1
  · rw [was] at mem
    rcases List.mem_append.1 mem with left | right
    · exact Or.inr ⟨p, List.mem_append_left _ left, unread⟩
    · rcases List.mem_cons.1 right with rfl | right
      · obtain ⟨e, rfl⟩ : Unread w := unread
        cases ends
        left
        intro none_left
        obtain ⟨_, m, impossible⟩ := Loader.receive_errors none_left
        cases impossible
      · exact Or.inr ⟨p, List.mem_append_right _ right, unread⟩

theorem Conforms.receive {before after : List (Task × Work σ)} {task : Task} {w : Work σ}
    {result : Except BuildError Module} (h : Conforms b input l)
    (working : l.working = before ++ (task, w) :: after) (ends : w.Ends task result) :
    Conforms b input
      { l with
        loader := l.loader.receive result, working := before ++ after, phase := .taking } := by
  obtain ⟨owed, lost, balanced⟩ := h.balanced
  have owes := balanced.working
  rw [working] at owes
  obtain ⟨left, rest, right, rfl, lefts, owes, rights⟩ := exists_split_of_forall₂ owes
  have worked : task.id ∈ l.begun :=
    h.working (task, w) (working ▸ List.mem_append_right _ List.mem_cons_self)
  refine ⟨h.lists.receive ?_, ?_, ⟨left ++ right, lost, ?_, ?_, ?_⟩, List.nil_subset _, nofun⟩
  · rintro m rfl id mem
    have owes : b.Owes task.id.id w rest := owes.resolve_right fun failed => failed.2.not_ends ends
    obtain ⟨target, internal⟩ := List.mem_filter.1 mem
    exact .dependency (h.needs_of_begun worked) (owes.imports ends) target (by simpa using internal)
  · intro p mem
    exact h.working p (working ▸ mem_of_mem_removed mem)
  · exact List.rel_append lefts rights
  · have rest_eq : rest = [] := by
      rcases owes with owes | ⟨nothing, _⟩
      · exact owes.nil_of_ends ends
      · exact nothing
    subst rest_eq
    have perm := balanced.perm
    simpa [denoted, emitter] using perm
  · intro some_lost
    exact (balanced.failing some_lost).of_receive working ends

theorem Conforms.addResolved (follows : env.Follows b) {m : Emission}
    {result : Except BuildError ModuleId} {rest : List Emission} (h : Conforms b input l)
    (phase : l.phase = .draining m (.answer result) rest) :
    Conforms b input
      { l with loader := l.loader.addResolved m result, phase := .drain env rest } := by
  obtain ⟨owed, lost, balanced⟩ := h.balanced
  have emitted : m :: rest ⊆ l.emitter.emissions := by
    have taken := h.toTakeIn
    rwa [phase] at taken
  refine ⟨h.lists.addResolved ?_, h.working, ⟨owed, lost, balanced.working, ?_, ?_⟩, ?_,
    fun _ _ _ phase => draining_of_drain follows phase⟩
  · rintro id rfl
    have denotes : some id = b.look m.chunk := (h.draining _ _ _ phase).2
    exact h.needs_of_emission (emitted List.mem_cons_self) denotes.symm
  · simpa [denoted, emitter] using balanced.perm
  · intro some_lost
    rcases balanced.failing some_lost with errors | working
    · left
      intro none_left
      exact errors (Loader.addResolved_errors none_left).1
    · exact Or.inr working
  · show (Phase.drain env rest).toTakeIn ⊆ _
    rw [toTakeIn_drain]
    simpa [emitter] using List.Subset.trans (List.subset_cons_self m rest) emitted

theorem Conforms.step (follows : env.Follows b) (isOpen : l.IsOpen) (step : Step env l l')
    (h : Conforms b input l) : Conforms b input l' := by
  cases step with
  | resolveEntry phase _ => exact absurd phase (isOpen _)
  | opened phase _ => exact absurd phase (isOpen _)
  | take _ => exact h.takePending follows
  | begin queue => exact h.begin follows queue
  | work working steps => exact h.work follows working steps
  | arrive _ working ends => exact h.receive working ends
  | drain drains =>
    cases drains with
    | takeIn phase => exact h.addResolved follows phase
    | @tick m hook hook' rest s phase ticks =>
      obtain ⟨same, still⟩ := (h.draining _ _ _ phase).tick_nil ticks
      obtain ⟨owed, lost, balanced⟩ := h.balanced
      refine ⟨⟨h.lists.nodup, h.lists.perm, h.lists.each⟩, h.working,
        ⟨owed, lost, balanced.working, ?_, balanced.failing⟩, ?_, ?_⟩
      · simpa only [denoted, emitter, withSession, same] using balanced.perm
      · have taken := h.toTakeIn
        rw [phase] at taken
        show m :: rest ⊆ s.emitter.emissions
        rw [same]
        exact taken
      · intro m' h' rest' phase'
        cases phase'
        exact still

/-! ## Before the entries -/

/-- A load that resolves its entries in an environment that follows the behaviour. -/
structure Entering (b : Behaviour) (input : List InputItem) (l : Loading σ)
    (jobs : List (InputItem × Hook σ ModuleId)) : Prop where
  blank : l = ⟨.start l.loader.session, .opening jobs, [], [], []⟩
  emitter : l.emitter = .empty
  items : jobs.map Prod.fst = input
  yields : ∀ job ∈ jobs,
    job.2.Yields b.look Except.toOption [] (b.entry job.1.specifier none)

theorem entering_start (follows : env.Follows b) :
    Entering b input (start env input ⟨.empty, notes⟩)
      (input.map fun item => (item, Loader.resolveEntry env item.specifier none)) where
  blank := rfl
  emitter := rfl
  items := by simp [Function.comp_def]
  yields := by
    intro job mem
    obtain ⟨item, _, rfl⟩ := List.mem_map.1 mem
    exact follows.resolveEntry item.specifier none

/-- Resolved entries are what the behaviour says. -/
theorem Entering.entries {results : List (InputItem × Except BuildError ModuleId)}
    (entering : Entering b input l (results.map fun r => (r.1, .answer r.2))) :
    List.Forall₂ (fun item r => r.2.toOption = b.entry item.specifier none) input results := by
  have items : results.map Prod.fst = input := by
    simpa [Function.comp_def] using entering.items
  rw [← items, List.forall₂_map_left_iff, List.forall₂_same]
  intro r mem
  exact (entering.yields _ (List.mem_map_of_mem mem)).2

theorem conforms_entered {entries : List UserEntry} {s : Session σ} (blank : s.emitter = .empty)
    (needed : ∀ e ∈ entries, b.Needs input e.module) : Conforms b input (entered entries s) := by
  have start : (Loader.start s).Lists (b.Needs input) [] := by
    refine ⟨.nil, .nil, ?_⟩
    intro id mem
    cases mem
  have none_emitted : (Loader.start s).session.emitter.emissions = [] := by
    rw [Loader.start, blank]
    rfl
  refine ⟨start.withEntries needed, ?_, ⟨[], [], .nil, ?_, ?_⟩, List.nil_subset _, ?_⟩
  · intro p mem
    cases mem
  · simp [denoted, Loading.emitter, entered, none_emitted]
  · exact fun absurd => (absurd rfl).elim
  · intro m h rest draining
    cases draining

theorem Entering.step {jobs : List (InputItem × Hook σ ModuleId)}
    (entering : Entering b input l jobs) (step : Step env l l') :
    (∃ jobs', Entering b input l' jobs') ∨ (l'.IsOpen ∧ Conforms b input l') := by
  have blank := entering.emitter
  rw [entering.blank] at step
  rcases step_of_blank step with ⟨jobs', s, ticks, rfl⟩ | ⟨results, entries, rfl, each, rfl⟩
  · obtain ⟨items, same, still⟩ := Hook.yields_of_tickOne
      (fun item : InputItem => b.entry item.specifier none) entering.yields ticks
    exact Or.inl ⟨jobs', rfl, same.trans blank, items.trans entering.items, still⟩
  · refine Or.inr ⟨nofun, conforms_entered blank ?_⟩
    intro e mem
    obtain ⟨r, listed, _, ok⟩ := exists_of_forall₂_right each mem
    have answered := entering.yields _ (List.mem_map_of_mem listed)
    have item : r.1 ∈ input := by
      rw [← entering.items, List.map_map]
      exact List.mem_map_of_mem listed
    refine .entry item (answered.2.symm.trans ?_)
    rw [ok]
    rfl

/-- **Every load conforms once its entries have been taken in.** -/
theorem conforms_of_reach (follows : env.Follows b)
    (h : Reach env (start env input ⟨.empty, notes⟩) l) :
    (∃ jobs, Entering b input l jobs) ∨ (l.IsOpen ∧ Conforms b input l) := by
  induction h with
  | refl => exact Or.inl ⟨_, entering_start follows⟩
  | tail _ step ih =>
    rcases ih with ⟨jobs, entering⟩ | ⟨isOpen, conforms⟩
    · exact entering.step step
    · exact Or.inr ⟨isOpen.step step, conforms.step follows isOpen step⟩

end Loading

end WorkerBundler
