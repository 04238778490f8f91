import Mathlib.Data.Multiset.DershowitzManna
import Mathlib.Data.Prod.Lex
import Mathlib.SetTheory.Ordinal.Rank
import Mathlib.Tactic.Abel
import WorkerBundler.Proofs.Loading.Conformance

/-!
# Loads come to an end

A load of an environment that follows a behaviour takes finitely many steps if the input needs
finitely many modules (`not_endless`). What is still to be done is a multiset of efforts: a place
for each module on which work may still begin, the requests left of each hook that reads code, each
module whose imports are resolved, each emission that has not been taken in, and the requests left
of each hook that resolves a request. Every step replaces some efforts by smaller ones
(`effort_of_step`). A hook has no bound on its requests, as they may depend on the notes, but it has
no infinite run, so what is left of it is an ordinal (`Hook.rank`).

A load that is not at its end has a next step, whatever its environment (`stopped_or_step`), and
loading one module after the other needs no more steps than there are modules (`fetch_ne_none`).
-/

namespace WorkerBundler

variable {σ α κ : Type} {env : Environment σ} {b : Behaviour} {input : List InputItem} {notes : σ}

/-! ## What is left of a hook -/

namespace Hook

/-- The hook `h'` is what is left of `h` after one request. -/
def After (h' h : Hook σ α) : Prop := ∃ s s', h.tick s = some (h', s')

theorem wellFounded_after : WellFounded (After : Hook σ α → Hook σ α → Prop) := by
  have answered (result : Except BuildError α) : Acc After (.answer result : Hook σ α) := by
    refine ⟨_, ?_⟩
    rintro h' ⟨s, s', ticks⟩
    cases ticks
  constructor
  intro h
  induction h with
  | answer result => exact answered result
  | emit chunk next ih =>
    refine ⟨_, ?_⟩
    rintro h' ⟨s, s', ticks⟩
    rw [tick] at ticks
    split at ticks
    · cases ticks
      exact answered _
    · cases ticks
      exact ih _
  | readNames next ih =>
    refine ⟨_, ?_⟩
    rintro h' ⟨s, s', ticks⟩
    cases ticks
    exact ih _
  | readNotes next ih =>
    refine ⟨_, ?_⟩
    rintro h' ⟨s, s', ticks⟩
    cases ticks
    exact ih _
  | writeNotes notes next ih =>
    refine ⟨_, ?_⟩
    rintro h' ⟨s, s', ticks⟩
    cases ticks
    exact ih

instance : IsWellFounded (Hook σ α) After := ⟨wellFounded_after⟩

/-- How much is left of a hook. -/
noncomputable def rank (h : Hook σ α) : Ordinal.{0} := IsWellFounded.rank After h

theorem rank_lt {h h' : Hook σ α} {s s' : Session σ} (ticks : h.tick s = some (h', s')) :
    h'.rank < h.rank :=
  IsWellFounded.rank_lt_of_rel ⟨s, s', ticks⟩

end Hook

/-! ## Efforts -/

/-- An effort of some kind, and how much of it is left. It may bring about any number of efforts of
lower kinds. -/
abbrev Effort : Type 1 := ℕ ×ₗ Ordinal.{0}

namespace Effort

/-- A module on which work can still begin. -/
noncomputable def place : Effort := toLex (4, 0)

/-- Reading and transforming the code of a module. -/
noncomputable def coding (h : Hook σ String) : Effort := toLex (3, Order.succ h.rank)

/-- Taking in entries or the result for a module. -/
noncomputable def result : Effort := toLex (3, 0)

/-- Taking the pending emissions. -/
noncomputable def taking : Effort := toLex (2, 1)

/-- Taking in an emission. -/
noncomputable def emission : Effort := toLex (2, 0)

/-- Resolving a request. -/
noncomputable def resolving (h : Hook σ α) : Effort := toLex (1, h.rank)

theorem lt_of_kind {m n : ℕ} {x y : Ordinal.{0}} (lower : m < n) :
    (toLex (m, x) : Effort) < toLex (n, y) :=
  Prod.Lex.toLex_lt_toLex.2 (.inl lower)

theorem lt_of_rank {n : ℕ} {x y : Ordinal.{0}} (less : x < y) :
    (toLex (n, x) : Effort) < toLex (n, y) :=
  Prod.Lex.toLex_lt_toLex.2 (.inr ⟨rfl, less⟩)

end Effort

/-- Smaller efforts in the place of a larger one, and perhaps of more, are less. -/
theorem less_of_replaced {less more : Multiset Effort} (common old new : Multiset Effort)
    (more_eq : more = common + old) (less_eq : less = common + new) {y : Effort} (mem : y ∈ old)
    (smaller : ∀ x ∈ new, x < y) : Multiset.IsDershowitzMannaLT less more := by
  refine ⟨common, new, old, ?_, less_eq, more_eq, fun x listed => ⟨y, mem, smaller x listed⟩⟩
  rintro rfl
  exact Multiset.notMem_zero y mem

/-- Hooks that resolve requests. -/
noncomputable def jobsEffort (jobs : List (κ × Hook σ α)) : Multiset Effort :=
  (jobs.map fun job => Effort.resolving job.2 : List Effort)

theorem lt_of_mem_jobsEffort {jobs : List (κ × Hook σ α)} {x : Effort} {n : ℕ} {y : Ordinal.{0}}
    (mem : x ∈ jobsEffort jobs) (kind : 1 < n) : x < toLex (n, y) := by
  obtain ⟨_, _, rfl⟩ := List.mem_map.1 (Multiset.mem_coe.1 mem)
  exact Effort.lt_of_kind kind

/-- What is left of the loader's own work. -/
noncomputable def Phase.effort : Phase σ → Multiset Effort
  | .opening jobs => Effort.result ::ₘ jobsEffort jobs
  | .taking => {Effort.taking}
  | .draining _ h rest =>
    Effort.resolving h ::ₘ Multiset.replicate rest.length Effort.emission
  | .waiting => 0

/-- What is left of the work on a module. -/
noncomputable def Work.effort : Work σ → Multiset Effort
  | .coding h => {Effort.coding h}
  | .resolving _ jobs => Effort.result ::ₘ jobsEffort jobs

theorem Work.effort_resolving (code : String) (jobs : List (Import × Hook σ ModuleId)) :
    (Work.resolving code jobs).effort = Effort.result ::ₘ jobsEffort jobs := rfl

theorem Phase.effort_opening (jobs : List (InputItem × Hook σ ModuleId)) :
    (Phase.opening jobs).effort = Effort.result ::ₘ jobsEffort jobs := rfl

theorem Phase.effort_draining (m : Emission) (h : Hook σ ModuleId) (rest : List Emission) :
    (Phase.draining m h rest).effort =
      Effort.resolving h ::ₘ Multiset.replicate rest.length Effort.emission := rfl

/-- The efforts that are left where work can begin on so many more modules, work on some is under
way and so many emissions are pending. -/
noncomputable def efforts (places : ℕ) (working : List (Task × Work σ)) (phase : Phase σ)
    (pending : ℕ) : Multiset Effort :=
  Multiset.replicate places Effort.place + (working.map fun p => p.2.effort).sum + phase.effort +
    Multiset.replicate pending Effort.emission

/-- The efforts that are left of a load that begins work on at most `limit` modules. -/
noncomputable def Loading.effort (limit : ℕ) (l : Loading σ) : Multiset Effort :=
  efforts (limit - l.begun.length) l.working l.phase l.emitter.pending.length

/-! ## Steps -/

theorem jobsEffort_of_tickOne {jobs jobs' : List (κ × Hook σ α)} {s s' : Session σ}
    (step : TickOne jobs s jobs' s') :
    ∃ (common : Multiset Effort) (x y : Effort), x < y ∧ jobsEffort jobs' = x ::ₘ common ∧
      jobsEffort jobs = y ::ₘ common := by
  cases step with
  | @tick before after key h h' s s' ticks =>
    refine ⟨jobsEffort (before ++ after), .resolving h', .resolving h,
      Effort.lt_of_rank (Hook.rank_lt ticks), ?_, ?_⟩ <;>
    · rw [jobsEffort, jobsEffort, Multiset.cons_coe, Multiset.coe_eq_coe]
      simp

/-- The efforts for emissions that are resolved one by one are of low kinds. -/
theorem lt_taking_of_drain {ms : List Emission} {x : Effort}
    (mem : x ∈ (Phase.drain env ms).effort) : x < Effort.taking := by
  cases ms with
  | nil => cases mem
  | cons m rest =>
    have mem : x ∈ Effort.resolving (Loader.resolveEntry env m.chunk.id m.chunk.importer) ::ₘ
        Multiset.replicate rest.length Effort.emission := mem
    rcases Multiset.mem_cons.1 mem with rfl | emission
    · exact Effort.lt_of_kind (by decide)
    · rw [Multiset.eq_of_mem_replicate emission]
      exact Effort.lt_of_rank zero_lt_one

/-- A step of the work on a module replaces an effort of it by smaller ones, and an emission is
smaller than the effort that brought it about. -/
theorem Behaviour.Owes.effort {id : String} {w w' : Work σ} {s s' : Session σ}
    {rest : List (Option ModuleId)} (owes : b.Owes id w rest) (step : Work.Step env id w s w' s') :
    ∃ (common new : Multiset Effort) (y : Effort), w.effort = common + {y} ∧
      w'.effort = common + new ∧ (∀ x ∈ new, x < y) ∧
      (s'.emitter = s.emitter ∨ Effort.emission < y ∧
        ∃ chunk reference, s.emitter.emit chunk = some (reference, s'.emitter)) := by
  cases step with
  | @coding h h' _ _ ticks =>
    refine ⟨0, {.coding h'}, .coding h, (zero_add _).symm, (zero_add _).symm, ?_, ?_⟩
    · intro x mem
      rw [Multiset.mem_singleton.1 mem]
      exact Effort.lt_of_rank (Order.succ_lt_succ (Hook.rank_lt ticks))
    · refine (Hook.grows_of_tick ticks).imp_right fun emitted => ⟨?_, emitted⟩
      exact Effort.lt_of_kind (by decide)
  | @scanned code =>
    refine ⟨0, _, .coding (.answer (.ok code)), (zero_add _).symm, (zero_add _).symm, ?_, .inl rfl⟩
    intro x mem
    rw [Work.effort_resolving] at mem
    rcases Multiset.mem_cons.1 mem with rfl | job
    · exact Effort.lt_of_rank (Order.bot_lt_succ _)
    · exact lt_of_mem_jobsEffort job (by decide)
  | @resolving code jobs jobs' _ _ ticks =>
    cases owes with
    | resolving _ yields =>
      have quiet := (Hook.yields_of_tickOne
        (fun site : Import => b.target ⟨site.specifier, some id⟩) yields ticks).2.1
      obtain ⟨common, x, y, less, after, before⟩ := jobsEffort_of_tickOne ticks
      refine ⟨Effort.result ::ₘ common, {x}, y, ?_, ?_, ?_, .inl quiet⟩
      · rw [Work.effort_resolving, before, Multiset.cons_swap, ← Multiset.singleton_add, add_comm]
      · rw [Work.effort_resolving, after, Multiset.cons_swap, ← Multiset.singleton_add, add_comm]
      · intro z mem
        rw [Multiset.mem_singleton.1 mem]
        exact less

/-- Work on a module leaves its result to be taken in. -/
theorem Work.exists_mem_effort (w : Work σ) : ∃ y ∈ w.effort, Effort.result ≤ y := by
  cases w with
  | coding h =>
    exact ⟨_, Multiset.mem_singleton_self _, le_of_lt (Effort.lt_of_rank (Order.bot_lt_succ _))⟩
  | resolving code jobs =>
    rw [Work.effort_resolving]
    exact ⟨_, Multiset.mem_cons_self _ _, le_refl _⟩

theorem Emitter.pending_of_emit {e after : Emitter} {chunk : EmittedChunk} {reference : String}
    (minted : e.emit chunk = some (reference, after)) (drained : e.drained ≤ e.emissions.length) :
    after.pending.length = e.pending.length + 1 := by
  rw [pending, pending, (emissions_of_emit minted).1, drained_of_emit minted, List.length_drop,
    List.length_drop, List.length_append, List.length_singleton]
  omega

section

variable {places pending : ℕ} {working before after : List (Task × Work σ)} {phase phase' : Phase σ}
  {task : Task} {w w' : Work σ} {common new : Multiset Effort} {y : Effort}

theorem efforts_of_begin (task : Task) (id : String) :
    Multiset.IsDershowitzMannaLT
      (efforts places (working ++ [(task, .begin env id)]) phase pending)
      (efforts (places + 1) working phase pending) := by
  refine less_of_replaced (efforts places working phase pending) {Effort.place}
    (Work.begin env id).effort ?_ ?_ (Multiset.mem_singleton_self _) ?_
  · rw [efforts, efforts, Multiset.replicate_succ, ← Multiset.singleton_add]
    abel
  · simp only [efforts, List.map_append, List.map_cons, List.map_nil, List.sum_append,
      List.sum_cons, List.sum_nil]
    abel
  · intro x mem
    rw [Multiset.mem_singleton.1 mem]
    exact Effort.lt_of_kind (by decide)

theorem efforts_working : efforts places (before ++ (task, w) :: after) phase pending =
    efforts places (before ++ after) phase pending + w.effort := by
  simp only [efforts, List.map_append, List.map_cons, List.sum_append, List.sum_cons]
  abel

theorem efforts_of_work (was : w.effort = common + {y}) (is : w'.effort = common + new)
    (smaller : ∀ x ∈ new, x < y) {emitted : ℕ} (extra : emitted = 0 ∨ Effort.emission < y) :
    Multiset.IsDershowitzMannaLT
      (efforts places (before ++ (task, w') :: after) phase (pending + emitted))
      (efforts places (before ++ (task, w) :: after) phase pending) := by
  refine less_of_replaced (efforts places (before ++ after) phase pending + common) {y}
    (new + Multiset.replicate emitted Effort.emission) ?_ ?_ (Multiset.mem_singleton_self _) ?_
  · rw [efforts_working, was]
    abel
  · rw [efforts_working, is, efforts, efforts, Multiset.replicate_add]
    abel
  · intro x mem
    rcases Multiset.mem_add.1 mem with listed | emission
    · exact smaller x listed
    · obtain ⟨some_emitted, rfl⟩ := Multiset.mem_replicate.1 emission
      exact extra.resolve_left some_emitted

/-- The result of a module is taken in. -/
theorem efforts_of_arrive :
    Multiset.IsDershowitzMannaLT (efforts places (before ++ after) (.taking : Phase σ) pending)
      (efforts places (before ++ (task, w) :: after) .waiting pending) := by
  obtain ⟨y, mem, large⟩ := w.exists_mem_effort
  refine less_of_replaced (efforts places (before ++ after) .waiting pending) w.effort
    {Effort.taking} efforts_working ?_ mem ?_
  · rw [efforts, efforts, Phase.effort, Phase.effort]
    abel
  · intro x listed
    rw [Multiset.mem_singleton.1 listed]
    exact lt_of_lt_of_le (Effort.lt_of_kind (by decide)) large

/-- The loader takes the pending emissions and turns to the first of them. -/
theorem efforts_of_take (ms : List Emission) :
    Multiset.IsDershowitzMannaLT (efforts places working (.drain env ms) 0)
      (efforts places working .taking ms.length) := by
  refine less_of_replaced (efforts places working .waiting 0)
    (Effort.taking ::ₘ Multiset.replicate ms.length Effort.emission) (Phase.drain env ms).effort
    ?_ ?_ (Multiset.mem_cons_self _ _) fun x listed => lt_taking_of_drain listed
  · rw [efforts, efforts, Phase.effort, Phase.effort, Multiset.replicate_zero,
      ← Multiset.singleton_add]
    abel
  · rw [efforts, efforts, Phase.effort]
    abel

theorem efforts_of_phase (common old new : Multiset Effort) (was : phase.effort = common + old)
    (is : phase'.effort = common + new) {y : Effort} (mem : y ∈ old) (smaller : ∀ x ∈ new, x < y) :
    Multiset.IsDershowitzMannaLT (efforts places working phase' pending)
      (efforts places working phase pending) := by
  refine less_of_replaced (efforts places working .waiting pending + common) old new ?_ ?_ mem
    smaller
  · rw [efforts, efforts, was, Phase.effort]
    abel
  · rw [efforts, efforts, is, Phase.effort]
    abel

/-- An emission is taken in, and the loader turns to the next one. -/
theorem efforts_of_takeIn (m : Emission) (result : Except BuildError ModuleId)
    (rest : List Emission) :
    Multiset.IsDershowitzMannaLT (efforts places working (.drain env rest) pending)
      (efforts places working (.draining m (.answer result) rest) pending) := by
  have before := Phase.effort_draining m (.answer result : Hook σ ModuleId) rest
  cases rest with
  | nil =>
    refine efforts_of_phase 0 {Effort.resolving (.answer result : Hook σ ModuleId)} 0 ?_ rfl
      (Multiset.mem_singleton_self _) nofun
    rw [before, zero_add]
    rfl
  | cons next rest =>
    have after := Phase.effort_draining next
      (Loader.resolveEntry env next.chunk.id next.chunk.importer) rest
    refine efforts_of_phase (Multiset.replicate rest.length Effort.emission)
      (Effort.resolving (.answer result : Hook σ ModuleId) ::ₘ {Effort.emission})
      {Effort.resolving (Loader.resolveEntry env next.chunk.id next.chunk.importer)} ?_ ?_
      (Multiset.mem_cons_of_mem (Multiset.mem_singleton_self _)) ?_
    · rw [before, List.length_cons, Multiset.replicate_succ, ← Multiset.singleton_add,
        ← Multiset.singleton_add, ← Multiset.singleton_add]
      abel
    · rw [← Multiset.singleton_add, add_comm] at after
      exact after
    · intro x mem
      rw [Multiset.mem_singleton.1 mem]
      exact Effort.lt_of_kind (by decide)

end

/-! ## Runs -/

namespace Loading

variable {l l' : Loading σ} {limit : ℕ}

theorem effort_takePending (l : Loading σ) : (takePending env l).effort limit =
    efforts (limit - l.begun.length) l.working (.drain env l.emitter.pending) 0 := by
  have nothing : (takePending env l).emitter.pending = [] := List.drop_length
  rw [effort, nothing]
  rfl

/-- A step of a load that is past its entries leaves less to be done. -/
theorem effort_of_open_step (orderly : l.Orderly) (conforms : l.Conforms b input)
    (isOpen : l.IsOpen) (begun : l'.begun.length ≤ limit) (step : Step env l l') :
    Multiset.IsDershowitzMannaLT (l'.effort limit) (l.effort limit) := by
  cases step with
  | resolveEntry phase _ => exact absurd phase (isOpen _)
  | opened phase _ => exact absurd phase (isOpen _)
  | take phase =>
    rw [effort_takePending, effort, phase]
    exact efforts_of_take _
  | @begin before after task queue =>
    have place : limit - l.begun.length = limit - (l.begun ++ [task.id]).length + 1 := by
      have begun : (l.begun ++ [task.id]).length ≤ limit := begun
      rw [List.length_append, List.length_singleton] at begun ⊢
      omega
    rw [effort, effort, place]
    exact efforts_of_begin task task.id.id
  | @work before after task w w' s working steps =>
    obtain ⟨owed, lost, balanced⟩ := conforms.balanced
    have worked : (task, w) ∈ l.working := working ▸ List.mem_append_right _ List.mem_cons_self
    obtain ⟨rest, _, owes⟩ := balanced.exists_owes worked fun unread => unread.not_step steps
    obtain ⟨common, new, y, was, is, smaller, emits⟩ := owes.effort steps
    rw [effort, effort, working]
    rcases emits with same | ⟨less, chunk, reference, minted⟩
    · have pending : s.emitter.pending.length = l.emitter.pending.length + 0 := by
        rw [same]
        rfl
      show Multiset.IsDershowitzMannaLT (efforts _ _ l.phase s.emitter.pending.length) _
      rw [pending]
      exact efforts_of_work was is smaller (.inl rfl)
    · show Multiset.IsDershowitzMannaLT (efforts _ _ l.phase s.emitter.pending.length) _
      rw [Emitter.pending_of_emit minted orderly.unnamed.drained_le]
      exact efforts_of_work was is smaller (.inr less)
  | @arrive before after task w result phase working ends =>
    rw [effort, effort, working, phase]
    have same : (l.loader.receive result).session.emitter = l.emitter := by
      rw [Loader.receive_session]
      rfl
    show Multiset.IsDershowitzMannaLT (efforts (limit - l.begun.length) (before ++ after) .taking
      (l.loader.receive result).session.emitter.pending.length) _
    rw [same]
    exact efforts_of_arrive
  | drain drains =>
    cases drains with
    | @tick m h h' rest s phase ticks =>
      have same := ((conforms.draining _ _ _ phase).tick_nil ticks).1
      rw [effort, effort, phase]
      show Multiset.IsDershowitzMannaLT (efforts _ l.working _ s.emitter.pending.length) _
      rw [same]
      refine efforts_of_phase (Multiset.replicate rest.length Effort.emission)
        {Effort.resolving h} {Effort.resolving h'} ?_ ?_ (Multiset.mem_singleton_self _) ?_
      · rw [Phase.effort_draining, ← Multiset.singleton_add, add_comm]
      · rw [Phase.effort_draining, ← Multiset.singleton_add, add_comm]
      · intro x mem
        rw [Multiset.mem_singleton.1 mem]
        exact Effort.lt_of_rank (Hook.rank_lt ticks)
    | @takeIn m result rest phase =>
      have same : (l.loader.addResolved m result).session.emitter = l.emitter := by
        rw [Loader.addResolved_session]
        rfl
      rw [effort, effort, phase]
      show Multiset.IsDershowitzMannaLT (efforts _ l.working _
        (l.loader.addResolved m result).session.emitter.pending.length) _
      rw [same]
      exact efforts_of_takeIn m result rest

/-- A step of a load that resolves its entries leaves less to be done. -/
theorem effort_of_entering_step {jobs : List (InputItem × Hook σ ModuleId)}
    (entering : Entering b input l jobs) (step : Step env l l') :
    Multiset.IsDershowitzMannaLT (l'.effort limit) (l.effort limit) := by
  have blank := entering.blank
  rw [blank] at step
  have before : l.effort limit = efforts limit [] (.opening jobs) 0 := by
    rw [effort, entering.emitter, blank]
    rfl
  rw [before]
  rcases step_of_blank step with ⟨jobs', s, ticks, rfl⟩ | ⟨results, entries, rfl, each, rfl⟩
  · have same := (Hook.yields_of_tickOne
      (fun item : InputItem => b.entry item.specifier none) entering.yields ticks).2.1
    have empty : s.emitter = .empty := same.trans entering.emitter
    obtain ⟨common, x, y, less, after, before⟩ := jobsEffort_of_tickOne ticks
    rw [effort]
    show Multiset.IsDershowitzMannaLT (efforts limit [] (.opening jobs')
      s.emitter.pending.length) _
    rw [empty]
    refine efforts_of_phase (Effort.result ::ₘ common) {y} {x} ?_ ?_
      (Multiset.mem_singleton_self _) ?_
    · rw [Phase.effort_opening, before, Multiset.cons_swap, ← Multiset.singleton_add, add_comm]
    · rw [Phase.effort_opening, after, Multiset.cons_swap, ← Multiset.singleton_add, add_comm]
    · intro z mem
      rw [Multiset.mem_singleton.1 mem]
      exact less
  · have nothing : ((Loader.start l.loader.session).withEntries entries).session.emitter.pending =
        [] := by
      rw [Loader.withEntries_session]
      show l.emitter.pending = []
      rw [entering.emitter]
      rfl
    rw [effort]
    show Multiset.IsDershowitzMannaLT (efforts limit [] .taking
      ((Loader.start l.loader.session).withEntries entries).session.emitter.pending.length) _
    rw [nothing]
    have result : Effort.result ∈
        (Phase.opening (results.map fun r => (r.1, (.answer r.2 : Hook σ ModuleId)))).effort := by
      rw [Phase.effort_opening]
      exact Multiset.mem_cons_self _ _
    refine efforts_of_phase 0 _ {Effort.taking} (zero_add _).symm rfl result ?_
    intro x taking
    rw [Multiset.mem_singleton.1 taking]
    exact Effort.lt_of_kind (by decide)

/-- The modules on which work has begun are among those that the input needs. -/
theorem Conforms.length_begun_le (conforms : l.Conforms b input) {ids : List ModuleId}
    (all : ∀ id, b.Needs input id → id ∈ ids) : l.begun.length ≤ ids.length := by
  have nodup : l.begun.Nodup :=
    (conforms.lists.perm.nodup_iff.1 conforms.lists.nodup).of_append_right
  have known : l.begun ⊆ ids := fun id mem => all id (conforms.needs_of_begun mem)
  exact (List.subperm_of_subset nodup known).length_le

/-- **Every step leaves less to be done.** -/
theorem effort_of_step (follows : env.Follows b) {ids : List ModuleId}
    (all : ∀ id, b.Needs input id → id ∈ ids)
    (reach : Reach env (start env input ⟨.empty, notes⟩) l) (step : Step env l l') :
    Multiset.IsDershowitzMannaLT (l'.effort ids.length) (l.effort ids.length) := by
  rcases conforms_of_reach follows reach with ⟨jobs, entering⟩ | ⟨isOpen, conforms⟩
  · exact effort_of_entering_step entering step
  · have begun := (conforms.step follows isOpen step).length_begun_le all
    exact effort_of_open_step (orderly_of_reach reach) conforms isOpen begun step

/-- A run of steps that goes on for ever. -/
def Endless (env : Environment σ) (l : Loading σ) : Prop :=
  ∃ run : ℕ → Loading σ, run 0 = l ∧ ∀ n, Step env (run n) (run (n + 1))

/-- **A load of finitely many modules comes to an end**, whatever the order of its steps. -/
theorem not_endless (follows : env.Follows b) {ids : List ModuleId}
    (all : ∀ id, b.Needs input id → id ∈ ids) :
    ¬ Endless env (start env input ⟨.empty, notes⟩) := by
  rintro ⟨run, first, steps⟩
  have reach : ∀ n, Reach env (start env input ⟨.empty, notes⟩) (run n) := by
    intro n
    induction n with
    | zero => exact first ▸ .refl
    | succ n ih => exact ih.tail (steps n)
  have descends : ∀ n, Multiset.IsDershowitzMannaLT ((run (n + 1)).effort ids.length)
      ((run n).effort ids.length) :=
    fun n => effort_of_step follows all (reach n) (steps n)
  exact (wellFounded_iff_isEmpty_descending_chain.1
    Multiset.wellFounded_isDershowitzMannaLT).false
      ⟨fun n => (run n).effort ids.length, descends⟩

/-- What is queued is needed. -/
theorem seen_subset (follows : env.Follows b) {ids : List ModuleId}
    (all : ∀ id, b.Needs input id → id ∈ ids)
    (reach : Reach env (start env input ⟨.empty, notes⟩) l) : l.loader.seen ⊆ ids := by
  rcases conforms_of_reach follows reach with ⟨jobs, entering⟩ | ⟨_, conforms⟩
  · rw [entering.blank]
    exact List.nil_subset ids
  · exact fun id mem => all id (conforms.lists.each id mem)

theorem length_begun_le (follows : env.Follows b) {ids : List ModuleId}
    (all : ∀ id, b.Needs input id → id ∈ ids)
    (reach : Reach env (start env input ⟨.empty, notes⟩) l) : l.begun.length ≤ ids.length := by
  rcases conforms_of_reach follows reach with ⟨jobs, entering⟩ | ⟨_, conforms⟩
  · rw [entering.blank]
    exact Nat.zero_le _
  · exact conforms.length_begun_le all

/-! ## One module after the other -/

/-- The queue gets empty within the limit if work can begin on no more modules. -/
theorem run_ne_none {first : Loading σ} {most : ℕ}
    (bounded : ∀ l, Reach env first l → l.begun.length ≤ most) {l : Loader σ}
    {begun : List ModuleId} {handedOut : List Emission}
    (reach : Reach env first ⟨l, .waiting, [], begun, handedOut⟩)
    (enough : most ≤ begun.length + limit) : Loader.run env limit l ≠ none := by
  induction limit generalizing l begun handedOut with
  | zero =>
    cases queue : l.queue with
    | nil => simp [Loader.run, queue]
    | cons task rest =>
      obtain ⟨handedOut', picks⟩ := reach_step env queue begun handedOut
      have most_begun := bounded _ (reach.trans picks)
      simp only [List.length_append, List.length_singleton] at most_begun
      omega
  | succ limit ih =>
    cases queue : l.queue with
    | nil => simp [Loader.run, queue]
    | cons task rest =>
      obtain ⟨handedOut', picks⟩ := reach_step env queue begun handedOut
      rw [Loader.run, queue, if_neg (List.cons_ne_nil task rest)]
      apply ih (reach.trans picks)
      rw [List.length_append, List.length_singleton]
      omega

end Loading

/-- **Loading one module after the other ends** once all that the input needs has been loaded. -/
theorem Loader.fetch_ne_none (follows : env.Follows b) {ids : List ModuleId}
    (all : ∀ id, b.Needs input id → id ∈ ids) :
    Loader.fetch env ids.length input ⟨.empty, notes⟩ ≠ none := by
  unfold Loader.fetch
  split
  · nofun
  · rename_i l after opened
    obtain ⟨handedOut, reach⟩ := Loading.reach_opened opened
    have ran := Loading.run_ne_none (fun l reach => Loading.length_begun_le follows all reach) reach
      (Nat.le_add_left _ _)
    rwa [ne_eq, Option.map_eq_none_iff]

/-! ## Loads never get stuck -/

/-- A hook that has not answered has a next request. -/
theorem Hook.answered_or_tick (h : Hook σ α) (s : Session σ) :
    (∃ result, h = .answer result) ∨ ∃ h' s', h.tick s = some (h', s') := by
  cases h with
  | answer result => exact Or.inl ⟨result, rfl⟩
  | emit chunk next =>
    right
    rw [Hook.tick]
    split
    · exact ⟨_, _, rfl⟩
    · exact ⟨_, _, rfl⟩
  | readNames next => exact Or.inr ⟨_, _, rfl⟩
  | readNotes next => exact Or.inr ⟨_, _, rfl⟩
  | writeNotes notes next => exact Or.inr ⟨_, _, rfl⟩

theorem TickOne.first {jobs : List (κ × Hook σ α)} {key : κ} {h h' : Hook σ α} {s s' : Session σ}
    (ticks : h.tick s = some (h', s')) : TickOne ((key, h) :: jobs) s ((key, h') :: jobs) s' := by
  rw [← List.nil_append ((key, h) :: jobs), ← List.nil_append ((key, h') :: jobs)]
  exact .tick ticks

theorem TickOne.cons {jobs jobs' : List (κ × Hook σ α)} {s s' : Session σ}
    (step : TickOne jobs s jobs' s') (job : κ × Hook σ α) :
    TickOne (job :: jobs) s (job :: jobs') s' := by
  cases step with
  | tick ticks =>
    rw [← List.cons_append, ← List.cons_append]
    exact .tick ticks

theorem answered_or_tickOne (jobs : List (κ × Hook σ α)) (s : Session σ) :
    (∃ results : List (κ × Except BuildError α),
      jobs = results.map fun r => (r.1, .answer r.2)) ∨ ∃ jobs' s', TickOne jobs s jobs' s' := by
  induction jobs with
  | nil => exact Or.inl ⟨[], rfl⟩
  | cons job jobs ih =>
    obtain ⟨key, h⟩ := job
    rcases h.answered_or_tick s with ⟨result, rfl⟩ | ⟨h', s', ticks⟩
    · rcases ih with ⟨results, rfl⟩ | ⟨_, s', step⟩
      · exact Or.inl ⟨(key, result) :: results, rfl⟩
      · exact Or.inr ⟨_, s', step.cons (key, .answer result)⟩
    · exact Or.inr ⟨_, s', .first ticks⟩

/-- Work on a module goes on or has a result. -/
theorem Work.step_or_ends (env : Environment σ) (task : Task) (w : Work σ) (s : Session σ) :
    (∃ w' s', Work.Step env task.id.id w s w' s') ∨ ∃ result, w.Ends task result := by
  cases w with
  | coding h =>
    rcases h.answered_or_tick s with ⟨_ | _, rfl⟩ | ⟨h', s', ticks⟩
    · exact Or.inr ⟨_, .unread⟩
    · exact Or.inl ⟨_, _, .scanned⟩
    · exact Or.inl ⟨_, _, .coding ticks⟩
  | resolving code jobs =>
    rcases answered_or_tickOne jobs s with ⟨results, rfl⟩ | ⟨jobs', s', ticks⟩
    · right
      by_cases failed : ∃ site e, (site, Except.error e) ∈ results
      · obtain ⟨site, e, mem⟩ := failed
        exact ⟨_, .unresolved (List.mem_map_of_mem mem)⟩
      · have resolved : ∃ records : List ImportRecord,
            results = records.map fun r => (r.site, .ok r.target) := by
          induction results with
          | nil => exact ⟨[], rfl⟩
          | cons r results ih =>
            obtain ⟨site, _ | target⟩ := r
            · exact absurd ⟨site, _, List.mem_cons_self⟩ failed
            · obtain ⟨records, rfl⟩ := ih fun ⟨site, e, mem⟩ =>
                failed ⟨site, e, List.mem_cons_of_mem _ mem⟩
              exact ⟨⟨site, target⟩ :: records, rfl⟩
        obtain ⟨records, rfl⟩ := resolved
        rw [List.map_map]
        exact ⟨_, .loaded records⟩
    · exact Or.inl ⟨_, _, .resolving ticks⟩

namespace Loading

/-- A load has ended with its entries if one of them could not be resolved. -/
def Refused (l : Loading σ) : Prop :=
  ∃ (results : List (InputItem × Except BuildError ModuleId)) (e : BuildError),
    l.phase = .opening (results.map fun r => (r.1, .answer r.2)) ∧
      l.loader.addEntries results = .error e

/-- A load that has come to its end, with errors or without. -/
def Stopped (l : Loading σ) : Prop := l.Done ∨ l.Refused

/-- **A load that is not at its end has a next step.** -/
theorem stopped_or_step (env : Environment σ) (l : Loading σ) :
    l.Stopped ∨ ∃ l', Step env l l' := by
  cases phase : l.phase with
  | opening jobs =>
    rcases answered_or_tickOne jobs l.loader.session with ⟨results, rfl⟩ | ⟨jobs', s, ticks⟩
    · cases entries : l.loader.addEntries results with
      | error e => exact Or.inl (Or.inr ⟨results, e, phase, entries⟩)
      | ok loader => exact Or.inr ⟨_, .opened phase entries⟩
    · exact Or.inr ⟨_, .resolveEntry phase ticks⟩
  | taking => exact Or.inr ⟨_, .take phase⟩
  | draining m h rest =>
    rcases h.answered_or_tick l.loader.session with ⟨result, rfl⟩ | ⟨h', s, ticks⟩
    · exact Or.inr ⟨_, .drain (.takeIn phase)⟩
    · exact Or.inr ⟨_, .drain (.tick phase ticks)⟩
  | waiting =>
    cases queue : l.loader.queue with
    | cons task others =>
      rw [← List.nil_append (task :: others)] at queue
      exact Or.inr ⟨_, .begin queue⟩
    | nil =>
      cases working : l.working with
      | nil => exact Or.inl (Or.inl ⟨phase, queue, working⟩)
      | cons p others =>
        obtain ⟨task, w⟩ := p
        rw [← List.nil_append ((task, w) :: others)] at working
        rcases w.step_or_ends env task l.loader.session with ⟨w', s, step⟩ | ⟨result, ends⟩
        · exact Or.inr ⟨_, .work working step⟩
        · exact Or.inr ⟨_, .arrive phase working ends⟩

end Loading

end WorkerBundler
