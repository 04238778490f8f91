import WorkerBundler.Proofs.Loading.Conformance

/-!
# Messages and the count of outstanding modules

The work on a module ends with a message to the loader. The loader counts the modules it still waits
for: queuing a module adds one, and a message takes one off. `Counted` follows a load with this
count and with the modules that have sent their message, in order.

In every load, whatever its environment, the count is the number of modules that wait or are worked
on, each queued module sends one message, and no other module sends one (`wellCounted_of_counted`).
So the count never falls below zero, and it is zero just when nothing is left to do.
-/

namespace WorkerBundler.Loading

variable {σ : Type} {env : Environment σ} {l l' : Loading σ} {task : Task} {n : Int}
  {received : List ModuleId} {input : List InputItem} {session : Session σ}

/-- The loader takes in the message of a module. -/
inductive Message (env : Environment σ) : Loading σ → Task → Loading σ → Prop
  | arrive {l : Loading σ} {before after : List (Task × Work σ)} {task : Task} {w : Work σ}
    {result : Except BuildError Module} :
    l.phase = .waiting → l.working = before ++ (task, w) :: after → w.Ends task result →
    Message env l task
      { l with loader := l.loader.receive result, working := before ++ after, phase := .taking }

theorem Message.step (message : Message env l task l') : Step env l l' := by
  cases message with
  | arrive phase working ends => exact .arrive phase working ends

/-- How many modules a step queues. -/
def queued (l l' : Loading σ) : Int := l'.loader.seen.length - l.loader.seen.length

/-- Some steps of a load lead from its start to `l`; they leave the count `n`, and the modules in
`received` have sent their message. -/
inductive Counted (env : Environment σ) (input : List InputItem) (session : Session σ) :
    Loading σ → Int → List ModuleId → Prop
  | start : Counted env input session (start env input session) 0 []
  | message {l l' : Loading σ} {task : Task} {n : Int} {received : List ModuleId} :
    Counted env input session l n received → Message env l task l' →
    Counted env input session l' (n - 1 + queued l l') (received ++ [task.id])
  | other {l l' : Loading σ} {n : Int} {received : List ModuleId} :
    Counted env input session l n received → Step env l l' → (¬ ∃ task, Message env l task l') →
    Counted env input session l' (n + queued l l') received

/-- Every load is counted. -/
theorem exists_counted (reach : Reach env (.start env input session) l) :
    ∃ n received, Counted env input session l n received := by
  induction reach with
  | refl => exact ⟨_, _, .start⟩
  | @tail l l' _ step ih =>
    obtain ⟨n, received, counted⟩ := ih
    by_cases message : ∃ task, Message env l task l'
    · obtain ⟨task, message⟩ := message
      exact ⟨_, _, counted.message message⟩
    · exact ⟨_, _, counted.other step message⟩

/-! ## The tally -/

/-- The modules that are worked on and those that have sent their message are the queued ones that
do not wait, each of them once, and the count is what is missing. -/
structure Tallied (l : Loading σ) (n : Int) (received : List ModuleId) : Prop where
  lists : l.loader.Lists (fun _ => True) (l.working.map (·.1.id) ++ received)
  count : n = l.loader.seen.length - received.length

theorem Tallied.message (tallied : Tallied l n received) (message : Message env l task l') :
    Tallied l' (n - 1 + queued l l') (received ++ [task.id]) := by
  refine ⟨?_, ?_⟩
  · cases message with
    | @arrive before after _ w result phase working ends =>
      have lists : (l.loader.receive result).Lists (fun _ => True) _ :=
        tallied.lists.receive fun _ _ _ _ => trivial
      refine ⟨lists.nodup, lists.perm.trans (List.Perm.append_left _ ?_), lists.each⟩
      rw [working, List.perm_iff_count]
      intro id
      simp only [List.map_append, List.map_cons, List.count_append, List.count_cons,
        List.count_nil]
      omega
  · rw [tallied.count, queued, List.length_append, List.length_singleton]
    omega

theorem Tallied.other (tallied : Tallied l n received) (step : Step env l l')
    (silent : ¬ ∃ task, Message env l task l') : Tallied l' (n + queued l l') received := by
  refine ⟨?_, ?_⟩
  · have lists := tallied.lists
    cases step with
    | resolveEntry _ _ => exact ⟨lists.nodup, lists.perm, lists.each⟩
    | opened _ added =>
      obtain ⟨entries, rfl, _⟩ := Loader.addEntries_ok added
      have entered : (l.loader.withEntries entries).Lists (fun _ => True) _ :=
        lists.withEntries fun _ _ => trivial
      exact ⟨entered.nodup, entered.perm, entered.each⟩
    | take _ => exact ⟨lists.nodup, lists.perm, lists.each⟩
    | @begin before after task queue =>
      have begun := lists.begin queue
      refine ⟨begun.nodup, begun.perm.trans (List.Perm.append_left _ ?_), begun.each⟩
      rw [List.perm_iff_count]
      intro id
      simp only [List.map_append, List.map_cons, List.map_nil, List.count_append]
      omega
    | work working _ =>
      refine ⟨lists.nodup, ?_, lists.each⟩
      have perm := lists.perm
      rw [working] at perm
      simpa [withSession] using perm
    | arrive phase working ends => exact absurd ⟨_, .arrive phase working ends⟩ silent
    | drain drains =>
      cases drains with
      | tick _ _ => exact ⟨lists.nodup, lists.perm, lists.each⟩
      | @takeIn m result rest phase =>
        have taken : (l.loader.addResolved m result).Lists (fun _ => True) _ :=
          lists.addResolved fun _ _ => trivial
        exact ⟨taken.nodup, taken.perm, taken.each⟩
  · rw [tallied.count, queued]
    omega

theorem tallied_of_counted (counted : Counted env input session l n received) :
    Tallied l n received := by
  induction counted with
  | start => exact ⟨⟨.nil, .nil, nofun⟩, rfl⟩
  | message _ message ih => exact ih.message message
  | other _ step silent ih => exact ih.other step silent

/-! ## What the count says -/

/-- The count of a load, and the messages so far, are what they should be. -/
structure WellCounted (env : Environment σ) (l : Loading σ) (n : Int) (received : List ModuleId) :
    Prop where
  outstanding : n = l.loader.queue.length + l.working.length
  once : received.Nodup
  queued : received ⊆ l.loader.seen
  message : ∀ task l', Message env l task l' →
    1 ≤ n ∧ task.id ∈ l.loader.seen ∧ task.id ∉ received
  done : l.Done ↔ l.phase = .waiting ∧ n = 0
  answered : l.Done → received.Perm l.loader.seen

/-- **The count is right in every load.** -/
theorem wellCounted_of_counted (counted : Counted env input session l n received) :
    WellCounted env l n received := by
  have tallied := tallied_of_counted counted
  have perm := tallied.lists.perm
  have nodup := perm.nodup_iff.1 tallied.lists.nodup
  have outstanding : n = l.loader.queue.length + l.working.length := by
    have length := perm.length_eq
    simp only [List.length_append, List.length_map] at length
    rw [tallied.count, length]
    omega
  have worked := nodup.of_append_right
  refine ⟨outstanding, worked.of_append_right, ?_, ?_, ?_, ?_⟩
  · intro id mem
    exact perm.mem_iff.2 (List.mem_append_right _ (List.mem_append_right _ mem))
  · intro task l' message
    cases message with
    | @arrive before after _ w result _ working _ =>
      have mem : task.id ∈ l.working.map (·.1.id) := by
        rw [working]
        simp
      refine ⟨?_, ?_, fun again => ?_⟩
      · have some_worked := List.length_pos_of_mem mem
        rw [List.length_map] at some_worked
        omega
      · exact perm.mem_iff.2 (List.mem_append_right _ (List.mem_append_left _ mem))
      · exact (List.nodup_append.1 worked).2.2 _ mem _ again rfl
  · constructor
    · intro done
      rw [outstanding, done.queue, done.working]
      exact ⟨done.waiting, rfl⟩
    · rintro ⟨waiting, rfl⟩
      refine ⟨waiting, List.length_eq_zero_iff.1 ?_, List.length_eq_zero_iff.1 ?_⟩ <;> omega
  · intro done
    rw [done.queue, done.working] at perm
    exact perm.symm

end WorkerBundler.Loading
