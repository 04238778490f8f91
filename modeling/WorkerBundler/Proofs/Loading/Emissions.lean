import WorkerBundler.Proofs.EmittedNames
import WorkerBundler.Proofs.Loading.Sequential

/-!
# What becomes of emitted chunks

An emitted chunk is meant to be handed to the loader once, recorded with a module of the graph, and
named with the chunk of that module: `Settled`. The loader takes the pending emissions whenever the
result of a module has arrived, but does not look again after it has done so for the last time. So
every load has a last drain (`exists_lastDrain`), all that was emitted before it is settled, and
what hooks emit during it, while they resolve the chunks just taken, is `Lost` (`settled_or_lost`).
Nothing is lost where requests are resolved without emitting chunks (`settled_of_silent`).
-/

namespace WorkerBundler.Loading

variable {σ : Type} {env : Environment σ} {input : List InputItem} {session : Session σ}
  {l l' last : Loading σ}

/-! ## The books of the emitter -/

/-- What has been handed out is a start of the emissions. -/
structure Orderly (l : Loading σ) : Prop where
  unnamed : l.emitter.Unnamed
  handedOut : l.handedOut = l.emitter.emissions.take l.emitter.drained

theorem Orderly.grow (h : l.Orderly) (handedOut : l'.handedOut = l.handedOut)
    (grows : l.emitter.Grows l'.emitter) : l'.Orderly := by
  rcases grows with same | ⟨chunk, reference, minted⟩
  · exact ⟨same ▸ h.unnamed, by rw [handedOut, h.handedOut, same]⟩
  · refine ⟨h.unnamed.emit minted, ?_⟩
    rw [handedOut, h.handedOut, (Emitter.emissions_of_emit minted).1,
      Emitter.drained_of_emit minted, List.take_append_of_le_length h.unnamed.drained_le]

theorem Orderly.step (h : l.Orderly) (step : Step env l l') : l'.Orderly := by
  rcases emitter_of_step step with ⟨handedOut, grows⟩ | ⟨handedOut, taken⟩
  · exact h.grow handedOut grows
  · refine ⟨taken ▸ h.unnamed.takePending, ?_⟩
    rw [handedOut, h.handedOut, Emitter.take_append_pending, taken]
    exact (List.take_length).symm

/-- The books are in order throughout a load that starts with an empty emitter. -/
theorem orderly_of_reach {notes : σ} (h : Reach env (start env input ⟨.empty, notes⟩) l) :
    l.Orderly := by
  induction h with
  | refl => exact ⟨Emitter.unnamed_empty, rfl⟩
  | tail _ step ih => exact ih.step step

theorem Orderly.emissions_eq (h : l.Orderly) :
    l.emitter.emissions = l.handedOut ++ l.emitter.pending := by
  rw [h.handedOut, Emitter.take_append_pending]

/-! ## The last drain -/

theorem queue_of_drainStep (step : DrainStep env l l') (queue : l'.loader.queue = []) :
    l.loader.queue = [] := by
  cases step with
  | tick _ _ => exact queue
  | @takeIn m result rest _ =>
    cases result with
    | error e => exact queue
    | ok id =>
      have queue' : (l.loader.addEmitted m id).queue = [] := queue
      rw [Loader.addEmitted, Loader.enqueue] at queue'
      split at queue'
      · exact queue'
      · simp at queue'

theorem DrainStep.draining (step : DrainStep env l l') :
    ∃ m h rest, l.phase = .draining m h rest := by
  cases step with
  | tick phase _ => exact ⟨_, _, _, phase⟩
  | takeIn phase => exact ⟨_, _, _, phase⟩

theorem frame_of_drainStep (step : DrainStep env l l') :
    l'.handedOut = l.handedOut ∧ l'.working = l.working := by
  cases step with
  | tick _ _ => exact ⟨rfl, rfl⟩
  | takeIn _ => exact ⟨rfl, rfl⟩

theorem lastDrain_takePending (queue : (takePending env l).loader.queue = [])
    (working : (takePending env l).working = []) :
    LastDrain env (takePending env l) (takePending env l) :=
  ⟨⟨l, rfl⟩, queue, working, .refl⟩

/-- A load in which nothing waits and no module is worked on is in its last drain or past it, unless
it is about to take the pending emissions. -/
theorem exists_lastDrain (h : Reach env (start env input session) l) (isOpen : l.IsOpen)
    (taken : l.phase ≠ .taking) (queue : l.loader.queue = []) (working : l.working = []) :
    ∃ last, Reach env (start env input session) last ∧ LastDrain env last l := by
  induction h with
  | refl => exact absurd rfl (isOpen _)
  | @tail l l' reach step ih =>
    have whole : Reach env (start env input session) l' := reach.tail step
    cases step with
    | resolveEntry _ _ => exact absurd rfl (isOpen _)
    | opened _ _ => exact absurd rfl taken
    | take _ => exact ⟨_, whole, lastDrain_takePending queue working⟩
    | begin _ => simp at working
    | work _ _ => simp at working
    | arrive _ _ _ => exact absurd rfl taken
    | drain drains =>
      obtain ⟨m, h, rest, draining⟩ := drains.draining
      obtain ⟨last, before, drained⟩ := ih (fun _ phase => nomatch draining.symm.trans phase)
        (fun phase => nomatch draining.symm.trans phase) (queue_of_drainStep drains queue)
        ((frame_of_drainStep drains).2 ▸ working)
      exact ⟨last, before, { drained with steps := drained.steps.tail drains }⟩

/-- In its last drain a load hands out nothing: it has handed out what was emitted before. -/
theorem handedOut_of_lastDrain (orderly : last.Orderly) (drained : LastDrain env last l) :
    l.handedOut = last.emitter.emissions := by
  have pending : last.emitter.pending = [] := by
    obtain ⟨before, rfl⟩ := drained.taken
    exact Emitter.pending_takePending before.emitter
  have start : last.handedOut = last.emitter.emissions := by
    rw [orderly.emissions_eq, pending, List.append_nil]
  have steps := drained.steps
  clear drained
  induction steps with
  | refl => exact start
  | tail _ step ih => exact (frame_of_drainStep step).1.trans ih

/-! ## Settled and lost emissions -/

/-- The emission was handed out once and is recorded once, with a module of the graph, and when the
chunks have their file names its reference gives that of the module. -/
structure Settled (o : OutputOptions) (l : Loading σ) (m : Emission) : Prop where
  handedOut : l.handedOut.count m = 1
  recorded : (l.graph.emittedEntries.map EmittedEntry.reference).count m.reference = 1
  named : ∃ e ∈ l.graph.emittedEntries, e.reference = m.reference ∧ e.name = m.chunk.name ∧
    e.module ∈ l.graph.modules.map Module.id ∧
    ∃ names emitter name, Chunk.named l.graph o (Chunk.ofGraph l.graph) = .ok names ∧
      Chunk.assignNames names l.graph.emittedEntries l.emitter = .ok emitter ∧
      names.of? e.module = some name ∧ emitter.fileName m.reference = .ok name

/-- The emission was not handed out, is not recorded, and has no file name when the chunks have
theirs. -/
structure Lost (o : OutputOptions) (l : Loading σ) (m : Emission) : Prop where
  handedOut : m ∉ l.handedOut
  recorded : m.reference ∉ l.graph.emittedEntries.map EmittedEntry.reference
  unnamed : ∃ names emitter, Chunk.named l.graph o (Chunk.ofGraph l.graph) = .ok names ∧
    Chunk.assignNames names l.graph.emittedEntries l.emitter = .ok emitter ∧
    emitter.fileName m.reference = .error (.of (.fileNameNotGenerated m.reference))

theorem references_of_comesFrom {given handedOut : List Emission} {entries : List EmittedEntry}
    (h : List.Forall₂ (EmittedEntry.ComesFrom env given) handedOut entries) :
    entries.map EmittedEntry.reference = handedOut.map Emission.reference := by
  induction h with
  | nil => rfl
  | cons same _ ih => rw [List.map_cons, List.map_cons, ih, same.1]

/-- A finished load records the emissions it has handed out, and its chunks can be named. -/
structure Recorded (o : OutputOptions) (l : Loading σ) (names : FileNames) (emitter : Emitter) :
    Prop where
  references : l.graph.emittedEntries.map EmittedEntry.reference =
    l.handedOut.map Emission.reference
  named : Chunk.named l.graph o (Chunk.ofGraph l.graph) = .ok names
  modules : names.map Prod.fst = (Chunk.ofGraph l.graph).map Chunk.module
  assigned : Chunk.assignNames names l.graph.emittedEntries l.emitter = .ok emitter

theorem exists_recorded (loads : LoadsTo env input session l) (o : OutputOptions) :
    ∃ names emitter, Recorded o l names emitter := by
  have origin := comesFrom_of_loads loads
  have references := references_of_comesFrom origin.emittedEntries
  obtain ⟨names, named, modules⟩ := Chunk.named_ofGraph (complete_of_loads loads) o
  have taken : ∀ entry ∈ l.graph.emittedEntries,
      entry.reference ∈ l.emitter.emissions.map Emission.reference := by
    intro entry mem
    have listed : entry.reference ∈ l.handedOut.map Emission.reference :=
      references ▸ List.mem_map_of_mem mem
    exact List.map_subset _ (handedOut_subset_of_reach loads.reach) listed
  obtain ⟨emitter, assigned⟩ := Chunk.assignNames_ok taken
  exact ⟨names, emitter, references, named, modules, assigned⟩

theorem nodup_handedOut (orderly : l.Orderly) :
    (l.handedOut.map Emission.reference).Nodup := by
  have distinct := orderly.unnamed.distinct
  rw [orderly.emissions_eq, List.map_append] at distinct
  exact (List.nodup_append.1 distinct).1

/-- What is recorded under the reference of an emission is what the emission resolves to. -/
theorem mayAnswer_of_reference (loads : LoadsTo env input session l) (orderly : l.Orderly)
    {m : Emission} (mem : m ∈ l.handedOut) {e : EmittedEntry} (listed : e ∈ l.graph.emittedEntries)
    (same : e.reference = m.reference) :
    (Loader.resolveEntry env m.chunk.id m.chunk.importer).MayAnswer l.emitter.emissions
      e.module := by
  obtain ⟨m', mem', reference, _, answers⟩ :=
    exists_of_forall₂_right (comesFrom_of_loads loads).emittedEntries listed
  have one : m' = m :=
    eq_of_key (nodup_handedOut orderly) mem' mem (reference.symm.trans same)
  exact one ▸ answers

theorem settled_of_handedOut (loads : LoadsTo env input session l) (orderly : l.Orderly)
    (o : OutputOptions) {m : Emission} (mem : m ∈ l.handedOut) : l.Settled o m := by
  obtain ⟨names, emitter, recorded⟩ := exists_recorded loads o
  have origin := comesFrom_of_loads loads
  have distinct := nodup_handedOut orderly
  have distinct' : (l.graph.emittedEntries.map EmittedEntry.reference).Nodup :=
    recorded.references ▸ distinct
  obtain ⟨e, listed, reference, name, _⟩ := exists_of_forall₂_left origin.emittedEntries mem
  have loaded : e.module ∈ l.graph.modules.map Module.id :=
    ((complete_of_loads loads).mem_iff _).2 (.emittedEntry listed)
  obtain ⟨file, found⟩ := Chunk.exists_fileName (complete_of_loads loads) recorded.modules loaded
  have given := Chunk.fileName_of_assignNames recorded.assigned distinct' listed found
  refine ⟨?_, ?_, e, listed, reference, name, loaded, names, emitter, file, recorded.named,
    recorded.assigned, found, reference ▸ given⟩
  · exact List.count_eq_one_of_mem (List.Nodup.of_map _ distinct) mem
  · exact List.count_eq_one_of_mem distinct' (reference ▸ List.mem_map_of_mem listed)

theorem lost_of_pending (loads : LoadsTo env input session l) (orderly : l.Orderly)
    (o : OutputOptions) {m : Emission} (mem : m ∈ l.emitter.pending) : l.Lost o m := by
  obtain ⟨names, emitter, recorded⟩ := exists_recorded loads o
  have emitted : m ∈ l.emitter.emissions := by
    rw [orderly.emissions_eq]
    exact List.mem_append_right _ mem
  have apart : m.reference ∉ l.handedOut.map Emission.reference := by
    have distinct := orderly.unnamed.distinct
    rw [orderly.emissions_eq, List.map_append] at distinct
    intro taken
    exact (List.nodup_append.1 distinct).2.2 _ taken _ (List.mem_map_of_mem mem) rfl
  have unrecorded : m.reference ∉ l.graph.emittedEntries.map EmittedEntry.reference :=
    recorded.references ▸ apart
  refine ⟨fun taken => apart (List.mem_map_of_mem taken), unrecorded, names, emitter,
    recorded.named, recorded.assigned, ?_⟩
  have untouched : emitter.find? m.reference = l.emitter.find? m.reference :=
    Chunk.find?_of_assignNames recorded.assigned fun entry listed same =>
      unrecorded (same ▸ List.mem_map_of_mem listed)
  rw [Emitter.fileName_congr untouched]
  exact orderly.unnamed.fileName emitted

/-! ## What a load leaves behind -/

theorem exists_last {notes : σ} (loads : LoadsTo env input ⟨.empty, notes⟩ l) :
    ∃ last, Reach env (start env input ⟨.empty, notes⟩) last ∧ LastDrain env last l ∧
      l.handedOut = last.emitter.emissions := by
  obtain ⟨last, reach, drained⟩ :=
    exists_lastDrain loads.reach loads.isOpen (loads.done.waiting ▸ nofun) loads.done.queue
      loads.done.working
  exact ⟨last, reach, drained, handedOut_of_lastDrain (orderly_of_reach reach) drained⟩

/-- **Emitted chunks are settled up to the last drain.** What is emitted before it is settled, what
is emitted during it is lost, and so all is settled, with nothing pending, just when nothing is
emitted during it. -/
theorem settled_or_lost {notes : σ} (loads : LoadsTo env input ⟨.empty, notes⟩ l)
    (o : OutputOptions) :
    ∃ last, Reach env (start env input ⟨.empty, notes⟩) last ∧ LastDrain env last l ∧
      l.emitter.emissions = last.emitter.emissions ++ l.emitter.pending ∧
      (∀ m ∈ last.emitter.emissions, l.Settled o m) ∧
      (∀ m ∈ l.emitter.pending, l.Lost o m) ∧
      ((l.emitter.pending = [] ∧ ∀ m ∈ l.emitter.emissions, l.Settled o m) ↔
        l.emitter.emissions = last.emitter.emissions) := by
  have orderly := orderly_of_reach loads.reach
  obtain ⟨last, reach, drained, handedOut⟩ := exists_last loads
  have split : l.emitter.emissions = last.emitter.emissions ++ l.emitter.pending := by
    rw [← handedOut]
    exact orderly.emissions_eq
  have settled : ∀ m ∈ last.emitter.emissions, l.Settled o m := by
    intro m mem
    exact settled_of_handedOut loads orderly o (handedOut ▸ mem)
  refine ⟨last, reach, drained, split, settled, ?_, ?_, ?_⟩
  · intro m mem
    exact lost_of_pending loads orderly o mem
  · rintro ⟨none, _⟩
    rw [split, none, List.append_nil]
  · intro same
    have none : l.emitter.pending = [] := by
      rw [same] at split
      simpa using split
    exact ⟨none, fun m mem => settled m (same ▸ mem)⟩

/-! ## A load that loses a chunk -/

/-- A plugin whose module emits the chunk `again`, and which emits the chunk `late` when it resolves
that one. -/
def lateEmitter : Plugin Unit where
  name := "late"
  resolveId request := do
    if request.specifier = "again" then
      let _ ← Hook.emitChunk ⟨"late", none, some "late"⟩
    return some ⟨"main", false⟩
  load _ := do
    let _ ← Hook.emitChunk ⟨"again", none, some "again"⟩
    return some "main();"

/-- The environment of that plugin, with an empty disk. -/
def lateEnvironment : Environment Unit where
  disk := ⟨[], []⟩
  cwd := "/"
  plugins := [lateEmitter]
  externalTest _ _ _ := .ok false

theorem fetch_lateEnvironment :
    ((Loader.fetch lateEnvironment 1 [⟨"main", "main"⟩] ⟨.empty, ()⟩).bind fun r =>
      r.1.toOption.map fun _ => r.2.emitter.pending.map Emission.chunk) =
      some [⟨"late", none, some "late"⟩] := by
  decide

/-- The chunk `late` is lost. -/
theorem lost_lateEmission : ∃ l : Loading Unit,
    LoadsTo lateEnvironment [⟨"main", "main"⟩] ⟨.empty, ()⟩ l ∧
      ∃ m, m.chunk = ⟨"late", none, some "late"⟩ ∧ l.Lost {} m := by
  obtain ⟨l, loads, pending⟩ := exists_loadsTo
    (f := fun _ s => s.emitter.pending.map Emission.chunk) fetch_lateEnvironment
  have emitted : ⟨"late", none, some "late"⟩ ∈ l.emitter.pending.map Emission.chunk :=
    pending ▸ List.mem_cons_self
  obtain ⟨m, mem, chunk⟩ := List.mem_map.1 emitted
  obtain ⟨_, _, _, _, _, lost, _⟩ := settled_or_lost loads {}
  exact ⟨l, loads, m, chunk, lost m mem⟩

/-! ## Silent resolving -/

theorem silent_of_drain {ms rest : List Emission} {m : Emission} {h : Hook σ ModuleId}
    (silent : ∀ request, (Resolver.resolve env request).Silent)
    (phase : Phase.drain env ms = .draining m h rest) : h.Silent := by
  cases ms with
  | nil => cases phase
  | cons _ _ =>
    cases phase
    exact Loader.resolveEntry_silent (silent _)

/-- Hooks that emit nothing while they resolve requests leave the emitter alone in a drain. -/
theorem emitter_of_silent (silent : ∀ request, (Resolver.resolve env request).Silent)
    (draining : ∀ m h rest, last.phase = .draining m h rest → h.Silent)
    (steps : Relation.ReflTransGen (DrainStep env) last l) :
    l.emitter = last.emitter ∧ ∀ m h rest, l.phase = .draining m h rest → h.Silent := by
  induction steps with
  | refl => exact ⟨rfl, draining⟩
  | tail _ step ih =>
    obtain ⟨same, still⟩ := ih
    cases step with
    | tick phase ticks =>
      obtain ⟨rest, kept⟩ := (still _ _ _ phase).tick ticks
      refine ⟨kept.trans same, ?_⟩
      intro m h others phase
      cases phase
      exact rest
    | takeIn _ =>
      refine ⟨(congrArg Session.emitter (Loader.addResolved_session _ _ _)).trans same, ?_⟩
      intro m h others phase
      exact silent_of_drain silent phase

/-- **Where requests are resolved without emitting chunks, all emitted chunks are settled.** -/
theorem settled_of_silent {notes : σ} (loads : LoadsTo env input ⟨.empty, notes⟩ l)
    (silent : ∀ request, (Resolver.resolve env request).Silent) (o : OutputOptions) :
    l.emitter.pending = [] ∧ ∀ m ∈ l.emitter.emissions, l.Settled o m := by
  have orderly := orderly_of_reach loads.reach
  obtain ⟨last, _, drained, handedOut⟩ := exists_last loads
  obtain ⟨before, rfl⟩ := drained.taken
  have draining : ∀ m h rest, (takePending env before).phase = .draining m h rest → h.Silent :=
    fun _ _ _ phase => silent_of_drain silent phase
  have same := (emitter_of_silent silent draining drained.steps).1
  have all : l.emitter.emissions = l.handedOut := by rw [same, handedOut]
  constructor
  · have split := orderly.emissions_eq
    rw [all] at split
    simpa using split
  · intro m mem
    exact settled_of_handedOut loads orderly o (all ▸ mem)

end WorkerBundler.Loading
