import Mathlib.Data.List.Nodup
import WorkerBundler.Proofs.Loading.Provenance

/-!
# What a load has to load

`Graph.Needed` is the least set of ids that has the entries and the emitted entries of a graph and,
with a module of the graph, its dependencies. A finished load has loaded just these modules, each
one once (`complete_of_loads`, `begun_of_loads`).

An entry, an emitted chunk and a dependency all reach the queue by `Loader.enqueue`, so one lemma on
it carries `Loader.Tracks`: the ids seen so far are those that wait and those that were begun, each
one once, and all of them are needed. `Loading.Consistent` adds that what is needed has been seen
and that what was begun is worked on or in the graph.
-/

namespace WorkerBundler

variable {σ : Type} {env : Environment σ}

/-! ## Needed modules -/

namespace Graph

/-- A module that the graph cannot do without. -/
inductive Needed (g : Graph) : ModuleId → Prop
  | entry {e : UserEntry} : e ∈ g.entries → Needed g e.module
  | emittedEntry {e : EmittedEntry} : e ∈ g.emittedEntries → Needed g e.module
  | dependency {m : Module} {id : ModuleId} :
    m ∈ g.modules → Needed g m.id → id ∈ m.dependencies → Needed g id

/-- The id is that of an entry of the input. -/
def IsEntry (g : Graph) (id : ModuleId) : Prop := ∃ e ∈ g.entries, e.module = id

/-- A graph of the needed modules, each of them once, in which a module knows whether it is an entry
of the input. -/
structure Complete (g : Graph) : Prop where
  nodup : (g.modules.map Module.id).Nodup
  mem_iff : ∀ id, id ∈ g.modules.map Module.id ↔ g.Needed id
  internal : ∀ m ∈ g.modules, m.id.isExternal = false
  entries : ∀ m ∈ g.modules, m.isUserEntry = true ↔ g.IsEntry m.id

/-- All that is needed at once has been seen. -/
structure Covered (g : Graph) (seen : List ModuleId) : Prop where
  entries : ∀ e ∈ g.entries, e.module ∈ seen
  emittedEntries : ∀ e ∈ g.emittedEntries, e.module ∈ seen
  dependencies : ∀ m ∈ g.modules, ∀ id ∈ m.dependencies, id ∈ seen

theorem Needed.mono {g g' : Graph} {id : ModuleId} (entries : g.entries ⊆ g'.entries)
    (emittedEntries : g.emittedEntries ⊆ g'.emittedEntries) (modules : g.modules ⊆ g'.modules)
    (h : g.Needed id) : g'.Needed id := by
  induction h with
  | entry mem => exact .entry (entries mem)
  | emittedEntry mem => exact .emittedEntry (emittedEntries mem)
  | dependency mem _ dependency ih => exact .dependency (modules mem) ih dependency

theorem Covered.mem_of_needed {g : Graph} {seen : List ModuleId} (covered : g.Covered seen)
    {id : ModuleId} (needed : g.Needed id) : id ∈ seen := by
  cases needed with
  | entry mem => exact covered.entries _ mem
  | emittedEntry mem => exact covered.emittedEntries _ mem
  | dependency mem _ dependency => exact covered.dependencies _ mem _ dependency

theorem Covered.mem_of_isEntry {g : Graph} {seen : List ModuleId} (covered : g.Covered seen)
    {id : ModuleId} (entry : g.IsEntry id) : id ∈ seen := by
  obtain ⟨e, mem, rfl⟩ := entry
  exact covered.entries e mem

end Graph

/-! ## The queue -/

namespace Loader

/-- The ids seen so far are those that wait and those that were begun, each of them needed. -/
structure Tracks (l : Loader σ) (begun : List ModuleId) : Prop where
  nodup : l.seen.Nodup
  perm : l.seen.Perm (l.queue.map Task.id ++ begun)
  internal : ∀ id ∈ l.seen, id.isExternal = false
  needed : ∀ id ∈ l.seen, l.graph.Needed id
  entries : ∀ task ∈ l.queue, task.isUserEntry = true ↔ l.graph.IsEntry task.id

variable {l : Loader σ} {begun : List ModuleId} {task : Task} {id : ModuleId}

theorem mem_seen_enqueue : id ∈ (l.enqueue task).seen ↔ id ∈ l.seen ∨ id = task.id := by
  unfold enqueue
  split
  · rename_i seen
    constructor
    · exact Or.inl
    · rintro (old | rfl)
      · exact old
      · exact seen
  · simp

theorem mem_seen_enqueueAll {ids : List ModuleId} :
    id ∈ (l.enqueueAll ids).seen ↔ id ∈ l.seen ∨ id ∈ ids := by
  induction ids generalizing l with
  | nil => simp
  | cons first ids ih => rw [enqueueAll_cons, ih, mem_seen_enqueue, List.mem_cons, or_assoc]

theorem nodup_enqueue (nodup : l.seen.Nodup) : (l.enqueue task).seen.Nodup := by
  unfold Loader.enqueue
  split
  · exact nodup
  · rename_i unseen
    exact List.Nodup.append nodup (List.nodup_singleton _) (by simpa using unseen)

theorem perm_enqueue (perm : l.seen.Perm (l.queue.map Task.id ++ begun)) :
    (l.enqueue task).seen.Perm ((l.enqueue task).queue.map Task.id ++ begun) := by
  unfold Loader.enqueue
  split
  · exact perm
  · have moved : (l.queue.map Task.id ++ begun ++ [task.id]).Perm
        (l.queue.map Task.id ++ [task.id] ++ begun) := by
      rw [List.append_assoc, List.append_assoc]
      exact List.perm_append_comm.append_left _
    simpa using (perm.append_right [task.id]).trans moved

theorem Tracks.enqueue (h : l.Tracks begun) (internal : task.id.isExternal = false)
    (needed : l.graph.Needed task.id)
    (entry : task.id ∉ l.seen → (task.isUserEntry = true ↔ l.graph.IsEntry task.id)) :
    (l.enqueue task).Tracks begun := by
  refine ⟨nodup_enqueue h.nodup, perm_enqueue h.perm, ?_, ?_, ?_⟩
  · intro id mem
    rcases mem_seen_enqueue.1 mem with old | rfl
    · exact h.internal id old
    · exact internal
  · intro id mem
    rw [enqueue_graph]
    rcases mem_seen_enqueue.1 mem with old | rfl
    · exact h.needed id old
    · exact needed
  · intro t mem
    rw [enqueue_graph]
    unfold Loader.enqueue at mem
    split at mem
    · exact h.entries t mem
    · rename_i unseen
      rcases List.mem_append.1 mem with old | new
      · exact h.entries t old
      · rw [List.mem_singleton.1 new]
        exact entry unseen

/-- What is no entry of the input is queued as none. -/
theorem Tracks.enqueueAll {ids : List ModuleId} (h : l.Tracks begun)
    (covered : ∀ id, l.graph.IsEntry id → id ∈ l.seen)
    (internal : ∀ id ∈ ids, id.isExternal = false) (needed : ∀ id ∈ ids, l.graph.Needed id) :
    (l.enqueueAll ids).Tracks begun := by
  induction ids generalizing l with
  | nil => exact h
  | cons id ids ih =>
    rw [enqueueAll_cons]
    have first : (l.enqueue ⟨id, false⟩).Tracks begun := by
      apply h.enqueue (internal id List.mem_cons_self) (needed id List.mem_cons_self)
      intro unseen
      apply iff_of_false Bool.false_ne_true
      intro entry
      exact unseen (covered id entry)
    refine ih first ?_ (fun id mem => internal id (List.mem_cons_of_mem _ mem)) ?_
    · intro id entry
      rw [enqueue_graph] at entry
      exact mem_seen_enqueue.2 (Or.inl (covered id entry))
    · intro id mem
      rw [enqueue_graph]
      exact needed id (List.mem_cons_of_mem _ mem)

/-- A graph with more emitted entries and modules. -/
theorem Tracks.grow (h : l.Tracks begun) {g : Graph} (entries : g.entries = l.graph.entries)
    (emittedEntries : l.graph.emittedEntries ⊆ g.emittedEntries)
    (modules : l.graph.modules ⊆ g.modules) : Tracks { l with graph := g } begun where
  nodup := h.nodup
  perm := h.perm
  internal := h.internal
  needed := fun id mem =>
    (h.needed id mem).mono (entries ▸ List.Subset.refl _) emittedEntries modules
  entries := by
    intro task mem
    have same : g.IsEntry task.id ↔ l.graph.IsEntry task.id := by
      rw [Graph.IsEntry, Graph.IsEntry, entries]
    exact (h.entries task mem).trans same.symm

/-! ## Changes of the loader -/

theorem isEntry_addEntry {name : String} {id x : ModuleId} :
    (l.addEntry name id).graph.IsEntry x ↔ l.graph.IsEntry x ∨ x = id := by
  rw [addEntry, enqueue_graph]
  constructor
  · rintro ⟨e, mem, rfl⟩
    rcases List.mem_append.1 mem with old | new
    · exact Or.inl ⟨e, old, rfl⟩
    · exact Or.inr (congrArg UserEntry.module (List.mem_singleton.1 new))
  · rintro (⟨e, mem, rfl⟩ | rfl)
    · exact ⟨e, List.mem_append_left _ mem, rfl⟩
    · exact ⟨_, List.mem_append_right _ List.mem_cons_self, rfl⟩

/-- An entry is tracked if only entries have been seen before it. -/
theorem tracks_addEntry (name : String) {id : ModuleId} (internal : id.isExternal = false)
    (h : l.Tracks begun) (only : ∀ x ∈ l.seen, l.graph.IsEntry x) :
    (l.addEntry name id).Tracks begun := by
  have grown : Tracks
      { l with graph := { l.graph with entries := l.graph.entries ++ [⟨name, id⟩] } } begun :=
    { nodup := h.nodup
      perm := h.perm
      internal := h.internal
      needed := fun x mem => (h.needed x mem).mono (List.subset_append_left _ _)
        (List.Subset.refl _) (List.Subset.refl _)
      entries := by
        intro task mem
        have seen : task.id ∈ l.seen :=
          h.perm.mem_iff.2 (List.mem_append_left _ (List.mem_map_of_mem mem))
        obtain ⟨e, old, same⟩ := only task.id seen
        apply iff_of_true ((h.entries task mem).2 ⟨e, old, same⟩)
        exact ⟨e, List.mem_append_left _ old, same⟩ }
  refine grown.enqueue internal ?_ ?_
  · exact .entry (e := ⟨name, id⟩) (List.mem_append_right _ List.mem_cons_self)
  · intro _
    apply iff_of_true rfl
    exact ⟨_, List.mem_append_right _ List.mem_cons_self, rfl⟩

theorem covered_addEntry (name : String) (id : ModuleId) (covered : l.graph.Covered l.seen) :
    (l.addEntry name id).graph.Covered (l.addEntry name id).seen := by
  refine ⟨?_, ?_, ?_⟩
  · intro e mem
    apply mem_seen_enqueue.2
    rcases isEntry_addEntry.1 ⟨e, mem, rfl⟩ with old | new
    · exact Or.inl (covered.mem_of_isEntry old)
    · exact Or.inr new
  · intro e mem
    rw [addEntry, enqueue_graph] at mem
    exact mem_seen_enqueue.2 (Or.inl (covered.emittedEntries e mem))
  · intro m mem x dependency
    rw [addEntry, enqueue_graph] at mem
    exact mem_seen_enqueue.2 (Or.inl (covered.dependencies m mem x dependency))

/-- The entries that were taken in, and nothing else, have been seen. -/
theorem tracks_withEntries (entries : List UserEntry)
    (internal : ∀ e ∈ entries, e.module.isExternal = false) (h : l.Tracks begun)
    (covered : l.graph.Covered l.seen) (only : ∀ id ∈ l.seen, l.graph.IsEntry id) :
    (l.withEntries entries).Tracks begun ∧
      (l.withEntries entries).graph.Covered (l.withEntries entries).seen := by
  induction entries generalizing l with
  | nil => exact ⟨h, covered⟩
  | cons e entries ih =>
    rw [withEntries_cons]
    refine ih (fun x mem => internal x (List.mem_cons_of_mem _ mem))
      (tracks_addEntry e.name (internal e List.mem_cons_self) h only)
      (covered_addEntry e.name e.module covered) ?_
    intro id mem
    apply isEntry_addEntry.2
    rcases mem_seen_enqueue.1 mem with old | new
    · exact Or.inl (only id old)
    · exact Or.inr new

theorem enqueueAll_withGraph (l : Loader σ) (g : Graph) (ids : List ModuleId) :
    ({ l with graph := g } : Loader σ).enqueueAll ids = { l.enqueueAll ids with graph := g } := by
  induction ids generalizing l with
  | nil => rfl
  | cons id ids ih =>
    rw [enqueueAll_cons, enqueueAll_cons, ← ih]
    congr 1
    by_cases seen : id ∈ l.seen <;> simp [Loader.enqueue, seen]

/-- A module brings its dependencies. -/
theorem tracks_addModule {m : Module} (h : l.Tracks begun) (covered : l.graph.Covered l.seen)
    (seen : m.id ∈ l.seen) :
    (l.addModule m).Tracks begun ∧ (l.addModule m).graph.Covered (l.addModule m).seen := by
  have reordered : l.addModule m =
      ({ l with graph := { l.graph with modules := l.graph.modules ++ [m] } } :
        Loader σ).enqueueAll m.dependencies := by
    rw [enqueueAll_withGraph, addModule, enqueueAll_graph]
  have grown : Tracks { l with graph := { l.graph with modules := l.graph.modules ++ [m] } }
      begun :=
    h.grow rfl (List.Subset.refl _) (List.subset_append_left _ _)
  rw [reordered]
  constructor
  · refine grown.enqueueAll (fun id entry => covered.mem_of_isEntry entry) ?_ ?_
    · intro id mem
      simpa using (List.mem_filter.1 mem).2
    · intro id mem
      exact .dependency (List.mem_append_right _ List.mem_cons_self) (grown.needed _ seen) mem
  · rw [enqueueAll_graph]
    refine ⟨?_, ?_, ?_⟩
    · intro e mem
      exact mem_seen_enqueueAll.2 (Or.inl (covered.entries e mem))
    · intro e mem
      exact mem_seen_enqueueAll.2 (Or.inl (covered.emittedEntries e mem))
    · intro m' mem id dependency
      apply mem_seen_enqueueAll.2
      rcases List.mem_append.1 mem with old | new
      · exact Or.inl (covered.dependencies m' old id dependency)
      · rw [List.mem_singleton.1 new] at dependency
        exact Or.inr dependency

/-- An emitted chunk is seen at once. -/
theorem tracks_addEmitted {m : Emission} (h : l.Tracks begun) (covered : l.graph.Covered l.seen)
    (internal : id.isExternal = false) :
    (l.addEmitted m id).Tracks begun ∧
      (l.addEmitted m id).graph.Covered (l.addEmitted m id).seen := by
  have grown : Tracks { l with graph := { l.graph with
      emittedEntries := l.graph.emittedEntries ++ [⟨m.reference, m.chunk.name, id⟩] } } begun :=
    h.grow rfl (List.subset_append_left _ _) (List.Subset.refl _)
  constructor
  · refine grown.enqueue internal ?_ ?_
    · exact Graph.Needed.emittedEntry (e := ⟨m.reference, m.chunk.name, id⟩)
        (List.mem_append_right _ List.mem_cons_self)
    · intro unseen
      apply iff_of_false Bool.false_ne_true
      intro entry
      exact unseen (covered.mem_of_isEntry entry)
  · rw [addEmitted, enqueue_graph]
    refine ⟨?_, ?_, ?_⟩
    · intro e mem
      exact mem_seen_enqueue.2 (Or.inl (covered.entries e mem))
    · intro e mem
      rcases List.mem_append.1 mem with old | new
      · exact mem_seen_enqueue.2 (Or.inl (covered.emittedEntries e old))
      · rw [List.mem_singleton.1 new]
        exact mem_seen_enqueue.2 (Or.inr rfl)
    · intro m' mem id' dependency
      exact mem_seen_enqueue.2 (Or.inl (covered.dependencies m' mem id' dependency))

end Loader

/-! ## Loads -/

namespace Loading

/-- All that a load needs is loaded, worked on or queued, each id once. -/
structure Consistent (l : Loading σ) : Prop where
  tracks : l.loader.Tracks l.begun
  covered : l.graph.Covered l.loader.seen
  begun : l.begun.Perm (l.working.map (fun p => p.1.id) ++ l.graph.modules.map Module.id)
  working : ∀ p ∈ l.working, p.1.isUserEntry = true ↔ l.graph.IsEntry p.1.id
  modules : ∀ m ∈ l.graph.modules, m.isUserEntry = true ↔ l.graph.IsEntry m.id

variable {input : List InputItem} {session : Session σ} {l l' : Loading σ}

theorem Consistent.begin {before after : List Task} {task : Task} (h : l.Consistent)
    (queue : l.loader.queue = before ++ task :: after) :
    Consistent
      { l with
        loader := { l.loader with queue := before ++ after }
        working := l.working ++ [(task, .begin env task.id.id)]
        begun := l.begun ++ [task.id] } where
  tracks :=
    { nodup := h.tracks.nodup
      perm := by
        have perm := h.tracks.perm
        rw [queue] at perm
        apply perm.trans
        simp only [List.map_append, List.map_cons, List.append_assoc, List.cons_append]
        apply List.Perm.append_left _
        rw [← List.append_assoc]
        exact (List.perm_append_singleton _ _).symm
      internal := h.tracks.internal
      needed := h.tracks.needed
      entries := by
        intro t mem
        exact h.tracks.entries t (queue ▸ mem_of_mem_removed mem) }
  covered := h.covered
  begun := by
    apply (h.begun.append_right [task.id]).trans
    simp only [List.map_append, List.map_cons, List.map_nil, List.append_assoc]
    exact List.Perm.append_left _ List.perm_append_comm
  working := by
    intro p mem
    rcases List.mem_append.1 mem with old | new
    · exact h.working p old
    · rw [List.mem_singleton.1 new]
      exact h.tracks.entries task (queue ▸ List.mem_append_right _ List.mem_cons_self)
  modules := h.modules

/-- The work on a module changes nothing of this. -/
theorem Consistent.work {before after : List (Task × Work σ)} {task : Task} {w w' : Work σ}
    {s : Session σ} (h : l.Consistent) (working : l.working = before ++ (task, w) :: after) :
    Consistent { l.withSession s with working := before ++ (task, w') :: after } where
  tracks := ⟨h.tracks.nodup, h.tracks.perm, h.tracks.internal, h.tracks.needed, h.tracks.entries⟩
  covered := h.covered
  begun := by
    have begun := h.begun
    rw [working] at begun
    simpa [graph, withSession] using begun
  working := by
    intro p mem
    have same : ∃ q ∈ l.working, q.1 = p.1 := by
      rw [working]
      rcases eq_or_mem_of_mem_replaced mem with rfl | old
      · exact ⟨(task, w), List.mem_append_right _ List.mem_cons_self, rfl⟩
      · exact ⟨p, old, rfl⟩
    obtain ⟨q, old, same⟩ := same
    rw [← same]
    exact h.working q old
  modules := h.modules

theorem Consistent.receive {before after : List (Task × Work σ)} {task : Task} {w : Work σ}
    {m : Module} (h : l.Consistent) (working : l.working = before ++ (task, w) :: after)
    (id : m.id = task.id) (entry : m.isUserEntry = task.isUserEntry) :
    Consistent { l with loader := l.loader.receive (.ok m), working := before ++ after } := by
  have worked : (task, w) ∈ l.working := working ▸ List.mem_append_right _ List.mem_cons_self
  have seen : m.id ∈ l.loader.seen := by
    have begun : task.id ∈ l.begun :=
      h.begun.mem_iff.2 (List.mem_append_left _ (List.mem_map_of_mem worked))
    rw [id]
    exact h.tracks.perm.mem_iff.2 (List.mem_append_right _ begun)
  obtain ⟨tracks, covered⟩ := Loader.tracks_addModule h.tracks h.covered seen
  have modules : (l.loader.addModule m).graph.modules = l.graph.modules ++ [m] := by
    simp [Loader.addModule, graph]
  have isEntry : ∀ id, (l.loader.addModule m).graph.IsEntry id ↔ l.graph.IsEntry id := by
    intro id
    simp [Graph.IsEntry, Loader.addModule, graph]
  refine ⟨tracks, covered, ?_, ?_, ?_⟩
  · have begun := h.begun
    rw [working] at begun
    apply begun.trans
    show List.Perm _ (_ ++ (l.loader.addModule m).graph.modules.map Module.id)
    rw [modules]
    simp only [List.map_append, List.map_cons, List.map_nil, id, List.append_assoc,
      List.cons_append]
    apply List.Perm.append_left _
    rw [← List.append_assoc]
    exact (List.perm_append_singleton _ _).symm
  · intro p mem
    exact (h.working p (working ▸ mem_of_mem_removed mem)).trans (isEntry _).symm
  · intro m' mem
    refine Iff.trans ?_ (isEntry _).symm
    have mem' : m' ∈ (l.loader.addModule m).graph.modules := mem
    rw [modules] at mem'
    rcases List.mem_append.1 mem' with old | new
    · exact h.modules m' old
    · rw [List.mem_singleton.1 new, id, entry]
      exact h.working _ worked

theorem Consistent.addResolved {m : Emission} {id : ModuleId} {phase : Phase σ}
    (h : l.Consistent) (internal : id.isExternal = false) :
    Consistent { l with loader := l.loader.addResolved m (.ok id), phase := phase } := by
  obtain ⟨tracks, covered⟩ :=
    Loader.tracks_addEmitted (m := m) h.tracks h.covered internal
  have modules : (l.loader.addEmitted m id).graph.modules = l.graph.modules := by
    simp [Loader.addEmitted, graph]
  have isEntry : ∀ id', (l.loader.addEmitted m id).graph.IsEntry id' ↔ l.graph.IsEntry id' := by
    intro id'
    simp [Graph.IsEntry, Loader.addEmitted, graph]
  refine ⟨tracks, covered, ?_, ?_, ?_⟩
  · show List.Perm _ (_ ++ (l.loader.addEmitted m id).graph.modules.map Module.id)
    rw [modules]
    exact h.begun
  · intro p mem
    exact (h.working p mem).trans (isEntry _).symm
  · intro m' mem
    refine Iff.trans (h.modules m' ?_) (isEntry _).symm
    exact modules ▸ mem

/-- The session, the phase and the emissions handed out do not matter to it. -/
theorem Consistent.of_eq (h : l.Consistent) (graph : l'.graph = l.graph)
    (seen : l'.loader.seen = l.loader.seen) (queue : l'.loader.queue = l.loader.queue)
    (working : l'.working = l.working) (begun : l'.begun = l.begun) : l'.Consistent := by
  have graph' : l'.loader.graph = l.loader.graph := graph
  refine ⟨⟨?_, ?_, ?_, ?_, ?_⟩, ?_, ?_, ?_, ?_⟩
  · exact seen ▸ h.tracks.nodup
  · rw [seen, queue, begun]
    exact h.tracks.perm
  · exact seen ▸ h.tracks.internal
  · rw [seen, graph']
    exact h.tracks.needed
  · rw [queue, graph']
    exact h.tracks.entries
  · rw [graph, seen]
    exact h.covered
  · rw [begun, working, graph]
    exact h.begun
  · rw [working, graph]
    exact h.working
  · rw [graph]
    exact h.modules

theorem Consistent.step (explained : Explained env input l.emitter.emissions l)
    (isOpen : l.IsOpen) (step : Step env l l') (errors : l'.loader.errors = [])
    (h : l.Consistent) : l'.Consistent := by
  cases step with
  | resolveEntry phase _ => exact absurd phase (isOpen _)
  | opened phase _ => exact absurd phase (isOpen _)
  | take _ => exact h.of_eq rfl rfl rfl rfl rfl
  | begin queue => exact h.begin queue
  | work working _ => exact h.work working
  | arrive _ working ends =>
    obtain ⟨_, m, rfl⟩ := Loader.receive_errors errors
    have worked := explained.working _ (working ▸ List.mem_append_right _ List.mem_cons_self)
    obtain ⟨id, entry, _⟩ := worked.ends ends
    exact (h.receive working id entry).of_eq rfl rfl rfl rfl rfl
  | drain drains =>
    cases drains with
    | tick _ _ => exact h.of_eq rfl rfl rfl rfl rfl
    | takeIn phase =>
      obtain ⟨_, id, rfl⟩ := Loader.addResolved_errors errors
      have answers := (explained.draining _ _ _ phase).mayAnswer
      exact h.addResolved (Loader.mayAnswer_of_resolveEntry answers).1

theorem consistent_of_reach (h : Reach env (start env input session) l) (isOpen : l.IsOpen)
    (errors : l.loader.errors = []) : l.Consistent := by
  refine invariant_of_reach (P := Consistent) ?_ ?_ h isOpen errors
  · intro entries s resolved
    have internal : ∀ e ∈ entries, e.module.isExternal = false := by
      intro e mem
      obtain ⟨item, _, _, answers⟩ := exists_of_forall₂_right resolved mem
      exact (Loader.mayAnswer_of_resolveEntry answers).1
    have blank : (Loader.start s).Tracks [] := ⟨.nil, .nil, nofun, nofun, nofun⟩
    obtain ⟨tracks, covered⟩ :=
      Loader.tracks_withEntries entries internal blank ⟨nofun, nofun, nofun⟩ nofun
    have modules : ((Loader.start s).withEntries entries).graph.modules = [] := by
      rw [Loader.withEntries_graph]
      rfl
    refine ⟨tracks, covered, ?_, nofun, ?_⟩
    · simp [entered, graph, modules]
    · simp [entered, graph, modules]
  · intro l l' reach isOpen step errors consistent
    have explained := explained_of_reach reach isOpen (errors_of_step step errors)
    exact consistent.step explained isOpen step errors

end Loading

variable {input : List InputItem} {session : Session σ} {l : Loading σ}

theorem LoadsTo.isOpen (loads : LoadsTo env input session l) : l.IsOpen := by
  intro jobs phase
  rw [loads.done.waiting] at phase
  cases phase

/-- **Work was begun once on each module of a finished load, and on no other.** -/
theorem begun_of_loads (loads : LoadsTo env input session l) :
    l.begun.Nodup ∧ l.begun.Perm (l.graph.modules.map Module.id) := by
  have consistent := Loading.consistent_of_reach loads.reach loads.isOpen loads.errors
  have seen : l.loader.seen.Perm l.begun := by
    simpa [loads.done.queue] using consistent.tracks.perm
  refine ⟨seen.nodup_iff.1 consistent.tracks.nodup, ?_⟩
  simpa [loads.done.working] using consistent.begun

/-- **A finished load has loaded just the needed modules.** -/
theorem complete_of_loads (loads : LoadsTo env input session l) : l.graph.Complete := by
  have consistent := Loading.consistent_of_reach loads.reach loads.isOpen loads.errors
  obtain ⟨nodup, begun⟩ := begun_of_loads loads
  have seen : l.loader.seen.Perm (l.graph.modules.map Module.id) := by
    have seen : l.loader.seen.Perm l.begun := by
      simpa [loads.done.queue] using consistent.tracks.perm
    exact seen.trans begun
  refine ⟨begun.nodup_iff.1 nodup, ?_, ?_, consistent.modules⟩
  · intro id
    constructor
    · intro mem
      exact consistent.tracks.needed id (seen.mem_iff.2 mem)
    · intro needed
      exact seen.mem_iff.1 (consistent.covered.mem_of_needed needed)
  · intro m mem
    exact consistent.tracks.internal m.id (seen.mem_iff.2 (List.mem_map_of_mem mem))

end WorkerBundler
