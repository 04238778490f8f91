import WorkerBundler.Proofs.Bundling

/-!
# The order of the chunks

The chunks of a loaded graph are those of the entries of the input, those of the emitted entries
whose modules are no entries of the input, and those of the other modules by their ids
(`listing_of_loads`). A module that several entries name is taken at the first of them:
`firstsOf` leaves out the keys that came before.

`Chunk.ofGraph` adds the chunks one by one to those it has. Each of its three passes keeps the
chunks of the pass before, except that an emitted entry marks the chunk that its module has, so each
pass is described by what it appends (`foldl_addUserEntry`, `foldl_addEmittedEntry`,
`foldl_addModule`).
-/

namespace WorkerBundler

variable {σ : Type}

/-! ## First occurrences -/

section

variable {α : Type}

/-- The first item of each key that is not among the seen ones, in order. -/
def firstsOf (key : α → ModuleId) (seen : List ModuleId) : List α → List α
  | [] => []
  | a :: rest =>
    if key a ∈ seen then firstsOf key seen rest
    else a :: firstsOf key (seen ++ [key a]) rest

/-- Items with distinct keys, none of which was seen, are all first ones. -/
theorem firstsOf_eq_self {key : α → ModuleId} {seen : List ModuleId} {items : List α}
    (distinct : (items.map key).Nodup) (unseen : ∀ a ∈ items, key a ∉ seen) :
    firstsOf key seen items = items := by
  induction items generalizing seen with
  | nil => rfl
  | cons a rest ih =>
    rw [List.map_cons, List.nodup_cons] at distinct
    rw [firstsOf, if_neg (unseen a List.mem_cons_self), ih distinct.2]
    intro b mem known
    rcases List.mem_append.1 known with old | new
    · exact unseen b (List.mem_cons_of_mem _ mem) old
    · exact distinct.1 (List.mem_singleton.1 new ▸ List.mem_map_of_mem mem)

theorem of_mem_firstsOf {key : α → ModuleId} {seen : List ModuleId} {items : List α} {a : α}
    (mem : a ∈ firstsOf key seen items) : a ∈ items ∧ key a ∉ seen := by
  induction items generalizing seen with
  | nil => cases mem
  | cons b rest ih =>
    rw [firstsOf] at mem
    split at mem
    · obtain ⟨later, unseen⟩ := ih mem
      exact ⟨List.mem_cons_of_mem _ later, unseen⟩
    · rename_i unseen
      rcases List.mem_cons.1 mem with rfl | mem
      · exact ⟨List.mem_cons_self, unseen⟩
      · obtain ⟨later, unseen'⟩ := ih mem
        exact ⟨List.mem_cons_of_mem _ later, fun known => unseen' (List.mem_append_left _ known)⟩

/-- Of the seen keys only their set matters. -/
theorem firstsOf_congr {key : α → ModuleId} {seen seen' : List ModuleId}
    (same : ∀ id, id ∈ seen ↔ id ∈ seen') (items : List α) :
    firstsOf key seen items = firstsOf key seen' items := by
  induction items generalizing seen seen' with
  | nil => rfl
  | cons a rest ih =>
    have further : ∀ id, id ∈ seen ++ [key a] ↔ id ∈ seen' ++ [key a] := by
      intro id
      rw [List.mem_append, List.mem_append, same]
    simp only [firstsOf, same, ih same, ih further]

end

/-- The id is that of the module of an emitted entry. -/
def Graph.IsEmitted (g : Graph) (id : ModuleId) : Prop := ∃ e ∈ g.emittedEntries, e.module = id

namespace Chunk

/-! ## The three passes -/

/-- Whether one of the emitted entries has the module. -/
def marks (entries : List EmittedEntry) (id : ModuleId) : Bool :=
  entries.any (·.module = id)

/-- The chunk, marked if one of the emitted entries has its module. -/
def marked (entries : List EmittedEntry) (c : Chunk) : Chunk :=
  { c with isEmittedEntry := c.isEmittedEntry || marks entries c.module }

/-- The chunk of an entry of the input. -/
def ofUserEntry (e : UserEntry) : Chunk := ⟨e.name, e.module, true, false⟩

/-- The chunk of an emitted entry. -/
def ofEmittedEntry (e : EmittedEntry) : Chunk :=
  ⟨e.name.getD (nameOfModule e.module.id), e.module, false, true⟩

/-- The chunk of a module that is no entry. -/
def ofModule (id : ModuleId) : Chunk := ⟨nameOfModule id.id, id, false, false⟩

theorem marked_nil : marked [] = id := by
  funext c
  simp [marked, marks]

/-- Marking a chunk for one entry and for the others is marking it for all of them. -/
theorem marked_marked (e : EmittedEntry) (entries : List EmittedEntry) (c : Chunk) :
    marked entries (if c.module = e.module then { c with isEmittedEntry := true } else c) =
      marked (e :: entries) c := by
  by_cases same : c.module = e.module
  · simp [marked, marks, same]
  · simp [marked, marks, same, Ne.symm same]

theorem foldl_addUserEntry (chunks : List Chunk) (entries : List UserEntry) :
    entries.foldl addUserEntry chunks =
      chunks ++
        (firstsOf UserEntry.module (chunks.map Chunk.module) entries).map ofUserEntry := by
  induction entries generalizing chunks with
  | nil => simp [firstsOf]
  | cons e entries ih =>
    rw [List.foldl_cons, ih, addUserEntry, any_module, firstsOf]
    by_cases known : e.module ∈ chunks.map Chunk.module
    · rw [if_pos (decide_eq_true known), if_pos known]
    · rw [if_neg (by simpa using known), if_neg known, List.map_append, List.append_assoc]
      rfl

theorem foldl_addEmittedEntry (chunks : List Chunk) (entries : List EmittedEntry) :
    entries.foldl addEmittedEntry chunks =
      chunks.map (marked entries) ++
        (firstsOf EmittedEntry.module (chunks.map Chunk.module) entries).map ofEmittedEntry := by
  induction entries generalizing chunks with
  | nil => simp [firstsOf, marked_nil]
  | cons e entries ih =>
    have modules := modules_addEmittedEntry chunks e
    rw [List.foldl_cons, ih, modules, appendNew, firstsOf, addEmittedEntry, any_module]
    by_cases known : e.module ∈ chunks.map Chunk.module
    · rw [if_pos (decide_eq_true known), if_pos known, if_pos known, List.map_map]
      congr 2
      funext c
      exact marked_marked e entries c
    · have others : chunks.map (marked entries) = chunks.map (marked (e :: entries)) := by
        apply List.map_congr_left
        intro c mem
        have other : c.module ≠ e.module := fun same => known (same ▸ List.mem_map_of_mem mem)
        rw [← marked_marked, if_neg other]
      rw [if_neg (by simpa using known), if_neg known, if_neg known, List.map_append, others,
        List.append_assoc]
      rfl

theorem foldl_addModule (chunks : List Chunk) (ids : List ModuleId) :
    ids.foldl addModule chunks =
      chunks ++ (firstsOf id (chunks.map Chunk.module) ids).map ofModule := by
  induction ids generalizing chunks with
  | nil => simp [firstsOf]
  | cons a ids ih =>
    rw [List.foldl_cons, ih, addModule, any_module, firstsOf]
    by_cases known : a ∈ chunks.map Chunk.module
    · rw [if_pos (decide_eq_true known), if_pos (by exact known)]
    · rw [if_neg (by simpa using known), if_neg (by exact known), List.map_append,
        List.append_assoc]
      rfl

/-! ## All chunks -/

/-- The chunks of the graph in their order: those of the entries of the input, those of the emitted
entries, and those of the modules that are neither. -/
structure Listing (g : Graph) (chunks : List Chunk) : Prop where
  order : chunks =
    (firstsOf UserEntry.module [] g.entries).map
        (fun e => marked g.emittedEntries (ofUserEntry e)) ++
      (firstsOf EmittedEntry.module (g.entries.map UserEntry.module) g.emittedEntries).map
        ofEmittedEntry ++
      g.otherModules.map ofModule
  ascending : g.otherModules.Pairwise fun a b => a.id < b.id
  mem_otherModules : ∀ id, id ∈ g.otherModules ↔
    id ∈ g.modules.map Module.id ∧ ¬g.IsEntry id ∧ ¬g.IsEmitted id
  once : (chunks.map Chunk.module).Nodup
  modules : (chunks.map Chunk.module).Perm (g.modules.map Module.id)
  isUserEntry : ∀ c ∈ chunks, c.isUserEntry = true ↔ g.IsEntry c.module
  isEmittedEntry : ∀ c ∈ chunks, c.isEmittedEntry = true ↔ g.IsEmitted c.module

variable {g : Graph}

theorem marks_iff {id : ModuleId} : marks g.emittedEntries id = true ↔ g.IsEmitted id := by
  simp [marks, Graph.IsEmitted]

theorem mem_entries_iff {id : ModuleId} :
    id ∈ g.entries.map UserEntry.module ↔ g.IsEntry id :=
  List.mem_map

/-- The modules of a complete graph that are no entries, as they are listed. -/
theorem mem_otherModules_iff (complete : g.Complete) {id : ModuleId} :
    id ∈ g.otherModules ↔ id ∈ g.modules.map Module.id ∧ ¬g.IsEntry id ∧ ¬g.IsEmitted id := by
  rw [mem_otherModules]
  constructor
  · rintro ⟨m, mem, plain, unemitted, rfl⟩
    refine ⟨List.mem_map_of_mem mem, ?_, ?_⟩
    · intro entry
      rw [(complete.entries m mem).2 entry] at plain
      cases plain
    · rintro ⟨e, listed, same⟩
      exact unemitted e listed same
  · rintro ⟨mem, noEntry, unemitted⟩
    obtain ⟨m, loaded, rfl⟩ := List.mem_map.1 mem
    refine ⟨m, loaded, ?_, fun e listed same => unemitted ⟨e, listed, same⟩, rfl⟩
    exact Bool.eq_false_iff.2 fun entry => noEntry ((complete.entries m loaded).1 entry)

theorem nodup_otherModules (complete : g.Complete) : g.otherModules.Nodup := by
  rw [Graph.otherModules, (Ordered.perm_sort _ _).nodup_iff]
  exact complete.nodup.sublist (List.filter_sublist.map Module.id)

/-- The modules of a complete graph that are no entries ascend by their ids. -/
theorem pairwise_otherModules (complete : g.Complete) :
    g.otherModules.Pairwise fun a b => a.id < b.id := by
  have sorted : g.otherModules.Pairwise (ModuleId.le · · = true) :=
    Ordered.pairwise_sort ModuleId.le_total ModuleId.le_trans _
  refine (sorted.and (nodup_otherModules complete)).imp_of_mem ?_
  rintro a b left right ⟨le, other⟩
  rcases ModuleId.le_iff.1 le with before | ⟨same, _⟩
  · exact before
  · -- ids that agree denote one module, as no module of the graph lies outside
    have internal : ∀ id ∈ g.otherModules, id.isExternal = false := by
      intro id mem
      obtain ⟨m, loaded, _, _, rfl⟩ := mem_otherModules.1 mem
      exact complete.internal m loaded
    have both : a.isExternal = b.isExternal := (internal a left).trans (internal b right).symm
    exact absurd (congrArg₂ ModuleId.mk same both) other

/-- The chunks of a complete graph are those of the three passes. -/
theorem ofGraph_eq (complete : g.Complete) :
    ofGraph g =
      (firstsOf UserEntry.module [] g.entries).map
          (fun e => marked g.emittedEntries (ofUserEntry e)) ++
        (firstsOf EmittedEntry.module (g.entries.map UserEntry.module) g.emittedEntries).map
          ofEmittedEntry ++
        g.otherModules.map ofModule := by
  have users : ∀ id, id ∈ (g.entries.foldl addUserEntry []).map Chunk.module ↔
      id ∈ g.entries.map UserEntry.module := by
    intro id
    rw [modules_foldl UserEntry.module modules_addUserEntry, mem_foldl_appendNew]
    simp
  have unseen : ∀ id ∈ g.otherModules, id ∉
      (g.emittedEntries.foldl addEmittedEntry (g.entries.foldl addUserEntry [])).map
        Chunk.module := by
    intro id mem known
    obtain ⟨_, noEntry, unemitted⟩ := (mem_otherModules_iff complete).1 mem
    rw [modules_foldl EmittedEntry.module modules_addEmittedEntry, mem_foldl_appendNew,
      users] at known
    rcases known with entry | emitted
    · exact noEntry (mem_entries_iff.1 entry)
    · exact unemitted (List.mem_map.1 emitted)
  have others : firstsOf id
      ((g.emittedEntries.foldl addEmittedEntry (g.entries.foldl addUserEntry [])).map
        Chunk.module) g.otherModules = g.otherModules :=
    firstsOf_eq_self (by simpa using nodup_otherModules complete) unseen
  rw [ofGraph, foldl_addModule, others, foldl_addEmittedEntry, firstsOf_congr users,
    foldl_addUserEntry, List.nil_append, List.map_map]
  rfl

/-- A chunk of a complete graph comes from one of the three passes. -/
theorem origin_of_mem (complete : g.Complete) {c : Chunk} (mem : c ∈ ofGraph g) :
    (∃ e ∈ g.entries, c = marked g.emittedEntries (ofUserEntry e)) ∨
      (∃ e ∈ g.emittedEntries, ¬g.IsEntry e.module ∧ c = ofEmittedEntry e) ∨
      ∃ id ∈ g.otherModules, c = ofModule id := by
  rw [ofGraph_eq complete] at mem
  rcases List.mem_append.1 mem with mem | other
  · rcases List.mem_append.1 mem with user | emitted
    · obtain ⟨e, first, rfl⟩ := List.mem_map.1 user
      exact Or.inl ⟨e, (of_mem_firstsOf first).1, rfl⟩
    · obtain ⟨e, first, rfl⟩ := List.mem_map.1 emitted
      obtain ⟨listed, noEntry⟩ := of_mem_firstsOf first
      exact Or.inr (Or.inl ⟨e, listed, fun entry => noEntry (mem_entries_iff.2 entry), rfl⟩)
  · obtain ⟨id, listed, rfl⟩ := List.mem_map.1 other
    exact Or.inr (Or.inr ⟨id, listed, rfl⟩)

theorem listing_of_complete (complete : g.Complete) : Listing g (ofGraph g) := by
  refine ⟨ofGraph_eq complete, pairwise_otherModules complete,
    fun id => mem_otherModules_iff complete, nodup_modules_ofGraph g,
    perm_modules_ofGraph complete, ?_, ?_⟩
  · intro c mem
    obtain ⟨e, listed, rfl⟩ | ⟨e, _, noEntry, rfl⟩ | ⟨id, other, rfl⟩ :=
      origin_of_mem complete mem
    · exact ⟨fun _ => ⟨e, listed, rfl⟩, fun _ => rfl⟩
    · exact ⟨nofun, fun entry => absurd entry noEntry⟩
    · exact ⟨nofun, fun entry => absurd entry ((mem_otherModules_iff complete).1 other).2.1⟩
  · intro c mem
    obtain ⟨e, _, rfl⟩ | ⟨e, listed, _, rfl⟩ | ⟨id, other, rfl⟩ := origin_of_mem complete mem
    · exact marks_iff
    · exact ⟨fun _ => ⟨e, listed, rfl⟩, fun _ => rfl⟩
    · exact ⟨nofun, fun emitted => absurd emitted ((mem_otherModules_iff complete).1 other).2.2⟩

/-- A chunk with a file name is told to be an entry if its module is one, of whichever kind. -/
theorem Listing.isEntry {chunks : List Chunk} {names : FileNames} {c : Chunk}
    {rendered : RenderedChunk} (listing : Listing g chunks) (mem : c ∈ chunks)
    (told : c.toRendered names = .ok rendered) :
    rendered.isEntry = true ↔ g.IsEntry c.module ∨ g.IsEmitted c.module := by
  obtain ⟨file, _, same⟩ := exists_of_bind_ok told
  cases same
  rw [Bool.or_eq_true, listing.isUserEntry c mem, listing.isEmittedEntry c mem]

variable {env : Environment σ} {input : List InputItem} {notes : σ} {l : Loading σ}

/-- **The chunks of a loaded graph are its modules, entries first.** The entries of the graph stand
in the order of the input, and its emitted entries in that of the emissions. -/
theorem listing_of_loads (loads : LoadsTo env input ⟨.empty, notes⟩ l) :
    l.graph.entries.map UserEntry.name = input.map InputItem.name ∧
      l.graph.emittedEntries.map EmittedEntry.reference <+:
        l.emitter.emissions.map Emission.reference ∧
      Listing l.graph (ofGraph l.graph) ∧
      ∀ o, ∃ names, named l.graph o (ofGraph l.graph) = .ok names ∧
        ∀ c ∈ ofGraph l.graph, ∃ rendered, c.toRendered names = .ok rendered ∧
          (rendered.isEntry = true ↔ l.graph.IsEntry c.module ∨ l.graph.IsEmitted c.module) := by
  have complete := complete_of_loads loads
  have origin := comesFrom_of_loads loads
  have listing := listing_of_complete complete
  refine ⟨?_, ?_, listing, ?_⟩
  · have names := List.forall₂_map_left_iff.2
      (List.forall₂_map_right_iff.2 (origin.entries.imp fun _ _ own => own.1.symm))
    exact (List.forall₂_eq_eq_eq ▸ names).symm
  · rw [Loading.references_of_comesFrom origin.emittedEntries,
      (Loading.orderly_of_reach loads.reach).emissions_eq, List.map_append]
    exact List.prefix_append _ _
  · intro o
    obtain ⟨names, named, modules⟩ := named_ofGraph complete o
    refine ⟨names, named, ?_⟩
    intro c mem
    obtain ⟨m, file, _, _, _, placed, _⟩ := placed_of_complete complete modules mem
    have told : c.toRendered names =
        .ok ⟨c.name, file, c.module.id, c.isUserEntry || c.isEmittedEntry⟩ := by
      rw [toRendered, placed]
      rfl
    exact ⟨_, told, listing.isEntry mem told⟩

/-! ## Overlapping entries -/

/-- A plugin whose modules have the text of the listed ones; `main` emits itself and, twice, a
worker. -/
def overlapPlugin : Plugin Unit where
  name := "overlap"
  resolveId request := return some ⟨request.specifier, false⟩
  load id := do
    if id = "main" then
      let _ ← Hook.emitChunk ⟨"main", none, some "self"⟩
      let _ ← Hook.emitChunk ⟨"worker", none, some "job"⟩
      let _ ← Hook.emitChunk ⟨"worker", none, none⟩
      return some "import 'z'; import 'a';"
    else
      return some "import 'side';"

def overlapEnvironment : Environment Unit where
  disk := ⟨[], []⟩
  cwd := "/"
  plugins := [overlapPlugin]
  externalTest _ _ _ := .ok false

/-- Two entries of one module, and an entry that other modules import. -/
def overlapInput : List InputItem := [⟨"first", "main"⟩, ⟨"second", "main"⟩, ⟨"side", "side"⟩]

/-- The chunks of that input. -/
def overlapChunks : List Chunk :=
  [⟨"first", ⟨"main", false⟩, true, true⟩, ⟨"side", ⟨"side", false⟩, true, false⟩,
    ⟨"job", ⟨"worker", false⟩, false, true⟩, ⟨"a", ⟨"a", false⟩, false, false⟩,
    ⟨"z", ⟨"z", false⟩, false, false⟩]

theorem fetch_overlapEnvironment :
    ((Loader.fetch overlapEnvironment 5 overlapInput ⟨.empty, ()⟩).bind fun r =>
      r.1.toOption.map fun g => (g.modules.map fun m => m.id.id, ofGraph g)) =
      some (["main", "side", "z", "a", "worker"], overlapChunks) := by
  decide

/-- The chunk of `main` has the first name and stands for its emission too, and the modules that are
no entries follow by their ids. -/
theorem listing_overlap : ∃ l : Loading Unit,
    LoadsTo overlapEnvironment overlapInput ⟨.empty, ()⟩ l ∧
      l.graph.modules.map (fun m => m.id.id) = ["main", "side", "z", "a", "worker"] ∧
      ofGraph l.graph = overlapChunks ∧ Listing l.graph overlapChunks := by
  obtain ⟨l, loads, known⟩ := exists_loadsTo
    (f := fun g _ => (g.modules.map fun m => m.id.id, ofGraph g)) fetch_overlapEnvironment
  obtain ⟨modules, chunks⟩ := Prod.mk.inj known
  obtain ⟨_, _, listing, _⟩ := listing_of_loads loads
  exact ⟨l, loads, modules, chunks, chunks ▸ listing⟩

end Chunk

end WorkerBundler
