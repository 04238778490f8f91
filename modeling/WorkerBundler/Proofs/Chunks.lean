import WorkerBundler.Chunk
import WorkerBundler.Proofs.Keyed
import WorkerBundler.Proofs.Loading.Worklist

/-!
# The chunks of a complete graph

Each module of a complete graph is in exactly one chunk (`perm_modules_ofGraph`). So the chunks of
such a graph can be named, and every module of it has a file name (`named_ofGraph`).
-/

namespace WorkerBundler.Chunk

/-! ## Listing -/

/-- The id at the end of the ids, unless it is among them. -/
def appendNew (ids : List ModuleId) (id : ModuleId) : List ModuleId :=
  if id ∈ ids then ids else ids ++ [id]

theorem mem_appendNew {ids : List ModuleId} {id x : ModuleId} :
    x ∈ appendNew ids id ↔ x ∈ ids ∨ x = id := by
  unfold appendNew
  split
  · rename_i known
    constructor
    · exact Or.inl
    · rintro (old | rfl)
      · exact old
      · exact known
  · simp

theorem nodup_appendNew {ids : List ModuleId} {id : ModuleId} (distinct : ids.Nodup) :
    (appendNew ids id).Nodup := by
  unfold appendNew
  split
  · exact distinct
  · rename_i unknown
    exact List.Nodup.append distinct (List.nodup_singleton _) (by simpa using unknown)

theorem mem_foldl_appendNew {ids more : List ModuleId} {x : ModuleId} :
    x ∈ more.foldl appendNew ids ↔ x ∈ ids ∨ x ∈ more := by
  induction more generalizing ids with
  | nil => simp
  | cons id more ih => rw [List.foldl_cons, ih, mem_appendNew, List.mem_cons, or_assoc]

theorem nodup_foldl_appendNew {ids : List ModuleId} (more : List ModuleId)
    (distinct : ids.Nodup) : (more.foldl appendNew ids).Nodup := by
  induction more generalizing ids with
  | nil => exact distinct
  | cons id more ih => exact ih (nodup_appendNew distinct)

theorem any_module (chunks : List Chunk) (id : ModuleId) :
    chunks.any (fun c => decide (c.module = id)) = decide (id ∈ chunks.map Chunk.module) := by
  rw [Bool.eq_iff_iff]
  simp

theorem modules_addUserEntry (chunks : List Chunk) (e : UserEntry) :
    (addUserEntry chunks e).map Chunk.module = appendNew (chunks.map Chunk.module) e.module := by
  rw [addUserEntry, any_module, appendNew]
  by_cases known : e.module ∈ chunks.map Chunk.module <;> simp [known]

theorem modules_addEmittedEntry (chunks : List Chunk) (e : EmittedEntry) :
    (addEmittedEntry chunks e).map Chunk.module =
      appendNew (chunks.map Chunk.module) e.module := by
  have marked : (chunks.map fun c => if c.module = e.module then { c with isEmittedEntry := true }
      else c).map Chunk.module = chunks.map Chunk.module := by
    rw [List.map_map]
    apply List.map_congr_left
    intro c _
    by_cases same : c.module = e.module <;> simp [same]
  rw [addEmittedEntry, any_module, appendNew]
  by_cases known : e.module ∈ chunks.map Chunk.module
  · rw [if_pos (decide_eq_true known), if_pos known, marked]
  · rw [if_neg (by simpa using known), if_neg known, List.map_append]
    rfl

theorem modules_addModule (chunks : List Chunk) (id : ModuleId) :
    (addModule chunks id).map Chunk.module = appendNew (chunks.map Chunk.module) id := by
  rw [addModule, any_module, appendNew]
  by_cases known : id ∈ chunks.map Chunk.module <;> simp [known]

theorem modules_foldl {α : Type} {add : List Chunk → α → List Chunk} (key : α → ModuleId)
    (each : ∀ chunks a, (add chunks a).map Chunk.module =
      appendNew (chunks.map Chunk.module) (key a)) (chunks : List Chunk) (items : List α) :
    (items.foldl add chunks).map Chunk.module =
      (items.map key).foldl appendNew (chunks.map Chunk.module) := by
  induction items generalizing chunks with
  | nil => rfl
  | cons a items ih => rw [List.foldl_cons, ih, each, List.map_cons, List.foldl_cons]

/-- The modules in the chunks of a graph: those of the entries, those of the emitted entries, and
the others, each at its first place. -/
theorem modules_ofGraph (g : Graph) :
    (ofGraph g).map Chunk.module =
      (g.entries.map UserEntry.module ++ g.emittedEntries.map EmittedEntry.module ++
        g.otherModules).foldl appendNew [] := by
  have others := modules_foldl id modules_addModule
    (g.emittedEntries.foldl addEmittedEntry (g.entries.foldl addUserEntry [])) g.otherModules
  have emitted := modules_foldl EmittedEntry.module modules_addEmittedEntry
    (g.entries.foldl addUserEntry []) g.emittedEntries
  have entries := modules_foldl UserEntry.module modules_addUserEntry [] g.entries
  rw [ofGraph, others, emitted, entries, List.foldl_append, List.foldl_append, List.map_id]
  rfl

/-- No module is in two chunks. -/
theorem nodup_modules_ofGraph (g : Graph) : ((ofGraph g).map Chunk.module).Nodup := by
  rw [modules_ofGraph]
  exact nodup_foldl_appendNew _ .nil

theorem mem_otherModules {g : Graph} {id : ModuleId} :
    id ∈ g.otherModules ↔ ∃ m ∈ g.modules, m.isUserEntry = false ∧
      (∀ e ∈ g.emittedEntries, e.module ≠ m.id) ∧ m.id = id := by
  rw [Graph.otherModules, (Ordered.perm_sort _ _).mem_iff]
  simp [and_assoc]

/-- Each module of a complete graph is in exactly one chunk, and nothing else is. -/
theorem perm_modules_ofGraph {g : Graph} (complete : g.Complete) :
    ((ofGraph g).map Chunk.module).Perm (g.modules.map Module.id) := by
  apply (List.perm_ext_iff_of_nodup (nodup_modules_ofGraph g) complete.nodup).2
  intro id
  rw [modules_ofGraph, mem_foldl_appendNew, List.mem_append, List.mem_append]
  constructor
  · rintro (empty | (entry | emitted) | other)
    · cases empty
    · obtain ⟨e, mem, rfl⟩ := List.mem_map.1 entry
      exact (complete.mem_iff _).2 (.entry mem)
    · obtain ⟨e, mem, rfl⟩ := List.mem_map.1 emitted
      exact (complete.mem_iff _).2 (.emittedEntry mem)
    · obtain ⟨m, mem, _, _, rfl⟩ := mem_otherModules.1 other
      exact List.mem_map_of_mem mem
  · intro mem
    obtain ⟨m, loaded, rfl⟩ := List.mem_map.1 mem
    cases entry : m.isUserEntry with
    | true =>
      obtain ⟨e, listed, same⟩ := (complete.entries m loaded).1 entry
      exact Or.inr (Or.inl (Or.inl (List.mem_map.2 ⟨e, listed, same⟩)))
    | false =>
      by_cases emitted : ∃ e ∈ g.emittedEntries, e.module = m.id
      · obtain ⟨e, listed, same⟩ := emitted
        exact Or.inr (Or.inl (Or.inr (List.mem_map.2 ⟨e, listed, same⟩)))
      · have none : ∀ e ∈ g.emittedEntries, e.module ≠ m.id := by
          intro e listed same
          exact emitted ⟨e, listed, same⟩
        exact Or.inr (Or.inr (mem_otherModules.2 ⟨m, loaded, entry, none, rfl⟩))

/-- The chunk of a module of a complete graph. -/
theorem existsUnique_chunk {g : Graph} (complete : g.Complete) {id : ModuleId}
    (mem : id ∈ g.modules.map Module.id) : ∃! c, c ∈ ofGraph g ∧ c.module = id := by
  have placed : id ∈ (ofGraph g).map Chunk.module := (perm_modules_ofGraph complete).mem_iff.2 mem
  obtain ⟨c, listed, here⟩ := List.mem_map.1 placed
  refine ⟨c, ⟨listed, here⟩, ?_⟩
  rintro c' ⟨listed', here'⟩
  exact eq_of_key (nodup_modules_ofGraph g) listed' listed (here'.trans here.symm)

/-! ## Naming -/

/-- A module of a complete graph is found by its id. -/
theorem module?_of_mem {g : Graph} (complete : g.Complete) {m : Module} (mem : m ∈ g.modules) :
    g.module? m.id = some m :=
  find?_key complete.nodup mem

theorem moduleIn_of_mem {g : Graph} (complete : g.Complete) {c : Chunk} (mem : c ∈ ofGraph g) :
    ∃ m ∈ g.modules, m.id = c.module ∧ c.moduleIn g = .ok m := by
  have known : c.module ∈ g.modules.map Module.id :=
    (perm_modules_ofGraph complete).mem_iff.1 (List.mem_map_of_mem mem)
  obtain ⟨m, listed, same⟩ := List.mem_map.1 known
  refine ⟨m, listed, same, ?_⟩
  rw [moduleIn, ← same, module?_of_mem complete listed]

theorem wantedFileNames_ok {g : Graph} (o : OutputOptions) {chunks : List Chunk}
    (known : ∀ c ∈ chunks, ∃ m, c.moduleIn g = .ok m) :
    ∃ wanted, wantedFileNames g o chunks = .ok wanted ∧
      wanted.map Prod.fst = chunks.map Chunk.module := by
  induction chunks with
  | nil => exact ⟨[], rfl, rfl⟩
  | cons c chunks ih =>
    obtain ⟨m, found⟩ := known c List.mem_cons_self
    obtain ⟨wanted, others, same⟩ := ih fun c mem => known c (List.mem_cons_of_mem _ mem)
    refine ⟨(c.module, wantedFileName o c (Digest.ofContent m.code)) :: wanted, ?_, ?_⟩
    · rw [wantedFileNames, found, others]
      rfl
    · rw [List.map_cons, List.map_cons, same]

theorem map_fst_makeUnique (used : List String) (wanted : List (ModuleId × String)) :
    (makeUnique used wanted).map Prod.fst = wanted.map Prod.fst := by
  induction wanted generalizing used with
  | nil => rfl
  | cons w wanted ih => simp [makeUnique, ih]

/-- The chunks of a complete graph get their file names. -/
theorem named_ofGraph {g : Graph} (complete : g.Complete) (o : OutputOptions) :
    ∃ names, named g o (ofGraph g) = .ok names ∧
      names.map Prod.fst = (ofGraph g).map Chunk.module := by
  have known : ∀ c ∈ ofGraph g, ∃ m, c.moduleIn g = .ok m := by
    intro c mem
    obtain ⟨m, _, _, found⟩ := moduleIn_of_mem complete mem
    exact ⟨m, found⟩
  obtain ⟨wanted, filled, same⟩ := wantedFileNames_ok o known
  refine ⟨makeUnique [] wanted, ?_, ?_⟩
  · rw [named, filled]
    rfl
  · rw [map_fst_makeUnique, same]

theorem of?_isSome {names : FileNames} {id : ModuleId} :
    (∃ name, names.of? id = some name) ↔ id ∈ names.map Prod.fst := by
  rw [← Option.isSome_iff_exists, FileNames.of?, Option.isSome_map, List.find?_isSome]
  simp

/-- Every module of a complete graph has a file name. -/
theorem exists_fileName {g : Graph} (complete : g.Complete) {names : FileNames}
    (same : names.map Prod.fst = (ofGraph g).map Chunk.module) {id : ModuleId}
    (mem : id ∈ g.modules.map Module.id) : ∃ name, names.of? id = some name := by
  rw [of?_isSome, same]
  exact (perm_modules_ofGraph complete).mem_iff.2 mem

end WorkerBundler.Chunk
