import WorkerBundler.Bundler
import WorkerBundler.Proofs.Loading.Emissions

/-!
# How a bundle fails

A graph that was loaded without an error can be bundled but for two reasons: an edit of a module's
text is refused, or a plugin fails while it finishes a chunk (`error_of_ofGraph`). That a module is
missing, is in no chunk, or has no file name are errors that the bundler guards against and never
comes to. `closed_of_loads` states this together with what the graph of a load consists of.
-/

namespace WorkerBundler

variable {σ : Type}

/-! ## Plugins that finish chunks -/

/-- The error is one that a plugin raises when it is to change a chunk, in the context of that
plugin. -/
def Plugin.Raises (plugins : List (Plugin σ)) (e : BuildError) : Prop :=
  ∃ p ∈ plugins, ∃ request s raised, ((p.renderChunk request).run s).1 = .error raised ∧
    e = raised.addContext s!"render_chunk of {p.name}"

theorem Plugin.Raises.cons {plugins : List (Plugin σ)} {e : BuildError} (p : Plugin σ)
    (raises : Plugin.Raises plugins e) : Plugin.Raises (p :: plugins) e := by
  obtain ⟨q, mem, rest⟩ := raises
  exact ⟨q, List.mem_cons_of_mem _ mem, rest⟩

theorem Plugin.error_of_renderAll {plugins : List (Plugin σ)} {chunk : RenderedChunk}
    {kind : Option SourceMapKind} {code : String} {maps : List SourceMap}
    {r r' : Plugin.Rendering σ} {e : BuildError}
    (h : Plugin.renderAll chunk kind plugins code maps r = (.error e, r')) :
    Plugin.Raises plugins e := by
  induction plugins generalizing code maps r with
  | nil => cases h
  | cons p rest ih =>
    rw [Plugin.renderAll] at h
    rcases ran : (p.renderChunk ⟨code, chunk, kind⟩).run r.session with ⟨raised | output, s⟩
    · rw [ran] at h
      cases h
      exact ⟨p, List.mem_cons_self, _, _, raised, congrArg Prod.fst ran, rfl⟩
    · rw [ran] at h
      cases output with
      | none => exact (ih h).cons p
      | some output => exact (ih h).cons p

namespace Bundle

variable {plugins : List (Plugin σ)} {names : FileNames} {kind : Option SourceMapKind}

/-- Chunks that have file names are finished unless a plugin fails. -/
theorem error_of_finishChunks {rendered : List (Chunk × String × Option SourceMap)}
    {r r' : Plugin.Rendering σ} {e : BuildError}
    (placed : ∀ x ∈ rendered, ∃ file, x.1.fileName names = .ok file)
    (h : finishChunks plugins names kind rendered r = (.error e, r')) :
    Plugin.Raises plugins e := by
  induction rendered generalizing r r' with
  | nil => cases h
  | cons x rest ih =>
    obtain ⟨c, code, map⟩ := x
    obtain ⟨file, here⟩ := placed _ List.mem_cons_self
    have told : c.toRendered names =
        .ok ⟨c.name, file, c.module.id, c.isUserEntry || c.isEmittedEntry⟩ := by
      rw [Chunk.toRendered, here]
      rfl
    rw [finishChunks, told] at h
    simp only at h
    split at h
    · rename_i failed
      cases h
      exact Plugin.error_of_renderAll failed
    · split at h
      · rename_i failed
        cases h
        exact ih (fun x mem => placed x (List.mem_cons_of_mem _ mem)) failed
      · cases h

theorem renderChunks_cons_ok {g : Graph} {cwd : String} {c : Chunk} {chunks : List Chunk}
    {rendered : List (Chunk × String × Option SourceMap)}
    (h : renderChunks g names cwd kind (c :: chunks) = .ok rendered) :
    ∃ first others, c.render g names cwd kind = .ok first ∧
      renderChunks g names cwd kind chunks = .ok others ∧ rendered = (c, first) :: others := by
  unfold renderChunks at h
  obtain ⟨first, here, h⟩ := exists_of_bind_ok h
  obtain ⟨others, rest, h⟩ := exists_of_bind_ok h
  cases h
  exact ⟨first, others, here, rest, rfl⟩

/-- Each chunk is rendered, in order. -/
theorem forall₂_renderChunks {g : Graph} {cwd : String} {chunks : List Chunk}
    {rendered : List (Chunk × String × Option SourceMap)}
    (h : renderChunks g names cwd kind chunks = .ok rendered) :
    List.Forall₂ (fun c x => x.1 = c ∧ c.render g names cwd kind = .ok x.2) chunks rendered := by
  induction chunks generalizing rendered with
  | nil =>
    cases h
    exact .nil
  | cons c chunks ih =>
    obtain ⟨first, others, here, rest, rfl⟩ := renderChunks_cons_ok h
    exact .cons ⟨rfl, here⟩ (ih rest)

theorem error_of_renderChunks {g : Graph} {cwd : String} {chunks : List Chunk} {e : BuildError}
    (h : renderChunks g names cwd kind chunks = .error e) :
    ∃ c ∈ chunks, c.render g names cwd kind = .error e := by
  induction chunks with
  | nil => cases h
  | cons c chunks ih =>
    unfold renderChunks at h
    rcases of_bind_error h with failed | ⟨first, _, h⟩
    · exact ⟨c, List.mem_cons_self, failed⟩
    · rcases of_bind_error h with failed | ⟨others, _, h⟩
      · obtain ⟨c', mem, failed⟩ := ih failed
        exact ⟨c', List.mem_cons_of_mem _ mem, failed⟩
      · cases h

end Bundle

/-! ## Rendering a chunk -/

namespace Chunk

variable {names : FileNames} {g : Graph}

/-- If the imported modules have file names, pointing to them fails only where an edit is
refused. -/
theorem error_of_redirectImports {file : String} {records : List ImportRecord} {t : EditedText}
    {e : BuildError}
    (placed : ∀ r ∈ records, r.target.isExternal = false → ∃ name, names.of? r.target = some name)
    (h : redirectImports names file records t = .error e) : ∃ fault, e = .fatal (.edit fault) := by
  induction records generalizing t with
  | nil => cases h
  | cons record rest ih =>
    have others : ∀ r ∈ rest, r.target.isExternal = false →
        ∃ name, names.of? r.target = some name :=
      fun r mem => placed r (List.mem_cons_of_mem _ mem)
    unfold redirectImports at h
    split at h
    · exact ih others h
    · rename_i inside
      obtain ⟨name, found⟩ := placed record List.mem_cons_self (by simpa using inside)
      rw [found] at h
      simp only at h
      split at h
      · exact ih others h
      · split at h
        · rename_i fault _
          cases h
          exact ⟨fault, rfl⟩
        · exact ih others h

theorem fileName_ok {c : Chunk} {name : String} (found : names.of? c.module = some name) :
    c.fileName names = .ok name := by
  rw [fileName, found]

/-- A chunk of a complete graph has a module and a file name, and so have its imports. -/
theorem placed_of_complete (complete : g.Complete)
    (same : names.map Prod.fst = (ofGraph g).map Chunk.module) {c : Chunk}
    (mem : c ∈ ofGraph g) :
    ∃ m file, c.moduleIn g = .ok m ∧ m ∈ g.modules ∧ m.id = c.module ∧
      c.fileName names = .ok file ∧
      ∀ r ∈ m.imports, r.target.isExternal = false → ∃ name, names.of? r.target = some name := by
  obtain ⟨m, listed, here, found⟩ := moduleIn_of_mem complete mem
  obtain ⟨file, named⟩ := exists_fileName complete same (List.mem_map_of_mem listed)
  refine ⟨m, file, found, listed, here, fileName_ok (here ▸ named), ?_⟩
  intro r mem' inside
  refine exists_fileName complete same ((complete.mem_iff _).2 ?_)
  have needed : g.Needed m.id := (complete.mem_iff _).1 (List.mem_map_of_mem listed)
  refine .dependency listed needed (List.mem_filter.2 ⟨List.mem_map_of_mem mem', ?_⟩)
  simp [inside]

/-- A chunk of a complete graph is rendered unless an edit is refused. -/
theorem error_of_render {c : Chunk} {cwd : String} {kind : Option SourceMapKind} {e : BuildError}
    (complete : g.Complete) (same : names.map Prod.fst = (ofGraph g).map Chunk.module)
    (mem : c ∈ ofGraph g) (h : c.render g names cwd kind = .error e) :
    ∃ fault, e = .fatal (.edit fault) := by
  obtain ⟨m, file, found, _, _, named, placed⟩ := placed_of_complete complete same mem
  rw [render, found, named] at h
  rcases of_bind_error (x := redirectImports names file m.imports (.ofSource m.code)) h with
    failed | ⟨t, _, h⟩
  · exact error_of_redirectImports placed failed
  · cases h

end Chunk

/-! ## Bundles of loaded graphs -/

variable {env : Environment σ} {input : List InputItem} {session : Session σ} {l : Loading σ}

/-- A bundle of a loaded graph fails only where an edit is refused or a plugin fails. -/
theorem error_of_ofGraph (loads : LoadsTo env input session l) {plugins : List (Plugin σ)}
    {cwd : String} {o : OutputOptions} {e : BuildError} {r : Plugin.Rendering σ}
    (h : Bundle.ofGraph plugins cwd o l.graph l.loader.session = (.error e, r)) :
    (∃ fault, e = .fatal (.edit fault)) ∨ Plugin.Raises plugins e := by
  have complete := complete_of_loads loads
  obtain ⟨names, emitter, recorded⟩ := Loading.exists_recorded loads o
  have assigned : Chunk.assignNames names l.graph.emittedEntries l.loader.session.emitter =
      .ok emitter := recorded.assigned
  rw [Bundle.ofGraph] at h
  simp only [recorded.named, assigned] at h
  split at h
  · rename_i failed
    cases h
    obtain ⟨c, mem, failed⟩ := Bundle.error_of_renderChunks failed
    exact Or.inl (Chunk.error_of_render complete recorded.modules mem failed)
  · rename_i rendered rendering
    refine Or.inr (Bundle.error_of_finishChunks ?_ h)
    intro x mem
    obtain ⟨c, listed, rfl, _⟩ :=
      exists_of_forall₂_right (Bundle.forall₂_renderChunks rendering) mem
    obtain ⟨_, file, _, _, _, named, _⟩ :=
      Chunk.placed_of_complete complete recorded.modules listed
    exact ⟨file, named⟩

/-- **The graph of a load is closed, traced to its environment, and fit to be bundled.** Its modules
are the needed ones, the work on each of them was begun once, and bundling it fails only where an
edit is refused or a plugin fails. -/
theorem closed_of_loads (loads : LoadsTo env input session l) :
    l.graph.Complete ∧
      (l.begun.Nodup ∧ l.begun.Perm (l.graph.modules.map Module.id)) ∧
      l.graph.ComesFrom env input l.handedOut l.emitter.emissions ∧
      ∀ (plugins : List (Plugin σ)) (cwd : String) (o : OutputOptions) (e : BuildError)
        (r : Plugin.Rendering σ),
        Bundle.ofGraph plugins cwd o l.graph l.loader.session = (.error e, r) →
        (∃ fault, e = .fatal (.edit fault)) ∨ Plugin.Raises plugins e := by
  refine ⟨complete_of_loads loads, begun_of_loads loads, comesFrom_of_loads loads, ?_⟩
  intro plugins cwd o e r failed
  exact error_of_ofGraph loads failed

/-! ## A small bundle -/

/-- A plugin with two modules that import each other. The first one also imports what lies outside,
and emits the second one. -/
def pairPlugin : Plugin Unit where
  name := "pair"
  resolveId request := return some ⟨request.specifier, request.specifier = "fs"⟩
  load id := do
    if id = "first" then
      let _ ← Hook.emitChunk ⟨"second", none, some "worker"⟩
      return some "import \"second\"; import 'fs';"
    else
      return some "export \x7b\x7d from \"first\";"

def pairEnvironment : Environment Unit where
  disk := ⟨[], []⟩
  cwd := "/"
  plugins := [pairPlugin]
  externalTest _ _ _ := .ok false

theorem fetch_pairEnvironment :
    ((Loader.fetch pairEnvironment 2 [⟨"main", "first"⟩] ⟨.empty, ()⟩).bind fun r =>
      r.1.toOption.map fun g => g.modules.map Module.id) =
      some [⟨"first", false⟩, ⟨"second", false⟩] := by
  decide

/-- Only the two modules are needed, and each of them was loaded once. -/
theorem needed_pairEnvironment : ∃ l : Loading Unit,
    LoadsTo pairEnvironment [⟨"main", "first"⟩] ⟨.empty, ()⟩ l ∧
      l.begun.Perm [⟨"first", false⟩, ⟨"second", false⟩] ∧
      ∀ id, l.graph.Needed id ↔ id = ⟨"first", false⟩ ∨ id = ⟨"second", false⟩ := by
  obtain ⟨l, loads, modules⟩ := exists_loadsTo (f := fun g _ => g.modules.map Module.id)
    fetch_pairEnvironment
  obtain ⟨complete, ⟨_, begun⟩, _⟩ := closed_of_loads loads
  refine ⟨l, loads, modules ▸ begun, ?_⟩
  intro id
  rw [← complete.mem_iff, modules]
  simp

end WorkerBundler
