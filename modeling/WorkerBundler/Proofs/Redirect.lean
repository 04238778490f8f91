import WorkerBundler.Proofs.Bundling
import WorkerBundler.Proofs.EditedSpans
import WorkerBundler.Proofs.ImportSpans

/-!
# Imports that point to chunks

The text of a rendered chunk is the code of its module with some import specifiers replaced:
`rewrites` lists the replacements, one for each import of a module of the bundle whose specifier
does not yet read as the request for the file of that module. An import then reads as it should,
`redirected`, and the request leads from the directory of the chunk to the file of the imported
module (`redirected_of_render`).

The scan also finds imports inside of quoted texts, so one specifier may contain another. If the
inner one is replaced and the outer one is not, the outer one no longer reads as it did: hence the
condition on specifiers that stay.
-/

namespace WorkerBundler.Chunk

variable {names : FileNames} {file : String}

/-- The replacement of a specifier, if it has to be replaced. -/
def rewrite? (names : FileNames) (file : String) (r : ImportRecord) : Option Edit :=
  if r.target.isExternal then none
  else
    match names.of? r.target with
    | none => none
    | some target =>
      if OutputPath.requestFrom file target = r.site.specifier then none
      else some ⟨r.site.start, r.site.stop, OutputPath.requestFrom file target⟩

/-- The replacements of specifiers in a chunk. -/
def rewrites (names : FileNames) (file : String) (records : List ImportRecord) : List Edit :=
  records.filterMap (rewrite? names file)

/-- What an import is to read in the chunk. -/
def redirected (names : FileNames) (file : String) (r : ImportRecord) : String :=
  match rewrite? names file r with
  | none => r.site.specifier
  | some e => e.content

theorem rewrite?_of_external {r : ImportRecord} (outside : r.target.isExternal = true) :
    rewrite? names file r = none := by
  rw [rewrite?, if_pos outside]

theorem rewrite?_of_internal (file : String) {r : ImportRecord} {target : String}
    (inside : r.target.isExternal = false) (found : names.of? r.target = some target) :
    rewrite? names file r =
      if OutputPath.requestFrom file target = r.site.specifier then none
      else some ⟨r.site.start, r.site.stop, OutputPath.requestFrom file target⟩ := by
  rw [rewrite?, inside, if_neg Bool.false_ne_true, found]

/-- The replacement of a specifier takes its bytes. -/
theorem span_of_rewrite? {r : ImportRecord} {e : Edit} (h : rewrite? names file r = some e) :
    e.start = r.site.start ∧ e.stop = r.site.stop := by
  unfold rewrite? at h
  split at h
  · cases h
  · split at h
    · cases h
    · split at h
      · cases h
      · cases h
        exact ⟨rfl, rfl⟩

/-- An import of a module of the bundle is to read as the request for its file. -/
theorem redirected_of_internal (file : String) {r : ImportRecord} {target : String}
    (inside : r.target.isExternal = false) (found : names.of? r.target = some target) :
    redirected names file r = OutputPath.requestFrom file target := by
  by_cases same : OutputPath.requestFrom file target = r.site.specifier
  · rw [redirected, rewrite?_of_internal file inside found, if_pos same]
    exact same.symm
  · rw [redirected, rewrite?_of_internal file inside found, if_neg same]

theorem redirected_of_external {r : ImportRecord} (outside : r.target.isExternal = true) :
    redirected names file r = r.site.specifier := by
  rw [redirected, rewrite?_of_external outside]

/-! ## Recording the replacements -/

/-- One record is left alone or its replacement is recorded. -/
theorem redirectImports_cons {record : ImportRecord} {rest : List ImportRecord}
    {t after : EditedText} (h : redirectImports names file (record :: rest) t = .ok after) :
    (record.target.isExternal = false → ∃ target, names.of? record.target = some target) ∧
      ((rewrite? names file record = none ∧ redirectImports names file rest t = .ok after) ∨
        ∃ e t', rewrite? names file record = some e ∧
          t.overwrite e.start e.stop e.content = .ok t' ∧
          redirectImports names file rest t' = .ok after) := by
  unfold redirectImports at h
  split at h
  · rename_i outside
    refine ⟨?_, Or.inl ⟨rewrite?_of_external outside, h⟩⟩
    intro inside
    rw [inside] at outside
    cases outside
  · rename_i outside
    have inside : record.target.isExternal = false := by simpa using outside
    split at h
    · cases h
    · rename_i target found
      simp only at h
      refine ⟨fun _ => ⟨target, found⟩, ?_⟩
      have rewrite := rewrite?_of_internal file inside found
      by_cases same : OutputPath.requestFrom file target = record.site.specifier
      · rw [if_pos same] at rewrite h
        exact Or.inl ⟨rewrite, h⟩
      · rw [if_neg same] at rewrite h
        split at h
        · cases h
        · rename_i t' recorded
          refine Or.inr ⟨_, t', rewrite, ?_, h⟩
          dsimp only
          exact recorded

/-- The replacements are recorded, and nothing else. -/
theorem fits_of_redirectImports {records : List ImportRecord} {t after : EditedText}
    (fits : t.Fits) (h : redirectImports names file records t = .ok after) :
    after.Fits ∧ after.source = t.source ∧
      after.edits.Perm (rewrites names file records ++ t.edits) ∧
      ∀ r ∈ records, r.target.isExternal = false → ∃ target, names.of? r.target = some target := by
  induction records generalizing t with
  | nil =>
    cases h
    exact ⟨fits, rfl, .refl _, nofun⟩
  | cons record rest ih =>
    obtain ⟨placed, ⟨none, others⟩ | ⟨e, t', some, recorded, others⟩⟩ := redirectImports_cons h
    · obtain ⟨fits', source, perm, placed'⟩ := ih fits others
      refine ⟨fits', source, ?_, List.forall_mem_cons.2 ⟨placed, placed'⟩⟩
      rw [rewrites, List.filterMap_cons_none none]
      exact perm
    · obtain ⟨kept, same, own⟩ := fits.overwrite recorded
      obtain ⟨fits', source, perm, placed'⟩ := ih kept others
      refine ⟨fits', source.trans same, ?_, List.forall_mem_cons.2 ⟨placed, placed'⟩⟩
      rw [rewrites, List.filterMap_cons_some some]
      refine perm.trans ((own.append_left _).trans ?_)
      exact List.perm_middle

/-- A text whose imports all lie outside is left alone. -/
theorem redirectImports_of_external {records : List ImportRecord} (t : EditedText)
    (outside : ∀ r ∈ records, r.target.isExternal = true) :
    redirectImports names file records t = .ok t := by
  induction records with
  | nil => rfl
  | cons record rest ih =>
    rw [redirectImports, if_pos (outside record List.mem_cons_self)]
    exact ih fun r mem => outside r (List.mem_cons_of_mem _ mem)

theorem render_ok {g : Graph} {cwd : String} {kind : Option SourceMapKind} {c : Chunk}
    {text : String} {map : Option SourceMap} (h : c.render g names cwd kind = .ok (text, map)) :
    ∃ m file t, c.moduleIn g = .ok m ∧ c.fileName names = .ok file ∧
      redirectImports names file m.imports (.ofSource m.code) = .ok t ∧ text = t.text ∧
      map = kind.map fun _ => t.sourceMap ⟨sourceName cwd m.id.id, some file, true, true⟩ := by
  unfold render at h
  obtain ⟨m, found, h⟩ := exists_of_bind_ok h
  obtain ⟨file, named, h⟩ := exists_of_bind_ok h
  obtain ⟨t, pointed, h⟩ := exists_of_bind_ok h
  cases h
  exact ⟨m, file, t, found, named, pointed, rfl, rfl⟩

theorem exists_render {g : Graph} {c : Chunk} {m : Module} {t : EditedText}
    (found : c.moduleIn g = .ok m) (named : c.fileName names = .ok file)
    (pointed : redirectImports names file m.imports (.ofSource m.code) = .ok t) (cwd : String)
    (kind : Option SourceMapKind) : ∃ map, c.render g names cwd kind = .ok (t.text, map) := by
  rw [render, found, named]
  dsimp only [bind, Except.bind]
  rw [pointed]
  exact ⟨_, rfl⟩

theorem of_moduleIn {g : Graph} {c : Chunk} {m : Module} (h : c.moduleIn g = .ok m) :
    m ∈ g.modules ∧ m.id = c.module := by
  unfold moduleIn at h
  split at h
  · rename_i m' found
    cases h
    exact ⟨List.mem_of_find?_eq_some found, by simpa using List.find?_some found⟩
  · cases h

theorem of_fileName {c : Chunk} (h : c.fileName names = .ok file) :
    names.of? c.module = some file := by
  unfold fileName at h
  split at h
  · rename_i name found
    cases h
    exact found
  · cases h

/-! ## Reading the imports of a chunk -/

/-- What an import of a chunk reads: its replacement, or what it read before if no replacement
touches it. -/
theorem readsAt_redirected {m : Module} {t : EditedText} (fits : t.Fits)
    (source : t.source = m.code) (perm : t.edits.Perm (rewrites names file m.imports))
    (sites : m.imports.map ImportRecord.site = ImportScan.imports m.code) {r : ImportRecord}
    (mem : r ∈ m.imports)
    (apart : rewrite? names file r = none →
      ∀ e ∈ t.edits, e.stop ≤ r.site.start ∨ r.site.stop ≤ e.start) :
    ReadsAt m.code.toList t.edits t.text.toList r.site.start r.site.stop
      (redirected names file r).toList := by
  have replaced := EditedText.replaced_text fits
  rw [source] at replaced
  cases rewrite : rewrite? names file r with
  | some e =>
    have recorded : e ∈ t.edits :=
      perm.mem_iff.2 (List.mem_filterMap.2 ⟨r, mem, rewrite⟩)
    obtain ⟨start, stop⟩ := span_of_rewrite? rewrite
    rw [redirected, rewrite, ← start, ← stop]
    exact readsAt_of_edit replaced recorded
  | none =>
    have scanned : r.site ∈ ImportScan.imports m.code := sites ▸ List.mem_map_of_mem mem
    obtain ⟨before, q, behind, cut, _, _, start, stop⟩ :=
      (ImportScan.liesIn_of_mem_imports scanned).1
    have away := apart rewrite
    rw [stop, start] at away ⊢
    rw [redirected, rewrite]
    have cut : m.code.toList = before ++ [q] ++ (r.site.specifier.toList ++ q :: behind) := by
      rw [cut]
      simp
    exact readsAt_of_apart replaced cut away fits.nonempty

/-- **The imports of a rendered chunk point to the chunks of the imported modules.** -/
theorem redirected_of_render {σ : Type} {env : Environment σ} {input : List InputItem}
    {session : Session σ} {l : Loading σ} (loads : LoadsTo env input session l) {c : Chunk}
    {cwd : String} {kind : Option SourceMapKind} {text : String} {map : Option SourceMap}
    (rendered : c.render l.graph names cwd kind = .ok (text, map)) :
    ∃ m ∈ l.graph.modules, m.id = c.module ∧ ∃ file, names.of? c.module = some file ∧
      ∃ edits : List Edit, edits.Perm (rewrites names file m.imports) ∧
        Replaced 0 m.code.toList edits text.toList ∧
        ∀ r ∈ m.imports,
          ((rewrite? names file r = none →
              ∀ e ∈ edits, e.stop ≤ r.site.start ∨ r.site.stop ≤ e.start) →
            ReadsAt m.code.toList edits text.toList r.site.start r.site.stop
              (redirected names file r).toList) ∧
          (r.target.isExternal = true → redirected names file r = r.site.specifier) ∧
          (r.target.isExternal = false → ∃ target, names.of? r.target = some target ∧
            redirected names file r = OutputPath.requestFrom file target ∧
            OutputPath.isMarked (redirected names file r) = true ∧
            Path.follow (Path.segments (OutputPath.directory file)) (redirected names file r) =
              Path.segments target) := by
  obtain ⟨m, file, t, found, named, pointed, rfl, _⟩ := render_ok rendered
  obtain ⟨listed, same⟩ := of_moduleIn found
  obtain ⟨fits, source, perm, placed⟩ :=
    fits_of_redirectImports (EditedText.fits_ofSource m.code) pointed
  have perm : t.edits.Perm (rewrites names file m.imports) := by
    simpa [EditedText.ofSource] using perm
  have sites := ((comesFrom_of_loads loads).modules m listed).sites
  have replaced := EditedText.replaced_text fits
  rw [source] at replaced
  refine ⟨m, listed, same, file, of_fileName named, t.edits, perm, replaced, ?_⟩
  intro r mem
  refine ⟨?_, redirected_of_external, ?_⟩
  · intro apart
    exact readsAt_redirected fits source perm sites mem apart
  · intro inside
    obtain ⟨target, placed⟩ := placed r mem inside
    have request := redirected_of_internal file inside placed
    refine ⟨target, placed, request, ?_, ?_⟩
    · rw [request]
      exact OutputPath.isMarked_request _
    · rw [request]
      exact OutputPath.follow_requestFrom file target

/-- File names of the two modules. -/
def pairNames : FileNames :=
  [(⟨"first", false⟩, "main.js"), (⟨"second", false⟩, "lib/worker.js")]

theorem render_pair :
    ((Loader.fetch pairEnvironment 2 [⟨"main", "first"⟩] ⟨.empty, ()⟩).bind fun r =>
      r.1.toOption.map fun g =>
        render g pairNames "/" none ⟨"main", ⟨"first", false⟩, true, false⟩) =
      some (.ok ("import \"./lib/worker.js\"; import 'fs';", none)) := by
  decide

/-- The first module of the pair reaches the second one by the path of its file. -/
theorem redirected_pair : ∃ l : Loading Unit,
    LoadsTo pairEnvironment [⟨"main", "first"⟩] ⟨.empty, ()⟩ l ∧
      ∃ m ∈ l.graph.modules, m.id = ⟨"first", false⟩ ∧ ∃ edits : List Edit,
        edits.Perm (rewrites pairNames "main.js" m.imports) ∧
        Replaced 0 m.code.toList edits "import \"./lib/worker.js\"; import 'fs';".toList := by
  obtain ⟨l, loads, rendered⟩ := exists_loadsTo
    (f := fun g _ => render g pairNames "/" none ⟨"main", ⟨"first", false⟩, true, false⟩)
    render_pair
  obtain ⟨m, listed, same, file, found, edits, perm, replaced, _⟩ :=
    redirected_of_render loads rendered
  cases found
  exact ⟨l, loads, m, listed, same, edits, perm, replaced⟩

/-! ## A specifier inside a specifier -/

/-- A disk on which one file is named like an import of another one. -/
def nestedDisk : Disk where
  entries := [
    (["main.js"], .file "import \"./a import('.b').js\";".toUTF8),
    (["a import('.b').js"], .file "a();".toUTF8),
    ([".b.js"], .file "b();".toUTF8)]
  workingDirectory := []

def nestedEnvironment : Environment Unit where
  disk := nestedDisk
  cwd := "/"
  plugins := []
  externalTest _ _ _ := .ok false

/-- The module of the entry there. The specifier of its second import lies within that of the first
one. -/
def nestedModule : Module where
  id := ⟨"/main.js", false⟩
  code := "import \"./a import('.b').js\";"
  imports := [
    ⟨⟨"./a import('.b').js", 8, 27, .static⟩, ⟨"/a import('.b').js", false⟩⟩,
    ⟨⟨".b", 20, 22, .dynamic⟩, ⟨"/.b.js", false⟩⟩]
  isUserEntry := true

def nestedGraph : Graph where
  entries := [⟨"main", ⟨"/main.js", false⟩⟩]
  emittedEntries := []
  modules := [nestedModule, ⟨⟨"/a import('.b').js", false⟩, "a();", [], false⟩,
    ⟨⟨"/.b.js", false⟩, "b();", [], false⟩]

theorem fetch_nestedEnvironment :
    ((Loader.fetch nestedEnvironment 3 [⟨"main", "./main.js"⟩] ⟨.empty, ()⟩).bind fun r =>
      r.1.toOption.map fun g => g) = some nestedGraph := by
  decide

def nestedNames : FileNames :=
  [(⟨"/main.js", false⟩, "main.js"), (⟨"/.b.js", false⟩, ".b.js"),
    (⟨"/a import('.b').js", false⟩, "a import('.b').js")]

theorem named_nestedGraph :
    named nestedGraph ⟨"[name].js", "[name].js", none⟩ (ofGraph nestedGraph) =
      .ok nestedNames := by
  decide

/-- The chunk of the entry. -/
def nestedChunk : Chunk := ⟨"main", ⟨"/main.js", false⟩, true, false⟩

theorem render_nestedGraph :
    nestedChunk.render nestedGraph nestedNames "/" none =
      .ok ("import \"./a import('./.b.js').js\";", none) := by
  decide

/-- A chunk is rendered although no text replaces the spans of all its internal imports. -/
theorem overlapping_imports : ∃ (l : Loading Unit) (names : FileNames) (c : Chunk) (m : Module)
    (text : String) (map : Option SourceMap),
    LoadsTo nestedEnvironment [⟨"main", "./main.js"⟩] ⟨.empty, ()⟩ l ∧
      named l.graph ⟨"[name].js", "[name].js", none⟩ (ofGraph l.graph) = .ok names ∧
      c ∈ ofGraph l.graph ∧ c.moduleIn l.graph = .ok m ∧
      render l.graph names "/" none c = .ok (text, map) ∧
      ¬∃ edits, Replaced 0 m.code.toList edits text.toList ∧
        ∀ r ∈ m.imports, r.target.isExternal = false →
          ∃ e ∈ edits, e.start = r.site.start ∧ e.stop = r.site.stop := by
  obtain ⟨l, loads, graph⟩ := exists_loadsTo (f := fun g _ => g) fetch_nestedEnvironment
  refine ⟨l, nestedNames, nestedChunk, nestedModule, "import \"./a import('./.b.js').js\";", none,
    loads, ?_, ?_, ?_, ?_, ?_⟩
  · rw [graph]
    exact named_nestedGraph
  · rw [graph]
    decide
  · rw [graph]
    decide
  · rw [graph]
    exact render_nestedGraph
  · rintro ⟨edits, replaced, each⟩
    obtain ⟨outer, outerMem, outerStart, outerStop⟩ :=
      each ⟨⟨"./a import('.b').js", 8, 27, .static⟩, ⟨"/a import('.b').js", false⟩⟩
        List.mem_cons_self rfl
    obtain ⟨inner, innerMem, innerStart, innerStop⟩ :=
      each ⟨⟨".b", 20, 22, .dynamic⟩, ⟨"/.b.js", false⟩⟩
        (List.mem_cons_of_mem _ List.mem_cons_self) rfl
    simp only at outerStart outerStop innerStart innerStop
    rcases replaced.apart outerMem innerMem with rfl | before | behind
    · omega
    · omega
    · omega

end WorkerBundler.Chunk
