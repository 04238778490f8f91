import Mathlib.Data.List.Pairwise
import WorkerBundler.Proofs.Redirect
import WorkerBundler.Proofs.Rescan

/-!
# The imports of a rendered chunk

A chunk that was rendered is scanned again. If each specifier that was replaced stands alone and its
request can stand in its place (`Replaceable`), the scan finds the imports of the module, in their
order and of their kinds, and each reads as it is to read (`imports_of_render`).
-/

namespace WorkerBundler

open Text (byteLength)

/-- The other form of an import. -/
def ImportKind.other : ImportKind → ImportKind
  | .static => .dynamic
  | .dynamic => .static

theorem ImportKind.eq_other_of_ne {kind kind' : ImportKind} (h : kind ≠ kind') :
    kind = kind'.other := by
  cases kind <;> cases kind' <;> first | rfl | exact absurd rfl h

namespace ImportScan

/-- What stands behind the leads of a text and a quote. -/
def behindLeads (code : String) : List Import :=
  quotedFrom .static (leadOf .static) [] code.toList ++
    quotedFrom .dynamic (leadOf .dynamic) [] code.toList

/-- Nothing behind a lead reaches over the import. What starts within it does no harm if it is of
the same kind, since the scan for that kind comes to the import first. -/
def StandsAlone (code : String) (i : Import) : Prop :=
  ∀ j ∈ behindLeads code, j.stop + 2 ≤ i.start ∨
    if j.kind = i.kind then i.start ≤ j.start else i.stop + 2 ≤ j.start

instance (code : String) (i : Import) : Decidable (StandsAlone code i) :=
  List.decidableBAll _ (behindLeads code)

/-- The character behind the specifier. -/
def closingQuote? (code : String) (i : Import) : Option Char :=
  (Text.dropBytes i.stop code.toList).head?

/-- The request can stand in place of the specifier: it does not end at its quotes or the line, and
no quote follows a lead of the other kind in it. -/
structure Replaceable (code : String) (i : Import) (request : String) : Prop where
  alone : StandsAlone code i
  clean : ∀ q ∈ closingQuote? code i, q ∉ request.toList
  oneLine : '\n' ∉ request.toList
  silent : leadsToQuote (leadOf i.kind.other) [] request.toList = false

instance (code : String) (i : Import) (request : String) : Decidable (Replaceable code i request) :=
  have : Decidable (∀ q ∈ closingQuote? code i, q ∉ request.toList) :=
    Option.decidableForallMem (closingQuote? code i)
  decidable_of_iff
    (StandsAlone code i ∧ (∀ q ∈ closingQuote? code i, q ∉ request.toList) ∧
      '\n' ∉ request.toList ∧ leadsToQuote (leadOf i.kind.other) [] request.toList = false)
    ⟨fun ⟨alone, clean, oneLine, silent⟩ => ⟨alone, clean, oneLine, silent⟩,
      fun h => ⟨h.alone, h.clean, h.oneLine, h.silent⟩⟩

variable {code text : String} {i j : Import} {kind : ImportKind}

/-! ## Imports of a text -/

theorem of_mem_quotedFrom {lead : List Char → Bool} {front cs : List Char}
    (mem : j ∈ quotedFrom kind lead front cs) : j.kind = kind ∧ j.start ≤ j.stop := by
  induction cs generalizing front with
  | nil => cases mem
  | cons c cs ih =>
    rcases List.mem_append.1 mem with here | later
    · split at here
      · rw [List.mem_singleton.1 here]
        exact ⟨rfl, Nat.le_add_right _ _⟩
      · cases here
    · exact ih later

theorem mem_behindLeads (kind : ImportKind)
    (mem : j ∈ quotedFrom kind (leadOf kind) [] code.toList) : j ∈ behindLeads code := by
  cases kind with
  | static => exact List.mem_append_left _ mem
  | dynamic => exact List.mem_append_right _ mem

theorem kind_of_mem_importsOf {mention? : List Char → Option Mention} {cs : List Char}
    (mem : i ∈ importsOf kind mention? cs) : i.kind = kind := by
  obtain ⟨hit, -, rfl⟩ := List.mem_map.1 mem
  rfl

theorem of_mem_imports (mem : i ∈ imports code) :
    i ∈ importsOf i.kind (mentionOf i.kind) code.toList ∧ i.specifier ≠ "" := by
  rw [imports, (Ordered.perm_sort _ _).mem_iff, List.mem_filter, List.mem_append] at mem
  obtain ⟨static | dynamic, named⟩ := mem
  · rw [kind_of_mem_importsOf static]
    exact ⟨static, by simpa using named⟩
  · rw [kind_of_mem_importsOf dynamic]
    exact ⟨dynamic, by simpa using named⟩

/-- An import stands between quotes, behind a lead of its kind. -/
theorem exists_lead_of_mem_imports (mem : i ∈ imports code) :
    ∃ before q specifier behind, code.toList = before ++ q :: (specifier ++ q :: behind) ∧
      Quotable q specifier ∧ endsInLead (leadOf i.kind) true before = true ∧
      i = toImport i.kind (byteLength before) ⟨[], q, specifier, []⟩ := by
  obtain ⟨mem, named⟩ := of_mem_imports mem
  obtain ⟨before, q, specifier, behind, cut, quote, clean, oneLine, lead, same⟩ :=
    @ReadsAs.exists_of_mem_importsFrom i.kind _ _ _ _ (readsAs i.kind) [] i mem
  refine ⟨before, q, specifier, behind, cut, ⟨quote, clean, oneLine, ?_⟩, lead, same⟩
  rintro rfl
  rw [same] at named
  exact named rfl

theorem places_of_eq_toImport {before specifier : List Char} {q : Char} (quote : isQuote q = true)
    (same : i = toImport kind (byteLength before) ⟨[], q, specifier, []⟩) :
    i.start = byteLength before + 1 ∧ i.stop = i.start + byteLength specifier ∧
      i.specifier.toList = specifier := by
  subst same
  exact ⟨start_toImport _ _ quote, rfl, String.toList_ofList⟩

/-- What the scan finds stands behind a lead. -/
theorem exists_of_mem_imports (mem : i ∈ imports code) :
    ∃ before q specifier behind, code.toList = before ++ q :: (specifier ++ q :: behind) ∧
      Quotable q specifier ∧ i.start = byteLength before + 1 ∧
      i.stop = i.start + byteLength specifier ∧ i ∈ behindLeads code := by
  obtain ⟨before, q, specifier, behind, cut, quotable, lead, same⟩ := exists_lead_of_mem_imports mem
  obtain ⟨start, stop, -⟩ := places_of_eq_toImport quotable.quote same
  have lead : endsInLead (leadOf i.kind) true ([] ++ before) = true := lead
  have behindLead := mem_quotedFrom i.kind quotable.quote (specifier ++ q :: behind) lead
  rw [takeWhile_append_quote ⟨quotable.clean, quotable.oneLine⟩, List.nil_append, ← cut,
    ← same] at behindLead
  exact ⟨before, q, specifier, behind, cut, quotable, start, stop,
    mem_behindLeads i.kind behindLead⟩

theorem apart_of_mem_importsOf {cs : List Char} (left : i ∈ importsOf kind (mentionOf kind) cs)
    (right : j ∈ importsOf kind (mentionOf kind) cs) (other : i ≠ j) :
    i.stop + 2 ≤ j.start ∨ j.stop + 2 ≤ i.start := by
  have symmetric : Std.Symm fun i j : Import => i.stop + 2 ≤ j.start ∨ j.stop + 2 ≤ i.start :=
    ⟨fun _ _ => Or.symm⟩
  have ordered : (importsOf kind (mentionOf kind) cs).Pairwise
      fun i j => i.stop + 2 ≤ j.start ∨ j.stop + 2 ≤ i.start :=
    (readsAs kind).pairwise_importsFrom.imp fun apart => Or.inl apart
  exact ordered.forall left right other

/-- An import that stands alone is apart from all others. -/
theorem StandsAlone.apart (alone : StandsAlone code i) (left : i ∈ imports code)
    (right : j ∈ imports code) (other : i ≠ j) :
    i.stop + 2 ≤ j.start ∨ j.stop + 2 ≤ i.start := by
  by_cases same : j.kind = i.kind
  · have right := (of_mem_imports right).1
    rw [same] at right
    exact apart_of_mem_importsOf (of_mem_imports left).1 right other
  · obtain ⟨_, _, _, _, _, _, _, _, behindLead⟩ := exists_of_mem_imports right
    rcases alone j behindLead with before | behind
    · exact Or.inr before
    · rw [if_neg same] at behind
      exact Or.inl behind

theorem nodup_imports (code : String) : (imports code).Nodup := by
  have each : ∀ kind, (importsOf kind (mentionOf kind) code.toList).Nodup := by
    intro kind
    have ordered : (importsOf kind (mentionOf kind) code.toList).Pairwise
        fun i j => i.stop + 2 ≤ j.start := (readsAs kind).pairwise_importsFrom
    refine ordered.imp_of_mem fun {i j} mem _ apart => ?_
    rintro rfl
    obtain ⟨⟨start, m⟩, -, rfl⟩ := List.mem_map.1 mem
    have := stop_eq_toImport kind start m
    dsimp only at apart
    omega
  rw [imports, (Ordered.perm_sort _ _).nodup_iff]
  refine List.Nodup.filter _ (List.Nodup.append (each .static) (each .dynamic) ?_)
  intro i static dynamic
  have kinds := (kind_of_mem_importsOf static).symm.trans (kind_of_mem_importsOf dynamic)
  cases kinds

end ImportScan

namespace Chunk

open ImportScan

variable {names : FileNames} {file text : String} {m : Module} {edits : List Edit} {e : Edit}
  {r : ImportRecord}

/-- The text is the code of the module with specifiers replaced that can be replaced. -/
structure Redirects (names : FileNames) (file : String) (m : Module) (edits : List Edit)
    (text : String) : Prop where
  sites : m.imports.map ImportRecord.site = imports m.code
  perm : edits.Perm (rewrites names file m.imports)
  replaced : Replaced 0 m.code.toList edits text.toList
  replaceable : ∀ r ∈ m.imports, ∀ e ∈ rewrite? names file r, Replaceable m.code r.site e.content

theorem toList_ne_nil_of_isMarked {path : String} (marked : OutputPath.isMarked path = true) :
    path.toList ≠ [] := by
  intro empty
  rw [OutputPath.isMarked, empty] at marked
  cases marked

theorem content_of_rewrite? (h : rewrite? names file r = some e) : e.content.toList ≠ [] := by
  unfold rewrite? at h
  split at h
  · cases h
  · split at h
    · cases h
    · split at h
      · cases h
      · obtain rfl := Option.some.inj h
        dsimp only
        rw [OutputPath.requestFrom]
        exact toList_ne_nil_of_isMarked (OutputPath.isMarked_request _)

theorem Redirects.scanned (h : Redirects names file m edits text) (mem : r ∈ m.imports) :
    r.site ∈ imports m.code :=
  h.sites ▸ List.mem_map_of_mem mem

/-- Each replacement is that of an import. -/
theorem Redirects.exists_record (h : Redirects names file m edits text) (mem : e ∈ edits) :
    ∃ r ∈ m.imports, rewrite? names file r = some e ∧ e.start = r.site.start ∧
      e.stop = r.site.stop ∧ Replaceable m.code r.site e.content := by
  obtain ⟨r, listed, rewrite⟩ := List.mem_filterMap.1 (h.perm.mem_iff.1 mem)
  obtain ⟨start, stop⟩ := span_of_rewrite? rewrite
  exact ⟨r, listed, rewrite, start, stop, h.replaceable r listed e rewrite⟩

theorem Redirects.quotedIn (h : Redirects names file m edits text) (mem : e ∈ edits) :
    QuotedIn m.code.toList e := by
  obtain ⟨r, listed, rewrite, start, stop, replaceable⟩ := h.exists_record mem
  obtain ⟨before, q, specifier, behind, cut, quotable, start', stop', -⟩ :=
    exists_of_mem_imports (h.scanned listed)
  have closing : q ∈ closingQuote? m.code r.site := by
    have place : r.site.stop = byteLength (before ++ q :: specifier) := by
      rw [stop', start', Text.byteLength_append, Text.byteLength_cons,
        utf8Size_of_isQuote quotable.quote]
      omega
    have whole : m.code.toList = before ++ q :: specifier ++ q :: behind := by
      rw [cut]
      simp
    rw [closingQuote?, whole, place, Text.dropBytes_byteLength_append]
    rfl
  exact ⟨before, q, specifier, behind, cut, quotable,
    ⟨quotable.quote, replaceable.clean q closing, replaceable.oneLine, content_of_rewrite? rewrite⟩,
    start.trans start', by rw [stop, stop', start]⟩

theorem Redirects.lt (h : Redirects names file m edits text) (mem : e ∈ edits) :
    e.start < e.stop := by
  obtain ⟨_, _, _, _, _, quotable, _, _, stop⟩ := h.quotedIn mem
  have := quotable.positive
  omega

/-- Between two replaced specifiers there are two quotes at least. -/
theorem Redirects.gaps (h : Redirects names file m edits text) :
    edits.Pairwise fun e f => e.stop + 2 ≤ f.start := by
  refine h.replaced.pairwise.1.imp_of_mem fun {e f} left right apart => ?_
  obtain ⟨r, listed, -, start, stop, replaceable⟩ := h.exists_record left
  obtain ⟨s, listed', -, start', stop', -⟩ := h.exists_record right
  have := h.lt left
  have := h.lt right
  have other : r.site ≠ s.site := by
    intro same
    rw [same] at start stop
    omega
  rcases replaceable.alone.apart (h.scanned listed) (h.scanned listed') other with ahead | behind
  · omega
  · omega

theorem Redirects.respelled (h : Redirects names file m edits text) :
    Respelled 0 m.code.toList edits text.toList := by
  have start : 0 = byteLength [] := rfl
  rw [start]
  refine respelled_of_replaced h.replaced (fun e mem => h.quotedIn mem) h.gaps ?_
  intro e mem
  obtain ⟨_, _, _, _, _, _, _, start, _⟩ := h.quotedIn mem
  rw [start]
  exact Nat.succ_pos _

/-- No replacement gets into the way of the scan for a kind of import. -/
theorem Redirects.clear (h : Redirects names file m edits text) (kind : ImportKind)
    (mem : e ∈ edits) : Clear kind (leadOf kind) m.code.toList
      (importsOf kind (mentionOf kind) m.code.toList) e := by
  obtain ⟨r, listed, -, start, stop, replaceable⟩ := h.exists_record mem
  have positive := h.lt mem
  have away : ∀ j ∈ quotedFrom kind (leadOf kind) [] m.code.toList, j.start ≤ j.stop ∧
      (j.stop + 2 ≤ e.start ∨ if kind = r.site.kind then e.start ≤ j.start else
        e.stop + 2 ≤ j.start) := by
    intro j found
    obtain ⟨same, le⟩ := of_mem_quotedFrom found
    have alone := replaceable.alone j (mem_behindLeads kind found)
    rw [same, ← start, ← stop] at alone
    exact ⟨le, alone⟩
  by_cases same : kind = r.site.kind
  · simp only [if_pos same] at away
    subst same
    refine ⟨?_, Or.inl ⟨r.site, (of_mem_imports (h.scanned listed)).1, start.symm⟩⟩
    intro j found
    exact (away j found).2.symm
  · simp only [if_neg same] at away
    have other := ImportKind.eq_other_of_ne same
    refine ⟨?_, Or.inr ⟨?_, other ▸ replaceable.silent⟩⟩
    · intro j found
      have := away j found
      omega
    · intro j found
      have := away j found
      omega

/-- What is found in place of an import. -/
theorem Redirects.specifier_of_corresponds (h : Redirects names file m edits text)
    (mem : r ∈ m.imports) {i' : Import} (found : Corresponds edits 0 0 r.site i') :
    i'.specifier = redirected names file r := by
  rcases found.specifier with ⟨e, recorded, start, -, edited⟩ | ⟨others, same⟩
  · obtain ⟨s, listed, rewrite, start', stop', replaceable⟩ := h.exists_record recorded
    have same : s.site = r.site := by
      by_contra other
      have := h.lt recorded
      obtain ⟨_, _, _, _, _, _, _, stop, _⟩ := exists_of_mem_imports (h.scanned mem)
      rcases replaceable.alone.apart (h.scanned listed) (h.scanned mem) other with ahead | behind
      · omega
      · omega
    have nodup : (m.imports.map ImportRecord.site).Nodup := h.sites ▸ nodup_imports m.code
    obtain rfl := List.inj_on_of_nodup_map nodup listed mem same
    rw [redirected, rewrite, edited]
  · cases rewrite : rewrite? names file r with
    | none => rw [redirected, rewrite, same]
    | some e =>
      have recorded : e ∈ edits := h.perm.mem_iff.2 (List.mem_filterMap.2 ⟨r, mem, rewrite⟩)
      exact absurd (span_of_rewrite? rewrite).1 (others e recorded)

/-- The scan finds the imports of the module in the text. -/
theorem Redirects.imports_eq (h : Redirects names file m edits text) :
    (imports text).map (fun i => (i.specifier, i.kind)) =
      m.imports.map fun r => (redirected names file r, r.site.kind) := by
  have found := forall₂_imports h.respelled fun kind e mem => h.clear kind mem
  rw [← h.sites, List.forall₂_map_left_iff] at found
  have each : List.Forall₂ (fun r i => (redirected names file r, r.site.kind) =
      (i.specifier, i.kind)) m.imports (imports text) := by
    refine ((List.forall₂_and_left m.imports _).2 ⟨fun r mem => mem, found⟩).imp ?_
    rintro r i ⟨mem, found⟩
    rw [h.specifier_of_corresponds mem found, found.kind]
  symm
  rw [← List.forall₂_eq_eq_eq, List.forall₂_map_left_iff, List.forall₂_map_right_iff]
  exact each

/-- **A rendered chunk has the imports of its module**, each with the specifier that it is to read,
if every replaced specifier stands alone and can be replaced by its request. -/
theorem imports_of_render {σ : Type} {env : Environment σ} {input : List InputItem}
    {session : Session σ} {l : Loading σ} (loads : LoadsTo env input session l) {c : Chunk}
    {cwd : String} {kind : Option SourceMapKind} {text : String} {map : Option SourceMap}
    (rendered : c.render l.graph names cwd kind = .ok (text, map)) :
    ∃ m ∈ l.graph.modules, m.id = c.module ∧ m.imports.map ImportRecord.site = imports m.code ∧
      ∃ file, names.of? c.module = some file ∧
        (∀ r ∈ m.imports,
          (r.target.isExternal = true → redirected names file r = r.site.specifier) ∧
          (r.target.isExternal = false → ∃ target, names.of? r.target = some target ∧
            redirected names file r = OutputPath.requestFrom file target)) ∧
        ((∀ r ∈ m.imports, ∀ e ∈ rewrite? names file r,
            Replaceable m.code r.site e.content) →
          (imports text).map (fun i => (i.specifier, i.kind)) =
            m.imports.map fun r => (redirected names file r, r.site.kind)) := by
  obtain ⟨m, file, t, found, named, pointed, rfl, _⟩ := render_ok rendered
  obtain ⟨listed, same⟩ := of_moduleIn found
  obtain ⟨fits, source, perm, placed⟩ :=
    fits_of_redirectImports (EditedText.fits_ofSource m.code) pointed
  have perm : t.edits.Perm (rewrites names file m.imports) := by
    simpa [EditedText.ofSource] using perm
  have sites := ((comesFrom_of_loads loads).modules m listed).sites
  have replaced := EditedText.replaced_text fits
  rw [source] at replaced
  refine ⟨m, listed, same, sites, file, of_fileName named, ?_, ?_⟩
  · intro r mem
    refine ⟨redirected_of_external, ?_⟩
    intro inside
    obtain ⟨target, placed⟩ := placed r mem inside
    exact ⟨target, placed, redirected_of_internal file inside placed⟩
  · intro replaceable
    have redirects : Redirects names file m t.edits t.text := ⟨sites, perm, replaced, replaceable⟩
    exact redirects.imports_eq

/-- The first module of the pair. -/
def pairModule : Module where
  id := ⟨"first", false⟩
  code := "import \"second\"; import 'fs';"
  imports := [⟨⟨"second", 8, 14, .static⟩, ⟨"second", false⟩⟩,
    ⟨⟨"fs", 25, 27, .static⟩, ⟨"fs", true⟩⟩]
  isUserEntry := true

theorem render_pairModule :
    ((Loader.fetch pairEnvironment 2 [⟨"main", "first"⟩] ⟨.empty, ()⟩).bind fun r =>
      r.1.toOption.map fun g =>
        (render g pairNames "/" none ⟨"main", ⟨"first", false⟩, true, false⟩,
          g.modules.filter (·.id = ⟨"first", false⟩))) =
      some (.ok ("import \"./lib/worker.js\"; import 'fs';", none), [pairModule]) := by
  decide

/-- The chunk of the first module of the pair imports the chunk of the second one, and `fs`. -/
theorem imports_pair : ∃ l : Loading Unit,
    LoadsTo pairEnvironment [⟨"main", "first"⟩] ⟨.empty, ()⟩ l ∧ pairModule ∈ l.graph.modules ∧
      (∀ r ∈ pairModule.imports, ∀ e ∈ rewrite? pairNames "main.js" r,
        Replaceable pairModule.code r.site e.content) ∧
      (imports "import \"./lib/worker.js\"; import 'fs';").map (fun i => (i.specifier, i.kind)) =
        pairModule.imports.map fun r => (redirected pairNames "main.js" r, r.site.kind) := by
  obtain ⟨l, loads, both⟩ := exists_loadsTo
    (f := fun g _ => (render g pairNames "/" none ⟨"main", ⟨"first", false⟩, true, false⟩,
      g.modules.filter (·.id = ⟨"first", false⟩))) render_pairModule
  obtain ⟨rendered, modules⟩ := Prod.mk.inj both
  obtain ⟨m, listed, same, -, file, found, -, scanned⟩ := imports_of_render loads rendered
  have mem : m ∈ l.graph.modules.filter (·.id = ⟨"first", false⟩) :=
    List.mem_filter.2 ⟨listed, decide_eq_true same⟩
  rw [modules] at mem
  obtain rfl := List.mem_singleton.1 mem
  cases found
  have replaceable : ∀ r ∈ pairModule.imports, ∀ e ∈ rewrite? pairNames "main.js" r,
      Replaceable pairModule.code r.site e.content := by
    decide
  exact ⟨l, loads, listed, replaceable, scanned replaceable⟩

/-! ## A name that reads like an import -/

/-- A disk with a module that imports another one and goes on with a quoted text. -/
def mimicDisk : Disk where
  entries := [
    (["main.js"], .file "import(\"./b.js\"); f(\"y\");".toUTF8),
    (["b.js"], .file "b();".toUTF8)]
  workingDirectory := []

def mimicEnvironment : Environment Unit where
  disk := mimicDisk
  cwd := "/"
  plugins := []
  externalTest _ _ _ := .ok false

/-- The module that imports there. -/
def mimicModule : Module where
  id := ⟨"/main.js", false⟩
  code := "import(\"./b.js\"); f(\"y\");"
  imports := [⟨⟨"./b.js", 8, 14, .dynamic⟩, ⟨"/b.js", false⟩⟩]
  isUserEntry := true

def mimicGraph : Graph where
  entries := [⟨"main", ⟨"/main.js", false⟩⟩, ⟨"import", ⟨"/b.js", false⟩⟩]
  emittedEntries := []
  modules := [mimicModule, ⟨⟨"/b.js", false⟩, "b();", [], true⟩]

theorem fetch_mimicEnvironment :
    ((Loader.fetch mimicEnvironment 3 [⟨"main", "./main.js"⟩, ⟨"import", "./b.js"⟩]
      ⟨.empty, ()⟩).bind fun r => r.1.toOption.map fun g => g) = some mimicGraph := by
  decide

def mimicNames : FileNames :=
  [(⟨"/main.js", false⟩, "main"), (⟨"/b.js", false⟩, "import")]

/-- A chunk is rendered although the scan finds more imports in it than in its module: the name of
the imported chunk ends in a lead, which the closing quote follows. -/
theorem added_import : ∃ (l : Loading Unit) (names : FileNames) (c : Chunk) (m : Module)
    (text : String) (map : Option SourceMap),
    LoadsTo mimicEnvironment [⟨"main", "./main.js"⟩, ⟨"import", "./b.js"⟩] ⟨.empty, ()⟩ l ∧
      named l.graph ⟨"[name]", "[name].js", none⟩ (ofGraph l.graph) = .ok names ∧
      c ∈ ofGraph l.graph ∧ c.moduleIn l.graph = .ok m ∧
      render l.graph names "/" none c = .ok (text, map) ∧
      m.imports.length = 1 ∧ (imports text).length = 2 := by
  obtain ⟨l, loads, graph⟩ := exists_loadsTo (f := fun g _ => g) fetch_mimicEnvironment
  refine ⟨l, mimicNames, ⟨"main", ⟨"/main.js", false⟩, true, false⟩, mimicModule,
    "import(\"./import\"); f(\"y\");", none, loads, ?_, ?_, ?_, ?_, rfl, ?_⟩
  · rw [graph]
    decide
  · rw [graph]
    decide
  · rw [graph]
    decide
  · rw [graph]
    decide
  · decide

end Chunk

end WorkerBundler
