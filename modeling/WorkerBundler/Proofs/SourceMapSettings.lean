import WorkerBundler.Proofs.Builds
import WorkerBundler.Proofs.SourceMap.Contents

/-!
# Bundles with different settings for source maps

A plugin is `Indifferent` to two settings if, maps aside, it answers the same about a chunk with
either of them, in sessions that cannot be told apart by what is to come. With such plugins the
setting reaches nothing but the maps: a graph is bundled with the same error, or as the same chunks,
under the same file names and with the same texts, up to the comment that points to the map; and a
chunk has a map wherever there is a setting (`Bundle.ofGraph_of_indifferent`).
-/

namespace WorkerBundler

variable {σ : Type} {alike : Session σ → Session σ → Prop} {kind kind' : Option SourceMapKind}

/-! ## Plugins and settings -/

namespace Plugin

/-- Maps aside, the plugin answers the same about a chunk with both settings in sessions that are
alike, and leaves them alike. -/
structure Indifferent (alike : Session σ → Session σ → Prop) (kind kind' : Option SourceMapKind)
    (p : Plugin σ) : Prop where
  answer : ∀ code chunk s s', alike s s' →
    ((p.renderChunk ⟨code, chunk, kind⟩).run s).1.map (Option.map RenderOutput.code) =
      ((p.renderChunk ⟨code, chunk, kind'⟩).run s').1.map (Option.map RenderOutput.code)
  session : ∀ code chunk s s', alike s s' →
    alike ((p.renderChunk ⟨code, chunk, kind⟩).run s).2
      ((p.renderChunk ⟨code, chunk, kind'⟩).run s').2

variable {plugins : List (Plugin σ)}

/-- Plugins make the same text of a chunk with both settings, or raise the same error. -/
theorem renderAll_of_indifferent
    (indifferent : ∀ p ∈ plugins, p.Indifferent alike kind kind') (chunk : RenderedChunk)
    (code : String) (maps maps' : List SourceMap) {r r' : Rendering σ}
    (start : alike r.session r'.session) :
    (renderAll chunk kind plugins code maps r).1.map Prod.fst =
        (renderAll chunk kind' plugins code maps' r').1.map Prod.fst ∧
      alike (renderAll chunk kind plugins code maps r).2.session
        (renderAll chunk kind' plugins code maps' r').2.session := by
  induction plugins generalizing code maps maps' r r' with
  | nil => exact ⟨rfl, start⟩
  | cons p rest ih =>
    have others := fun q mem => indifferent q (List.mem_cons_of_mem _ mem)
    have answer := (indifferent p List.mem_cons_self).answer code chunk _ _ start
    have session := (indifferent p List.mem_cons_self).session code chunk _ _ start
    rw [renderAll, renderAll]
    rcases ran : (p.renderChunk ⟨code, chunk, kind⟩).run r.session with ⟨result, s⟩
    rcases ran' : (p.renderChunk ⟨code, chunk, kind'⟩).run r'.session with ⟨result', s'⟩
    rw [ran, ran'] at answer session
    rcases of_map_eq answer with ⟨e, rfl, rfl⟩ | ⟨output, output', rfl, rfl, same⟩
    · exact ⟨rfl, session⟩
    · cases output with
      | none =>
        cases output' with
        | none => exact ih others _ _ _ session
        | some changed' => cases same
      | some changed =>
        cases output' with
        | none => cases same
        | some changed' =>
          have code : changed.code = changed'.code := Option.some.inj same
          dsimp only
          rw [code]
          exact ih others _ _ _ session

/-- Plugins raise the same error about a chunk with both settings, or they make the same text. -/
theorem renderAll_cases (indifferent : ∀ p ∈ plugins, p.Indifferent alike kind kind')
    (chunk : RenderedChunk) (code : String) {r r' : Rendering σ}
    (start : alike r.session r'.session) :
    (∃ e r₁ r₁', renderAll chunk kind plugins code [] r = (.error e, r₁) ∧
      renderAll chunk kind' plugins code [] r' = (.error e, r₁')) ∨
    ∃ text given given' r₁ r₁', renderAll chunk kind plugins code [] r = (.ok (text, given), r₁) ∧
      renderAll chunk kind' plugins code [] r' = (.ok (text, given'), r₁') ∧
      alike r₁.session r₁'.session := by
  obtain ⟨same, session⟩ := renderAll_of_indifferent indifferent chunk code [] [] start
  rcases ran : renderAll chunk kind plugins code [] r with ⟨result, r₁⟩
  rcases ran' : renderAll chunk kind' plugins code [] r' with ⟨result', r₁'⟩
  rw [ran, ran'] at same session
  rcases of_map_eq same with ⟨e, rfl, rfl⟩ | ⟨⟨text, given⟩, ⟨text', given'⟩, rfl, rfl, texts⟩
  · exact Or.inl ⟨e, r₁, r₁', rfl, rfl⟩
  · obtain rfl : text = text' := texts
    exact Or.inr ⟨text, given, given', r₁, r₁', rfl, rfl, session⟩

end Plugin

/-! ## What becomes of a chunk -/

namespace Bundle

/-- What stands behind the text of a chunk that has the map: a comment that points to it, unless the
map is hidden. -/
def ending : SourceMapKind → (file : String) → SourceMap → String
  | .file, file, _ => mapComment (baseName file ++ ".map")
  | .inline, _, m => mapComment ("data:application/json;charset=utf-8;base64," ++
      String.ofList (Text.Base64.encode (Text.bytes m.text.toList)))
  | .hidden, _, _ => ""

/-- The file of the map of a chunk, unless the map is inside the chunk. -/
def mapFiles : SourceMapKind → (file : String) → SourceMap → List Asset
  | .inline, _, _ => []
  | .file, file, m => [⟨file ++ ".map", m.text⟩]
  | .hidden, file, m => [⟨file ++ ".map", m.text⟩]

/-- A chunk that plugins have finished: its file name, its text, and the map of the text that it was
rendered as. -/
structure FinalChunk where
  chunk : Chunk
  file : String
  code : String
  first : SourceMap

/-- The chunk becomes the assets: its file alone where there is no setting for maps; otherwise it
has a map, which the map of its rendered text and maps of plugins make up. -/
def FinalChunk.Becomes (kind : Option SourceMapKind) (x : FinalChunk) (group : List Asset) : Prop :=
  match kind with
  | none => group = [⟨x.file, x.code⟩]
  | some k => ∃ given m, SourceMap.collapse (x.first :: given) = some m ∧
    group = ⟨x.file, x.code ++ ending k x.file m⟩ :: mapFiles k x.file m

/-- The assets of a finished chunk are what it becomes. -/
theorem FinalChunk.becomes_assetsOf (kind : Option SourceMapKind) (x : FinalChunk)
    (given : List SourceMap) :
    x.Becomes kind (assetsOf kind x.file x.code
      ((kind.map fun _ => x.first).bind fun first => SourceMap.collapse (first :: given))) := by
  cases kind with
  | none => rfl
  | some k =>
    obtain ⟨m, collapsed⟩ := SourceMap.exists_collapse_cons x.first given
    refine ⟨given, m, collapsed, ?_⟩
    rw [Option.map_some, Option.bind_some, collapsed]
    cases k with
    | file => rfl
    | inline => rfl
    | hidden =>
      rw [ending, String.append_empty]
      rfl

/-- The results of two bundles differ in nothing but maps: both are the same error, or both are what
the chunks of one graph become, with the map of the text that each chunk is rendered as. -/
inductive SameButMaps (cwd : String) (kind kind' : Option SourceMapKind) :
    Except BuildError (List Asset) → Except BuildError (List Asset) → Prop
  | failed (e : BuildError) : SameButMaps cwd kind kind' (.error e) (.error e)
  | bundled (g : Graph) (names : FileNames) {chunks : List FinalChunk}
    {groups groups' : List (List Asset)} :
    List.Forall₂ (fun c x => x.chunk = c ∧ names.of? c.module = some x.file ∧
      ∃ text, ∀ asked, c.render g names cwd asked = .ok (text, asked.map fun _ => x.first))
      (Chunk.ofGraph g) chunks →
    List.Forall₂ (FinalChunk.Becomes kind) chunks groups →
    List.Forall₂ (FinalChunk.Becomes kind') chunks groups' →
    SameButMaps cwd kind kind' (.ok groups.flatten) (.ok groups'.flatten)

theorem SameButMaps.symm {cwd : String} {result result' : Except BuildError (List Asset)}
    (same : SameButMaps cwd kind kind' result result') :
    SameButMaps cwd kind' kind result' result := by
  cases same with
  | failed e => exact .failed e
  | bundled g names each becomes becomes' => exact .bundled g names each becomes' becomes

/-! ## Rendering and finishing with two settings -/

/-- A rendered chunk with its map, as it is rendered with a setting. -/
def asRendered (kind : Option SourceMapKind) (x : Chunk × String × SourceMap) :
    Chunk × String × Option SourceMap :=
  (x.1, x.2.1, kind.map fun _ => x.2.2)

/-- A chunk is rendered as the same text with all settings, with the same map if there is one. -/
theorem exists_render (g : Graph) (names : FileNames) (cwd : String) (c : Chunk) :
    ∃ result : Except BuildError (String × SourceMap), ∀ asked,
      c.render g names cwd asked = result.map fun x => (x.1, asked.map fun _ => x.2) := by
  unfold Chunk.render
  cases c.moduleIn g with
  | error e => exact ⟨.error e, fun _ => rfl⟩
  | ok m =>
    cases c.fileName names with
    | error e => exact ⟨.error e, fun _ => rfl⟩
    | ok file =>
      dsimp only [bind, Except.bind]
      cases Chunk.redirectImports names file m.imports (.ofSource m.code) with
      | error e => exact ⟨.error e, fun _ => rfl⟩
      | ok t =>
        exact ⟨.ok (t.text, t.sourceMap ⟨Chunk.sourceName cwd m.id.id, some file, true, true⟩),
          fun _ => rfl⟩

/-- The chunk is rendered as that text with all settings, and as that map if there is one. -/
def RendersAs (g : Graph) (names : FileNames) (cwd : String) (c : Chunk)
    (x : Chunk × String × SourceMap) : Prop :=
  x.1 = c ∧ ∀ asked, c.render g names cwd asked = .ok (x.2.1, asked.map fun _ => x.2.2)

/-- Chunks are rendered with all settings or with none. -/
theorem renderChunks_cases (g : Graph) (names : FileNames) (cwd : String) (chunks : List Chunk) :
    (∃ e, ∀ asked, renderChunks g names cwd asked chunks = .error e) ∨
      ∃ rendered, (∀ asked, renderChunks g names cwd asked chunks =
          .ok (rendered.map (asRendered asked))) ∧
        List.Forall₂ (RendersAs g names cwd) chunks rendered := by
  induction chunks with
  | nil => exact Or.inr ⟨[], fun _ => rfl, .nil⟩
  | cons c chunks ih =>
    obtain ⟨first, here⟩ := exists_render g names cwd c
    cases first with
    | error e =>
      refine Or.inl ⟨e, fun asked => ?_⟩
      rw [renderChunks, here]
      rfl
    | ok x =>
      rcases ih with ⟨e, failed⟩ | ⟨rendered, others, each⟩
      · refine Or.inl ⟨e, fun asked => ?_⟩
        rw [renderChunks, here, failed]
        rfl
      · refine Or.inr ⟨(c, x) :: rendered, fun asked => ?_, .cons ⟨rfl, here⟩ each⟩
        rw [renderChunks, here, others]
        rfl

theorem fileName_of_toRendered {names : FileNames} {c : Chunk} {chunk : RenderedChunk}
    (h : c.toRendered names = .ok chunk) : names.of? c.module = some chunk.fileName := by
  obtain ⟨file, named, told⟩ := exists_of_bind_ok h
  cases told
  exact Chunk.of_fileName named

variable {plugins : List (Plugin σ)} {names : FileNames}

theorem finishChunks_cons_error {c : Chunk} {text : String} {map : Option SourceMap}
    {rest : List (Chunk × String × Option SourceMap)} {chunk : RenderedChunk}
    {r r₁ : Plugin.Rendering σ} {e : BuildError} (told : c.toRendered names = .ok chunk)
    (ran : Plugin.renderAll chunk kind plugins text [] r = (.error e, r₁)) :
    (finishChunks plugins names kind ((c, text, map) :: rest) r).1 = .error e := by
  rw [finishChunks, told]
  simp only [ran]

theorem finishChunks_cons_ok {c : Chunk} {text code : String} {map : Option SourceMap}
    {rest : List (Chunk × String × Option SourceMap)} {chunk : RenderedChunk}
    {given : List SourceMap} {r r₁ : Plugin.Rendering σ} (told : c.toRendered names = .ok chunk)
    (ran : Plugin.renderAll chunk kind plugins text [] r = (.ok (code, given), r₁)) :
    (finishChunks plugins names kind ((c, text, map) :: rest) r).1 =
      (finishChunks plugins names kind rest r₁).1.map
        (assetsOf kind chunk.fileName code (map.bind fun m => SourceMap.collapse (m :: given)) ++
          ·) := by
  rw [finishChunks, told]
  simp only [ran]
  rcases finishChunks plugins names kind rest r₁ with ⟨result, r₂⟩
  cases result <;> rfl

/-- Plugins raise the same error about rendered chunks with both settings, or finish each of them as
the same text. -/
theorem finishChunks_cases (indifferent : ∀ p ∈ plugins, p.Indifferent alike kind kind')
    (rendered : List (Chunk × String × SourceMap)) {r r' : Plugin.Rendering σ}
    (start : alike r.session r'.session) :
    (∃ e, (finishChunks plugins names kind (rendered.map (asRendered kind)) r).1 = .error e ∧
      (finishChunks plugins names kind' (rendered.map (asRendered kind')) r').1 = .error e) ∨
    ∃ chunks groups groups',
      (finishChunks plugins names kind (rendered.map (asRendered kind)) r).1 = .ok groups.flatten ∧
      (finishChunks plugins names kind' (rendered.map (asRendered kind')) r').1 =
        .ok groups'.flatten ∧
      List.Forall₂ (fun x y => y.chunk = x.1 ∧ names.of? x.1.module = some y.file ∧
        y.first = x.2.2) rendered chunks ∧
      List.Forall₂ (FinalChunk.Becomes kind) chunks groups ∧
      List.Forall₂ (FinalChunk.Becomes kind') chunks groups' := by
  induction rendered generalizing r r' with
  | nil => exact Or.inr ⟨[], [], [], rfl, rfl, .nil, .nil, .nil⟩
  | cons x rest ih =>
    obtain ⟨c, text, first⟩ := x
    simp only [List.map_cons, asRendered]
    cases told : c.toRendered names with
    | error e =>
      refine Or.inl ⟨e, ?_, ?_⟩
      · rw [finishChunks, told]
      · rw [finishChunks, told]
    | ok chunk =>
      rcases Plugin.renderAll_cases indifferent chunk text start with
        ⟨e, r₁, r₁', ran, ran'⟩ | ⟨code, given, given', r₁, r₁', ran, ran', session⟩
      · exact Or.inl ⟨e, finishChunks_cons_error told ran, finishChunks_cons_error told ran'⟩
      · rw [finishChunks_cons_ok told ran, finishChunks_cons_ok told ran']
        rcases ih session with ⟨e, failed, failed'⟩ |
          ⟨chunks, groups, groups', finished, finished', each, becomes, becomes'⟩
        · refine Or.inl ⟨e, ?_, ?_⟩
          · rw [failed]
            rfl
          · rw [failed']
            rfl
        · let y : FinalChunk := ⟨c, chunk.fileName, code, first⟩
          refine Or.inr ⟨y :: chunks, _ :: groups, _ :: groups', ?_, ?_,
            .cons ⟨rfl, fileName_of_toRendered told, rfl⟩ each,
            .cons (y.becomes_assetsOf kind given) becomes,
            .cons (y.becomes_assetsOf kind' given') becomes'⟩
          · rw [finished]
            rfl
          · rw [finished']
            rfl

/-! ## Bundles and builds with two settings -/

theorem wantedFileNames_withSetting (g : Graph) (o : OutputOptions) (chunks : List Chunk) :
    Chunk.wantedFileNames g { o with sourceMap := kind } chunks = Chunk.wantedFileNames g o chunks := by
  induction chunks with
  | nil => rfl
  | cons c rest ih =>
    simp only [Chunk.wantedFileNames, ih]
    rfl

theorem named_withSetting (g : Graph) (o : OutputOptions) (chunks : List Chunk) :
    Chunk.named g { o with sourceMap := kind } chunks = Chunk.named g o chunks := by
  rw [Chunk.named, Chunk.named, wantedFileNames_withSetting]

/-- What the chunks of a graph become with two settings differs in nothing but maps. -/
theorem SameButMaps.of_rendered {g : Graph} {cwd : String}
    {rendered : List (Chunk × String × SourceMap)} {chunks : List FinalChunk}
    {groups groups' : List (List Asset)}
    (renders : List.Forall₂ (RendersAs g names cwd) (Chunk.ofGraph g) rendered)
    (finishes : List.Forall₂ (fun x y => y.chunk = x.1 ∧ names.of? x.1.module = some y.file ∧
      y.first = x.2.2) rendered chunks)
    (becomes : List.Forall₂ (FinalChunk.Becomes kind) chunks groups)
    (becomes' : List.Forall₂ (FinalChunk.Becomes kind') chunks groups') :
    SameButMaps cwd kind kind' (.ok groups.flatten) (.ok groups'.flatten) := by
  refine .bundled g names ((forall₂_through renders finishes).imp ?_) becomes becomes'
  rintro c y ⟨x, ⟨rfl, text⟩, own, file, first⟩
  exact ⟨own, file, x.2.1, first ▸ text⟩

/-- A graph is bundled with both settings alike. -/
theorem ofGraph_of_indifferent (refl : ∀ s, alike s s)
    (indifferent : ∀ p ∈ plugins, p.Indifferent alike kind kind') (cwd : String)
    (o : OutputOptions) (g : Graph) (session : Session σ) :
    SameButMaps cwd kind kind' (ofGraph plugins cwd { o with sourceMap := kind } g session).1
      (ofGraph plugins cwd { o with sourceMap := kind' } g session).1 := by
  simp only [ofGraph, named_withSetting]
  cases named : Chunk.named g o (Chunk.ofGraph g) with
  | error e => exact .failed e
  | ok names =>
    cases assigned : Chunk.assignNames names g.emittedEntries session.emitter with
    | error e =>
      simp only [assigned]
      exact .failed e
    | ok emitter =>
      simp only [assigned]
      rcases renderChunks_cases g names cwd (Chunk.ofGraph g) with
        ⟨e, failed⟩ | ⟨rendered, rendering, each⟩
      · simp only [failed]
        exact .failed e
      · simp only [rendering]
        let start : Plugin.Rendering σ := ⟨⟨emitter, session.notes⟩, []⟩
        have same : alike start.session start.session := refl _
        rcases finishChunks_cases indifferent rendered same with ⟨e, failed, failed'⟩ |
          ⟨chunks, groups, groups', finished, finished', each', becomes, becomes'⟩
        · rw [failed, failed']
          exact .failed e
        · rw [finished, finished']
          exact .of_rendered each each' becomes becomes'

end Bundle

end WorkerBundler
