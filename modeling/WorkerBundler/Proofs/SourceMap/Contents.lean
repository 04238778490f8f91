import WorkerBundler.Proofs.Builds
import WorkerBundler.Proofs.Redirect
import WorkerBundler.Proofs.SourceMap.Lookups

/-!
# The contents of the sources that a map lists

A chunk is rendered with a map that lists the module and carries its text. Each plugin that gives a
map of its own has the map of the chunk composed anew, from the tokens alone, and the text does not
outlast that. So the map that goes with a chunk carries the text of the module exactly if no plugin
gave a map; otherwise it lists nothing but the module, and that without the text
(`Bundler.contents_of_generates`).
-/

namespace WorkerBundler

variable {σ : Type}

namespace SourceMap

/-! ## The sources of a composed map -/

theorem subset_firstUses (xs : List String) : firstUses xs ⊆ xs := by
  unfold firstUses
  refine List.foldlRecOn (motive := fun seen => seen ⊆ xs) xs _ (List.nil_subset xs) ?_
  intro seen known x mem
  split
  · exact known
  · exact List.append_subset.2 ⟨known, List.cons_subset.2 ⟨mem, List.nil_subset _⟩⟩

theorem exists_of_carryBack {first : SourceMap} {t back : Token}
    (h : carryBack first t = some back) : ∃ earlier ∈ first.tokens, back.source = earlier.source := by
  unfold carryBack at h
  split at h
  · cases h
  · rename_i earlier found
    split at h
    · cases h
      exact ⟨earlier, (governs_of_lookup? found).mem, rfl⟩
    · cases h

/-- A composed map lists sources of the tokens of the first map, without contents. -/
theorem exists_of_mem_compose {first second : SourceMap} {s : Source}
    (mem : s ∈ (compose first second).sources) :
    s.content = none ∧ ∃ t ∈ first.tokens, t.source = some s.name := by
  obtain ⟨name, listed, rfl⟩ := List.mem_map.1 mem
  refine ⟨rfl, ?_⟩
  obtain ⟨back, carried, named⟩ := List.mem_filterMap.1 (subset_firstUses _ listed)
  obtain ⟨t, _, back⟩ := List.mem_filterMap.1 carried
  obtain ⟨earlier, known, same⟩ := exists_of_carryBack back
  exact ⟨earlier, known, same.symm.trans named⟩

theorem exists_collapse_cons (first : SourceMap) (maps : List SourceMap) :
    ∃ m, collapse (first :: maps) = some m := by
  induction maps generalizing first with
  | nil => exact ⟨first, rfl⟩
  | cons next rest ih =>
    obtain ⟨second, others⟩ := ih next
    exact ⟨compose first second, Option.map_eq_some_iff.2 ⟨second, others, rfl⟩⟩

/-- A map has a field for contents if a source has its content. -/
theorem contents_mem_fields {m : SourceMap} :
    "sourcesContent" ∈ m.fields.map Prod.fst ↔ ∃ s ∈ m.sources, s.content.isSome = true := by
  unfold fields
  cases m.file <;> by_cases carried : ∃ s ∈ m.sources, s.content.isSome = true
  all_goals simp [carried]

end SourceMap

/-! ## The source of an edited text -/

namespace EditedText

variable {o : MapOptions}

/-- The maps of further rounds take the content of the source from the map of an edited text. -/
theorem sources_of_collapse {edited : EditedText} {given : List SourceMap} {map : SourceMap}
    (h : SourceMap.collapse (edited.sourceMap o :: given) = some map) :
    (given = [] → map = edited.sourceMap o) ∧
      (given ≠ [] → ∀ s ∈ map.sources, s = ⟨o.source, none⟩) := by
  cases given with
  | nil =>
    cases h
    exact ⟨fun _ => rfl, fun some => absurd rfl some⟩
  | cons next rest =>
    refine ⟨nofun, fun _ s mem => ?_⟩
    obtain ⟨second, _, rfl⟩ := Option.map_eq_some_iff.1 h
    obtain ⟨bare, t, known, named⟩ := SourceMap.exists_of_mem_compose mem
    have name : s.name = o.source :=
      Option.some.inj (named.symm.trans (source_of_mem_tokensFrom known))
    cases s
    cases name
    cases bare
    rfl

end EditedText

/-! ## The maps of a bundle -/

namespace Bundle

/-- The chunk of the module becomes the group of assets: it is rendered, plugins change its text and
give maps, and the map of the rendered text and the given ones make up the map that goes with it. -/
def MappedAs (plugins : List (Plugin σ)) (names : FileNames) (cwd : String)
    (kind : SourceMapKind) (c : Chunk) (m : Module) (given : List SourceMap) (map : SourceMap)
    (group : List Asset) : Prop :=
  ∃ file chunk r code r', ∃ t : EditedText, names.of? c.module = some file ∧
    c.toRendered names = .ok chunk ∧ chunk.fileName = file ∧
    Chunk.redirectImports names file m.imports (.ofSource m.code) = .ok t ∧
    Plugin.renderAll chunk (some kind) plugins t.text [] r = (.ok (code, given), r') ∧
    SourceMap.collapse (t.sourceMap ⟨Chunk.sourceName cwd m.id.id, some file, true, true⟩ :: given) =
      some map ∧
    group = assetsOf (some kind) file code (some map)

variable {plugins : List (Plugin σ)} {names : FileNames} {cwd : String} {kind : SourceMapKind}

/-- A chunk that is rendered and finished has a map. -/
theorem exists_mappedAs {g : Graph} {c : Chunk} {group : List Asset}
    {x : Chunk × String × Option SourceMap} {inState : Plugin.Rendering σ → Prop} (own : x.1 = c)
    (rendered : c.render g names cwd (some kind) = .ok x.2)
    (finished : FinishedAs plugins names (some kind) inState x group) :
    ∃ m ∈ g.modules, m.id = c.module ∧
      ∃ given map, MappedAs plugins names cwd kind c m given map group := by
  obtain ⟨m, file, t, found, named, pointed, text, first⟩ := Chunk.render_ok rendered
  obtain ⟨chunk, r, code, given, r', told, _, ran, rfl⟩ := finished
  obtain ⟨listed, same⟩ := Chunk.of_moduleIn found
  obtain ⟨map, collapsed⟩ := SourceMap.exists_collapse_cons
    (t.sourceMap ⟨Chunk.sourceName cwd m.id.id, some file, true, true⟩) given
  have isFile : chunk.fileName = file := by
    obtain ⟨file', named', told⟩ := exists_of_bind_ok (own ▸ told)
    cases told
    exact Except.ok.inj (named'.symm.trans named)
  rw [text] at ran
  rw [own] at told
  refine ⟨m, listed, same, given, map, file, chunk, r, code, r', t, Chunk.of_fileName named, told,
    isFile, pointed, ran, collapsed, ?_⟩
  rw [isFile, first, Option.map_some, Option.bind_some, collapsed]

end Bundle

/-- **The map of a chunk carries the text of its module exactly if no plugin gave a map.** The map
that goes with a chunk lists the module of the chunk only; with its text if no plugin gave a map for
the chunk, and otherwise without. -/
theorem Bundler.contents_of_generates {b : Bundler σ} {disk : Disk} {o : OutputOptions}
    {l : Loading σ} {assets : List Asset} {kind : SourceMapKind}
    (generates : b.Generates disk o l assets) (wanted : o.sourceMap = some kind) :
    ∃ names groups, Chunk.named l.graph o (Chunk.ofGraph l.graph) = .ok names ∧
      assets = groups.flatten ∧
      List.Forall₂ (fun c group => ∃ m ∈ l.graph.modules, m.id = c.module ∧ ∃ given map,
        Bundle.MappedAs b.options.plugins names b.options.cwd kind c m given map group ∧
        (given = [] → map.sources =
          [⟨Chunk.sourceName b.options.cwd m.id.id, some m.code⟩]) ∧
        (given ≠ [] → ∀ s ∈ map.sources,
          s = ⟨Chunk.sourceName b.options.cwd m.id.id, none⟩) ∧
        ("sourcesContent" ∈ map.fields.map Prod.fst ↔ given = []))
        (Chunk.ofGraph l.graph) groups := by
  obtain ⟨names, _, groups, named, _, whole, each⟩ :=
    Bundle.forall₂_ofGraph (fun _ _ => True) (fun _ => trivial) (fun _ _ _ _ _ => trivial)
      generates.bundles
  rw [wanted] at each
  refine ⟨names, groups, named, whole, each.imp ?_⟩
  intro c group ⟨x, ⟨own, text⟩, finished⟩
  obtain ⟨m, listed, same, given, map, mapped⟩ := Bundle.exists_mappedAs own text finished
  refine ⟨m, listed, same, given, map, mapped, ?_⟩
  obtain ⟨file, _, _, _, _, t, _, _, _, pointed, _, collapsed, _⟩ := mapped
  obtain ⟨alone, composed⟩ := EditedText.sources_of_collapse collapsed
  have source : t.source = m.code :=
    (Chunk.fits_of_redirectImports (EditedText.fits_ofSource m.code) pointed).2.1
  have carried : given = [] → map.sources =
      [⟨Chunk.sourceName b.options.cwd m.id.id, some m.code⟩] := by
    intro none
    rw [alone none, ← source]
    rfl
  refine ⟨carried, composed, ?_⟩
  rw [SourceMap.contents_mem_fields]
  constructor
  · rintro ⟨s, among, content⟩
    by_contra some
    rw [composed some s among] at content
    cases content
  · intro none
    rw [carried none]
    exact ⟨_, List.mem_singleton_self _, rfl⟩

/-! ## Two maps -/

/-- A plugin with a module of every name. It spells the chunk `changed` in another way, and gives
the map of that. -/
def respellingPlugin : Plugin Unit where
  name := "respelling"
  resolveId request := return some ⟨request.specifier, false⟩
  load id := return some id
  renderChunk request :=
    let t : EditedText := ⟨request.code, [⟨0, 1, "C"⟩]⟩
    return if request.chunk.name = "changed" then
      some ⟨t.text, some (t.sourceMap ⟨request.chunk.fileName, none, true, false⟩)⟩ else none

/-- The map that the plugin gives. -/
def respelledMap : SourceMap :=
  (⟨"changed", [⟨0, 1, "C"⟩]⟩ : EditedText).sourceMap ⟨"changed.js", none, true, false⟩

/-- A bundler with a chunk that the plugin changes and one that it does not. -/
def respellingBundler : Bundler Unit :=
  .new { input := [⟨"kept", "kept"⟩, ⟨"changed", "changed"⟩], cwd := "/",
         externalTest := fun _ _ _ => .ok false, plugins := [respellingPlugin] } ()

def respelledOutput : OutputOptions where
  sourceMap := some .hidden

def respellingGraph : Graph where
  entries := [⟨"kept", ⟨"kept", false⟩⟩, ⟨"changed", ⟨"changed", false⟩⟩]
  emittedEntries := []
  modules := [⟨⟨"kept", false⟩, "kept", [], true⟩, ⟨⟨"changed", false⟩, "changed", [], true⟩]

theorem fetch_respellingBundler :
    ((Loader.fetch (respellingBundler.options.environment ⟨[], []⟩) 2
      respellingBundler.options.input ⟨.empty, ()⟩).bind fun r =>
        r.1.toOption.map fun g =>
          (g, (Bundle.ofGraph [respellingPlugin] "/" respelledOutput g r.2).1.toOption.isSome)) =
      some (respellingGraph, true) := by
  decide +kernel

theorem chunks_respellingGraph : Chunk.ofGraph respellingGraph =
    [⟨"kept", ⟨"kept", false⟩, true, false⟩, ⟨"changed", ⟨"changed", false⟩, true, false⟩] := by
  decide

theorem named_respellingGraph :
    (Chunk.named respellingGraph respelledOutput (Chunk.ofGraph respellingGraph)).toOption =
      some [(⟨"kept", false⟩, "kept.js"), (⟨"changed", false⟩, "changed.js")] := by
  decide +kernel

/-- The map of the chunk that the plugin left alone carries its text, and that of the other chunk
has lost it. -/
theorem contents_respellingBundler : ∃ (l : Loading Unit) (assets : List Asset)
    (kept changed : SourceMap),
    respellingBundler.Generates ⟨[], []⟩ respelledOutput l assets ∧
      assets = [⟨"kept.js", "kept"⟩, ⟨"kept.js.map", kept.text⟩, ⟨"changed.js", "Changed"⟩,
        ⟨"changed.js.map", changed.text⟩] ∧
      kept.sources = [⟨"kept", some "kept"⟩] ∧ changed.sources = [⟨"changed", none⟩] ∧
      "sourcesContent" ∉ changed.fields.map Prod.fst := by
  obtain ⟨l, loads, known⟩ := exists_loadsTo
    (f := fun g s =>
      (g, (Bundle.ofGraph [respellingPlugin] "/" respelledOutput g s).1.toOption.isSome))
    fetch_respellingBundler
  obtain ⟨graph, bundled⟩ := Prod.mk.inj known
  obtain ⟨assets, made⟩ := Option.isSome_iff_exists.1 bundled
  have generates : respellingBundler.Generates ⟨[], []⟩ respelledOutput l assets :=
    ⟨loads, eq_ok_of_toOption made⟩
  obtain ⟨names, groups, named, rfl, each⟩ := Bundler.contents_of_generates generates rfl
  rw [graph, eq_ok_of_toOption named_respellingGraph] at named
  cases named
  rw [graph, chunks_respellingGraph] at each
  rcases each with _ | ⟨⟨m, listed, here, given, kept, mapped, alone, _, _⟩,
    _ | ⟨⟨m', listed', here', given', changed, mapped', _, _, field⟩, _ | _⟩⟩
  simp only [respellingGraph, List.mem_cons, List.not_mem_nil, or_false] at listed listed'
  obtain rfl : m = ⟨⟨"kept", false⟩, "kept", [], true⟩ := by
    rcases listed with rfl | rfl
    · rfl
    · exact absurd here (by decide)
  obtain rfl : m' = ⟨⟨"changed", false⟩, "changed", [], true⟩ := by
    rcases listed' with rfl | rfl
    · exact absurd here' (by decide)
    · rfl
  obtain ⟨file, chunk, r, code, r', t, placed, told, _, pointed, ran, _, rfl⟩ := mapped
  obtain ⟨file', chunk', s, code', s', t', placed', told', _, pointed', ran', collapsed, rfl⟩ :=
    mapped'
  cases placed
  cases placed'
  cases told
  cases told'
  cases pointed
  cases pointed'
  obtain ⟨rfl, rfl⟩ : code = "kept" ∧ given = [] := by
    cases ran
    exact ⟨by decide, rfl⟩
  obtain ⟨rfl, rfl⟩ : code' = "Changed" ∧ given' = [respelledMap] := by
    cases ran'
    exact ⟨by decide, by decide⟩
  have sources : (SourceMap.collapse [(EditedText.ofSource "changed").sourceMap
      ⟨Chunk.sourceName "/" "changed", some "changed.js", true, true⟩, respelledMap]).map
        SourceMap.sources = some [⟨"changed", none⟩] := by
    decide
  refine ⟨l, _, kept, changed, generates, rfl, alone rfl, ?_, ?_⟩
  · exact Option.some.inj ((congrArg (Option.map SourceMap.sources) collapsed).symm.trans sources)
  · exact fun listed => absurd (field.1 listed) (List.cons_ne_nil _ _)

end WorkerBundler
