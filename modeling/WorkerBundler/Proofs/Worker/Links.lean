import WorkerBundler.Proofs.Builds
import WorkerBundler.Proofs.Redirect
import WorkerBundler.Proofs.Worker.WrapperText

/-!
# From an import to the file of the worker

With the worker plugin as the only one, a worker request in a module of a build leads to the file of
the worker: `Linked` lists the stations. The request is claimed, so its wrapper is a dependency and
becomes a module (`exists_wrapper`). Loading the wrapper emits the worker, which is recorded and
named since resolving emits nothing (`exists_worker`). The wrapper imports packages only, so its
chunk is rendered as it is, and finishing it puts the path of the worker's file in place of the
placeholder (`finished_wrapper`), which does not fail once the worker has a file
(`finishes_wrapper`).
-/

namespace WorkerBundler.Worker

variable {σ : Type} {env : Environment σ} {w : Options} {input : List InputItem}
  {session : Session σ} {l : Loading σ}

/-- A worker request of a module starts the module that it asks for: its wrapper is a chunk whose
text has one literal, and the literal leads from the file of the wrapper to the file of the
worker. -/
structure Linked (env : Environment σ) (w : Options) (o : OutputOptions) (g : Graph)
    (names : FileNames) (assets : List Asset) (importer specifier : String)
    (wrapper worker : ModuleId) (file workerFile literal : String) : Prop where
  claimed : Resolver.resolve env ⟨specifier, some importer⟩ = .answer (.ok (some wrapper))
  wrapperChunk : ∃! c, c ∈ Chunk.ofGraph g ∧ c.module = wrapper
  wrapperFile : names.of? wrapper = some file
  text : ∃ map, Bundle.assetsOf o.sourceMap file (Worker.wrapper w.format literal) map ⊆ assets
  asked : Resolver.resolve env ⟨Request.clean specifier, some importer⟩ =
    .answer (.ok (some worker))
  workerChunk : ∃! c, c ∈ Chunk.ofGraph g ∧ c.module = worker
  named : names.of? worker = some workerFile
  leads : ∃ request : String, Text.unquote? literal.toList = some (request.toList, []) ∧
    Path.follow (Path.segments (OutputPath.directory file)) request = Path.segments workerFile

/-! ## The wrapper -/

/-- The wrapper of a worker request is a module whose code holds the placeholder of the worker. -/
theorem exists_wrapper (alone : env.plugins = [plugin w]) (loads : LoadsTo env input session l)
    {m : Module} (mem : m ∈ l.graph.modules) {i : Import}
    (scanned : i ∈ ImportScan.imports m.code) (asks : isWorkerRequest i.specifier = true) :
    ∃ wrapped ∈ l.graph.modules, wrapped.id = ⟨wrapperId i.specifier m.id.id, false⟩ ∧
      ∃ reference, ⟨reference, ⟨Request.clean i.specifier, some m.id.id, none⟩, none⟩ ∈
          l.emitter.emissions ∧
        wrapped.code = wrapper w.format (Placeholder.ofReference reference) := by
  have complete := complete_of_loads loads
  have origin := comesFrom_of_loads loads
  have own := origin.modules m mem
  rw [← own.sites] at scanned
  obtain ⟨r, record, rfl⟩ := List.mem_map.1 scanned
  have answers := Loader.mayAnswer_of_resolveImport (own.targets r record)
  rw [resolve_claimed alone asks, Hook.mayAnswer_answer] at answers
  have target : r.target = ⟨wrapperId r.site.specifier m.id.id, false⟩ :=
    (Option.some.inj (Except.ok.inj answers)).symm
  have dependency : r.target ∈ m.dependencies := by
    refine List.mem_filter.2 ⟨List.mem_map_of_mem record, ?_⟩
    rw [target]
    rfl
  have needed : l.graph.Needed m.id := (complete.mem_iff _).1 (List.mem_map_of_mem mem)
  obtain ⟨wrapped, loaded, same⟩ := List.mem_map.1
    ((complete.mem_iff _).2 (.dependency mem needed dependency))
  have id : wrapped.id = ⟨wrapperId r.site.specifier m.id.id, false⟩ := same.trans target
  have worker : workerOf? wrapped.id.id =
      some ⟨Request.clean r.site.specifier, some m.id.id, none⟩ := by
    rw [id]
    exact workerOf?_wrapperId asks m.id.id
  exact ⟨wrapped, loaded, id,
    mayAnswer_of_transformedCode alone worker (origin.modules wrapped loaded).code⟩

/-! ## The worker -/

/-- A worker that was emitted is a module, and its file name stands under its reference. -/
theorem exists_worker (alone : env.plugins = [plugin w]) {notes : σ}
    (loads : LoadsTo env input ⟨.empty, notes⟩ l) {o : OutputOptions} {names : FileNames}
    {emitter : Emitter} (named : Chunk.named l.graph o (Chunk.ofGraph l.graph) = .ok names)
    (assigned : Chunk.assignNames names l.graph.emittedEntries l.emitter = .ok emitter)
    {reference specifier importer : String}
    (emitted : ⟨reference, ⟨Request.clean specifier, some importer, none⟩, none⟩ ∈
      l.emitter.emissions) :
    ∃ worker workerFile, worker ∈ l.graph.modules.map Module.id ∧
      Resolver.resolve env ⟨Request.clean specifier, some importer⟩ =
        .answer (.ok (some worker)) ∧
      names.of? worker = some workerFile ∧ emitter.fileName reference = .ok workerFile := by
  have orderly := Loading.orderly_of_reach loads.reach
  have settled := (Loading.settled_of_silent loads (resolve_silent alone) o).2 _ emitted
  obtain ⟨e, listed, same, _, loaded, names', emitter', file, named', assigned', found, given⟩ :=
    settled.named
  cases Except.ok.inj (named'.symm.trans named)
  cases Except.ok.inj (assigned'.symm.trans assigned)
  have handed := List.count_pos_iff.1 (Nat.lt_of_lt_of_eq Nat.zero_lt_one settled.handedOut.symm)
  have answers := Loader.mayAnswer_of_resolveEntry
    (Loading.mayAnswer_of_reference loads orderly handed listed same)
  have asked := answers.2
  rw [resolve_unclaimed alone (isWorkerRequest_clean specifier), Hook.mayAnswer_answer] at asked
  refine ⟨e.module, file, loaded, ?_, found, given⟩
  rw [resolve_unclaimed alone (isWorkerRequest_clean specifier), asked]

/-! ## The chunk of the wrapper -/

theorem keepSession_alone (w : Options) : Plugin.KeepSession [(plugin w : Plugin σ)] := by
  intro p mem request s
  rw [List.mem_singleton.1 mem]
  rfl

theorem renderAll_alone {chunk : RenderedChunk} {kind : Option SourceMapKind}
    {code code' : String} {maps maps' : List SourceMap} {r r' : Plugin.Rendering σ}
    (h : Plugin.renderAll chunk kind [plugin w] code maps r = (.ok (code', maps'), r')) :
    ∃ output, substitute r.session.emitter.fileName ⟨code, chunk, kind⟩ (w.sourceMap <|> kind) =
      .ok output ∧ code' = (output.map RenderOutput.code).getD code := by
  have ran : ((plugin w : Plugin σ).renderChunk ⟨code, chunk, kind⟩).run r.session =
      (substitute r.session.emitter.fileName ⟨code, chunk, kind⟩ (w.sourceMap <|> kind),
        r.session) := rfl
  rw [Plugin.renderAll, ran] at h
  split at h
  · cases h
  · rename_i same
    cases h
    exact ⟨none, congrArg Prod.fst same, rfl⟩
  · rename_i output _ same
    cases h
    exact ⟨some output, congrArg Prod.fst same, rfl⟩

theorem exists_renderAll_alone {chunk : RenderedChunk} {kind : Option SourceMapKind}
    {code : String} {maps : List SourceMap} {r : Plugin.Rendering σ}
    {output : Option RenderOutput}
    (substituted : substitute r.session.emitter.fileName ⟨code, chunk, kind⟩
      (w.sourceMap <|> kind) = .ok output) :
    ∃ changed, (Plugin.renderAll chunk kind [plugin w] code maps r).1 = .ok changed := by
  have ran : ((plugin w : Plugin σ).renderChunk ⟨code, chunk, kind⟩).run r.session =
      (substitute r.session.emitter.fileName ⟨code, chunk, kind⟩ (w.sourceMap <|> kind),
        r.session) := rfl
  rw [Plugin.renderAll, ran, substituted]
  cases output <;> exact ⟨_, rfl⟩

theorem finishes_alone {names : FileNames} {kind : Option SourceMapKind} {c : Chunk}
    {chunk : RenderedChunk} {code : String} {output : Option RenderOutput}
    (told : c.toRendered names = .ok chunk)
    (substituted : substitute session.emitter.fileName ⟨code, chunk, kind⟩
      (w.sourceMap <|> kind) = .ok output) :
    Bundle.Finishes [plugin w] names kind session c code := by
  refine ⟨chunk, told, ?_⟩
  rintro r rfl
  exact exists_renderAll_alone substituted

/-- A wrapper is rendered as it is. -/
theorem render_wrapper (alone : env.plugins = [plugin w]) (loads : LoadsTo env input session l)
    {wrapped : Module} (mem : wrapped ∈ l.graph.modules) {reference : String}
    (minted : IsMinted reference)
    (code : wrapped.code = wrapper w.format (Placeholder.ofReference reference)) {c : Chunk}
    (here : c.module = wrapped.id) {names : FileNames} {cwd : String}
    {kind : Option SourceMapKind} {text : String} {map : Option SourceMap}
    (rendered : c.render l.graph names cwd kind = .ok (text, map)) :
    text = wrapper w.format (Placeholder.ofReference reference) := by
  obtain ⟨m, file, t, found, _, pointed, rfl, _⟩ := Chunk.render_ok rendered
  obtain ⟨listed, same⟩ := Chunk.of_moduleIn found
  have one : m = wrapped :=
    eq_of_key (complete_of_loads loads).nodup listed mem (same.trans here)
  rw [one, Chunk.redirectImports_of_external _ fun r record =>
    isExternal_of_wrapper alone minted ((comesFrom_of_loads loads).modules wrapped mem) code
      record] at pointed
  cases pointed
  rw [EditedText.text_ofSource, code]

/-- Finishing a wrapper puts the literal of the worker's file in it. -/
theorem finished_wrapper {names : FileNames} {kind : Option SourceMapKind} {assets : List Asset}
    {format : Format} {reference workerFile file : String} (minted : IsMinted reference)
    (given : session.emitter.fileName reference = .ok workerFile) {c : Chunk}
    (named : names.of? c.module = some file)
    (finished : Bundle.Finished [plugin w] names kind session assets c
      (wrapper format (Placeholder.ofReference reference))) :
    ∃ map, Bundle.assetsOf kind file (wrapper format (literal file workerFile)) map ⊆ assets := by
  obtain ⟨chunk, r, code, maps, r', map, told, same, ran, among⟩ := finished
  have file_eq : chunk.fileName = file := by
    rw [Chunk.toRendered, Chunk.fileName_ok named] at told
    cases told
    rfl
  obtain ⟨output, substituted, changed⟩ := renderAll_alone ran
  obtain ⟨workerFile', replaced, found, rfl, text⟩ := substitute_wrapper minted rfl substituted
  rw [same, given] at found
  cases found
  have code_eq : code = wrapper format (literal file workerFile) := by
    rw [changed, ← file_eq]
    exact text
  rw [file_eq, code_eq] at among
  exact ⟨map, among⟩

/-- The chunk of a wrapper is rendered, and it can be finished where the worker has a file. -/
theorem finishes_wrapper (alone : env.plugins = [plugin w]) (loads : LoadsTo env input session l)
    {wrapped : Module} (mem : wrapped ∈ l.graph.modules) {reference workerFile : String}
    (minted : IsMinted reference)
    (code : wrapped.code = wrapper w.format (Placeholder.ofReference reference)) {c : Chunk}
    (listed : c ∈ Chunk.ofGraph l.graph) (here : c.module = wrapped.id) {names : FileNames}
    (same : names.map Prod.fst = (Chunk.ofGraph l.graph).map Chunk.module)
    {done : Session σ} (given : done.emitter.fileName reference = .ok workerFile)
    (cwd : String) (kind : Option SourceMapKind) :
    ∃ text map, c.render l.graph names cwd kind = .ok (text, map) ∧
      Bundle.Finishes [plugin w] names kind done c text := by
  have complete := complete_of_loads loads
  obtain ⟨m, file, found, known, id, named, _⟩ :=
    Chunk.placed_of_complete complete same listed
  obtain rfl : m = wrapped := eq_of_key complete.nodup known mem (id.trans here)
  have pointed : Chunk.redirectImports names file m.imports (.ofSource m.code) =
      .ok (.ofSource m.code) :=
    Chunk.redirectImports_of_external _ fun r record =>
      isExternal_of_wrapper alone minted ((comesFrom_of_loads loads).modules m mem) code record
  obtain ⟨map, rendered⟩ := Chunk.exists_render found named pointed cwd kind
  rw [EditedText.text_ofSource, code] at rendered
  have told : c.toRendered names =
      .ok ⟨c.name, file, c.module.id, c.isUserEntry || c.isEmittedEntry⟩ := by
    rw [Chunk.toRendered, named]
    rfl
  let request : RenderRequest := ⟨wrapper w.format (Placeholder.ofReference reference),
    ⟨c.name, file, c.module.id, c.isUserEntry || c.isEmittedEntry⟩, kind⟩
  obtain ⟨output, substituted⟩ : ∃ output,
      substitute done.emitter.fileName request (w.sourceMap <|> kind) = .ok output :=
    exists_substitute_wrapper minted given _ rfl
  exact ⟨_, map, rendered, finishes_alone told substituted⟩

/-- The literal leads from the one file to the other. -/
theorem leads_of_literal (file workerFile : String) :
    ∃ request : String, Text.unquote? (literal file workerFile).toList = some (request.toList, []) ∧
      Path.follow (Path.segments (OutputPath.directory file)) request =
        Path.segments workerFile := by
  refine ⟨OutputPath.requestFrom file workerFile, ?_, OutputPath.follow_requestFrom _ _⟩
  rw [literal, Text.quote, String.toList_ofList]
  have read := Text.unquote?_quoteChars (OutputPath.requestFrom file workerFile).toList []
  rw [List.append_nil] at read
  exact read

/-! ## The whole way -/

/-- **Every worker request of a build leads to the file of its worker.** -/
theorem linked_of_generates {b : Bundler σ} (alone : b.options.plugins = [plugin w]) {disk : Disk}
    {o : OutputOptions} {assets : List Asset} (generates : b.Generates disk o l assets) :
    ∃ names, Chunk.named l.graph o (Chunk.ofGraph l.graph) = .ok names ∧
      ∀ m ∈ l.graph.modules, ∀ i ∈ ImportScan.imports m.code,
        isWorkerRequest i.specifier = true →
        ∃ wrapper worker file workerFile literal,
          Linked (b.options.environment disk) w o l.graph names assets m.id.id i.specifier wrapper
            worker file workerFile literal := by
  obtain ⟨loads, bundles⟩ := generates
  have alone' : (b.options.environment disk).plugins = [plugin w] := alone
  have complete := complete_of_loads loads
  have orderly := Loading.orderly_of_reach loads.reach
  rw [alone] at bundles
  obtain ⟨names, emitter, named, assigned, finished⟩ :=
    Bundle.finished_of_ofGraph (keepSession_alone w) bundles
  refine ⟨names, named, ?_⟩
  intro m mem i scanned asks
  obtain ⟨wrapped, loaded, id, reference, emitted, code⟩ :=
    exists_wrapper alone' loads mem scanned asks
  obtain ⟨worker, workerFile, loadedWorker, asked, namedWorker, given⟩ :=
    exists_worker alone' loads named assigned emitted
  have minted : IsMinted reference := by
    obtain ⟨seed, same⟩ := orderly.unnamed.minted _ emitted
    exact ⟨_, seed, same⟩
  have unique := Chunk.existsUnique_chunk complete (List.mem_map_of_mem loaded)
  obtain ⟨c, ⟨listed, here⟩, _⟩ := unique
  obtain ⟨text, map, rendered, done⟩ := finished c listed
  obtain ⟨_, file, _, _, fileNamed, _, _⟩ := Chunk.render_ok rendered
  have placed : names.of? wrapped.id = some file := here ▸ Chunk.of_fileName fileNamed
  rw [render_wrapper alone' loads loaded minted code here rendered] at done
  refine ⟨wrapped.id, worker, file, workerFile, literal file workerFile, ?_⟩
  exact {
    claimed := by rw [id]; exact resolve_claimed alone' asks m.id.id
    wrapperChunk := Chunk.existsUnique_chunk complete (List.mem_map_of_mem loaded)
    wrapperFile := placed
    text := finished_wrapper minted given (here ▸ placed) done
    asked := asked
    workerChunk := Chunk.existsUnique_chunk complete loadedWorker
    named := namedWorker
    leads := leads_of_literal file workerFile }

/-! ## A small build -/

/-- A disk with a module that starts another one as a worker. -/
def taskDisk : Disk where
  entries := [
    (["main.js"], .file "import start from './task.js?nodeWorker';".toUTF8),
    (["task.js"], .file "task();".toUTF8)]
  workingDirectory := []

def taskBundler : Bundler Unit where
  options :=
    { input := [⟨"main", "./main.js"⟩]
      cwd := "/"
      externalTest := fun _ _ _ => .ok false
      plugins := [plugin ⟨none, .cjs⟩] }
  session := ⟨.empty, ()⟩

def taskOutput : OutputOptions := ⟨"[name].js", "[name].js", none⟩

def taskEmitter : Emitter := ⟨[⟨"kmx986bu", ⟨"./task.js", some "/main.js", none⟩, none⟩], 1, 1⟩

def taskWrapper : Module where
  id := ⟨"./task.js?nodeWorker&importer=%2Fmain.js", false⟩
  code := wrapper .cjs (Placeholder.ofReference "kmx986bu")
  imports := [⟨⟨"node:worker_threads", 24, 43, .static⟩, ⟨"node:worker_threads", true⟩⟩]
  isUserEntry := false

def taskGraph : Graph where
  entries := [⟨"main", ⟨"/main.js", false⟩⟩]
  emittedEntries := [⟨"kmx986bu", none, ⟨"/task.js", false⟩⟩]
  modules := [
    { id := ⟨"/main.js", false⟩
      code := "import start from './task.js?nodeWorker';"
      imports := [⟨⟨"./task.js?nodeWorker", 19, 39, .static⟩,
        ⟨"./task.js?nodeWorker&importer=%2Fmain.js", false⟩⟩]
      isUserEntry := true },
    taskWrapper,
    { id := ⟨"/task.js", false⟩, code := "task();", imports := [], isUserEntry := false }]

/-- What the bundle of a load is made from. -/
def taskOutcome (g : Graph) (s : Session Unit) : Graph × Emitter := (g, s.emitter)

theorem fetch_taskBundler :
    ((Loader.fetch (taskBundler.options.environment taskDisk) 3 taskBundler.options.input
      ⟨.empty, ()⟩).bind fun r => r.1.toOption.map fun g => taskOutcome g r.2) =
      some (taskGraph, taskEmitter) := by
  decide +kernel

def taskChunks : List Chunk := [
  ⟨"main", ⟨"/main.js", false⟩, true, false⟩,
  ⟨"task", ⟨"/task.js", false⟩, false, true⟩,
  ⟨"task", ⟨"./task.js?nodeWorker&importer=%2Fmain.js", false⟩, false, false⟩]

def taskNames : FileNames := [
  (⟨"/main.js", false⟩, "main.js"),
  (⟨"/task.js", false⟩, "task.js"),
  (⟨"./task.js?nodeWorker&importer=%2Fmain.js", false⟩, "task2.js")]

/-- The emitter when the task has its file name. -/
def taskNamed : Emitter :=
  ⟨[⟨"kmx986bu", ⟨"./task.js", some "/main.js", none⟩, some "task.js"⟩], 1, 1⟩

theorem chunks_taskGraph : Chunk.ofGraph taskGraph = taskChunks := by
  decide

theorem named_taskGraph : Chunk.named taskGraph taskOutput taskChunks = .ok taskNames := by
  let wanted : List (ModuleId × String) := [
    (⟨"/main.js", false⟩, "main.js"),
    (⟨"/task.js", false⟩, "task.js"),
    (⟨"./task.js?nodeWorker&importer=%2Fmain.js", false⟩, "task.js")]
  have asked : (Chunk.wantedFileNames taskGraph taskOutput taskChunks).toOption = some wanted := by
    decide
  have unique : Chunk.makeUnique [] wanted = taskNames := by decide
  rw [Chunk.named, eq_ok_of_toOption asked]
  exact congrArg Except.ok unique

theorem assigned_taskGraph :
    Chunk.assignNames taskNames taskGraph.emittedEntries taskEmitter = .ok taskNamed :=
  eq_ok_of_toOption (by decide)

/-- A chunk of the build whose text has no placeholder is rendered and finished. -/
theorem finishes_plain {c : Chunk} {chunk : RenderedChunk} (text : String)
    (rendered : (c.render taskGraph taskNames "/" none).toOption = some (text, none))
    (told : c.toRendered taskNames = .ok chunk)
    (kept : (substitute taskNamed.fileName ⟨text, chunk, none⟩ none).toOption = some none) :
    ∃ text map, c.render taskGraph taskNames "/" none = .ok (text, map) ∧
      Bundle.Finishes taskBundler.options.plugins taskNames none ⟨taskNamed, ()⟩ c text :=
  ⟨text, none, eq_ok_of_toOption rendered, finishes_alone told (eq_ok_of_toOption kept)⟩

theorem exists_taskBundle {l : Loading Unit}
    (loads : LoadsTo (taskBundler.options.environment taskDisk) taskBundler.options.input
      ⟨.empty, ()⟩ l)
    (graph : l.graph = taskGraph) (emitter : l.emitter = taskEmitter) :
    ∃ assets, (Bundle.ofGraph taskBundler.options.plugins taskBundler.options.cwd taskOutput
      l.graph l.loader.session).1 = .ok assets := by
  have chunks : Chunk.ofGraph l.graph = taskChunks := by rw [graph, chunks_taskGraph]
  have named : Chunk.named l.graph taskOutput (Chunk.ofGraph l.graph) = .ok taskNames := by
    rw [chunks, graph, named_taskGraph]
  have assigned : Chunk.assignNames taskNames l.graph.emittedEntries l.emitter =
      .ok taskNamed := by
    rw [graph, emitter, assigned_taskGraph]
  have keep : Plugin.KeepSession taskBundler.options.plugins := keepSession_alone _
  refine Bundle.exists_ofGraph keep named assigned fun c listed => ?_
  have known : c ∈ taskChunks := chunks ▸ listed
  simp only [taskChunks, List.mem_cons, List.not_mem_nil, or_false] at known
  rcases known with rfl | rfl | rfl
  · rw [graph]
    exact finishes_plain "import start from './task2.js';" (by decide) rfl (by decide)
  · rw [graph]
    exact finishes_plain "task();" (by decide) rfl (by decide)
  · -- the text of the wrapper is long, and the general lemma spares evaluating it
    have mem : taskWrapper ∈ l.graph.modules := by
      rw [graph]
      exact List.mem_cons_of_mem _ List.mem_cons_self
    have minted : IsMinted "kmx986bu" := by
      have emitted : ⟨"kmx986bu", ⟨"./task.js", some "/main.js", none⟩, none⟩ ∈
          l.emitter.emissions := by
        rw [emitter]
        exact List.mem_singleton_self _
      obtain ⟨seed, same⟩ := (Loading.orderly_of_reach loads.reach).unnamed.minted _ emitted
      exact ⟨_, seed, same⟩
    have given : taskNamed.fileName "kmx986bu" = .ok "task.js" := rfl
    have same : taskNames.map Prod.fst = (Chunk.ofGraph l.graph).map Chunk.module := by
      rw [chunks]
      rfl
    have alone : (taskBundler.options.environment taskDisk).plugins = [plugin ⟨none, .cjs⟩] := rfl
    have code : taskWrapper.code = wrapper .cjs (Placeholder.ofReference "kmx986bu") := rfl
    exact finishes_wrapper (w := ⟨none, .cjs⟩) alone loads mem minted code listed rfl same given _ _

/-- The import of the task leads to its file. -/
theorem linked_taskBundler : ∃ (l : Loading Unit) (assets : List Asset) (names : FileNames)
    (wrapper worker : ModuleId) (file workerFile literal : String),
    taskBundler.Generates taskDisk taskOutput l assets ∧
      Linked (taskBundler.options.environment taskDisk) ⟨none, .cjs⟩ taskOutput l.graph names
        assets "/main.js" "./task.js?nodeWorker" wrapper worker file workerFile literal := by
  obtain ⟨l, loads, outcome⟩ := exists_loadsTo (f := taskOutcome) fetch_taskBundler
  obtain ⟨graph, emitter⟩ := Prod.mk.inj outcome
  obtain ⟨assets, bundled⟩ := exists_taskBundle loads graph emitter
  have generates : taskBundler.Generates taskDisk taskOutput l assets := ⟨loads, bundled⟩
  obtain ⟨names, _, each⟩ := linked_of_generates (w := ⟨none, .cjs⟩) rfl generates
  have scanned : ⟨"./task.js?nodeWorker", 19, 39, .static⟩ ∈
      ImportScan.imports "import start from './task.js?nodeWorker';" := by
    decide
  have first : taskGraph.modules.head? = some ⟨⟨"/main.js", false⟩,
      "import start from './task.js?nodeWorker';", _, true⟩ := rfl
  rw [← graph] at first
  obtain ⟨wrapper, worker, file, workerFile, literal, linked⟩ :=
    each _ (List.mem_of_mem_head? first) _ scanned (by decide)
  exact ⟨l, assets, names, wrapper, worker, file, workerFile, literal, generates, linked⟩

end WorkerBundler.Worker
