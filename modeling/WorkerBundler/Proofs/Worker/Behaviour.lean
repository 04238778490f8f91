import WorkerBundler.Proofs.FilePaths
import WorkerBundler.Proofs.ImportPlaces
import WorkerBundler.Proofs.Loading.Messages
import WorkerBundler.Proofs.Loading.Termination
import WorkerBundler.Proofs.Worker.WrapperIds
import WorkerBundler.Proofs.Worker.WrapperText

/-!
# What the plugin does where it is alone

Where the worker plugin is the only one, an environment has a behaviour (`follows_behaviour`): a
worker request resolves to its wrapper, any other request to what the disk has; a wrapper emits its
worker and imports built-in packages, whatever its reference is, and any other module is the file on
disk.

The ids of modules are made of specifiers and importers, and a wrapper is an importer too, but only
finitely many are ever needed (`mem_moduleIds`). The request for a worker is made by a file, since
wrappers ask for packages only, and the worker itself is asked for without its query. So there are
the paths of files, and one wrapper for each worker request in one of them.
-/

namespace WorkerBundler.Worker

variable {σ : Type} {env : Environment σ} {w : Options} {input : List InputItem}

/-! ## The behaviour -/

/-- What a request resolves to. -/
def target (env : Environment σ) (request : ResolveRequest) : Option ModuleId :=
  match claim? request with
  | some id => some id
  | none => Resolver.targetOf (Resolver.resolveOnDisk env request)

/-- The packages that a wrapper imports. -/
def wrapperImports : Format → List String
  | .cjs => ["node:worker_threads"]
  | .esm => ["node:worker_threads", "node:module"]

/-- The specifiers in the file at the path, if it can be read. -/
def fileImports (disk : Disk) (path : String) : Option (List String) :=
  (disk.read? path).map fun code => (ImportScan.imports code).map Import.specifier

/-- What an environment does whose only plugin makes wrappers of the format. -/
def behaviour (env : Environment σ) (format : Format) : Behaviour where
  target := target env
  emits id :=
    match workerOf? id with
    | none => []
    | some chunk => [(target env ⟨chunk.id, chunk.importer⟩).filter (!·.isExternal)]
  specifiers id :=
    match workerOf? id with
    | none => fileImports env.disk id
    | some _ => some (wrapperImports format)

/-- A wrapper starts with its imports, and no quotes stand between them and the placeholder. -/
theorem exists_cut_wrapperHead (format : Format) :
    ∃ (front rest : String) (c : Char) (more : List Char), wrapperHead format = front ++ rest ∧
      rest.toList = c :: more ∧ Text.isBlank c = false ∧ c ≠ ')' ∧ ImportScan.Bare rest.toList ∧
        (ImportScan.imports front).map Import.specifier = wrapperImports format := by
  have last : ImportScan.Bare
      "export default function (options) \x7b return new Worker(require.resolve(".toList := by
    decide
  cases format with
  | cjs =>
    exact ⟨"import \x7b Worker \x7d from 'node:worker_threads';\n",
      "export default function (options) \x7b return new Worker(require.resolve(", 'e', _,
      congrArg (· ++ _) String.append_empty, rfl, by decide, by decide, last, by decide⟩
  | esm =>
    have first : ImportScan.Bare "const require = createRequire(import.meta.url);\n".toList := by
      decide
    refine ⟨"import \x7b Worker \x7d from 'node:worker_threads';\n" ++
        "import \x7b createRequire \x7d from 'node:module';\n",
      "const require = createRequire(import.meta.url);\n" ++
        "export default function (options) \x7b return new Worker(require.resolve(", 'c', _,
      ?_, String.toList_append, by decide, by decide, ?_, by decide⟩
    · unfold wrapperHead
      dsimp only
      rw [← String.append_assoc, String.append_assoc]
    · rw [String.toList_append]
      exact List.forall_mem_append.2 ⟨first, last⟩

/-- The imports of a wrapper do not depend on the placeholder. -/
theorem specifiers_wrapper (format : Format) {placeholder : String}
    (bare : ImportScan.Bare placeholder.toList) :
    (ImportScan.imports (wrapper format placeholder)).map Import.specifier =
      wrapperImports format := by
  obtain ⟨front, rest, c, more, head, start, solid, other, bare', imports⟩ :=
    exists_cut_wrapperHead format
  have tail : ImportScan.Bare wrapperTail.toList := by decide
  have cut : (rest ++ placeholder ++ wrapperTail).toList =
      c :: (more ++ placeholder.toList ++ wrapperTail.toList) := by
    rw [String.toList_append, String.toList_append, start]
    rfl
  have whole : ImportScan.Bare (c :: (more ++ placeholder.toList ++ wrapperTail.toList)) := by
    rw [start] at bare'
    exact List.forall_mem_append.2 ⟨List.forall_mem_append.2 ⟨bare', bare⟩, tail⟩
  have same : ImportScan.imports (front ++ (rest ++ placeholder ++ wrapperTail)) =
      ImportScan.imports front :=
    ImportScan.imports_append_of_bare cut whole solid other
  rw [wrapper, head, ← imports, ← same]
  simp only [String.append_assoc]

theorem bare_placeholder {reference : String} (minted : IsMinted reference) :
    ImportScan.Bare (Placeholder.ofReference reference).toList := by
  rw [Placeholder.ofReference, String.toList_ofList]
  have marker : ImportScan.Bare Placeholder.marker := by decide
  have ending : ImportScan.Bare Placeholder.ending := by decide
  refine List.forall_mem_append.2 ⟨List.forall_mem_append.2 ⟨marker, ?_⟩, ending⟩
  intro c mem
  have letter : c ≠ '\'' ∧ c ≠ '"' :=
    forall_digitChar (P := fun c => c ≠ '\'' ∧ c ≠ '"') (by decide) minted c mem
  simp [ImportScan.isQuote, letter]

/-- **An environment with no other plugin follows the behaviour.** -/
theorem follows_behaviour (alone : env.plugins = [plugin w]) :
    env.Follows (behaviour env w.format) where
  resolve request := by
    rw [resolve_alone alone]
    refine ⟨rfl, ?_⟩
    show _ = target env request
    rw [target]
    cases claim? request <;> rfl
  code id := by
    cases worker : workerOf? id with
    | none =>
      have load : (plugin w : Plugin σ).load id = .answer (.ok none) := by
        simp only [plugin, worker]
        rfl
      have code : Loader.transformedCode env id = .answer
          ((env.disk.read? id).elim (.error (.fatal (.unreadable id))) .ok) := by
        rw [Loader.transformedCode, Loader.readCode, alone]
        simp only [Plugin.firstAnswer, load]
        cases env.disk.read? id <;> rfl
      rw [code]
      simp only [behaviour, worker, fileImports]
      cases env.disk.read? id <;> exact ⟨rfl, rfl⟩
    | some chunk =>
      have code : Loader.transformedCode env id = .emit chunk fun reference =>
          .answer (.ok (wrapper w.format (Placeholder.ofReference reference))) := by
        rw [Loader.transformedCode, Loader.readCode, alone]
        simp only [Plugin.firstAnswer, load_of_workerOf? worker]
        rfl
      rw [code]
      simp only [behaviour, worker]
      refine ⟨[], .refl _, fun seed => ⟨rfl, ?_⟩⟩
      exact congrArg some (specifiers_wrapper w.format (bare_placeholder ⟨chunk, seed, rfl⟩))

/-! ## The modules -/

/-- The paths of files, and a wrapper for each worker request in one of them. -/
def moduleIds (disk : Disk) : List ModuleId :=
  (Resolver.filePaths disk).map (⟨·, false⟩) ++
    (Resolver.filePaths disk).flatMap fun path =>
      (((fileImports disk path).getD []).filter isWorkerRequest).map fun specifier =>
        ⟨wrapperId specifier path, false⟩

/-- The disk resolves a request to a package or to the path of a file. -/
theorem path_of_resolveOnDisk {request : ResolveRequest} {id : ModuleId}
    (found : Resolver.targetOf (Resolver.resolveOnDisk env request) = some id)
    (internal : id.isExternal = false) :
    ∃ path ∈ Resolver.filePaths env.disk, id = ⟨path, false⟩ := by
  have answered : Resolver.resolveOnDisk env request = .ok (some id) := by
    cases result : Resolver.resolveOnDisk env request with
    | error e =>
      rw [result] at found
      cases found
    | ok answer =>
      rw [result] at found
      exact congrArg Except.ok found
  have resolved := Resolver.resolvePath_of_resolveOnDisk answered internal
  exact ⟨id.id, Resolver.mem_filePaths resolved, congrArg (ModuleId.mk id.id) internal⟩

/-- A request that asks for no worker, or that is an entry, resolves to what the disk has. -/
theorem target_of_unclaimed {request : ResolveRequest}
    (plain : isWorkerRequest request.specifier = false ∨ request.importer = none) :
    target env request = Resolver.targetOf (Resolver.resolveOnDisk env request) := by
  have unclaimed : claim? request = none := by
    rw [claim?]
    rcases plain with plain | entry
    · rw [plain]
      cases request.importer <;> rfl
    · rw [entry]
  rw [target, unclaimed]

theorem id_of_workerOf? {id : String} {chunk : EmittedChunk} (worker : workerOf? id = some chunk) :
    chunk.id = Request.clean id := by
  unfold workerOf? at worker
  split at worker
  · cases worker
  · split at worker
    · obtain ⟨importer, _, rfl⟩ := Option.map_eq_some_iff.1 worker
      rfl
    · cases worker

/-- The packages of wrappers are external, and no worker is asked for. -/
theorem external_of_mem_wrapperImports {format : Format} {specifier importer : String}
    (mem : specifier ∈ wrapperImports format) :
    target env ⟨specifier, some importer⟩ = some ⟨specifier, true⟩ := by
  have minted : IsMinted (Emitter.mint ⟨specifier, none, none⟩ 0) := ⟨_, _, rfl⟩
  rw [← specifiers_wrapper format (bare_placeholder minted)] at mem
  obtain ⟨i, scanned, rfl⟩ := List.mem_map.1 mem
  obtain ⟨bare, plain⟩ := isBare_of_mem_imports minted scanned
  have onDisk : target env ⟨i.specifier, some importer⟩ =
      Resolver.targetOf (Resolver.resolveOnDisk env ⟨i.specifier, some importer⟩) :=
    target_of_unclaimed (.inl plain)
  rw [onDisk, Resolver.resolveOnDisk]
  simp only [Option.isSome_some, bare, Bool.and_self, ↓reduceIte]
  rfl

/-- **Only finitely many modules are ever needed**, whatever the entries are. -/
theorem mem_moduleIds {id : ModuleId} (needs : (behaviour env w.format).Needs input id) :
    id ∈ moduleIds env.disk := by
  have file (specifier : String) (importer : Option String) {id : ModuleId}
      (plain : isWorkerRequest specifier = false ∨ importer = none)
      (found : target env ⟨specifier, importer⟩ = some id) (internal : id.isExternal = false) :
      id ∈ moduleIds env.disk := by
    have onDisk : target env ⟨specifier, importer⟩ =
        Resolver.targetOf (Resolver.resolveOnDisk env ⟨specifier, importer⟩) :=
      target_of_unclaimed plain
    rw [onDisk] at found
    obtain ⟨path, mem, rfl⟩ := path_of_resolveOnDisk found internal
    exact List.mem_append_left _ (List.mem_map_of_mem mem)
  induction needs with
  | @entry item id _ found =>
    obtain ⟨found, internal⟩ := Option.filter_eq_some_iff.1 found
    have found : target env ⟨item.specifier, none⟩ = some id := found
    exact file item.specifier none (.inr rfl) found (by simpa using internal)
  | @emitted m id _ emits ih =>
    simp only [behaviour] at emits
    cases worker : workerOf? m.id with
    | none =>
      rw [worker] at emits
      cases emits
    | some chunk =>
      rw [worker] at emits
      obtain ⟨found, internal⟩ := Option.filter_eq_some_iff.1 (List.mem_singleton.1 emits).symm
      have plain : isWorkerRequest chunk.id = false := by
        rw [id_of_workerOf? worker]
        exact isWorkerRequest_clean m.id
      exact file chunk.id chunk.importer (.inl plain) found (by simpa using internal)
  | @dependency m id targets _ imports mem internal ih =>
    obtain ⟨specifiers, read, each⟩ := imports
    obtain ⟨s, listed, found⟩ := exists_of_forall₂_right each mem
    have found : target env ⟨s, some m.id⟩ = some id := found
    simp only [behaviour] at read
    cases worker : workerOf? m.id with
    | some chunk =>
      rw [worker] at read
      cases read
      rw [external_of_mem_wrapperImports listed] at found
      cases Option.some.inj found
      cases internal
    | none =>
      rw [worker] at read
      cases asks : isWorkerRequest s with
      | false => exact file s m.id (.inl asks) found internal
      | true =>
        -- only a file asks for a worker: the importer is no wrapper, and so it is a path
        have claimed : id = ⟨wrapperId s m.id, false⟩ := by
          rw [target, claim?, asks] at found
          exact (Option.some.inj found).symm
        rcases List.mem_append.1 ih with path | wrapped
        · obtain ⟨p, known, same⟩ := List.mem_map.1 path
          have path_eq : m.id = p := congrArg ModuleId.id same.symm
          rw [claimed, path_eq]
          rw [path_eq] at read
          refine List.mem_append_right _ (List.mem_flatMap.2 ⟨p, known, ?_⟩)
          refine List.mem_map.2 ⟨s, List.mem_filter.2 ⟨?_, asks⟩, rfl⟩
          have read : fileImports env.disk p = some specifiers := read
          rw [read]
          exact listed
        · obtain ⟨path, _, wrapped⟩ := List.mem_flatMap.1 wrapped
          obtain ⟨s', request, rfl⟩ := List.mem_map.1 wrapped
          rw [workerOf?_wrapperId (List.mem_filter.1 request).2 path] at worker
          cases worker

/-! ## Loads -/

/-- **Where the plugin is alone, every load comes to an end.** No order of steps goes on for ever,
and a load that is not at its end has a next step. Whatever the entries are, the modules that are
queued are among those of `moduleIds`. The count of outstanding modules is right at each step: each
queued module sends one message, and the count does not fall below zero and is zero when the loader
stops to wait. -/
theorem ends_of_alone (alone : env.plugins = [plugin w]) (input : List InputItem) (notes : σ) :
    ¬ Loading.Endless env (.start env input ⟨.empty, notes⟩) ∧
      Loader.fetch env (moduleIds env.disk).length input ⟨.empty, notes⟩ ≠ none ∧
      (∀ l, Loading.Reach env (.start env input ⟨.empty, notes⟩) l →
        l.loader.seen ⊆ moduleIds env.disk ∧ (l.Stopped ∨ ∃ l', Loading.Step env l l') ∧
          ∃ n received, Loading.Counted env input ⟨.empty, notes⟩ l n received) ∧
      ∀ l n received, Loading.Counted env input ⟨.empty, notes⟩ l n received →
        Loading.WellCounted env l n received := by
  have follows := follows_behaviour alone
  have all : ∀ id, (behaviour env w.format).Needs input id → id ∈ moduleIds env.disk :=
    fun _ => mem_moduleIds
  refine ⟨Loading.not_endless follows all, Loader.fetch_ne_none follows all, ?_,
    fun _ _ _ => Loading.wellCounted_of_counted⟩
  intro l reach
  exact ⟨Loading.seen_subset follows all reach, Loading.stopped_or_step env l,
    Loading.exists_counted reach⟩

/-! ## A module that starts itself -/

/-- A module that imports itself, and once more as a worker. -/
def loopEnvironment : Environment Unit where
  disk :=
    { entries := [(["loop.js"], .file "import './loop'; import './loop?nodeWorker';".toUTF8)]
      workingDirectory := [] }
  cwd := "/"
  plugins := [plugin ⟨none, .cjs⟩]
  externalTest _ _ _ := .ok false

def loopInput : List InputItem := [⟨"loop", "./loop"⟩]

def loopIds (g : Graph) (_ : Session Unit) : List String := g.modules.map (·.id.id)

theorem fetch_loopEnvironment :
    ((Loader.fetch loopEnvironment 2 loopInput ⟨.empty, ()⟩).bind fun r =>
      r.1.toOption.map fun g => loopIds g r.2) =
      some ["/loop.js", "./loop?nodeWorker&importer=%2Floop.js"] := by
  decide +kernel

/-- The module and its wrapper send their message, and then nothing is outstanding. -/
theorem ends_loopEnvironment : ∃ (l : Loading Unit) (received : List ModuleId),
    LoadsTo loopEnvironment loopInput ⟨.empty, ()⟩ l ∧ l.graph.modules.length = 2 ∧
      Loading.Counted loopEnvironment loopInput ⟨.empty, ()⟩ l 0 received ∧
      received.Perm l.loader.seen ∧
      ¬ Loading.Endless loopEnvironment (.start loopEnvironment loopInput ⟨.empty, ()⟩) := by
  obtain ⟨l, loads, ids⟩ := exists_loadsTo (f := loopIds) fetch_loopEnvironment
  have length := congrArg List.length ids
  rw [loopIds, List.length_map] at length
  have alone : loopEnvironment.plugins = [plugin ⟨none, .cjs⟩] := rfl
  obtain ⟨finite, _, reached, counts⟩ := ends_of_alone alone loopInput ()
  obtain ⟨_, _, n, received, counted⟩ := reached l loads.reach
  have well := counts l n received counted
  obtain ⟨_, rfl⟩ := well.done.1 loads.done
  exact ⟨l, received, loads, length, counted, well.answered loads.done, finite⟩

end WorkerBundler.Worker
