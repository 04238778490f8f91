import WorkerBundler.Graph
import WorkerBundler.Resolver

/-!
# Loading modules

The loader keeps a queue of modules. It takes the oldest one, loads it, queues the dependencies that
are new, and then resolves the chunks that were emitted meanwhile and queues those that are new. A
module that fails leaves an error; the other modules are still loaded, and the first error is the
outcome.

`loadModule` is the work on one module, `receive` what the loader does with its result, `drain` the
work on emitted chunks, `step` all three for the oldest module. Plugins can keep a build going for
ever, so `run` is given a limit and has no outcome when that is not enough.
-/

namespace WorkerBundler

/-- An entry that a build starts from. -/
structure InputItem where
  name : String
  specifier : String
  deriving DecidableEq, Repr

/-- A module that waits to be loaded. -/
structure Task where
  id : ModuleId
  isUserEntry : Bool
  deriving DecidableEq, Repr

/-- The state of the loader. `seen` holds the ids that were ever queued, `errors` the errors in the
order in which they came up. -/
structure Loader (σ : Type) where
  graph : Graph
  seen : List ModuleId
  queue : List Task
  errors : List BuildError
  session : Session σ

namespace Loader

variable {σ : Type}

/-- The loader before the first entry. -/
def start (session : Session σ) : Loader σ :=
  ⟨.empty, [], [], [], session⟩

/-! ## Work that asks plugins -/

/-- The module that an entry or an emitted chunk denotes. -/
def resolveEntry (env : Environment σ) (specifier : String) (importer : Option String) :
    Hook σ ModuleId := do
  match ← Resolver.resolve env ⟨specifier, importer⟩ with
  | none =>
    match importer with
    | none => Hook.fail (.of (.unresolvedEntry specifier))
    | some importer => Hook.fail (.of (.unresolvedImport specifier importer))
  | some id => if id.isExternal then Hook.fail (.of (.externalEntry id.id)) else pure id

/-- The module that a specifier in a module denotes. -/
def resolveImport (env : Environment σ) (importer specifier : String) : Hook σ ModuleId := do
  match ← Resolver.resolve env ⟨specifier, some importer⟩ with
  | none => Hook.fail (.of (.unresolvedImport specifier importer))
  | some target => pure target

/-- The modules that the imports of a module denote. -/
def resolveImports (env : Environment σ) (importer : String) :
    List Import → Hook σ (List ImportRecord)
  | [] => pure []
  | site :: rest => do
    let target ← resolveImport env importer site.specifier
    let records ← resolveImports env importer rest
    return ⟨site, target⟩ :: records

/-- The code of a module: what a plugin answers, or else the file on disk. -/
def readCode (env : Environment σ) (id : String) : Hook σ String := do
  match ← Plugin.firstAnswer (·.load id) env.plugins with
  | some code => return code
  | none =>
    match env.disk.read? id with
    | some code => return code
    | none => Hook.fail (.fatal (.unreadable id))

/-- The code of a module after the plugins have transformed it. -/
def transformedCode (env : Environment σ) (id : String) : Hook σ String := do
  let code ← readCode env id
  Plugin.transformAll id env.plugins code

/-- Loads and transforms a module and resolves its imports. -/
def loadModule (env : Environment σ) (task : Task) : Hook σ Module := do
  let code ← transformedCode env task.id.id
  let imports ← resolveImports env task.id.id (ImportScan.imports code)
  return ⟨task.id, code, imports, task.isUserEntry⟩

/-! ## Changes of the loader -/

/-- Queues a module that has not been queued before. -/
def enqueue (l : Loader σ) (task : Task) : Loader σ :=
  if task.id ∈ l.seen then l
  else { l with seen := l.seen ++ [task.id], queue := l.queue ++ [task] }

/-- Queues those of the modules that have not been queued before. -/
def enqueueAll (l : Loader σ) (ids : List ModuleId) : Loader σ :=
  ids.foldl (fun l id => l.enqueue ⟨id, false⟩) l

@[simp] theorem enqueue_graph (l : Loader σ) (task : Task) :
    (l.enqueue task).graph = l.graph := by
  rw [enqueue]
  split <;> rfl

@[simp] theorem enqueue_errors (l : Loader σ) (task : Task) :
    (l.enqueue task).errors = l.errors := by
  rw [enqueue]
  split <;> rfl

@[simp] theorem enqueue_session (l : Loader σ) (task : Task) :
    (l.enqueue task).session = l.session := by
  rw [enqueue]
  split <;> rfl

@[simp] theorem enqueueAll_nil (l : Loader σ) : l.enqueueAll [] = l := rfl

@[simp] theorem enqueueAll_cons (l : Loader σ) (id : ModuleId) (ids : List ModuleId) :
    l.enqueueAll (id :: ids) = (l.enqueue ⟨id, false⟩).enqueueAll ids := rfl

@[simp] theorem enqueueAll_graph (l : Loader σ) (ids : List ModuleId) :
    (l.enqueueAll ids).graph = l.graph := by
  induction ids generalizing l with
  | nil => rfl
  | cons id ids ih => rw [enqueueAll_cons, ih, enqueue_graph]

@[simp] theorem enqueueAll_errors (l : Loader σ) (ids : List ModuleId) :
    (l.enqueueAll ids).errors = l.errors := by
  induction ids generalizing l with
  | nil => rfl
  | cons id ids ih => rw [enqueueAll_cons, ih, enqueue_errors]

@[simp] theorem enqueueAll_session (l : Loader σ) (ids : List ModuleId) :
    (l.enqueueAll ids).session = l.session := by
  induction ids generalizing l with
  | nil => rfl
  | cons id ids ih => rw [enqueueAll_cons, ih, enqueue_session]

/-- Records an error. -/
def reject (l : Loader σ) (e : BuildError) : Loader σ :=
  { l with errors := l.errors ++ [e] }

/-- Takes in an entry of the input. -/
def addEntry (l : Loader σ) (name : String) (id : ModuleId) : Loader σ :=
  let graph := { l.graph with entries := l.graph.entries ++ [⟨name, id⟩] }
  enqueue { l with graph := graph } ⟨id, true⟩

/-- Takes in an emitted chunk that has been resolved. -/
def addEmitted (l : Loader σ) (m : Emission) (id : ModuleId) : Loader σ :=
  let entry : EmittedEntry := ⟨m.reference, m.chunk.name, id⟩
  let graph := { l.graph with emittedEntries := l.graph.emittedEntries ++ [entry] }
  enqueue { l with graph := graph } ⟨id, false⟩

/-- Takes in a loaded module: its new dependencies are queued, and it joins the graph. -/
def addModule (l : Loader σ) (m : Module) : Loader σ :=
  let l := l.enqueueAll m.dependencies
  { l with graph := { l.graph with modules := l.graph.modules ++ [m] } }

/-- Takes in the result of the work on a module. -/
def receive (l : Loader σ) : Except BuildError Module → Loader σ
  | .ok m => l.addModule m
  | .error e => l.reject e

/-- Takes in what an emitted chunk has been resolved to. -/
def addResolved (l : Loader σ) (m : Emission) : Except BuildError ModuleId → Loader σ
  | .ok id => l.addEmitted m id
  | .error e => l.reject (e.addContext s!"Emitted chunk {m.chunk.id}")

/-- Resolves one emitted chunk and takes it in. -/
def drainOne (env : Environment σ) (l : Loader σ) (m : Emission) : Loader σ :=
  let (result, session) := (resolveEntry env m.chunk.id m.chunk.importer).run l.session
  { l with session := session }.addResolved m result

/-- Takes the pending emissions and takes them in one by one. -/
def drain (env : Environment σ) (l : Loader σ) : Loader σ :=
  let (pending, emitter) := l.session.emitter.takePending
  pending.foldl (drainOne env) { l with session := { l.session with emitter := emitter } }

/-- Loads the oldest queued module and takes in what comes of it. -/
def step (env : Environment σ) (l : Loader σ) : Loader σ :=
  match l.queue with
  | [] => l
  | task :: queue =>
    let (result, session) := (loadModule env task).run l.session
    ({ l with queue := queue, session := session }.receive result).drain env

/-! ## The whole run -/

/-- Takes in the resolved entries up to the first that failed. -/
def addEntries (l : Loader σ) :
    List (InputItem × Except BuildError ModuleId) → Except BuildError (Loader σ)
  | [] => .ok l
  | (_, .error e) :: _ => .error e
  | (item, .ok id) :: rest => (l.addEntry item.name id).addEntries rest

/-- The loader after the entries have been resolved and the first emitted chunks taken in. -/
def opened (env : Environment σ) (input : List InputItem) (session : Session σ) :
    Except BuildError (Loader σ) × Session σ :=
  if input = [] then (.error (.fatal .noInput), session)
  else
    let (resolved, session) :=
      Hook.runEach (input.map fun item => resolveEntry env item.specifier none) session
    match (start session).addEntries (input.zip resolved) with
    | .error e => (.error e, session)
    | .ok l => let l := l.drain env; (.ok l, l.session)

/-- Steps until the queue is empty, if `limit` steps are enough. -/
def run (env : Environment σ) : (limit : Nat) → Loader σ → Option (Loader σ)
  | 0, l => if l.queue = [] then some l else none
  | limit + 1, l => if l.queue = [] then some l else run env limit (l.step env)

/-- The graph of a finished loader, or its first error. -/
def outcome (l : Loader σ) : Except BuildError Graph :=
  match l.errors with
  | [] => .ok l.graph
  | e :: _ => .error e

/-- Loads everything that the input needs, if `limit` modules are enough. -/
def fetch (env : Environment σ) (limit : Nat) (input : List InputItem) (session : Session σ) :
    Option (Except BuildError Graph × Session σ) :=
  match opened env input session with
  | (.error e, session) => some (.error e, session)
  | (.ok l, _) => (run env limit l).map fun l => (l.outcome, l.session)

end Loader

end WorkerBundler
