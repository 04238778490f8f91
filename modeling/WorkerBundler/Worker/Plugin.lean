import WorkerBundler.EditedText.Basic
import WorkerBundler.Plugin.Basic
import WorkerBundler.Request
import WorkerBundler.Text.Quoted
import WorkerBundler.Worker.Placeholder

/-!
# Worker imports

A request whose query has the key `nodeWorker` asks for a function that starts the requested module
as a worker. `claim?` turns such a request into the id of a wrapper module and keeps the importer in
it. Loading the wrapper emits the worker as a chunk and answers a module with a placeholder, and
`substitute` replaces the placeholders of a chunk by the paths of the worker chunks.
-/

namespace WorkerBundler.Worker

/-- How a wrapper gets hold of `require`: from its scope, or from the URL of the module. -/
inductive Format where
  | cjs
  | esm
  deriving DecidableEq, Repr

/-- Reads a setting. -/
def Format.parse (value : String) : Except BuildError Format :=
  if value = "cjs" then .ok .cjs
  else if value = "esm" ∨ value = "es" then .ok .esm
  else .error (.fatal (.unknownWrapperFormat value))

/-- The settings of the plugin. A source map setting overrides the one of the build. -/
structure Options where
  sourceMap : Option SourceMapKind
  format : Format
  deriving DecidableEq, Repr

/-- The settings where nothing is said. -/
def Options.default : Options := ⟨none, .esm⟩

/-- The key that turns an import into a worker import, whatever its value. -/
def workerKey : String := "nodeWorker"

/-- The key under which the id of a wrapper keeps the importer. -/
def importerKey : String := "importer"

/-- The name under which the plugin appears. -/
def pluginName : String := "builtin:node-worker"

/-! ## Claiming and loading -/

/-- Whether a request asks for a worker. -/
def isWorkerRequest (specifier : String) : Bool :=
  match Request.query? specifier with
  | none => false
  | some query => query.has workerKey

/-- The id of the wrapper for a worker request. -/
def wrapperId (specifier importer : String) : String :=
  specifier ++ "&" ++ importerKey ++ "=" ++
    String.ofList (Text.FormEncoded.encode importer.toList)

/-- The wrapper that a request resolves to. An entry is no worker. -/
def claim? (request : ResolveRequest) : Option ModuleId :=
  match request.importer with
  | none => none
  | some importer =>
    if isWorkerRequest request.specifier then
      some ⟨wrapperId request.specifier importer, false⟩
    else none

/-- The worker that a wrapper starts. -/
def workerOf? (id : String) : Option EmittedChunk :=
  match Request.query? id with
  | none => none
  | some query =>
    if query.has workerKey then
      (query.get? importerKey).map fun importer => ⟨Request.clean id, some importer, none⟩
    else none

/-- The text of a wrapper in front of the path of the worker. -/
def wrapperHead (format : Format) : String :=
  "import \x7b Worker \x7d from 'node:worker_threads';\n" ++
    (match format with
      | .cjs => ""
      | .esm =>
        "import \x7b createRequire \x7d from 'node:module';\n" ++
          "const require = createRequire(import.meta.url);\n") ++
    "export default function (options) \x7b return new Worker(require.resolve("

/-- The text of a wrapper behind the path of the worker. -/
def wrapperTail : String := "), options); \x7d\n"

/-- The text of a wrapper. -/
def wrapper (format : Format) (placeholder : String) : String :=
  wrapperHead format ++ placeholder ++ wrapperTail

/-! ## Substituting -/

/-- The literal by which a chunk names the file of a worker chunk. -/
def literal (chunkFile workerFile : String) : String :=
  Text.quote (OutputPath.requestFrom chunkFile workerFile)

/-- Overwrites the placeholders one by one. -/
def overwritePlaceholders (chunkFile : String) (fileName : String → Except BuildError String) :
    List (Nat × List Char) → EditedText → Except BuildError EditedText
  | [], t => .ok t
  | (start, reference) :: rest, t =>
    let placeholder := Placeholder.ofReference (String.ofList reference)
    match fileName (String.ofList reference) with
    | .error e =>
      .error ((BuildError.of (.unresolvedPlaceholder placeholder chunkFile)).addContext e.display)
    | .ok workerFile =>
      match t.overwrite start (start + placeholder.utf8ByteSize) (literal chunkFile workerFile) with
      | .error fault => .error (.fatal (.edit fault))
      | .ok t => overwritePlaceholders chunkFile fileName rest t

/-- The text of a chunk with its placeholders replaced; nothing if it has none. -/
def substitute (fileName : String → Except BuildError String) (request : RenderRequest)
    (sourceMap : Option SourceMapKind) : Except BuildError (Option RenderOutput) :=
  let file := request.chunk.fileName
  match Placeholder.malformed? request.code with
  | some token =>
    .error ((BuildError.of (.unresolvedPlaceholder token file)).addContext
      "The placeholder is not a well-formed worker reference")
  | none =>
    match Placeholder.references request.code with
    | [] => .ok none
    | found =>
      match overwritePlaceholders file fileName found (.ofSource request.code) with
      | .error e => .error e
      | .ok t =>
        .ok (some {
          code := t.text
          map := sourceMap.map fun _ => t.sourceMap
            { source := file, file := some file
              everyCharacter := true, includeContent := false } })

/-! ## The plugin -/

/-- The plugin that bundles workers. -/
def plugin {σ : Type} (options : Options) : Plugin σ where
  name := pluginName
  resolveId request := pure (claim? request)
  load id :=
    match workerOf? id with
    | none => pure none
    | some chunk => do
      let reference ← Hook.emitChunk chunk
      return some (wrapper options.format (Placeholder.ofReference reference))
  renderChunk request := do
    let fileName ← Hook.fileNames
    Hook.ofExcept (substitute fileName request (options.sourceMap <|> request.sourceMap))

end WorkerBundler.Worker
