import WorkerBundler.ModuleId
import WorkerBundler.Path.Output
import WorkerBundler.Plugin.Hook
import WorkerBundler.SourceMap.Kind
import WorkerBundler.SourceMap.Basic

/-!
# Plugins

A plugin answers four questions of a build: what a request resolves to, what the code of a module
is, how it is transformed, and how the text of a chunk is changed. Of several plugins the first
answer counts, except that every plugin transforms and changes what the ones before it left.
-/

namespace WorkerBundler

/-- A request for a module, from an importer unless it is an entry. -/
structure ResolveRequest where
  specifier : String
  importer : Option String
  deriving DecidableEq, Repr

/-- What a chunk is to the plugins that change it. -/
structure RenderedChunk where
  name : String
  fileName : String
  facadeModule : String
  isEntry : Bool
  deriving DecidableEq, Repr

/-- The directory that relative requests in the chunk are resolved against. -/
def RenderedChunk.directory (c : RenderedChunk) : String :=
  OutputPath.directory c.fileName

/-- A chunk that plugins may change; a map is expected if there is a setting for source maps. -/
structure RenderRequest where
  code : String
  chunk : RenderedChunk
  sourceMap : Option SourceMapKind
  deriving DecidableEq, Repr

/-- A changed chunk. -/
structure RenderOutput where
  code : String
  map : Option SourceMap
  deriving DecidableEq, Repr

/-- A plugin whose hooks share notes of type `σ`. -/
structure Plugin (σ : Type) where
  name : String
  resolveId : ResolveRequest → Hook σ (Option ModuleId) := fun _ => pure none
  load : (id : String) → Hook σ (Option String) := fun _ => pure none
  transform : (id code : String) → Hook σ (Option String) := fun _ _ => pure none
  renderChunk : RenderRequest → Hook σ (Option RenderOutput) := fun _ => pure none

namespace Plugin

variable {σ α : Type}

/-- The first answer of the plugins. -/
def firstAnswer (ask : Plugin σ → Hook σ (Option α)) : List (Plugin σ) → Hook σ (Option α)
  | [] => pure none
  | p :: rest => do
    match ← ask p with
    | some a => pure (some a)
    | none => firstAnswer ask rest

/-- The code of a module after all plugins have transformed it. -/
def transformAll (id : String) : List (Plugin σ) → String → Hook σ String
  | [], code => pure code
  | p :: rest, code => do
    match ← p.transform id code with
    | some code => transformAll id rest code
    | none => transformAll id rest code

/-- The state of a build while plugins change the chunks: the session and the warnings so far. -/
structure Rendering (σ : Type) where
  session : Session σ
  warnings : List BuildError

/-- The warning about a plugin that changes the code of a chunk without giving an expected map. -/
def brokenMap (p : Plugin σ) (sourceMap : Option SourceMapKind) (code : String)
    (output : RenderOutput) : List BuildError :=
  if sourceMap.isSome && output.map.isNone && output.code ≠ code then
    [.of (.brokenSourceMap p.name)]
  else []

/-- The code of a chunk after all plugins have changed it, and the maps they gave. -/
def renderAll (chunk : RenderedChunk) (sourceMap : Option SourceMapKind) :
    List (Plugin σ) → String → List SourceMap → Rendering σ →
      Except BuildError (String × List SourceMap) × Rendering σ
  | [], code, maps, r => (.ok (code, maps), r)
  | p :: rest, code, maps, r =>
    match (p.renderChunk ⟨code, chunk, sourceMap⟩).run r.session with
    | (.error e, session) =>
      (.error (e.addContext s!"render_chunk of {p.name}"), { r with session := session })
    | (.ok none, session) => renderAll chunk sourceMap rest code maps { r with session := session }
    | (.ok (some output), session) =>
      renderAll chunk sourceMap rest output.code (maps ++ output.map.toList)
        { session := session, warnings := r.warnings ++ p.brokenMap sourceMap code output }

end Plugin

end WorkerBundler
