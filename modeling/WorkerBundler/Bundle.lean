import WorkerBundler.Chunk
import WorkerBundler.SourceMap.Compose
import WorkerBundler.SourceMap.Text

/-!
# Bundles

A bundle is the list of assets that a module graph becomes. `ofGraph` names the chunks of the graph,
points their imports to each other, lets the plugins finish them one after the other, and adds the
source maps. The file names of emitted chunks are known to the plugins by then.
-/

namespace WorkerBundler

/-- A file of the output. -/
structure Asset where
  fileName : String
  content : String
  deriving DecidableEq, Repr

namespace Bundle

variable {σ : Type}

/-- The comment that points a chunk to its map. -/
def mapComment (url : String) : String :=
  "\n//# sourceMappingURL=" ++ url

/-- The last part of a file name. -/
def baseName (file : String) : String :=
  match Text.cutLast '/' file.toList with
  | some (_, base) => String.ofList base
  | none => file

/-- The assets of a chunk: its file, and the file of its map unless that is inside the chunk. -/
def assetsOf (kind : Option SourceMapKind) (file code : String) (map : Option SourceMap) :
    List Asset :=
  match kind, map with
  | some .file, some m =>
    [⟨file, code ++ mapComment (baseName file ++ ".map")⟩, ⟨file ++ ".map", m.text⟩]
  | some .hidden, some m => [⟨file, code⟩, ⟨file ++ ".map", m.text⟩]
  | some .inline, some m =>
    [⟨file, code ++ mapComment ("data:application/json;charset=utf-8;base64," ++
      String.ofList (Text.Base64.encode (Text.bytes m.text.toList)))⟩]
  | _, _ => [⟨file, code⟩]

/-- Lets the plugins finish the rendered chunks one after the other. -/
def finishChunks (plugins : List (Plugin σ)) (names : FileNames) (kind : Option SourceMapKind) :
    List (Chunk × String × Option SourceMap) → Plugin.Rendering σ →
      Except BuildError (List Asset) × Plugin.Rendering σ
  | [], r => (.ok [], r)
  | (chunk, code, map) :: rest, r =>
    match chunk.toRendered names with
    | .error e => (.error e, r)
    | .ok rendered =>
      match Plugin.renderAll rendered kind plugins code [] r with
      | (.error e, r) => (.error e, r)
      | (.ok (code, maps), r) =>
        let map := map.bind fun m => SourceMap.collapse (m :: maps)
        match finishChunks plugins names kind rest r with
        | (.error e, r) => (.error e, r)
        | (.ok assets, r) => (.ok (assetsOf kind rendered.fileName code map ++ assets), r)

/-- Renders all chunks. -/
def renderChunks (g : Graph) (names : FileNames) (cwd : String) (kind : Option SourceMapKind) :
    List Chunk → Except BuildError (List (Chunk × String × Option SourceMap))
  | [] => .ok []
  | c :: rest => do
    let rendered ← c.render g names cwd kind
    let others ← renderChunks g names cwd kind rest
    return (c, rendered) :: others

/-- The assets of a graph, with the session and the warnings when the last chunk is done. -/
def ofGraph (plugins : List (Plugin σ)) (cwd : String) (o : OutputOptions) (g : Graph)
    (session : Session σ) : Except BuildError (List Asset) × Plugin.Rendering σ :=
  let chunks := Chunk.ofGraph g
  match Chunk.named g o chunks with
  | .error e => (.error e, ⟨session, []⟩)
  | .ok names =>
    match Chunk.assignNames names g.emittedEntries session.emitter with
    | .error e => (.error e, ⟨session, []⟩)
    | .ok emitter =>
      let r : Plugin.Rendering σ := ⟨{ session with emitter := emitter }, []⟩
      match renderChunks g names cwd o.sourceMap chunks with
      | .error e => (.error e, r)
      | .ok rendered => finishChunks plugins names o.sourceMap rendered r

end Bundle

end WorkerBundler
