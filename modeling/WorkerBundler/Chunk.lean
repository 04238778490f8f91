import WorkerBundler.Digest
import WorkerBundler.EditedText.Basic
import WorkerBundler.FileName
import WorkerBundler.Graph
import WorkerBundler.Plugin.Basic
import WorkerBundler.Request

/-!
# Chunks

Every module of a graph becomes a chunk of its own. `ofGraph` lists the chunks, `named` gives them
their file names, and `render` points the imports of a chunk to the files of the imported modules.
-/

namespace WorkerBundler

/-- A module on its way into the output. -/
structure Chunk where
  name : String
  module : ModuleId
  isUserEntry : Bool
  isEmittedEntry : Bool
  deriving DecidableEq, Repr

/-- The settings that the text and the names of chunks depend on. -/
structure OutputOptions where
  entryFileNames : String := "[name].js"
  chunkFileNames : String := "[name]-[hash].js"
  sourceMap : Option SourceMapKind := none
  deriving DecidableEq, Repr

/-- The file names of modules. -/
abbrev FileNames := List (ModuleId × String)

/-- The file name of a module. -/
def FileNames.of? (names : FileNames) (id : ModuleId) : Option String :=
  (names.find? (·.1 = id)).map (·.2)

namespace Chunk

/-- The name that a module lends to its chunk: the stem of its file. -/
def nameOfModule (id : String) : String :=
  match DiskPath.stem? (Request.clean id) with
  | none => "chunk"
  | some stem => if stem = "" then "chunk" else stem

/-! ## Listing -/

/-- Adds the chunk of an entry of the input unless its module has one. -/
def addUserEntry (chunks : List Chunk) (e : UserEntry) : List Chunk :=
  if chunks.any (·.module = e.module) then chunks
  else chunks ++ [⟨e.name, e.module, true, false⟩]

/-- Adds the chunk of an emitted entry, or marks the chunk that its module has. -/
def addEmittedEntry (chunks : List Chunk) (e : EmittedEntry) : List Chunk :=
  if chunks.any (·.module = e.module) then
    chunks.map fun c => if c.module = e.module then { c with isEmittedEntry := true } else c
  else chunks ++ [⟨e.name.getD (nameOfModule e.module.id), e.module, false, true⟩]

/-- Adds the chunk of another module unless it has one. -/
def addModule (chunks : List Chunk) (id : ModuleId) : List Chunk :=
  if chunks.any (·.module = id) then chunks
  else chunks ++ [⟨nameOfModule id.id, id, false, false⟩]

/-- The chunks of a graph: entries of the input, emitted entries, and the other modules by id. -/
def ofGraph (g : Graph) : List Chunk :=
  let chunks := g.entries.foldl addUserEntry []
  let chunks := g.emittedEntries.foldl addEmittedEntry chunks
  g.otherModules.foldl addModule chunks

/-! ## Naming -/

/-- The file name that the template asks for. -/
def wantedFileName (o : OutputOptions) (c : Chunk) (hash : String) : String :=
  FileName.render (if c.isUserEntry then o.entryFileNames else o.chunkFileNames) (some c.name)
    (some hash)

/-- The module of a chunk. -/
def moduleIn (g : Graph) (c : Chunk) : Except BuildError Module :=
  match g.module? c.module with
  | some m => .ok m
  | none => .error (.fatal (.missingModule c.module.id))

/-- The file names that the templates ask for, in the order of the chunks. -/
def wantedFileNames (g : Graph) (o : OutputOptions) : List Chunk →
    Except BuildError (List (ModuleId × String))
  | [] => .ok []
  | c :: rest => do
    let m ← c.moduleIn g
    let names ← wantedFileNames g o rest
    return (c.module, wantedFileName o c (Digest.ofContent m.code)) :: names

/-- Makes the names differ in more than case; `used` holds the names so far in lower case. -/
def makeUnique (used : List String) : List (ModuleId × String) → FileNames
  | [] => []
  | (id, wanted) :: rest =>
    let name := FileName.unique used wanted
    (id, name) :: makeUnique (Text.lowercase name :: used) rest

/-- The file names of the chunks. -/
def named (g : Graph) (o : OutputOptions) (chunks : List Chunk) : Except BuildError FileNames :=
  (wantedFileNames g o chunks).map (makeUnique [])

/-- Hands the file names of emitted chunks to the emitter. -/
def assignNames (names : FileNames) : List EmittedEntry → Emitter → Except BuildError Emitter
  | [], e => .ok e
  | entry :: rest, e =>
    match names.of? entry.module with
    | none => assignNames names rest e
    | some name => do assignNames names rest (← e.assign entry.reference name)

/-! ## Rendering -/

/-- Points the imports inside the bundle to the files of their modules, as seen from `file`. A
specifier that already reads so is left alone. -/
def redirectImports (names : FileNames) (file : String) : List ImportRecord → EditedText →
    Except BuildError EditedText
  | [], t => .ok t
  | record :: rest, t =>
    if record.target.isExternal then redirectImports names file rest t
    else
      match names.of? record.target with
      | none => .error (.fatal (.unplacedModule record.target.id))
      | some target =>
        let request := OutputPath.requestFrom file target
        if request = record.site.specifier then redirectImports names file rest t
        else
          match t.overwrite record.site.start record.site.stop request with
          | .error fault => .error (.fatal (.edit fault))
          | .ok t => redirectImports names file rest t

/-- How a map names the source of a module: the path from the base directory, or the id itself if
that is no path. -/
def sourceName (cwd id : String) : String :=
  if DiskPath.isAbsolute id then
    String.ofList ((DiskPath.relativeTo cwd id).toList.map fun c => if c = '\\' then '/' else c)
  else id

/-- The file name of a chunk. -/
def fileName (names : FileNames) (c : Chunk) : Except BuildError String :=
  match names.of? c.module with
  | some name => .ok name
  | none => .error (.fatal (.unnamedChunk c.module.id))

/-- The text of a chunk before plugins change it, and its map if maps are asked for. -/
def render (g : Graph) (names : FileNames) (cwd : String) (sourceMap : Option SourceMapKind)
    (c : Chunk) : Except BuildError (String × Option SourceMap) := do
  let m ← c.moduleIn g
  let file ← c.fileName names
  let t ← redirectImports names file m.imports (.ofSource m.code)
  return (t.text, sourceMap.map fun _ => t.sourceMap
    { source := sourceName cwd m.id.id, file := some file
      everyCharacter := true, includeContent := true })

/-- What plugins get to know about a chunk. -/
def toRendered (names : FileNames) (c : Chunk) : Except BuildError RenderedChunk := do
  let file ← c.fileName names
  return ⟨c.name, file, c.module.id, c.isUserEntry || c.isEmittedEntry⟩

end Chunk

end WorkerBundler
