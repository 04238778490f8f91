import WorkerBundler.EditedText.Basic
import WorkerBundler.Plugin.Basic
import WorkerBundler.Text.Scan

/-!
# Plugins made of rules

A plugin can be given by lists of rules, one list for each hook; the first rule that matches
decides. The notes that such plugins share are the references of the chunks they have emitted.
-/

namespace WorkerBundler

/-- A pattern that everything matches, or a single value. -/
inductive Pattern (α : Type) where
  | any
  | exactly (value : α)

/-- Whether a value matches. -/
def Pattern.accepts {α : Type} [DecidableEq α] : Pattern α → α → Bool
  | .any, _ => true
  | .exactly value, x => value = x

namespace Rules

/-- Fails, or emits chunks and answers. -/
inductive Response (α : Type) where
  | fail (text : String)
  | answer (emit : List EmittedChunk) (value : Option α)

/-- A rule for requests. -/
structure ResolveRule where
  specifier : Pattern String
  importer : Pattern (Option String)
  response : Response ModuleId

/-- A rule for loading a module. -/
structure LoadRule where
  id : Pattern String
  response : Response String

/-- What becomes of the code of a module. -/
inductive Transformation where
  | fail (text : String)
  | replace (find content : String)

/-- A rule for transforming a module. -/
structure TransformRule where
  id : Pattern String
  transformation : Transformation

/-- What becomes of the code of a chunk. The map of an overwriting rule may have a token for every
character. -/
inductive Rendering where
  | fail (text : String)
  | describe
  | overwrite (find content : String) (map : Option Bool)

/-- A rule for changing a chunk. -/
structure RenderRule where
  file : Pattern String
  rendering : Rendering

/-- The notes of the plugins: the references they emitted, in order. -/
abbrev Notes := List String

/-- The error that a rule raises. -/
def raised (text : String) : BuildError :=
  .fatal (.raised text [])

/-- Emits chunks and notes their references. -/
def emitAll : List EmittedChunk → Hook Notes Unit
  | [] => pure ()
  | chunk :: rest => do
    let reference ← Hook.emitChunk chunk
    let notes ← Hook.notes
    Hook.setNotes (notes ++ [reference])
    emitAll rest

/-- Carries out a response. -/
def Response.hook {α : Type} : Response α → Hook Notes (Option α)
  | .fail text => Hook.fail (raised text)
  | .answer emit value => do
    emitAll emit
    return value

/-- The code with a line about the chunk and a line for the file of every noted reference. -/
def description (request : RenderRequest) (fileName : String → Except BuildError String)
    (notes : Notes) : Except BuildError String := do
  let c := request.chunk
  let files ← notes.mapM fileName
  let entry := if c.isEntry then "true" else "false"
  return request.code ++
    s!"// {c.name} {c.fileName} {c.facadeModule} {entry} {c.directory}\n" ++
    String.join (files.map fun file => s!"// {file}\n")

/-- Overwrites the ranges of a given length that start at the given bytes. -/
def overwriteAll (length : Nat) (content : String) :
    List Nat → EditedText → Except BuildError EditedText
  | [], t => .ok t
  | start :: rest, t =>
    match t.overwrite start (start + length) content with
    | .error fault => .error (.fatal (.edit fault))
    | .ok t => overwriteAll length content rest t

/-- The bytes at which a text is found from the left. An empty text is found at the start. -/
def places (find code : String) : List Nat :=
  if find = "" then [0]
  else (Text.hits (Text.fixed find.toList) code.toList).map (·.1)

/-- Carries out a rule for changing a chunk. -/
def Rendering.hook (request : RenderRequest) : Rendering → Hook Notes (Option RenderOutput)
  | .fail text => Hook.fail (raised text)
  | .describe => do
    let fileName ← Hook.fileNames
    let code ← Hook.ofExcept (description request fileName (← Hook.notes))
    return some ⟨code, none⟩
  | .overwrite find content map => do
    let t ← Hook.ofExcept (overwriteAll find.utf8ByteSize content (places find request.code)
      (.ofSource request.code))
    let file := request.chunk.fileName
    return some {
      code := t.text
      map := map.map fun everyCharacter => t.sourceMap
        { source := file, file := some file, everyCharacter := everyCharacter
          includeContent := false } }

/-- The plugin of the rules. -/
def plugin (name : String) (resolve : List ResolveRule) (load : List LoadRule)
    (transform : List TransformRule) (render : List RenderRule) : Plugin Notes where
  name := name
  resolveId request :=
    match resolve.find? fun r =>
      r.specifier.accepts request.specifier && r.importer.accepts request.importer with
    | none => pure none
    | some r => r.response.hook
  load id :=
    match load.find? (·.id.accepts id) with
    | none => pure none
    | some r => r.response.hook
  transform id code :=
    match transform.find? (·.id.accepts id) with
    | none => pure none
    | some r =>
      match r.transformation with
      | .fail text => Hook.fail (raised text)
      | .replace find content =>
        pure (some (String.ofList (Text.replaceAll find.toList content.toList code.toList)))
  renderChunk request :=
    match render.find? (·.file.accepts request.chunk.fileName) with
    | none => pure none
    | some r => r.rendering.hook request

/-- The plugin that loads modules from a list of texts by id. -/
def sources {σ : Type} (texts : List (String × String)) : Plugin σ where
  name := "source"
  load id := pure ((texts.find? (·.1 = id)).map (·.2))

end Rules

end WorkerBundler
