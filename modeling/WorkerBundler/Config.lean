import WorkerBundler.Bundler
import WorkerBundler.Text.Json
import WorkerBundler.Worker.Plugin

/-!
# Configurations

A configuration file names the input of a build, its settings and the error that it is expected to
end with. `parse?` reads one. A group of settings is an object, or an array of them in order; what
is left out has a default, and an unknown or repeated key is refused.
-/

namespace WorkerBundler

/-- The settings of the worker plugin as they are written. -/
structure WorkerSettings where
  sourceMap : Option String
  format : String
  deriving DecidableEq, Repr

/-- The error that a build is expected to end with. -/
structure ExpectedError where
  code : String
  message : String
  deriving DecidableEq, Repr

/-- A configuration. -/
structure Config where
  input : List InputItem
  external : List String
  worker : Option WorkerSettings
  entryFileNames : String
  chunkFileNames : String
  sourceMap : Option String
  expectedError : Option ExpectedError
  deriving DecidableEq, Repr

namespace Config

/-! ## Reading -/

/-- The settings of a group by their keys: one for each key, absent if it is left out. -/
def group? (keys : List String) : Json → Option (List (Option Json))
  | .object fields =>
    let names := fields.map (·.1)
    if names.all (· ∈ keys) ∧ names.eraseDups.length = names.length then
      some (keys.map fun key => (fields.find? (·.1 = key)).map (·.2))
    else none
  | .array items =>
    if items.length ≤ keys.length then
      some (items.map some ++ List.replicate (keys.length - items.length) none)
    else none
  | _ => none

/-- A setting that has a default. -/
def settingOr {α : Type} (standard : α) (read : Json → Option α) : Option Json → Option α
  | none => some standard
  | some value => read value

/-- A setting that may be `null`. -/
def nullable {α : Type} (read : Json → Option α) : Json → Option (Option α)
  | .null => some none
  | value => (read value).map some

/-- A setting that is a string. -/
def string? : Json → Option String
  | .string s => some s
  | _ => none

/-- A setting that is a list. -/
def list? {α : Type} (read : Json → Option α) : Json → Option (List α)
  | .array items => items.mapM read
  | _ => none

/-- An entry: its name and its specifier. -/
def inputItem? (value : Json) : Option InputItem := do
  match ← group? ["name", "import"] value with
  | [some name, some specifier] => return ⟨← string? name, ← string? specifier⟩
  | _ => none

/-- The worker settings where nothing is said. -/
def workerDefault : WorkerSettings := ⟨none, "esm"⟩

/-- The settings of the worker plugin. -/
def worker? (value : Json) : Option WorkerSettings := do
  match ← group? ["sourcemap", "format"] value with
  | [sourceMap, format] =>
    return ⟨← settingOr none (nullable string?) sourceMap, ← settingOr "esm" string? format⟩
  | _ => none

/-- The worker settings in a group of plugins; `null` turns the plugin off. -/
def builtins? (value : Json) : Option (Option WorkerSettings) := do
  match ← group? ["nodeWorker"] value with
  | [worker] => settingOr (some workerDefault) (nullable worker?) worker
  | _ => none

/-- The input where nothing is said. -/
def inputDefault : List InputItem := [⟨"main", "./main.js"⟩]

/-- The settings of the input: entries, external specifiers and plugins. -/
def input? (value : Json) : Option (List InputItem × List String × Option WorkerSettings) := do
  match ← group? ["input", "external", "builtins"] value with
  | [input, external, builtins] =>
    return (← settingOr inputDefault (list? inputItem?) input,
      ← settingOr [] (list? string?) external,
      ← settingOr (some workerDefault) builtins? builtins)
  | _ => none

/-- The settings of the output: the two templates and the source maps. -/
def output? (value : Json) : Option (String × String × Option String) := do
  match ← group? ["entryFileNames", "chunkFileNames", "sourcemap"] value with
  | [entry, chunk, sourceMap] =>
    return (← settingOr "[name].js" string? entry, ← settingOr "[name].js" string? chunk,
      ← settingOr none (nullable string?) sourceMap)
  | _ => none

/-- The expected error: its code and its message. -/
def expectedError? (value : Json) : Option ExpectedError := do
  match ← group? ["code", "message"] value with
  | [some code, some message] => return ⟨← string? code, ← string? message⟩
  | _ => none

/-- The configuration that a value of JSON describes. -/
def ofJson? (value : Json) : Option Config := do
  match ← group? ["input", "output", "expectedError"] value with
  | [input, output, expected] =>
    let (input, external, worker) ←
      settingOr (inputDefault, [], some workerDefault) input? input
    let (entry, chunk, sourceMap) ← settingOr ("[name].js", "[name].js", none) output? output
    let expected ← settingOr none (nullable expectedError?) expected
    return ⟨input, external, worker, entry, chunk, sourceMap, expected⟩
  | _ => none

/-- Reads a configuration. -/
def parse? (text : String) : Option Config :=
  (Json.parse? text).bind ofJson?

/-- The configuration in a file of the disk. A file that cannot be read counts as an empty group. -/
def load? (disk : Disk) (path : String) : Option Config :=
  parse? ((disk.read? path).getD "\x7b\x7d")

/-! ## Using a configuration -/

/-- Reads a setting that may be absent. -/
def readSetting {α : Type} (read : String → Except BuildError α) :
    Option String → Except BuildError (Option α)
  | none => .ok none
  | some value => (read value).map some

/-- The plugins of a configuration. -/
def plugins {σ : Type} (c : Config) : Except BuildError (List (Plugin σ)) :=
  match c.worker with
  | none => .ok []
  | some settings => do
    let sourceMap ← readSetting SourceMapKind.parse settings.sourceMap
    let format ← Worker.Format.parse settings.format
    return [Worker.plugin ⟨sourceMap, format⟩]

/-- The input of a build in the directory `cwd`. -/
def inputOptions (c : Config) (cwd : String) : Except BuildError (InputOptions Unit) := do
  let plugins ← c.plugins
  return {
    input := c.input
    cwd := cwd
    externalTest := fun specifier _ _ => .ok (specifier ∈ c.external)
    plugins := plugins }

/-- The output settings of a build. -/
def outputOptions (c : Config) : Except BuildError OutputOptions := do
  let sourceMap ← readSetting SourceMapKind.parse c.sourceMap
  return ⟨c.entryFileNames, c.chunkFileNames, sourceMap⟩

/-- Whether the outcome of a build in `cwd` is the expected one. -/
def expects {α : Type} (c : Config) (cwd : String) (outcome : Except BuildError α) : Bool :=
  match c.expectedError, outcome with
  | none, .ok _ => true
  | none, .error _ => false
  | some _, .ok _ => false
  | some expected, .error e => expected.code = e.code ∧ expected.message = e.readable cwd

end Config

end WorkerBundler
