import WorkerBundler.Loader
import WorkerBundler.OutputDirectory

/-!
# The bundler

A bundler keeps its input and its plugins through any number of builds. `build` loads the modules
and makes the bundle; `write` also writes it to the disk. Each build starts with an empty emitter,
so references live as long as one build; the notes belong to the plugins and stay.
-/

namespace WorkerBundler

/-- What the builds of a bundler start from. -/
structure InputOptions (σ : Type) where
  input : List InputItem
  cwd : String
  externalTest : String → Option String → Bool → Except BuildError Bool
  plugins : List (Plugin σ)

/-- What requests are resolved with on a disk. -/
def InputOptions.environment {σ : Type} (options : InputOptions σ) (disk : Disk) :
    Environment σ where
  disk := disk
  cwd := options.cwd
  plugins := options.plugins
  externalTest := options.externalTest

/-- How a build ended. -/
structure Report where
  result : Except BuildError (List Asset)
  warnings : List BuildError

/-- A bundler with the session that its last build left. -/
structure Bundler (σ : Type) where
  options : InputOptions σ
  session : Session σ

namespace Bundler

variable {σ : Type}

/-- A bundler before its first build. -/
def new (options : InputOptions σ) (notes : σ) : Bundler σ :=
  ⟨options, .empty, notes⟩

/-- The bundler with other notes of its plugins. -/
def withNotes (b : Bundler σ) (notes : σ) : Bundler σ :=
  { b with session := { b.session with notes := notes } }

/-- Builds from what is on the disk, if loading takes at most `limit` modules. -/
def build (b : Bundler σ) (disk : Disk) (limit : Nat) (o : OutputOptions) :
    Option (Report × Bundler σ) :=
  let session := { b.session with emitter := .empty }
  match Loader.fetch (b.options.environment disk) limit b.options.input session with
  | none => none
  | some (.error e, session) => some (⟨.error e, []⟩, { b with session := session })
  | some (.ok g, session) =>
    let (result, r) := Bundle.ofGraph b.options.plugins b.options.cwd o g session
    some (⟨result, r.warnings⟩, { b with session := r.session })

/-- Builds and writes the bundle; answers the disk afterwards, too. -/
def write (b : Bundler σ) (disk : Disk) (limit : Nat) (o : OutputOptions)
    (dir : Option String) : Option (Report × Disk × Bundler σ) :=
  match b.build disk limit o with
  | none => none
  | some (report, b) =>
    match report.result with
    | .error _ => some (report, disk, b)
    | .ok assets =>
      match OutputDirectory.write (OutputDirectory.location b.options.cwd dir) assets disk with
      | (.ok (), disk) => some (report, disk, b)
      | (.error e, disk) => some ({ report with result := .error e }, disk, b)

end Bundler

end WorkerBundler
