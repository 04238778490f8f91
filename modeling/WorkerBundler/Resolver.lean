import WorkerBundler.Disk.Basic
import WorkerBundler.Plugin.Basic
import WorkerBundler.Request

/-!
# Resolving requests

`resolvePath` finds the file on disk that a request denotes. `resolve` asks the plugins first, then
whether the request is external, and then the disk.
-/

namespace WorkerBundler

/-- What a build resolves requests with. The external test is told the specifier or path, the
importer, and whether it is a resolved path. -/
structure Environment (σ : Type) where
  disk : Disk
  cwd : String
  plugins : List (Plugin σ)
  externalTest : String → Option String → Bool → Except BuildError Bool

namespace Resolver

/-- The place that a request denotes, before the extension is added. -/
def joinedPlace (disk : Disk) (cwd : String) (importer : Option String) (specifier : String) :
    List String :=
  let base :=
    match importer with
    | none => cwd
    | some importer => (DiskPath.parent? importer).getD cwd
  DiskPath.placeFrom disk.workingDirectory (DiskPath.join base specifier)

/-- The absolute path of the file that a request denotes. A name without an extension is taken as
that of a `.js` file. -/
def resolvePath (disk : Disk) (cwd : String) (importer : Option String) (specifier : String) :
    Option String :=
  let path := DiskPath.ofSegments
    (DiskPath.withExtension "js" (joinedPlace disk cwd importer specifier))
  if disk.isFile path then some path else none

/-- Whether a specifier names a package: it starts with neither a dot nor a slash. -/
def isBare (specifier : String) : Bool :=
  !(DiskPath.isAbsolute specifier) && specifier.toList.head? ≠ some '.'

/-- Resolves a request that no plugin has resolved. A package that a module imports is external;
an importer counts without its query. -/
def resolveOnDisk {σ : Type} (env : Environment σ) (request : ResolveRequest) :
    Except BuildError (Option ModuleId) := do
  let specifier := request.specifier
  if request.importer.isSome && isBare specifier then
    return some ⟨specifier, true⟩
  if ← env.externalTest specifier request.importer false then
    return some ⟨specifier, true⟩
  match resolvePath env.disk env.cwd (request.importer.map Request.clean) specifier with
  | none => return none
  | some path => return some ⟨path, ← env.externalTest path request.importer true⟩

/-- Resolves a request. -/
def resolve {σ : Type} (env : Environment σ) (request : ResolveRequest) :
    Hook σ (Option ModuleId) := do
  match ← Plugin.firstAnswer (·.resolveId request) env.plugins with
  | some id => return some id
  | none => Hook.ofExcept (resolveOnDisk env request)

end Resolver

end WorkerBundler
