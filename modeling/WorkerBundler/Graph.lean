import WorkerBundler.ImportScan
import WorkerBundler.ModuleId

/-!
# The module graph

The modules of a build with what their imports resolved to, the entries that the input names, and
the entries that plugins emitted.
-/

namespace WorkerBundler

/-- An import and the module it resolved to. -/
structure ImportRecord where
  site : Import
  target : ModuleId
  deriving DecidableEq, Repr

/-- A loaded and transformed module. -/
structure Module where
  id : ModuleId
  code : String
  imports : List ImportRecord
  isUserEntry : Bool
  deriving DecidableEq, Repr

/-- The modules inside the bundle that a module imports, in the order of its imports. -/
def Module.dependencies (m : Module) : List ModuleId :=
  (m.imports.map ImportRecord.target).filter (!·.isExternal)

/-- An entry of the input under its name. -/
structure UserEntry where
  name : String
  module : ModuleId
  deriving DecidableEq, Repr

/-- An emitted chunk under its reference, with the name that was asked for. -/
structure EmittedEntry where
  reference : String
  name : Option String
  module : ModuleId
  deriving DecidableEq, Repr

/-- Entries in the order of the input, emitted entries in the order of emission, and modules in the
order in which they were loaded. -/
structure Graph where
  entries : List UserEntry
  emittedEntries : List EmittedEntry
  modules : List Module
  deriving DecidableEq, Repr

namespace Graph

/-- The graph of nothing. -/
def empty : Graph := ⟨[], [], []⟩

/-- The module with an id. -/
def module? (g : Graph) (id : ModuleId) : Option Module :=
  g.modules.find? (·.id = id)

/-- The modules that are neither entries of the input nor emitted, by their ids. -/
def otherModules (g : Graph) : List ModuleId :=
  let others := g.modules.filter fun m =>
    !m.isUserEntry && !g.emittedEntries.any (·.module = m.id)
  Ordered.sort ModuleId.le (others.map Module.id)

end Graph

end WorkerBundler
