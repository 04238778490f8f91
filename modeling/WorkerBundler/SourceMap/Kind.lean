import WorkerBundler.BuildError

/-!
# Where source maps go
-/

namespace WorkerBundler

/-- How the source map of a chunk is handed out: as a file that the chunk points to, inside the
chunk, or as a file that nothing points to. -/
inductive SourceMapKind where
  | file
  | inline
  | hidden
  deriving DecidableEq, Repr

/-- Reads a setting. -/
def SourceMapKind.parse (value : String) : Except BuildError SourceMapKind :=
  if value = "true" ∨ value = "file" then .ok .file
  else if value = "inline" then .ok .inline
  else if value = "hidden" then .ok .hidden
  else .error (.fatal (.unknownSourceMapKind value))

end WorkerBundler
