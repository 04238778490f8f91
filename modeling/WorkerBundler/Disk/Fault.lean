/-!
# Disk faults

The ways in which the disk refuses an operation, and their texts.
-/

namespace WorkerBundler

/-- Why the disk refuses an operation. -/
inductive DiskFault where
  | notFound
  | alreadyExists
  | notDirectory
  | isDirectory
  | nameTooLong
  | nulInPath
  | noParent
  | other (text : String)
  deriving DecidableEq, Repr

/-- The text of a fault. -/
def DiskFault.message : DiskFault → String
  | .notFound => "No such file or directory (os error 2)"
  | .alreadyExists => "File exists (os error 17)"
  | .notDirectory => "Not a directory (os error 20)"
  | .isDirectory => "Is a directory (os error 21)"
  | .nameTooLong => "File name too long (os error 36)"
  | .nulInPath => "file name contained an unexpected NUL byte"
  | .noParent => "failed to create whole tree"
  | .other text => text

end WorkerBundler
