import WorkerBundler.Bundle
import WorkerBundler.Disk.Basic

/-!
# The output directory

Writes the assets of a bundle to the disk in order, creating the directories that are missing. At a
fault the assets before it stay written, and the error says what was to be done.
-/

namespace WorkerBundler.OutputDirectory

/-- The directory that a bundle is written to. -/
def location (cwd : String) (dir : Option String) : String :=
  DiskPath.join cwd (dir.getD "dist")

/-- The error of a disk fault in a context. -/
def diskError (fault : DiskFault) (context : String) : BuildError :=
  (BuildError.of (.disk fault)).addContext context

/-- Creates the directory of a file unless it exists. -/
def makeParent (disk : Disk) (path : String) : Except BuildError Unit × Disk :=
  match DiskPath.parent? path with
  | none => (.ok (), disk)
  | some parent =>
    if disk.hasPath parent then (.ok (), disk)
    else
      match disk.makeDirectories parent with
      | (.ok (), disk) => (.ok (), disk)
      | (.error fault, disk) =>
        (.error (diskError fault s!"Could not create directory {parent}"), disk)

/-- Writes assets one after the other; those before a fault stay. -/
def writeAssets (dir : String) : List Asset → Disk → Except BuildError Unit × Disk
  | [], disk => (.ok (), disk)
  | asset :: rest, disk =>
    let path := DiskPath.join dir asset.fileName
    match makeParent disk path with
    | (.error e, disk) => (.error e, disk)
    | (.ok (), disk) =>
      match disk.writeFile path asset.content.toUTF8 with
      | .error fault => (.error (diskError fault s!"Failed to write file {path}"), disk)
      | .ok disk => writeAssets dir rest disk

/-- Creates the output directory and writes the assets. -/
def write (dir : String) (assets : List Asset) (disk : Disk) : Except BuildError Unit × Disk :=
  match disk.makeDirectories dir with
  | (.error fault, disk) =>
    (.error (diskError fault s!"Could not create directory for output chunks: {dir}"), disk)
  | (.ok (), disk) => writeAssets dir assets disk

end WorkerBundler.OutputDirectory
