import WorkerBundler.Disk.Fault
import WorkerBundler.Path.Disk

/-!
# The disk

A disk maps places to files and directories; the root is always a directory. A path is followed on
the disk as an operating system does it: every part before the end has to be a directory, also where
the next part is `..`, and a slash at the end asks for a directory.

`locate` finds what a path denotes, `read?` reads a file, `makeDirectories` creates a directory with
the missing ones above it, and `writeFile` replaces or creates a file.
-/

namespace WorkerBundler

/-- What lies at a place. -/
inductive DiskEntry where
  | file (content : ByteArray)
  | directory

instance : DecidableEq DiskEntry
  | .file a, .file b =>
    match ByteArray.decEq a b with
    | .isTrue same => .isTrue (congrArg DiskEntry.file same)
    | .isFalse differ => .isFalse fun same => differ (DiskEntry.file.inj same)
  | .directory, .directory => .isTrue rfl
  | .file _, .directory => .isFalse nofun
  | .directory, .file _ => .isFalse nofun

/-- Files and directories by their places; relative paths start at the working directory. -/
structure Disk where
  entries : List (List String × DiskEntry)
  workingDirectory : List String

namespace Disk

/-- What lies at a place. -/
def entryAt (d : Disk) (place : List String) : Option DiskEntry :=
  if place = [] then some .directory
  else (d.entries.find? (·.1 = place)).map (·.2)

/-- The disk with an entry put at a place. -/
def put (d : Disk) (place : List String) (e : DiskEntry) : Disk :=
  { d with entries := (place, e) :: d.entries.filter (·.1 ≠ place) }

theorem entryAt_put_self (d : Disk) {place : List String} (h : place ≠ []) (e : DiskEntry) :
    (d.put place e).entryAt place = some e := by
  simp [put, entryAt, h]

theorem entryAt_put_of_ne (d : Disk) {place other : List String} (h : other ≠ place)
    (e : DiskEntry) : (d.put place e).entryAt other = d.entryAt other := by
  by_cases root : other = []
  · simp [entryAt, root]
  · simp only [put, entryAt, root, if_false]
    rw [List.find?_cons_of_neg (by simpa using Ne.symm h), List.find?_filter]
    congr 2
    funext x
    by_cases hx : x.1 = other <;> simp [hx, h]

/-! ## Following a path -/

/-- Whether a directory lies at the place. -/
def isDirectoryAt (d : Disk) (place : List String) : Bool :=
  d.entryAt place == some .directory

/-- The longest name of a file, in bytes. -/
def nameLimit : Nat := 255

/-- The longest path, in bytes. -/
def pathLimit : Nat := 4095

/-- Follows the parts of a path from a place. -/
def walk (d : Disk) (place : List String) : List String → Except DiskFault (List String)
  | [] => .ok place
  | part :: rest =>
    if !d.isDirectoryAt place then .error .notDirectory
    else if DiskPath.isIdle part then d.walk place rest
    else if part = ".." then d.walk place.dropLast rest
    else if part.utf8ByteSize > nameLimit then .error .nameTooLong
    else if (d.entryAt (place ++ [part])).isNone then .error .notFound
    else d.walk (place ++ [part]) rest

/-- Refuses the paths that no operation takes. -/
def checkPath (path : String) : Except DiskFault Unit :=
  if '\x00' ∈ path.toList then .error .nulInPath
  else if path = "" then .error .notFound
  else if path.utf8ByteSize > pathLimit then .error .nameTooLong
  else .ok ()

/-- The place at which the path starts. -/
def startOf (d : Disk) (path : String) : List String :=
  if DiskPath.isAbsolute path then [] else d.workingDirectory

/-- The place that the path denotes, if something lies there. -/
def locate (d : Disk) (path : String) : Except DiskFault (List String) := do
  checkPath path
  d.walk (d.startOf path) (Text.parts '/' path)

/-- What lies where the path leads. -/
def lookup? (d : Disk) (path : String) : Option DiskEntry :=
  match d.locate path with
  | .ok place => d.entryAt place
  | .error _ => none

/-- Whether the path leads to something. -/
def hasPath (d : Disk) (path : String) : Bool :=
  (d.lookup? path).isSome

/-- Whether the path leads to a file. -/
def isFile (d : Disk) (path : String) : Bool :=
  match d.lookup? path with
  | some (.file _) => true
  | _ => false

/-- Whether the path leads to a directory. -/
def isDirectory (d : Disk) (path : String) : Bool :=
  d.lookup? path == some .directory

/-- The text of the file at the path, if it is a file and its content is UTF-8. -/
def read? (d : Disk) (path : String) : Option String :=
  match d.lookup? path with
  | some (.file content) => String.fromUTF8? content
  | _ => none

/-! ## Changing the disk -/

/-- The directory that is to hold the last component of a path, that component, and whether slashes
follow it. A path of slashes has no last component. -/
def target (d : Disk) (path : String) :
    Except DiskFault (Option (List String × String × Bool)) := do
  checkPath path
  let parts := Text.parts '/' path
  match (parts.reverse.dropWhile (· = "")) with
  | [] => .ok none
  | last :: before =>
    let place ← d.walk (d.startOf path) before.reverse
    if d.isDirectoryAt place then
      .ok (some (place, last, parts.getLast? = some ""))
    else .error .notDirectory

/-- Creates a directory whose parent exists. -/
def makeDirectory (d : Disk) (path : String) : Except DiskFault Disk := do
  match ← d.target path with
  | none => .error .alreadyExists
  | some (place, last, _) =>
    if last = "." ∨ last = ".." then .error .alreadyExists
    else if last.utf8ByteSize > nameLimit then .error .nameTooLong
    else if (d.entryAt (place ++ [last])).isSome then .error .alreadyExists
    else .ok (d.put (place ++ [last]) .directory)

/-- Creates a directory unless there is one. -/
def ensureDirectory (d : Disk) (path : String) : Except DiskFault Disk :=
  match d.makeDirectory path with
  | .ok made => .ok made
  | .error fault => if d.isDirectory path then .ok d else .error fault

/-- Creates a directory with the missing ones above it, at most `fuel` of them; those that were
created before a fault stay. -/
def makeDirectoriesWithin (d : Disk) (path : String) : Nat → Except DiskFault Unit × Disk
  | 0 => (.error .noParent, d)
  | fuel + 1 =>
    if path = "" then (.ok (), d)
    else
      match d.makeDirectory path with
      | .ok made => (.ok (), made)
      | .error .notFound =>
        match DiskPath.parent? path with
        | none => (.error .noParent, d)
        | some parent =>
          match d.makeDirectoriesWithin parent fuel with
          | (.error fault, d) => (.error fault, d)
          | (.ok (), d) =>
            match d.ensureDirectory path with
            | .ok made => (.ok (), made)
            | .error fault => (.error fault, d)
      | .error fault => if d.isDirectory path then (.ok (), d) else (.error fault, d)

/-- Creates a directory with the missing ones above it. A path has fewer components than
characters. -/
def makeDirectories (d : Disk) (path : String) : Except DiskFault Unit × Disk :=
  d.makeDirectoriesWithin path (path.length + 1)

/-- Creates a file or replaces its content. -/
def writeFile (d : Disk) (path : String) (content : ByteArray) : Except DiskFault Disk := do
  match ← d.target path with
  | none => .error .isDirectory
  | some (place, last, slashed) =>
    if last = "." ∨ last = ".." ∨ slashed then .error .isDirectory
    else if last.utf8ByteSize > nameLimit then .error .nameTooLong
    else
      match d.entryAt (place ++ [last]) with
      | some .directory => .error .isDirectory
      | _ => .ok (d.put (place ++ [last]) (.file content))

/-! ## Listings -/

/-- The disk with directories put at the place and above it. -/
def putDirectories (d : Disk) (place : List String) : Disk :=
  (List.range place.length).foldl
    (fun d n =>
      let above := place.take (n + 1)
      if (d.entryAt above).isSome then d else d.put above .directory) d

/-- The disk that holds the working directory and the listed files. A listed path with a slash at
its end is an empty directory. -/
def ofListing (workingDirectory : List String) (files : List (String × ByteArray)) : Disk :=
  files.foldl
    (fun d (path, content) =>
      let place := Path.segments path
      if path.toList.getLast? = some '/' then d.putDirectories place
      else (d.putDirectories place.dropLast).put place (.file content))
    ((Disk.mk [] workingDirectory).putDirectories workingDirectory)

/-- The files below a place that are new or changed since an earlier disk. -/
def changes (earlier later : Disk) (place : List String) : List (List String × ByteArray) :=
  later.entries.filterMap fun (p, e) =>
    match e with
    | .directory => none
    | .file content =>
      if place.isPrefixOf p ∧ earlier.entryAt p ≠ some (.file content) then some (p, content)
      else none

end Disk

end WorkerBundler
