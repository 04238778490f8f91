import WorkerBundler.Path.Segments

/-!
# Disk paths

Paths of files on disk as text. Repeated slashes, slashes at the end and inner `.` parts do not name
anything, so `parent?` and `fileName?` pass over them; a `..` part counts as a component. `absolute`
normalizes a path without looking at the disk.
-/

namespace WorkerBundler.DiskPath

/-- Whether the path starts at the root. -/
def isAbsolute (path : String) : Bool :=
  path.toList.head? = some '/'

/-- The path of the place with these segments. -/
def ofSegments (place : List String) : String :=
  "/" ++ Text.unparts '/' place

/-- The place that a path denotes, a relative one being followed from `base`. -/
def placeFrom (base : List String) (path : String) : List String :=
  if isAbsolute path then Path.segments path else Path.follow base path

/-- A path after a base directory. An absolute path replaces the base. -/
def join (base path : String) : String :=
  if isAbsolute path then path
  else if base = "" ∨ base.toList.getLast? = some '/' then base ++ path
  else base ++ "/" ++ path

/-- Whether a part of a path names nothing. -/
def isIdle (part : String) : Bool :=
  part = "" || part = "."

/-- The parts of a path without the idle ones at its end; the first part stays. -/
def trimParts : List String → List String
  | [] => []
  | first :: rest => first :: (rest.reverse.dropWhile isIdle).reverse

/-- The path without its last component. The root and the empty path have no parent. -/
def parent? (path : String) : Option String :=
  match trimParts (Text.parts '/' path) with
  | [] => none
  | [only] => if only = "" then none else some ""
  | components =>
    match trimParts components.dropLast with
    | [""] => some "/"
    | parts => some (Text.unparts '/' parts)

/-- The last component of a path, if it is a name. -/
def fileName? (path : String) : Option String :=
  match ((Text.parts '/' path).filter fun part => !isIdle part).getLast? with
  | none => none
  | some ".." => none
  | some name => some name

/-- A file name as its stem and what follows the last dot. A dot at the start of the name belongs to
the stem. -/
def splitName (name : String) : String × Option String :=
  match Text.cutLast '.' name.toList with
  | some (c :: stem, extension) => (String.ofList (c :: stem), some (String.ofList extension))
  | _ => (name, none)

/-- The stem of the last name of a path. -/
def stem? (path : String) : Option String :=
  (fileName? path).map fun name => (splitName name).1

/-- The place with an extension added to the last name if that has none. -/
def withExtension (extension : String) (place : List String) : List String :=
  match place.getLast? with
  | none => place
  | some name =>
    match splitName name with
    | (_, some _) => place
    | (_, none) => place.dropLast ++ [name ++ "." ++ extension]

/-- The way from the directory `base` to an absolute path; other paths stay as they are. -/
def relativeTo (base path : String) : String :=
  if isAbsolute path then Path.way (Path.segments base) (Path.segments path) else path

end WorkerBundler.DiskPath
