import WorkerBundler.Path.Segments

/-!
# Output paths

File names of chunks are paths with `/` between their parts, relative to the output directory.
`directory` is the part before the last name, `relative` the way from a directory to a file, and
`request` marks such a way as relative for an importing module.
-/

namespace WorkerBundler.OutputPath

/-- The directory part of a path: `.` for a bare name, `/` for what lies at the root. -/
def directory (path : String) : String :=
  match Text.trimEnd '/' path.toList with
  | [] => if path = "" then "." else "/"
  | trimmed =>
    match Text.cutLast '/' trimmed with
    | none => "."
    | some (before, _) =>
      match Text.trimEnd '/' before with
      | [] => "/"
      | dir => String.ofList dir

/-- The way from a directory to a target, both taken from the same root. -/
def relative (dir target : String) : String :=
  Path.way (Path.segments dir) (Path.segments target)

/-- Whether a path starts with `./` or `../`. -/
def isMarked (path : String) : Bool :=
  match path.toList with
  | '.' :: '/' :: _ => true
  | '.' :: '.' :: '/' :: _ => true
  | _ => false

/-- The path marked as relative; an unmarked one would name a package. -/
def request (path : String) : String :=
  if isMarked path then path else "./" ++ path

/-- The request by which the file `importer` reaches the file `target`. -/
def requestFrom (importer target : String) : String :=
  request (relative (directory importer) target)

theorem isMarked_request (path : String) : isMarked (request path) = true := by
  rw [request]
  split
  · assumption
  · simp [isMarked, String.toList_append]

/-- The mark changes nothing of where a path leads. -/
theorem follow_request (start : List String) (path : String) :
    Path.follow start (request path) = Path.follow start path := by
  rw [request]
  split
  · rfl
  · have parts : Text.parts '/' ("./" ++ path) = "." :: Text.parts '/' path := by
      have cut : Text.splitAll '/' (['.'] ++ '/' :: path.toList) =
          ['.'] :: Text.splitAll '/' path.toList := Text.splitAll_append_sep (by decide) _
      rw [Text.parts, String.toList_append]
      show (Text.splitAll '/' (['.'] ++ '/' :: path.toList)).map String.ofList = _
      rw [cut]
      rfl
    rw [Path.follow, parts, List.foldl_cons, Path.follow]
    rfl

/-- A request leads from the directory of the importing file to the target. -/
theorem follow_requestFrom (importer target : String) :
    Path.follow (Path.segments (directory importer)) (requestFrom importer target) =
      Path.segments target := by
  rw [requestFrom, follow_request, relative]
  exact Path.follow_way _ fun _ => Path.isName_of_mem_segments

end WorkerBundler.OutputPath
