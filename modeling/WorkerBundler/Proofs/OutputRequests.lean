import WorkerBundler.Path.Output
import WorkerBundler.Proofs.PlainPaths

/-!
# Requests between output files

A file reaches another one by a request that is followed from the directory of the first. That
directory is cut from the text of the path, while paths are compared by their segments. Both agree
if the last part of the path that is not empty is a name (`segments_directory`): what is cut off
around it are slashes only, and slashes at the end of a path name nothing
(`Text.apply_trimEnd`). So the request leads from the segments of the one file, without the last
one, to the segments of the other (`request_leads`). For a path that ends in `..` the two differ:
the directory of `a/..` is `a`.
-/

namespace WorkerBundler

/-! ## Slashes at the end -/

namespace Text

/-- What does not change with a slash at the end does not change with any number of them. -/
theorem apply_trimEnd {α : Type} {f : String → α} (same : ∀ path, f (path ++ "/") = f path)
    (cs : List Char) : f (String.ofList (trimEnd '/' cs)) = f (String.ofList cs) := by
  have longer : ∀ front count,
      f (String.ofList (front ++ List.replicate count '/')) = f (String.ofList front) := by
    intro front count
    induction count with
    | zero => rw [List.replicate_zero, List.append_nil]
    | succ count ih =>
      have last : String.ofList (front ++ List.replicate (count + 1) '/') =
          String.ofList (front ++ List.replicate count '/') ++ "/" := by
        rw [List.replicate_succ', ← List.append_assoc, String.ofList_append]
      rw [last, same, ih]
  obtain ⟨count, cut⟩ := exists_trimEnd '/' cs
  have whole := longer (trimEnd '/' cs) count
  rw [← cut] at whole
  exact whole.symm

theorem parts_of_not_mem {name : String} (clean : '/' ∉ name.toList) : parts '/' name = [name] := by
  rw [parts, splitAll_of_not_mem clean, List.map_singleton, String.ofList_toList]

end Text

namespace Path

/-- The last part of a path that is not empty. -/
def lastPart? (path : String) : Option String :=
  ((Text.parts '/' path).filter (· ≠ "")).getLast?

theorem lastPart?_slash (path : String) : lastPart? (path ++ "/") = lastPart? path := by
  have whole := Text.parts_append_sep path ""
  rw [String.append_empty] at whole
  have only : Text.parts '/' "" = [""] := by decide
  rw [lastPart?, whole, only, List.filter_append]
  simp [lastPart?]

theorem lastPart?_name {name : String} (clean : '/' ∉ name.toList) (nonempty : name ≠ "") :
    lastPart? name = some name := by
  rw [lastPart?, Text.parts_of_not_mem clean]
  simp [nonempty]

theorem lastPart?_append {name : String} (clean : '/' ∉ name.toList) (nonempty : name ≠ "")
    (front : String) : lastPart? (front ++ "/" ++ name) = some name := by
  rw [lastPart?, Text.parts_append_sep, Text.parts_of_not_mem clean, List.filter_append]
  simp [nonempty]

/-- A path that ends in a name leads to the place of that name. -/
theorem follow_name {name : String} (h : IsName name) (place : List String) :
    follow place name = place ++ [name] := by
  rw [follow, Text.parts_of_not_mem h.2.2.2, List.foldl_cons, List.foldl_nil, enter_name h]

/-- Names that are joined to a path are its segments. -/
theorem segments_unparts {names : List String} (h : ∀ name ∈ names, IsName name) :
    segments (Text.unparts '/' names) = names := by
  by_cases empty : names = []
  · rw [empty]
    decide
  · rw [segments, follow, Text.parts_unparts empty fun name mem => (h name mem).2.2.2,
      foldl_enter_names h, List.nil_append]

/-- Slashes at the end of a path lead nowhere. -/
theorem segments_trimEnd (cs : List Char) :
    segments (String.ofList (Text.trimEnd '/' cs)) = segments (String.ofList cs) :=
  Text.apply_trimEnd (f := segments) (follow_slash []) cs

end Path

namespace OutputPath

open WorkerBundler.Path (segments)

/-! ## Directories -/

/-- Without the slashes at its end, the front of a path leads to the same place. -/
theorem segments_front (before : List Char) :
    segments (match Text.trimEnd '/' before with
      | [] => "/"
      | dir => String.ofList dir) = segments (String.ofList before) := by
  rw [← Path.segments_trimEnd before]
  split
  · rename_i slashes
    rw [slashes]
    decide
  · rfl

/-- The directory of a file has the segments of the file but the last one. -/
theorem segments_directory {file : String}
    (named : ∀ part ∈ Path.lastPart? file, part ≠ "." ∧ part ≠ "..") :
    segments (directory file) = (segments file).dropLast := by
  have shorter := Path.segments_trimEnd file.toList
  have last := Text.apply_trimEnd Path.lastPart?_slash file.toList
  have ends := Text.getLast?_trimEnd_ne '/' file.toList
  rw [String.ofList_toList] at shorter last
  rw [← last] at named
  rw [← shorter, directory]
  generalize Text.trimEnd '/' file.toList = trimmed at named ends ⊢
  have isName : ∀ name : String, '/' ∉ name.toList → name ≠ "" →
      Path.lastPart? (String.ofList trimmed) = some name → Path.IsName name := by
    intro name clean nonempty last
    obtain ⟨notDot, notUp⟩ := named name last
    exact ⟨nonempty, notDot, notUp, clean⟩
  split
  · split <;> decide
  · rename_i some
    rcases Text.cutLast_cases '/' trimmed with ⟨uncut, clean⟩ | ⟨before, name, cut, rfl, clean⟩
    · rw [← String.toList_ofList (l := trimmed)] at clean
      have nonempty : String.ofList trimmed ≠ "" := by simpa using some
      have only := isName _ clean nonempty (Path.lastPart?_name clean nonempty)
      have here : segments (String.ofList trimmed) = [String.ofList trimmed] :=
        Path.follow_name only []
      have root : segments "." = [] := by decide
      rw [here, uncut]
      exact root
    · rw [← String.toList_ofList (l := name)] at clean
      -- no slash is left at the end, so something stands behind the last one
      have nonempty : String.ofList name ≠ "" := by
        intro empty
        obtain rfl : name = [] := by simpa using empty
        exact ends (by simp)
      have whole : String.ofList (before ++ '/' :: name) =
          String.ofList before ++ "/" ++ String.ofList name := by
        rw [← String.toList_inj]
        simp
      rw [whole] at isName ⊢
      have last := isName _ clean nonempty (Path.lastPart?_append clean nonempty _)
      have here : segments (String.ofList before ++ "/" ++ String.ofList name) =
          segments (String.ofList before) ++ [String.ofList name] := by
        rw [segments, Path.follow_append_slash, Path.follow_name last]
        rfl
      rw [here, List.dropLast_concat, cut]
      exact segments_front before

/-- The directory of `a/..` is `a`. -/
example : segments (directory "a/..") = ["a"] ∧ (segments "a/..").dropLast = [] := by decide

/-! ## Requests -/

theorem exists_of_isMarked {path : String} (marked : isMarked path = true) :
    (∃ rest, path = "./" ++ rest) ∨ ∃ rest, path = "../" ++ rest := by
  rw [isMarked] at marked
  split at marked
  · rename_i rest chars
    refine Or.inl ⟨String.ofList rest, ?_⟩
    rw [← String.toList_inj, chars]
    simp
  · rename_i rest chars
    refine Or.inr ⟨String.ofList rest, ?_⟩
    rw [← String.toList_inj, chars]
    simp
  · cases marked

/-- **A request leads from a file to a file.** It starts with `./` or `../`, and behind the segments
of the importing file without the last one it leads to the segments of the target, if the last part
of the importing file is neither `.` nor `..`. The way between two places does not depend on how
their paths are written. -/
theorem request_leads {importer : String}
    (named : ∀ part ∈ Path.lastPart? importer, part ≠ "." ∧ part ≠ "..") (target : String) :
    let r := request (relative (directory importer) target)
    ((∃ rest, r = "./" ++ rest) ∨ ∃ rest, r = "../" ++ rest) ∧
      segments (Text.unparts '/' (segments importer).dropLast ++ "/" ++ r) = segments target ∧
      ∀ dir dir' path path', segments dir = segments dir' → segments path = segments path' →
        relative dir path = relative dir' path' := by
  intro r
  refine ⟨exists_of_isMarked (isMarked_request _), ?_, ?_⟩
  · have names : ∀ name ∈ (segments importer).dropLast, Path.IsName name :=
      fun name mem => Path.isName_of_mem_segments (List.dropLast_subset _ mem)
    calc segments (Text.unparts '/' (segments importer).dropLast ++ "/" ++ r)
        = Path.follow (segments (Text.unparts '/' (segments importer).dropLast)) r :=
          Path.follow_append_slash [] _ r
      _ = Path.follow (segments (directory importer)) r := by
          rw [Path.segments_unparts names, segments_directory named]
      _ = segments target := follow_requestFrom importer target
  · intro dir dir' path path' same same'
    rw [relative, relative, same, same']

/-- The directory of the importing file is `a/c`, and the target lies in `a/d`. -/
theorem request_leads_up : Path.lastPart? "a/./b//../c/x.js//" = some "x.js" ∧
    request (relative (directory "a/./b//../c/x.js//") "/../a//d/./.t.js") = "../d/.t.js" ∧
      segments "a/c/../d/.t.js" = ["a", "d", ".t.js"] := by
  have last : Path.lastPart? "a/./b//../c/x.js//" = some "x.js" := by decide
  have dir : Text.unparts '/' (segments "a/./b//../c/x.js//").dropLast = "a/c" := by decide
  have way : request (relative (directory "a/./b//../c/x.js//") "/../a//d/./.t.js") =
      "../d/.t.js" := by decide
  have goal : segments "/../a//d/./.t.js" = ["a", "d", ".t.js"] := by decide
  have named : ∀ part ∈ Path.lastPart? "a/./b//../c/x.js//", part ≠ "." ∧ part ≠ ".." := by
    rw [last]
    decide
  obtain ⟨_, leads, _⟩ := request_leads named "/../a//d/./.t.js"
  rw [dir, way, goal] at leads
  exact ⟨last, way, leads⟩

end OutputPath

end WorkerBundler
