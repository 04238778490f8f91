import WorkerBundler.Proofs.FilePaths

/-!
# Resolved paths

A resolved path is canonical: it is made of names, each of which leads from one directory to the
next (`exists_names_of_resolvePath`). The place that a canonical path denotes is given by its names,
and a resolved name has an extension, so a resolved path resolves to itself
(`resolvePath_of_resolvePath`), and two of them that lead to one file are the same
(`eq_of_placeOf_eq`).
-/

namespace WorkerBundler

/-! ## Canonical paths -/

namespace DiskPath

/-- The path is absolute and made of the names, of which there is one at least. -/
structure Spells (path : String) (names : List String) : Prop where
  nonempty : names ≠ []
  each : ∀ name ∈ names, Path.IsName name
  text : path = ofSegments names

variable {path : String} {names : List String}

theorem Spells.isAbsolute (spells : Spells path names) : DiskPath.isAbsolute path = true := by
  rw [spells.text]
  exact isAbsolute_ofSegments names

theorem Spells.parts_unparts (spells : Spells path names) :
    Text.parts '/' (Text.unparts '/' names) = names :=
  Text.parts_unparts spells.nonempty fun name mem => (spells.each name mem).2.2.2

theorem Spells.parts (spells : Spells path names) : Text.parts '/' path = "" :: names := by
  rw [spells.text, parts_ofSegments, spells.parts_unparts]

/-- A canonical path denotes the place of its names, wherever it is followed from. -/
theorem Spells.placeFrom (spells : Spells path names) (base : List String) :
    placeFrom base path = names := by
  rw [spells.text, placeFrom_ofSegments, spells.parts_unparts]
  exact Path.foldl_enter_names spells.each []

/-- A name has an extension after one has been added. -/
theorem splitName_append {name : String} (nonempty : name ≠ "") :
    splitName (name ++ "." ++ "js") = (name, some "js") := by
  have chars : (name ++ "." ++ "js").toList = name.toList ++ '.' :: "js".toList := by
    simp [String.toList_append]
  cases front : name.toList with
  | nil => exact absurd (String.toList_eq_nil_iff.1 front) nonempty
  | cons c stem =>
    have cut : Text.cutLast '.' ((c :: stem) ++ '.' :: "js".toList) =
        some (c :: stem, "js".toList) := Text.cutLast_append (by decide) (c :: stem)
    rw [splitName, chars, front, cut]
    show (String.ofList (c :: stem), _) = _
    rw [← front, String.ofList_toList]
    rfl

theorem withExtension_concat (front : List String) (last : String) :
    withExtension "js" (front ++ [last]) =
      if (splitName last).2.isSome then front ++ [last] else front ++ [last ++ "." ++ "js"] := by
  rw [withExtension, List.getLast?_concat]
  dsimp only
  split
  · rename_i extension split
    rw [split]
    rfl
  · rename_i split
    rw [split, List.dropLast_concat]
    rfl

/-- An extension is added once. -/
theorem withExtension_withExtension {place : List String}
    (each : ∀ name ∈ place, Path.IsName name) :
    withExtension "js" (withExtension "js" place) = withExtension "js" place := by
  rcases List.eq_nil_or_concat place with rfl | ⟨front, last, rfl⟩
  · rfl
  · rw [List.concat_eq_append] at each ⊢
    have name := each last (List.mem_append_right _ List.mem_cons_self)
    cases extension : (splitName last).2.isSome with
    | true => simp only [withExtension_concat, extension, if_true]
    | false =>
      simp only [withExtension_concat, extension, splitName_append name.1, Bool.false_eq_true,
        if_false, Option.isSome_some, if_true]

end DiskPath

/-! ## Resolving -/

/-- The working directory is given by names, as every place is. -/
def Disk.Rooted (d : Disk) : Prop := ∀ name ∈ d.workingDirectory, Path.IsName name

instance (d : Disk) : Decidable d.Rooted :=
  List.decidableBAll _ d.workingDirectory

theorem Disk.not_isFile_root (d : Disk) : d.isFile (DiskPath.ofSegments []) = false := by
  cases file : d.isFile (DiskPath.ofSegments []) with
  | false => rfl
  | true =>
    obtain ⟨place, content, led, found⟩ := exists_of_isFile file
    rw [placeOf_of_locate led] at found
    cases found

namespace Resolver

variable {disk : Disk} {cwd cwd' specifier specifier' path path' : String}
  {importer importer' : Option String}

theorem isName_of_mem_joinedPlace (rooted : disk.Rooted) :
    ∀ name ∈ joinedPlace disk cwd importer specifier, Path.IsName name := by
  obtain ⟨k, -, names, joined, each⟩ : ∃ k ≤ disk.workingDirectory.length, ∃ names,
      joinedPlace disk cwd importer specifier = disk.workingDirectory.take k ++ names ∧
        ∀ name ∈ names, Path.IsName name := DiskPath.exists_placeFrom_eq _ _
  rw [joined]
  exact List.forall_mem_append.2 ⟨fun name mem => rooted name (List.mem_of_mem_take mem), each⟩

/-- A resolved path is canonical, and its last name has an extension. -/
theorem exists_names_of_resolvePath (rooted : disk.Rooted)
    (resolved : resolvePath disk cwd importer specifier = some path) :
    disk.isFile path = true ∧ ∃ names, DiskPath.Spells path names ∧
      DiskPath.withExtension "js" names = names := by
  unfold resolvePath at resolved
  dsimp only at resolved
  split at resolved
  · rename_i file
    cases resolved
    have each : ∀ name ∈ joinedPlace disk cwd importer specifier, Path.IsName name :=
      isName_of_mem_joinedPlace rooted
    generalize joinedPlace disk cwd importer specifier = place at file each ⊢
    have nonempty : place ≠ [] := by
      rintro rfl
      rw [show DiskPath.withExtension "js" [] = [] from rfl, disk.not_isFile_root] at file
      cases file
    obtain ⟨names, extended, nonempty', each'⟩ := DiskPath.exists_withExtension_eq [] each nonempty
    rw [List.nil_append, List.nil_append] at extended
    refine ⟨file, names, ⟨nonempty', each', by rw [extended]⟩, ?_⟩
    rw [← extended, DiskPath.withExtension_withExtension each]
  · cases resolved

/-- A resolved path resolves to itself, from wherever it is requested. -/
theorem resolvePath_of_resolvePath (rooted : disk.Rooted)
    (resolved : resolvePath disk cwd importer specifier = some path) (cwd' : String)
    (importer' : Option String) : resolvePath disk cwd' importer' path = some path := by
  obtain ⟨file, names, spells, extended⟩ := exists_names_of_resolvePath rooted resolved
  have place : joinedPlace disk cwd' importer' path = names := by
    have joined (base : String) : DiskPath.join base path = path := if_pos spells.isAbsolute
    simp only [joinedPlace, joined]
    exact spells.placeFrom disk.workingDirectory
  rw [resolvePath, place, extended, ← spells.text]
  exact if_pos file

/-- Resolved paths that lead to one file are the same. -/
theorem eq_of_placeOf_eq (rooted : disk.Rooted)
    (resolved : resolvePath disk cwd importer specifier = some path)
    (resolved' : resolvePath disk cwd' importer' specifier' = some path')
    (same : disk.placeOf path = disk.placeOf path') : path = path' := by
  obtain ⟨-, names, spells, -⟩ := exists_names_of_resolvePath rooted resolved
  obtain ⟨-, names', spells', -⟩ := exists_names_of_resolvePath rooted resolved'
  rw [Disk.placeOf, spells.placeFrom, Disk.placeOf, spells'.placeFrom] at same
  rw [spells.text, spells'.text, same]

end Resolver

end WorkerBundler
