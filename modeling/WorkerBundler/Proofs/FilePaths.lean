import Mathlib.Data.List.Induction
import WorkerBundler.Proofs.DiskChanges
import WorkerBundler.Proofs.PlainPaths
import WorkerBundler.Resolver

/-!
# The paths of files

On one disk, requests resolve to finitely many paths, whatever the specifier and the importer
(`mem_filePaths`). A resolved path names a place by the start of the working directory, or by none
of it, and then by the names with which the place of an entry of the disk ends.
-/

namespace WorkerBundler

/-! ## Names at the end of a place -/

namespace Text

theorem join_append (sep : Char) {front rest : List (List Char)} (left : front ≠ [])
    (right : rest ≠ []) : join sep (front ++ rest) = join sep front ++ sep :: join sep rest := by
  induction front with
  | nil => exact absurd rfl left
  | cons part front ih =>
    cases front with
    | nil => rw [List.singleton_append, join_cons_of_ne_nil sep part right, join]
    | cons next more =>
      rw [List.cons_append, join_cons_of_ne_nil sep part (List.append_ne_nil_of_left_ne_nil
        (List.cons_ne_nil next more) rest), ih (List.cons_ne_nil next more),
        join_cons_of_ne_nil sep part (List.cons_ne_nil next more), List.append_assoc]
      rfl

/-- Names that are joined behind others are read back as the last ones. -/
theorem parts_unparts_append (front : List String) {names : List String} (nonempty : names ≠ [])
    (clean : ∀ name ∈ names, '/' ∉ name.toList) :
    ∃ before, parts '/' (unparts '/' (front ++ names)) = before ++ names := by
  by_cases none_before : front = []
  · refine ⟨[], ?_⟩
    rw [none_before, List.nil_append]
    exact parts_unparts nonempty clean
  · refine ⟨parts '/' (unparts '/' front), ?_⟩
    have joined : unparts '/' (front ++ names) =
        unparts '/' front ++ "/" ++ unparts '/' names := by
      rw [← String.toList_inj, String.toList_append, String.toList_append, unparts, unparts,
        unparts, String.toList_ofList, String.toList_ofList, String.toList_ofList, List.map_append,
        join_append '/' (by simpa using none_before) (by simpa using nonempty)]
      simp
    rw [joined, parts_append_sep, parts_unparts nonempty clean]

end Text

namespace Path

/-- Following a path leaves a start of the place and adds names to it. -/
theorem exists_foldl_enter_eq (start : List String) {parts : List String}
    (clean : ∀ part ∈ parts, '/' ∉ part.toList) :
    ∃ k ≤ start.length, ∃ names, parts.foldl enter start = start.take k ++ names ∧
      ∀ name ∈ names, IsName name := by
  induction parts using List.reverseRecOn with
  | nil => exact ⟨start.length, Nat.le_refl _, [], by simp, nofun⟩
  | append_singleton parts part ih =>
    obtain ⟨k, within, names, led, each⟩ := ih fun p mem => clean p (List.mem_append_left _ mem)
    rw [List.foldl_append, led, List.foldl_cons, List.foldl_nil, enter]
    split
    · exact ⟨k, within, names, rfl, each⟩
    · rename_i idle
      split
      · rcases List.eq_nil_or_concat names with rfl | ⟨before, last, rfl⟩
        · refine ⟨k - 1, Nat.le_trans (Nat.sub_le k 1) within, [], ?_, nofun⟩
          rw [List.append_nil, List.append_nil, List.dropLast_eq_take, List.take_take,
            List.length_take, Nat.min_eq_left within, Nat.min_eq_left (Nat.sub_le k 1)]
        · refine ⟨k, within, before, ?_, fun name mem => each name ?_⟩
          · rw [List.concat_eq_append, ← List.append_assoc, List.dropLast_concat]
          · rw [List.concat_eq_append]
            exact List.mem_append_left _ mem
      · rename_i up
        refine ⟨k, within, names ++ [part], List.append_assoc _ _ _, ?_⟩
        intro name mem
        rcases List.mem_append.1 mem with old | new
        · exact each name old
        · rw [List.mem_singleton.1 new]
          rw [not_or] at idle
          exact ⟨idle.1, idle.2, up, clean part (List.mem_append_right _ List.mem_cons_self)⟩

theorem IsName.append_js {name : String} (h : IsName name) : IsName (name ++ "." ++ "js") := by
  have chars : (name ++ "." ++ "js").toList = name.toList ++ ['.', 'j', 's'] := by
    simp [String.toList_append]
  have length : 3 ≤ (name ++ "." ++ "js").toList.length := by
    rw [chars, List.length_append]
    exact Nat.le_add_left 3 _
  have long (short : String) (few : short.toList.length < 3) : name ++ "." ++ "js" ≠ short := by
    intro same
    rw [same] at length
    omega
  refine ⟨long "" (by decide), long "." (by decide), long ".." (by decide), ?_⟩
  rw [chars, List.mem_append, not_or]
  exact ⟨h.2.2.2, by decide⟩

end Path

theorem DiskPath.exists_placeFrom_eq (start : List String) (path : String) :
    ∃ k ≤ start.length, ∃ names, placeFrom start path = start.take k ++ names ∧
      ∀ name ∈ names, Path.IsName name := by
  have clean : ∀ part ∈ Text.parts '/' path, '/' ∉ part.toList :=
    fun _ => Text.not_mem_of_mem_parts
  rw [placeFrom_eq, Path.follow]
  split
  · obtain ⟨k, _, names, led, each⟩ := Path.exists_foldl_enter_eq [] clean
    exact ⟨0, Nat.zero_le _, names, by rw [led]; simp, each⟩
  · exact Path.exists_foldl_enter_eq start clean

/-- An extension is added to the last of the names. -/
theorem DiskPath.exists_withExtension_eq (front : List String) {names : List String}
    (each : ∀ name ∈ names, Path.IsName name) (nonempty : names ≠ []) :
    ∃ names', withExtension "js" (front ++ names) = front ++ names' ∧ names' ≠ [] ∧
      ∀ name ∈ names', Path.IsName name := by
  obtain ⟨before, last, rfl⟩ := (List.eq_nil_or_concat names).resolve_left nonempty
  rw [List.concat_eq_append] at each ⊢
  rw [withExtension, ← List.append_assoc, List.getLast?_concat]
  dsimp only
  split
  · exact ⟨before ++ [last], List.append_assoc _ _ _, by simp, each⟩
  · refine ⟨before ++ [last ++ "." ++ "js"], ?_, by simp, ?_⟩
    · rw [List.dropLast_concat, List.append_assoc]
    · intro name mem
      rcases List.mem_append.1 mem with old | new
      · exact each name (List.mem_append_left _ old)
      · rw [List.mem_singleton.1 new]
        exact (each last (List.mem_append_right _ List.mem_cons_self)).append_js

/-! ## Files -/

theorem Disk.mem_entries_of_entryAt {d : Disk} {place : List String} {content : ByteArray}
    (there : d.entryAt place = some (.file content)) : ∃ e ∈ d.entries, e.1 = place := by
  unfold entryAt at there
  split at there
  · cases there
  · obtain ⟨e, found, _⟩ := Option.map_eq_some_iff.1 there
    have same := List.find?_some found
    exact ⟨e, List.mem_of_find?_eq_some found, of_decide_eq_true same⟩

/-- The path of a file leads to what is stored there. -/
theorem Disk.exists_of_isFile {d : Disk} {path : String} (file : d.isFile path = true) :
    ∃ place content, d.locate path = .ok place ∧ d.entryAt place = some (.file content) := by
  unfold isFile at file
  split at file
  · rename_i content found
    unfold lookup? at found
    split at found
    · rename_i place led
      exact ⟨place, content, led, found⟩
    · cases found
  · cases file

/-- A path to a file leads to the place of an entry. -/
theorem Disk.exists_entry_of_isFile {d : Disk} {path : String} (file : d.isFile path = true) :
    ∃ e ∈ d.entries, e.1 = d.placeOf path := by
  obtain ⟨place, content, led, found⟩ := exists_of_isFile file
  obtain ⟨e, listed, same⟩ := mem_entries_of_entryAt found
  exact ⟨e, listed, same.trans (placeOf_of_locate led)⟩

namespace Resolver

/-- All paths that requests can resolve to on the disk, and some more. -/
def filePaths (disk : Disk) : List String :=
  (List.range (disk.workingDirectory.length + 1)).flatMap fun k =>
    let base := disk.workingDirectory.take k
    DiskPath.ofSegments (DiskPath.withExtension "js" base) ::
      disk.entries.flatMap fun e =>
        (List.range (e.1.length + 1)).map fun j => DiskPath.ofSegments (base ++ e.1.drop j)

/-- The place that an absolute path by names denotes ends with the names. -/
theorem exists_placeOf_eq (disk : Disk) (front : List String) {names : List String}
    (nonempty : names ≠ []) (each : ∀ name ∈ names, Path.IsName name) :
    ∃ before, disk.placeOf (DiskPath.ofSegments (front ++ names)) = before ++ names := by
  obtain ⟨before, read⟩ := Text.parts_unparts_append front nonempty
    fun name mem => (each name mem).2.2.2
  refine ⟨before.foldl Path.enter [], ?_⟩
  rw [Disk.placeOf, DiskPath.placeFrom_ofSegments, read, List.foldl_append,
    Path.foldl_enter_names each]

/-- **Requests resolve to finitely many paths.** -/
theorem mem_filePaths {disk : Disk} {cwd specifier path : String} {importer : Option String}
    (resolved : resolvePath disk cwd importer specifier = some path) : path ∈ filePaths disk := by
  unfold resolvePath at resolved
  dsimp only at resolved
  split at resolved
  · rename_i file
    cases resolved
    obtain ⟨k, within, names, joined, each⟩ : ∃ k ≤ disk.workingDirectory.length, ∃ names,
        joinedPlace disk cwd importer specifier = disk.workingDirectory.take k ++ names ∧
          ∀ name ∈ names, Path.IsName name := DiskPath.exists_placeFrom_eq _ _
    refine List.mem_flatMap.2 ⟨k, List.mem_range.2 (Nat.lt_succ_of_le within), ?_⟩
    rw [joined] at file ⊢
    by_cases none_left : names = []
    · rw [none_left, List.append_nil]
      exact List.mem_cons_self
    · obtain ⟨names', extended, nonempty, each'⟩ :=
        DiskPath.exists_withExtension_eq (disk.workingDirectory.take k) each none_left
      rw [extended] at file ⊢
      obtain ⟨e, listed, place⟩ := Disk.exists_entry_of_isFile file
      obtain ⟨before, ends⟩ :=
        exists_placeOf_eq disk (disk.workingDirectory.take k) nonempty each'
      refine List.mem_cons_of_mem _ (List.mem_flatMap.2 ⟨e, listed, ?_⟩)
      refine List.mem_map.2 ⟨before.length, List.mem_range.2 ?_, ?_⟩
      · rw [place, ends, List.length_append]
        omega
      · rw [place, ends, List.drop_left]
  · cases resolved

/-- What lies inside the bundle is the file that its request denotes. -/
theorem resolvePath_of_resolveOnDisk {σ : Type} {env : Environment σ} {request : ResolveRequest}
    {id : ModuleId} (found : resolveOnDisk env request = .ok (some id))
    (internal : id.isExternal = false) :
    resolvePath env.disk env.cwd (request.importer.map Request.clean) request.specifier =
      some id.id := by
  have external (specifier : String) : some id ≠ some ⟨specifier, true⟩ := by
    intro same
    cases same
    cases internal
  simp only [resolveOnDisk, bind, Except.bind, pure, Except.pure] at found
  split at found
  · exact absurd (Except.ok.inj found).symm (external _)
  · split at found
    · cases found
    · split at found
      · exact absurd (Except.ok.inj found).symm (external _)
      · split at found
        · cases found
        · rename_i path resolved
          split at found
          · cases found
          · cases found
            exact resolved

end Resolver

end WorkerBundler
