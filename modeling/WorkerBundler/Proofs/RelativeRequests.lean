import WorkerBundler.Proofs.OutputRequests
import WorkerBundler.Proofs.ResolvedPaths

/-!
# Relative requests

A relative request of a module is followed from the directory of its id, once the query and the
fragment are cut off the id (`base`). If there is a file where it leads, with the extension added,
the request resolves to that file, and to nothing otherwise (`fileFrom`).

The id of a module that was read from a file is a path, and what is cut off may then be a part of
it. No harm is done if the name of the file is all that is cut, and is not cut down to what names
nothing (`KeepsDirectory`): then the base is the directory that holds the file (`base_eq`). If the
path of the directory holds a question mark or a hash, or the name begins with one, the base of a
canonical path is a directory further up, or that of the build (`base_of_not_keeps`).
-/

namespace WorkerBundler

/-! ## The last name of the path of a file -/

namespace Disk

variable {d : Disk} {place goal parts more before : List String} {path last : String}

/-- All places above that to which a path leads are directories. -/
theorem directories_of_walk
    (above : ∀ k < place.length, d.entryAt (place.take k) = some .directory)
    (led : d.walk place parts = .ok goal) :
    ∀ k < goal.length, d.entryAt (goal.take k) = some .directory := by
  induction parts generalizing place with
  | nil =>
    cases led
    exact above
  | cons part rest ih =>
    obtain ⟨directory, -, led⟩ := walk_cons_eq_ok_iff.1 led
    refine ih ?_ led
    intro k within
    rw [Path.enter] at within ⊢
    split at within
    · rename_i idle
      rw [if_pos idle]
      exact above k within
    · rename_i some
      rw [if_neg some]
      split at within
      · rename_i up
        rw [List.length_dropLast] at within
        rw [if_pos up, List.dropLast_eq_take, List.take_take, Nat.min_eq_left (by omega)]
        exact above k (by omega)
      · rename_i down
        rw [List.length_append, List.length_singleton] at within
        rw [if_neg down, List.take_append_of_le_length (by omega)]
        rcases Nat.lt_or_eq_of_le (Nat.le_of_lt_succ within) with shorter | whole
        · exact above k shorter
        · rw [whole, List.take_length]
          exact directory

theorem exists_of_walk_append (led : d.walk place (parts ++ more) = .ok goal) :
    ∃ middle, d.walk place parts = .ok middle ∧ d.walk middle more = .ok goal := by
  induction parts generalizing place with
  | nil => exact ⟨place, rfl, led⟩
  | cons part rest ih =>
    obtain ⟨directory, down, led⟩ := walk_cons_eq_ok_iff.1 led
    obtain ⟨middle, first, second⟩ := ih led
    exact ⟨middle, walk_cons_eq_ok_iff.2 ⟨directory, down, first⟩, second⟩

/-- The path of a file ends in its name. -/
theorem isName_of_isFile (absolute : DiskPath.isAbsolute path = true) (file : d.isFile path = true)
    (cut : Text.parts '/' path = before ++ [last]) : Path.IsName last := by
  have whole : '/' ∉ last.toList :=
    Text.not_mem_of_mem_parts (cut ▸ List.mem_append_right before List.mem_cons_self)
  obtain ⟨goal, content, located, found⟩ := exists_of_isFile file
  obtain ⟨-, -, led⟩ := exists_of_bind_ok located
  rw [startOf, if_pos absolute, cut] at led
  obtain ⟨middle, first, second⟩ := exists_of_walk_append led
  have above : ∀ k < middle.length, d.entryAt (middle.take k) = some .directory := by
    refine directories_of_walk ?_ first
    exact fun k within => absurd within (Nat.not_lt_zero k)
  obtain ⟨directory, -, second⟩ := walk_cons_eq_ok_iff.1 second
  obtain rfl : Path.enter middle last = goal := Except.ok.inj second
  -- all other parts lead to a directory
  refine ⟨?_, ?_, ?_, whole⟩
  · rintro rfl
    rw [Path.enter, if_pos (Or.inl rfl), directory] at found
    cases found
  · rintro rfl
    rw [Path.enter, if_pos (Or.inr rfl), directory] at found
    cases found
  · rintro rfl
    have upper : d.entryAt middle.dropLast = some .directory := by
      rcases Nat.eq_zero_or_pos middle.length with none_left | some_left
      · rw [List.length_eq_zero_iff.1 none_left]
        rfl
      · rw [List.dropLast_eq_take]
        exact above _ (by omega)
    rw [Path.enter_up, upper] at found
    cases found

end Disk

/-! ## The directory of a path -/

namespace DiskPath

theorem foldl_enter_trimParts (place parts : List String) :
    (trimParts parts).foldl Path.enter place = parts.foldl Path.enter place := by
  cases parts with
  | nil => rfl
  | cons first rest =>
    rw [trimParts, List.foldl_cons, List.foldl_cons]
    induction rest using List.reverseRecOn with
    | nil => rfl
    | append_singleton rest part ih =>
      rw [List.reverse_append, List.reverse_singleton, List.singleton_append]
      cases idle : isIdle part with
      | true =>
        have stays (place : List String) : Path.enter place part = place :=
          if_pos (by simpa [isIdle] using idle)
        rw [List.dropWhile_cons_of_pos idle, ih, List.foldl_append, List.foldl_cons, List.foldl_nil,
          stays]
      | false =>
        rw [List.dropWhile_cons_of_neg (by simp [idle]), List.reverse_cons, List.reverse_reverse]

theorem trimParts_concat (first : String) (rest : List String) {last : String}
    (solid : isIdle last = false) :
    trimParts (first :: rest ++ [last]) = first :: rest ++ [last] := by
  rw [List.cons_append, trimParts, List.reverse_append, List.reverse_singleton,
    List.singleton_append, List.dropWhile_cons_of_neg (by simp [solid]), List.reverse_cons,
    List.reverse_reverse]

theorem trimParts_concat_idle (first : String) (rest : List String) {last : String}
    (idle : isIdle last = true) :
    trimParts (first :: rest ++ [last]) = trimParts (first :: rest) := by
  rw [List.cons_append, trimParts, trimParts, List.reverse_append, List.reverse_singleton,
    List.singleton_append, List.dropWhile_cons_of_pos idle]

theorem isIdle_of_isName {name : String} (isName : Path.IsName name) : isIdle name = false := by
  simp [isIdle, isName.1, isName.2.1]

theorem exists_parts_of_isAbsolute {path : String} (absolute : isAbsolute path = true) :
    ∃ rest, Text.parts '/' path = "" :: rest ∧ rest ≠ [] := by
  rw [isAbsolute, decide_eq_true_iff] at absolute
  obtain ⟨tail, chars⟩ := List.head?_eq_some_iff.1 absolute
  refine ⟨(Text.splitAll '/' tail).map String.ofList, ?_, ?_⟩
  · rw [Text.parts, chars, Text.splitAll, if_pos rfl]
    rfl
  · rw [ne_eq, List.map_eq_nil_iff]
    exact Text.splitAll_ne_nil '/' tail

/-- Joined parts of which the first one is empty are followed from the root. -/
theorem placeFrom_unparts (start : List String) {rest : List String} (nonempty : rest ≠ [])
    (clean : ∀ part ∈ rest, '/' ∉ part.toList) :
    placeFrom start (Text.unparts '/' ("" :: rest)) = rest.foldl Path.enter [] := by
  have text : Text.unparts '/' ("" :: rest) = ofSegments rest := by
    rw [← String.toList_inj, Text.unparts, ofSegments, Text.unparts, List.map_cons,
      Text.join_cons_of_ne_nil '/' _ (by simpa using nonempty)]
    simp
  rw [text, placeFrom_ofSegments, Text.parts_unparts nonempty clean]

theorem parent?_of_trimParts {path part : String} {rest : List String}
    (cut : trimParts (Text.parts '/' path) = "" :: rest ++ [part]) :
    parent? path = some (if trimParts ("" :: rest) = [""] then "/"
      else Text.unparts '/' (trimParts ("" :: rest))) := by
  have front : ("" :: rest ++ [part]).dropLast = "" :: rest := List.dropLast_concat
  rw [parent?, cut]
  cases rest with
  | nil => rfl
  | cons next more =>
    rw [List.cons_append, List.cons_append] at front ⊢
    dsimp only
    rw [front]
    split
    · rename_i only
      rw [if_pos only]
    · rename_i other
      rw [if_neg other]

/-- The parent of an absolute path is what stands in front of its last part that is not idle. -/
theorem exists_parent_of_trimParts {path part : String} {rest : List String}
    (cut : trimParts (Text.parts '/' path) = "" :: rest ++ [part])
    (clean : ∀ p ∈ rest, '/' ∉ p.toList) :
    ∃ parent, parent? path = some parent ∧
      ∀ start, placeFrom start parent = rest.foldl Path.enter [] := by
  have parent := parent?_of_trimParts cut
  have leads := foldl_enter_trimParts [] ("" :: rest)
  have clean' : ∀ p ∈ (rest.reverse.dropWhile isIdle).reverse, '/' ∉ p.toList := by
    intro p mem
    have kept := (List.dropWhile_sublist isIdle).subset (List.mem_reverse.1 mem)
    exact clean p (List.mem_reverse.1 kept)
  rw [trimParts] at parent leads
  rw [parent]
  generalize (rest.reverse.dropWhile isIdle).reverse = trimmed at clean' leads ⊢
  have leads : trimmed.foldl Path.enter [] = rest.foldl Path.enter [] := leads
  rw [← leads]
  cases trimmed with
  | nil => exact ⟨"/", rfl, fun start => rfl⟩
  | cons next more =>
    exact ⟨_, rfl, fun start => placeFrom_unparts start (List.cons_ne_nil next more) clean'⟩

end DiskPath

/-! ## What is cut off an id -/

namespace Request

/-- Of the path of a file the query and the fragment, if it seems to have any, are a part of its
name, and what is left of the name is one. -/
def KeepsDirectory (id : String) : Prop :=
  ∃ dir name, id = dir ++ "/" ++ name ∧ '/' ∉ name.toList ∧
    (∀ c ∈ dir.toList, c ≠ '?' ∧ c ≠ '#') ∧ DiskPath.isIdle (clean name) = false

theorem clean_append_of_kept {front : String} (kept : ∀ c ∈ front.toList, c ≠ '?' ∧ c ≠ '#')
    (rest : String) : clean (front ++ rest) = front ++ clean rest := by
  have each : ∀ c ∈ front.toList, decide (c ≠ '?' ∧ c ≠ '#') = true :=
    fun c mem => decide_eq_true (kept c mem)
  rw [clean, clean, String.toList_append, List.takeWhile_append_of_pos each, String.ofList_append,
    String.ofList_toList]

theorem kept_of_mem_clean {c : Char} {id : String} (mem : c ∈ (clean id).toList) :
    c ≠ '?' ∧ c ≠ '#' := by
  rw [clean, String.toList_ofList] at mem
  exact of_decide_eq_true (List.all_eq_true.1 List.all_takeWhile c mem)

theorem exists_eq_clean_append (id : String) : ∃ tail, id = clean id ++ tail := by
  obtain ⟨tail, split⟩ := List.takeWhile_prefix (l := id.toList) fun c => c ≠ '?' ∧ c ≠ '#'
  refine ⟨String.ofList tail, ?_⟩
  rw [clean, ← String.ofList_append, split, String.ofList_toList]

theorem isAbsolute_clean {id : String} (absolute : DiskPath.isAbsolute id = true) :
    DiskPath.isAbsolute (clean id) = true := by
  rw [DiskPath.isAbsolute, decide_eq_true_iff] at absolute ⊢
  obtain ⟨tail, chars⟩ := List.head?_eq_some_iff.1 absolute
  rw [clean, String.toList_ofList, chars, List.takeWhile_cons_of_pos (by decide)]
  rfl

theorem not_mem_clean {c : Char} {id : String} (none : c ∉ id.toList) : c ∉ (clean id).toList := by
  rw [clean, String.toList_ofList]
  exact fun mem => none ((List.takeWhile_sublist _).subset mem)

/-- An id keeps its directory if just its last part is cut. -/
theorem keepsDirectory_of_parts {id last rest : String} {front : List String}
    (cleaned : Text.parts '/' (clean id) = "" :: front ++ [last])
    (whole : Text.parts '/' id = "" :: front ++ [last ++ rest])
    (solid : DiskPath.isIdle last = false) : KeepsDirectory id := by
  have joined {path part : String} (cut : Text.parts '/' path = "" :: front ++ [part]) :
      path = Text.unparts '/' ("" :: front) ++ "/" ++ part ∧ '/' ∉ part.toList := by
    have clean : ∀ p ∈ "" :: front ++ [part], '/' ∉ p.toList :=
      fun p mem => Text.not_mem_of_mem_parts (cut ▸ mem)
    obtain ⟨inFront, inPart⟩ := List.forall_mem_append.1 clean
    have own := inPart part List.mem_cons_self
    refine ⟨Text.parts_inj ?_, own⟩
    rw [cut, Text.parts_append_sep, Text.parts_unparts (List.cons_ne_nil "" front) inFront,
      Text.parts_of_not_mem own]
  obtain ⟨text, bare⟩ := joined whole
  have text' := (joined cleaned).1
  generalize Text.unparts '/' ("" :: front) = dir at text text'
  have kept : ∀ c ∈ (dir ++ "/").toList, c ≠ '?' ∧ c ≠ '#' := by
    intro c mem
    have kept : c ∈ (clean id).toList := by
      rw [text', String.toList_append]
      exact List.mem_append_left _ mem
    exact kept_of_mem_clean kept
  have same : clean (last ++ rest) = last := by
    have cut := clean_append_of_kept kept (last ++ rest)
    rw [← text, text', ← String.toList_inj, @String.toList_append (dir ++ "/"),
      @String.toList_append (dir ++ "/")] at cut
    rw [← String.toList_inj]
    exact (List.append_cancel_left cut).symm
  refine ⟨dir, last ++ rest, text, bare, fun c mem => kept c ?_, by rw [same, solid]⟩
  rw [String.toList_append]
  exact List.mem_append_left _ mem

end Request

/-! ## Relative requests -/

namespace Resolver

variable {σ : Type} {env : Environment σ} {importer specifier : String}

/-- The directory that the relative requests of a module are followed from. -/
def base (env : Environment σ) (importer : String) : List String :=
  DiskPath.placeFrom env.disk.workingDirectory
    ((DiskPath.parent? (Request.clean importer)).getD env.cwd)

/-- The file to which a request leads from a directory. -/
def fileFrom (disk : Disk) (directory : List String) (specifier : String) : Option String :=
  let path := DiskPath.ofSegments
    (DiskPath.withExtension "js" (Path.follow directory specifier))
  if disk.isFile path then some path else none

theorem base_of_trimParts {part : String} {rest : List String}
    (cut : DiskPath.trimParts (Text.parts '/' (Request.clean importer)) = "" :: rest ++ [part])
    (clean : ∀ p ∈ rest, '/' ∉ p.toList) : base env importer = rest.foldl Path.enter [] := by
  obtain ⟨parent, found, denotes⟩ := DiskPath.exists_parent_of_trimParts cut clean
  rw [base, found, Option.getD_some, denotes]

/-- The base of a file is the directory that holds it, unless too much is cut off its path. -/
theorem base_eq (absolute : DiskPath.isAbsolute importer = true)
    (file : env.disk.isFile importer = true) (keeps : Request.KeepsDirectory importer) :
    base env importer = (env.disk.placeOf importer).dropLast := by
  obtain ⟨dir, name, rfl, whole, kept, solid⟩ := keeps
  have parts {part : String} (whole : '/' ∉ part.toList) :
      Text.parts '/' (dir ++ "/" ++ part) = Text.parts '/' dir ++ [part] := by
    rw [Text.parts_append_sep, Text.parts_of_not_mem whole]
  have isName := Disk.isName_of_isFile absolute file (parts whole)
  have cleaned : Request.clean (dir ++ "/" ++ name) = dir ++ "/" ++ Request.clean name := by
    refine Request.clean_append_of_kept ?_ name
    rw [String.toList_append]
    exact List.forall_mem_append.2 ⟨kept, by simp⟩
  obtain ⟨rest, first⟩ : ∃ rest, Text.parts '/' dir = "" :: rest := by
    obtain ⟨rest, first, some_left⟩ := DiskPath.exists_parts_of_isAbsolute absolute
    rw [parts whole] at first
    rcases List.append_eq_cons_iff.1 first with ⟨-, only⟩ | ⟨others, front, -⟩
    · exact absurd (List.cons.inj only).2.symm some_left
    · exact ⟨others, front⟩
  have trimmed := parts (Request.not_mem_clean whole)
  rw [first] at trimmed
  have clean : ∀ p ∈ rest, '/' ∉ p.toList := fun p mem =>
    Text.not_mem_of_mem_parts (first ▸ List.mem_cons_of_mem "" mem)
  rw [base_of_trimParts (by rw [cleaned, trimmed, DiskPath.trimParts_concat "" rest solid]) clean,
    Disk.placeOf, DiskPath.placeFrom, if_pos absolute, Path.segments, Path.follow_append_slash,
    Path.follow_name isName, List.dropLast_concat, Path.follow, first]
  rfl

/-- Of a canonical path the query and the fragment begin within one of its names. -/
theorem exists_parts_clean {names : List String} (spells : DiskPath.Spells importer names) :
    ∃ front last first behind, names = front ++ (last ++ first) :: behind ∧
      Text.parts '/' (Request.clean importer) = "" :: front ++ [last] := by
  obtain ⟨tail, split⟩ := Request.exists_eq_clean_append importer
  obtain ⟨before, last, first, behind, here, -, whole⟩ :=
    Text.exists_parts_append (Request.clean importer) tail
  rw [← split, spells.parts] at whole
  obtain ⟨rest, cleaned, some_left⟩ :=
    DiskPath.exists_parts_of_isAbsolute (Request.isAbsolute_clean spells.isAbsolute)
  obtain ⟨front, rfl⟩ : ∃ front, before = "" :: front := by
    rw [here] at cleaned
    rcases List.append_eq_cons_iff.1 cleaned with ⟨-, only⟩ | ⟨front, split, -⟩
    · exact absurd (List.cons.inj only).2.symm some_left
    · exact ⟨front, split⟩
  exact ⟨front, last, first, behind, (List.cons.inj whole).2, here⟩

theorem base_of_names {names : List String} {part : String}
    (cut : DiskPath.trimParts (Text.parts '/' (Request.clean importer)) = "" :: names ++ [part])
    (each : ∀ name ∈ names, Path.IsName name) : base env importer = names := by
  rw [base_of_trimParts cut fun p mem => (each p mem).2.2.2, Path.foldl_enter_names each]
  rfl

/-- Where too much is cut off the path of a file, the base is shorter than the directory that holds
the file, if it is not the directory of the build. -/
theorem base_of_not_keeps {names : List String} (spells : DiskPath.Spells importer names)
    (loses : ¬Request.KeepsDirectory importer) :
    base env importer = env.disk.placeOf env.cwd ∨
      (base env importer).length + 1 < names.length := by
  obtain ⟨front, last, first, behind, rfl, here⟩ := exists_parts_clean spells
  obtain ⟨each, -⟩ := List.forall_mem_append.1 spells.each
  cases idle : DiskPath.isIdle last with
  | true =>
    -- the name is cut down to nothing, and the parent is that of the directory in front
    have trimmed := DiskPath.trimParts_concat_idle "" front idle
    rcases List.eq_nil_or_concat front with rfl | ⟨above, name, rfl⟩
    · left
      have rootless : DiskPath.parent? (Request.clean importer) = none := by
        rw [DiskPath.parent?, here, trimmed]
        rfl
      rw [base, rootless]
      rfl
    · right
      rw [List.concat_eq_append] at each here trimmed ⊢
      obtain ⟨each, own⟩ := List.forall_mem_append.1 each
      have solid := DiskPath.isIdle_of_isName (own name List.mem_cons_self)
      have cut : DiskPath.trimParts (Text.parts '/' (Request.clean importer)) =
          "" :: above ++ [name] := by
        rw [here, trimmed]
        exact DiskPath.trimParts_concat "" above solid
      rw [base_of_names cut each]
      simp
  | false =>
    right
    have cut : DiskPath.trimParts (Text.parts '/' (Request.clean importer)) =
        "" :: front ++ [last] := by
      rw [here, DiskPath.trimParts_concat "" front idle]
    rw [base_of_names cut each]
    cases behind with
    | nil => exact absurd (Request.keepsDirectory_of_parts here spells.parts idle) loses
    | cons next behind => simp

theorem resolvePath_of_relative (relative : DiskPath.isAbsolute specifier = false) :
    resolvePath env.disk env.cwd (some (Request.clean importer)) specifier =
      fileFrom env.disk (base env importer) specifier := by
  have joined : joinedPlace env.disk env.cwd (some (Request.clean importer)) specifier =
      Path.follow (base env importer) specifier := DiskPath.placeFrom_join _ _ relative
  rw [resolvePath, joined, fileFrom]

theorem relative_of_isMarked (marked : OutputPath.isMarked specifier = true) :
    DiskPath.isAbsolute specifier = false ∧ isBare specifier = false := by
  have dotted : specifier.toList.head? = some '.' := by
    unfold OutputPath.isMarked at marked
    split at marked
    · rename_i chars
      rw [chars]
      rfl
    · rename_i chars
      rw [chars]
      rfl
    · cases marked
  constructor
  · rw [DiskPath.isAbsolute, dotted]
    rfl
  · rw [isBare, dotted]
    simp

/-- **A relative request resolves to the file to which it leads from the base of its module**, and
to nothing if there is no such file. The base is the directory of the module, unless too much is cut
off its path. -/
theorem relative_of_resolve {session after : Session σ}
    (absolute : DiskPath.isAbsolute importer = true) (file : env.disk.isFile importer = true)
    (marked : OutputPath.isMarked specifier = true)
    (unanswered : (Plugin.firstAnswer (·.resolveId ⟨specifier, some importer⟩) env.plugins).run
      session = (.ok none, after))
    (internal : env.externalTest specifier (some importer) false = .ok false)
    (internal' : ∀ path, env.externalTest path (some importer) true = .ok false) :
    (resolve env ⟨specifier, some importer⟩).run session =
        (.ok ((fileFrom env.disk (base env importer) specifier).map (⟨·, false⟩)), after) ∧
      (Request.KeepsDirectory importer →
        base env importer = (env.disk.placeOf importer).dropLast) ∧
      ∀ names, DiskPath.Spells importer names → ¬Request.KeepsDirectory importer →
        base env importer = env.disk.placeOf env.cwd ∨
          (base env importer).length + 1 < names.length := by
  refine ⟨?_, base_eq absolute file, fun names => base_of_not_keeps⟩
  obtain ⟨relative, package⟩ := relative_of_isMarked marked
  have onDisk : resolveOnDisk env ⟨specifier, some importer⟩ =
      .ok ((fileFrom env.disk (base env importer) specifier).map (⟨·, false⟩)) := by
    rw [resolveOnDisk]
    simp only [package, Bool.and_false, Bool.false_eq_true, if_false, internal, bind, Except.bind,
      Option.map_some, resolvePath_of_relative relative]
    cases fileFrom env.disk (base env importer) specifier with
    | none => rfl
    | some path =>
      simp only [internal', pure, Except.pure]
      rfl
  rw [← onDisk]
  exact Hook.run_bind_ok unanswered _

/-- Two directories, each of them with two modules; the path of one directory holds a hash. -/
def hashedEnvironment : Environment Unit where
  disk :=
    { entries := [
        (["lib"], .directory),
        (["lib", "main.js"], .file "import './dep';".toUTF8),
        (["lib", "dep.js"], .file "dep();".toUTF8),
        (["a#b"], .directory),
        (["a#b", "main.js"], .file "import './dep';".toUTF8),
        (["a#b", "dep.js"], .file "dep();".toUTF8)]
      workingDirectory := [] }
  cwd := "/"
  plugins := []
  externalTest _ _ _ := .ok false

/-- The module in the one directory reaches its neighbour, and the one in the other directory does
not. -/
theorem relative_hashedEnvironment :
    (resolve hashedEnvironment ⟨"./dep", some "/lib/main.js"⟩).run ⟨.empty, ()⟩ =
        (.ok (some ⟨"/lib/dep.js", false⟩), ⟨.empty, ()⟩) ∧
      base hashedEnvironment "/lib/main.js" = ["lib"] ∧
      hashedEnvironment.disk.isFile "/a#b/dep.js" = true ∧
      (resolve hashedEnvironment ⟨"./dep", some "/a#b/main.js"⟩).run ⟨.empty, ()⟩ =
        (.ok none, ⟨.empty, ()⟩) := by
  have law (importer : String) (absolute : DiskPath.isAbsolute importer = true)
      (file : hashedEnvironment.disk.isFile importer = true) :=
    @relative_of_resolve Unit hashedEnvironment importer "./dep" ⟨.empty, ()⟩ ⟨.empty, ()⟩ absolute
      file (by decide) rfl rfl fun _ => rfl
  have keeps : Request.KeepsDirectory "/lib/main.js" :=
    ⟨"/lib", "main.js", by decide, by decide, by simp, by decide⟩
  obtain ⟨plain, own, -⟩ := law "/lib/main.js" (by decide) (by decide)
  obtain ⟨hashed, -, -⟩ := law "/a#b/main.js" (by decide) (by decide)
  refine ⟨plain.trans ?_, (own keeps).trans (by decide), by decide, hashed.trans ?_⟩
  · have found : fileFrom hashedEnvironment.disk (base hashedEnvironment "/lib/main.js") "./dep" =
        some "/lib/dep.js" := by
      decide
    rw [found]
    rfl
  · have missing : fileFrom hashedEnvironment.disk (base hashedEnvironment "/a#b/main.js") "./dep" =
        none := by
      decide
    rw [missing]
    rfl

end Resolver

end WorkerBundler
