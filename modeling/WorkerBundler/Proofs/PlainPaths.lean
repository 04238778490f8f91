import WorkerBundler.Path.Disk

/-!
# Plain paths

A plain path goes down by each of its parts, so it leads from a directory to the place that lies
below it by these parts (`Path.follow_plain`), and different plain paths lead to different places. A
relative path after a base directory is followed from there (`DiskPath.placeFrom_join`).
-/

namespace WorkerBundler

namespace Text

theorem parts_append_sep (front rest : String) :
    parts '/' (front ++ "/" ++ rest) = parts '/' front ++ parts '/' rest := by
  have cut : (front ++ "/" ++ rest).toList = front.toList ++ '/' :: rest.toList := by
    rw [String.toList_append, String.toList_append, List.append_assoc]
    rfl
  rw [parts, cut, splitAll_append, List.map_append]
  rfl

/-- Where two texts meet, the last part of one and the first part of the other become one part. -/
theorem exists_splitAll_append (sep : Char) (front rest : List Char) :
    ∃ before last first behind, splitAll sep front = before ++ [last] ∧
      splitAll sep rest = first :: behind ∧
      splitAll sep (front ++ rest) = before ++ (last ++ first) :: behind := by
  induction front with
  | nil =>
    cases split : splitAll sep rest with
    | nil => exact absurd split (splitAll_ne_nil sep rest)
    | cons first behind => exact ⟨[], [], first, behind, rfl, rfl, split⟩
  | cons c front ih =>
    obtain ⟨before, last, first, behind, here, there, whole⟩ := ih
    rw [List.cons_append, splitAll, splitAll, here, whole]
    split
    · exact ⟨[] :: before, last, first, behind, rfl, there, rfl⟩
    · cases before with
      | nil => exact ⟨[], c :: last, first, behind, rfl, there, rfl⟩
      | cons part more => exact ⟨(c :: part) :: more, last, first, behind, rfl, there, rfl⟩

theorem exists_parts_append (front rest : String) :
    ∃ before last first behind, parts '/' front = before ++ [last] ∧
      parts '/' rest = first :: behind ∧
      parts '/' (front ++ rest) = before ++ (last ++ first) :: behind := by
  obtain ⟨before, last, first, behind, here, there, whole⟩ :=
    exists_splitAll_append '/' front.toList rest.toList
  refine ⟨before.map String.ofList, String.ofList last, String.ofList first,
    behind.map String.ofList, ?_, ?_, ?_⟩
  · rw [parts, here, List.map_append]
    rfl
  · rw [parts, there]
    rfl
  · rw [parts, String.toList_append, whole, List.map_append, List.map_cons, String.ofList_append]

/-- What is added to a path without a separator is added to its last part. -/
theorem parts_append_of_not_mem (path : String) {ending : String} (clean : '/' ∉ ending.toList) :
    ∃ before last, parts '/' path = before ++ [last] ∧
      parts '/' (path ++ ending) = before ++ [last ++ ending] := by
  obtain ⟨before, last, first, behind, here, there, whole⟩ := exists_parts_append path ending
  rw [parts, splitAll_of_not_mem clean, List.map_singleton, String.ofList_toList] at there
  obtain ⟨rfl, rfl⟩ := List.cons.inj there
  exact ⟨before, last, here, whole⟩

theorem parts_inj {path other : String} (same : parts '/' path = parts '/' other) :
    path = other := by
  have whole : ∀ s, unparts '/' (parts '/' s) = s := by
    intro s
    have back : String.toList ∘ String.ofList = id := funext fun cs => String.toList_ofList
    rw [unparts, parts, List.map_map, back, List.map_id, join_splitAll, String.ofList_toList]
  rw [← whole path, same, whole]

end Text

namespace Path

/-- The path is relative and goes down by each of its parts. -/
def IsPlain (path : String) : Prop :=
  ∀ part ∈ Text.parts '/' path, IsName part

instance (part : String) : Decidable (IsName part) :=
  inferInstanceAs (Decidable (_ ∧ _ ∧ _ ∧ _))

instance (path : String) : Decidable (IsPlain path) :=
  List.decidableBAll _ (Text.parts '/' path)

theorem IsPlain.append {path ending : String} (plain : IsPlain path)
    (clean : '/' ∉ ending.toList) (long : 2 ≤ ending.length) : IsPlain (path ++ ending) := by
  obtain ⟨before, last, here, there⟩ := Text.parts_append_of_not_mem path clean
  unfold IsPlain at plain ⊢
  rw [here] at plain
  rw [there]
  intro part mem
  rcases List.mem_append.1 mem with old | new
  · exact plain part (List.mem_append_left _ old)
  · obtain rfl := List.mem_singleton.1 new
    obtain ⟨nonempty, _, _, bare⟩ := plain last (List.mem_append_right _ List.mem_cons_self)
    have positive := Nat.pos_of_ne_zero fun empty => nonempty (String.length_eq_zero_iff.1 empty)
    have longer : 2 < (last ++ ending).length := by
      rw [String.length_append]
      omega
    refine ⟨?_, ?_, ?_, ?_⟩
    · intro same
      exact absurd (same ▸ longer) (by decide)
    · intro same
      exact absurd (same ▸ longer) (by decide)
    · intro same
      exact absurd (same ▸ longer) (by decide)
    · rw [String.toList_append, List.mem_append]
      exact not_or.2 ⟨bare, clean⟩

theorem follow_plain {path : String} (plain : IsPlain path) (place : List String) :
    follow place path = place ++ Text.parts '/' path :=
  foldl_enter_names plain place

/-- Different plain paths lead to different places. -/
theorem IsPlain.inj {path other : String} (plain : IsPlain path) (plain' : IsPlain other)
    {place : List String} (same : follow place path = follow place other) : path = other := by
  rw [follow_plain plain, follow_plain plain'] at same
  exact Text.parts_inj (List.append_cancel_left same)

theorem follow_append_slash (place : List String) (base path : String) :
    follow place (base ++ "/" ++ path) = follow (follow place base) path := by
  rw [follow, Text.parts_append_sep, List.foldl_append]
  rfl

theorem follow_empty (place : List String) : follow place "" = place := by
  have only : Text.parts '/' "" = [""] := by decide
  rw [follow, only, List.foldl_cons, List.foldl_nil, enter, if_pos (Or.inl rfl)]

theorem follow_slash (place : List String) (base : String) :
    follow place (base ++ "/") = follow place base := by
  have whole := follow_append_slash place base ""
  rwa [String.append_empty, follow_empty] at whole

end Path

namespace DiskPath

theorem isAbsolute_of_plain {path : String} (plain : Path.IsPlain path) :
    isAbsolute path = false := by
  rw [isAbsolute, decide_eq_false_iff_not]
  intro slash
  obtain ⟨rest, starts⟩ := List.head?_eq_some_iff.1 slash
  have first : "" ∈ Text.parts '/' path := by
    rw [Text.parts, starts, Text.splitAll, if_pos rfl, List.map_cons]
    exact List.mem_cons_self
  exact (plain "" first).1 rfl

theorem isAbsolute_append {base : String} (nonempty : base ≠ "") (path : String) :
    isAbsolute (base ++ path) = isAbsolute base := by
  cases chars : base.toList with
  | nil => exact absurd (String.toList_eq_nil_iff.1 chars) nonempty
  | cons c rest =>
    rw [isAbsolute, isAbsolute, String.toList_append, chars]
    rfl

theorem placeFrom_eq (start : List String) (path : String) :
    placeFrom start path = Path.follow (if isAbsolute path then [] else start) path := by
  unfold placeFrom
  split <;> rfl

theorem isAbsolute_ofSegments (place : List String) : isAbsolute (ofSegments place) = true := by
  rw [isAbsolute, ofSegments, String.toList_append]
  rfl

theorem parts_ofSegments (place : List String) :
    Text.parts '/' (ofSegments place) = "" :: Text.parts '/' (Text.unparts '/' place) := by
  have slash := Text.parts_append_sep "" (Text.unparts '/' place)
  rw [String.empty_append] at slash
  rw [ofSegments, slash]
  rfl

theorem placeFrom_ofSegments (start place : List String) :
    placeFrom start (ofSegments place) =
      (Text.parts '/' (Text.unparts '/' place)).foldl Path.enter [] := by
  rw [placeFrom_eq, isAbsolute_ofSegments, if_pos rfl, Path.follow, parts_ofSegments]
  rfl

/-- A relative path after a base directory is followed from there. -/
theorem placeFrom_join (start : List String) (base : String) {path : String}
    (relative : isAbsolute path = false) :
    placeFrom start (join base path) = Path.follow (placeFrom start base) path := by
  unfold join
  rw [if_neg (by rw [relative]; exact Bool.false_ne_true)]
  by_cases empty : base = ""
  · rw [if_pos (Or.inl empty), empty, String.empty_append, placeFrom_eq, placeFrom_eq, relative]
    exact congrArg (Path.follow · path) (Path.follow_empty start).symm
  · rw [placeFrom_eq start base]
    by_cases slashed : base.toList.getLast? = some '/'
    · obtain ⟨front, cut⟩ := List.getLast?_eq_some_iff.1 slashed
      obtain rfl : base = String.ofList front ++ "/" := by
        rw [← @String.ofList_toList base, cut, String.ofList_append]
      rw [if_pos (Or.inr slashed), placeFrom_eq, isAbsolute_append empty, Path.follow_append_slash,
        Path.follow_slash]
    · rw [if_neg (not_or.2 ⟨empty, slashed⟩), placeFrom_eq, String.append_assoc,
        isAbsolute_append empty, ← String.append_assoc, Path.follow_append_slash]

end DiskPath

end WorkerBundler
