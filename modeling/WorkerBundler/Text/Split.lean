/-!
# Cutting a text at a separator

`splitAll sep` gives the parts between all separators, always at least one; `cutFirst sep` cuts at
the first separator and drops it, `cutLast sep` at the last; `trimEnd c` drops the copies of `c` at
the end. Joining the parts with the separator gives the text back (`join_splitAll`), and cutting
what was joined gives the parts back (`splitAll_join`). `parts` and `unparts` are the two on
strings.
-/

namespace WorkerBundler.Text

/-- The parts of the text between the separators. -/
def splitAll (sep : Char) : List Char → List (List Char)
  | [] => [[]]
  | c :: rest =>
    if c = sep then [] :: splitAll sep rest
    else
      match splitAll sep rest with
      | [] => [[c]]
      | part :: parts => (c :: part) :: parts

/-- The text before the first separator and the text after it, if there is one. -/
def cutFirst (sep : Char) : List Char → Option (List Char × List Char)
  | [] => none
  | c :: rest =>
    if c = sep then some ([], rest)
    else (cutFirst sep rest).map fun (before, after) => (c :: before, after)

/-- The text before the last separator and the text after it, if there is one. -/
def cutLast (sep : Char) : List Char → Option (List Char × List Char)
  | [] => none
  | c :: rest =>
    match cutLast sep rest with
    | some (before, after) => some (c :: before, after)
    | none => if c = sep then some ([], rest) else none

/-- The text without the copies of `c` at its end. -/
def trimEnd (c : Char) (cs : List Char) : List Char :=
  (cs.reverse.dropWhile (· == c)).reverse

/-- The parts joined by the separator. -/
def join (sep : Char) : List (List Char) → List Char
  | [] => []
  | [part] => part
  | part :: parts => part ++ sep :: join sep parts

/-- The parts of a string between the separators. -/
def parts (sep : Char) (s : String) : List String :=
  (splitAll sep s.toList).map String.ofList

/-- The strings joined by the separator. -/
def unparts (sep : Char) (names : List String) : String :=
  String.ofList (join sep (names.map String.toList))

theorem splitAll_ne_nil (sep : Char) (cs : List Char) : splitAll sep cs ≠ [] := by
  cases cs with
  | nil => simp [splitAll]
  | cons c rest =>
    rw [splitAll]
    split
    · simp
    · split <;> simp

theorem join_cons_of_ne_nil (sep : Char) (part : List Char) {parts : List (List Char)}
    (h : parts ≠ []) : join sep (part :: parts) = part ++ sep :: join sep parts := by
  cases parts with
  | nil => exact absurd rfl h
  | cons p ps => rfl

/-- Cutting at the separators and joining again changes nothing. -/
theorem join_splitAll (sep : Char) (cs : List Char) : join sep (splitAll sep cs) = cs := by
  induction cs with
  | nil => rfl
  | cons c rest ih =>
    rw [splitAll]
    split
    · rename_i h
      rw [join_cons_of_ne_nil sep [] (splitAll_ne_nil sep rest), ih, h]
      rfl
    · split
      · rename_i h
        exact absurd h (splitAll_ne_nil sep rest)
      · rename_i part parts h
        rw [h] at ih
        cases parts with
        | nil => simpa [join] using ih
        | cons p ps => simpa [join] using ih

theorem splitAll_of_not_mem {sep : Char} {cs : List Char} (h : sep ∉ cs) :
    splitAll sep cs = [cs] := by
  induction cs with
  | nil => rfl
  | cons c cs ih =>
    rw [List.mem_cons, not_or] at h
    rw [splitAll, if_neg (Ne.symm h.1), ih h.2]

theorem splitAll_append_sep {sep : Char} {part : List Char} (h : sep ∉ part) (rest : List Char) :
    splitAll sep (part ++ sep :: rest) = part :: splitAll sep rest := by
  induction part with
  | nil => rw [List.nil_append, splitAll, if_pos rfl]
  | cons c part ih =>
    rw [List.mem_cons, not_or] at h
    rw [List.cons_append, splitAll, if_neg (Ne.symm h.1), ih h.2]

/-- A text is cut at a separator within it and on both sides of it. -/
theorem splitAll_append (sep : Char) (front rest : List Char) :
    splitAll sep (front ++ sep :: rest) = splitAll sep front ++ splitAll sep rest := by
  induction front with
  | nil => simp [splitAll]
  | cons c front ih =>
    rw [List.cons_append, splitAll, splitAll, ih]
    split
    · rfl
    · cases parts : splitAll sep front with
      | nil => exact absurd parts (splitAll_ne_nil sep front)
      | cons part parts => rfl

/-- Joining parts without the separator and cutting again changes nothing. -/
theorem splitAll_join {sep : Char} {parts : List (List Char)} (nonempty : parts ≠ [])
    (clean : ∀ part ∈ parts, sep ∉ part) : splitAll sep (join sep parts) = parts := by
  induction parts with
  | nil => exact absurd rfl nonempty
  | cons part parts ih =>
    have first : sep ∉ part := clean part List.mem_cons_self
    cases parts with
    | nil => exact splitAll_of_not_mem first
    | cons next more =>
      rw [join_cons_of_ne_nil sep part (List.cons_ne_nil next more), splitAll_append_sep first]
      rw [ih (List.cons_ne_nil next more) fun p h => clean p (List.mem_cons_of_mem part h)]

theorem not_mem_of_mem_splitAll {sep : Char} {cs part : List Char} (h : part ∈ splitAll sep cs) :
    sep ∉ part := by
  induction cs generalizing part with
  | nil => simp [splitAll] at h; simp [h]
  | cons c cs ih =>
    rw [splitAll] at h
    split at h
    · rcases List.mem_cons.1 h with rfl | later
      · exact List.not_mem_nil
      · exact ih later
    · rename_i differs
      split at h
      · rename_i empty
        exact absurd empty (splitAll_ne_nil sep cs)
      · rename_i p ps eq
        rw [eq] at ih
        rcases List.mem_cons.1 h with rfl | later
        · rw [List.mem_cons, not_or]
          exact ⟨Ne.symm differs, ih List.mem_cons_self⟩
        · exact ih (List.mem_cons_of_mem p later)

theorem parts_unparts {sep : Char} {names : List String} (nonempty : names ≠ [])
    (clean : ∀ name ∈ names, sep ∉ name.toList) : parts sep (unparts sep names) = names := by
  rw [parts, unparts, String.toList_ofList, splitAll_join]
  · rw [List.map_map]
    simp [Function.comp_def]
  · simpa using nonempty
  · intro part h
    obtain ⟨name, mem, rfl⟩ := List.mem_map.1 h
    exact clean name mem

theorem not_mem_of_mem_parts {sep : Char} {s name : String} (h : name ∈ parts sep s) :
    sep ∉ name.toList := by
  obtain ⟨part, mem, rfl⟩ := List.mem_map.1 h
  rw [String.toList_ofList]
  exact not_mem_of_mem_splitAll mem

theorem cutFirst_eq_some {sep : Char} {cs before rest : List Char}
    (h : cutFirst sep cs = some (before, rest)) : cs = before ++ sep :: rest ∧ sep ∉ before := by
  induction cs generalizing before with
  | nil => simp [cutFirst] at h
  | cons c cs ih =>
    rw [cutFirst] at h
    split at h
    · rename_i hc
      obtain ⟨rfl, rfl⟩ := Prod.mk.inj (Option.some.inj h)
      exact ⟨by rw [hc]; rfl, List.not_mem_nil⟩
    · rename_i hc
      obtain ⟨⟨b, a⟩, hb, he⟩ := Option.map_eq_some_iff.1 h
      obtain ⟨rfl, rfl⟩ := Prod.mk.inj he
      obtain ⟨rfl, hn⟩ := ih hb
      exact ⟨rfl, by simp [hn, Ne.symm hc]⟩

/-- Text behind the first separator does not move it. -/
theorem cutFirst_append {sep : Char} {cs before rest : List Char}
    (h : cutFirst sep cs = some (before, rest)) (more : List Char) :
    cutFirst sep (cs ++ more) = some (before, rest ++ more) := by
  induction cs generalizing before with
  | nil => cases h
  | cons c cs ih =>
    rw [cutFirst] at h
    rw [List.cons_append, cutFirst]
    split at h
    · rename_i here
      obtain ⟨rfl, rfl⟩ := Prod.mk.inj (Option.some.inj h)
      rw [if_pos here]
    · rename_i later
      obtain ⟨⟨b, a⟩, found, same⟩ := Option.map_eq_some_iff.1 h
      obtain ⟨rfl, rfl⟩ := Prod.mk.inj same
      rw [if_neg later, ih found]
      rfl

theorem cutFirst_eq_none {sep : Char} {cs : List Char} (h : sep ∉ cs) : cutFirst sep cs = none := by
  induction cs with
  | nil => rfl
  | cons c cs ih =>
    rw [List.mem_cons, not_or] at h
    rw [cutFirst, if_neg (Ne.symm h.1), ih h.2]
    rfl

theorem cutLast_eq_none {sep : Char} {cs : List Char} (h : sep ∉ cs) :
    cutLast sep cs = none := by
  induction cs with
  | nil => rfl
  | cons c cs ih =>
    rw [List.mem_cons, not_or] at h
    rw [cutLast, ih h.2]
    exact if_neg (Ne.symm h.1)

theorem cutLast_append {sep : Char} {field : List Char} (one : sep ∉ field)
    (before : List Char) : cutLast sep (before ++ sep :: field) = some (before, field) := by
  induction before with
  | nil =>
    rw [List.nil_append, cutLast, cutLast_eq_none one]
    exact if_pos rfl
  | cons c before ih => rw [List.cons_append, cutLast, ih]

/-- The cut is at the last separator, if there is one. -/
theorem cutLast_cases (sep : Char) (cs : List Char) :
    (cutLast sep cs = none ∧ sep ∉ cs) ∨
      ∃ before field, cutLast sep cs = some (before, field) ∧ cs = before ++ sep :: field ∧
        sep ∉ field := by
  induction cs with
  | nil => exact Or.inl ⟨rfl, List.not_mem_nil⟩
  | cons c cs ih =>
    rcases ih with ⟨uncut, none⟩ | ⟨before, field, cut, rfl, one⟩
    · by_cases here : c = sep
      · refine Or.inr ⟨[], cs, ?_, by rw [here]; rfl, none⟩
        rw [cutLast, uncut]
        exact if_pos here
      · refine Or.inl ⟨?_, by simpa using ⟨Ne.symm here, none⟩⟩
        rw [cutLast, uncut]
        exact if_neg here
    · refine Or.inr ⟨c :: before, field, ?_, rfl, one⟩
      rw [cutLast, cut]

/-- Nothing but copies of the character is cut off at the end. -/
theorem exists_trimEnd (c : Char) (cs : List Char) :
    ∃ count, cs = trimEnd c cs ++ List.replicate count c := by
  have copies : ∀ d ∈ (cs.reverse.takeWhile (· == c)).reverse, d = c := by
    intro d mem
    have all := List.all_takeWhile (l := cs.reverse) (p := (· == c))
    exact eq_of_beq (List.all_eq_true.1 all d (List.mem_reverse.1 mem))
  refine ⟨(cs.reverse.takeWhile (· == c)).reverse.length, ?_⟩
  rw [← List.eq_replicate_of_mem copies, trimEnd, ← List.reverse_append,
    List.takeWhile_append_dropWhile, List.reverse_reverse]

/-- No copy of the character is left at the end. -/
theorem getLast?_trimEnd_ne (c : Char) (cs : List Char) : (trimEnd c cs).getLast? ≠ some c := by
  intro ends
  rw [trimEnd, List.getLast?_reverse] at ends
  have kept := List.head?_dropWhile_not (· == c) cs.reverse
  rw [ends] at kept
  exact Bool.false_ne_true (kept.symm.trans (beq_self_eq_true c))

end WorkerBundler.Text
