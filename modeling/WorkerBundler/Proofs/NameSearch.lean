import WorkerBundler.Proofs.ChunkNames
import WorkerBundler.Proofs.CountedLoops

/-!
# The search for an unused file name stops

A chunk tries the name that its template asks for and then the numbered ones, and takes the first
that is not used in lower case. That search is a loop over the candidates without a bound of its
own, which enters each name it tries into the used ones: `FileName.Search` is its state.

No two candidates agree in lower case (`FileName.lowercase_candidate_injective`): numbers stay what
they are, and the wanted name has none and is shorter. So the search stops after one candidate more
than there are used names, at the latest, with the name that `FileName.unique` gives
(`FileName.stops_at_unique`). A number stands between the stem and the extension, so the directory
and the extension are kept (`FileName.Parts`).
-/

namespace WorkerBundler

namespace Text

/-- What stands around a character decides its lower-case form, but not how long it is. -/
theorem length_lowerAfter (before cs : List Char) :
    (lowerAfter before cs).length = (cs.flatMap fun c => lowerAfter [] [c]).length := by
  induction cs generalizing before with
  | nil => rfl
  | cons c cs ih =>
    rw [lowerAfter, List.length_append, ih, List.flatMap_cons, List.length_append, lowerAfter,
      lowerAfter, List.append_nil]
    by_cases sigma : c = 'Σ'
    · rw [if_pos sigma, if_pos sigma]
      rfl
    · rw [if_neg sigma, if_neg sigma]

theorem length_lowerAfter_append (before front rest : List Char) :
    (lowerAfter before (front ++ rest)).length =
      (lowerAfter [] front).length + (lowerAfter [] rest).length := by
  rw [length_lowerAfter before, length_lowerAfter [] front, length_lowerAfter [] rest,
    List.flatMap_append, List.length_append]

theorem lowerAfter_toDigits (k : Nat) : lowerAfter [] (Nat.toDigits 10 k) = Nat.toDigits 10 k := by
  have digits : ∀ c ∈ Nat.toDigits 10 k, c.isDigit = true :=
    fun c mem => Nat.isDigit_of_mem_toDigits (by decide) (by decide) mem
  have lowered := lowerAfter_append_digits Nat.toDigits_ne_nil digits [] [] []
  rw [List.append_nil, List.nil_append] at lowered
  exact lowered.trans (List.append_nil _)

end Text

namespace FileName

/-! ## The parts of a file name -/

/-- A file name in three parts: the directory up to the last slash, the stem of the base name, and
its extension, which starts at the last dot there unless that is the first character. -/
@[ext] structure Parts where
  directory : List Char
  stem : List Char
  extension : List Char
  isBase : IsBase directory (stem ++ extension)
  isExtension : extension = [] ∧ '.' ∉ stem.tail ∨
    stem ≠ [] ∧ ∃ letters, extension = '.' :: letters ∧ '.' ∉ letters

theorem not_mem_toString {c : Char} (other : c.isDigit = false) (k : Nat) :
    c ∉ (toString k).toList := by
  intro mem
  rw [toList_toString] at mem
  rw [Nat.isDigit_of_mem_toDigits (by decide) (by decide) mem] at other
  cases other

namespace Parts

/-- The file name that the parts make up. -/
def name (p : Parts) : List Char := p.directory ++ (p.stem ++ p.extension)

theorem cutLast_name (p : Parts) :
    (p.directory = [] ∧ Text.cutLast '/' p.name = none) ∨
      ∃ front, p.directory = front ++ ['/'] ∧
        Text.cutLast '/' p.name = some (front, p.stem ++ p.extension) := by
  rcases p.isBase.behind with none | ⟨front, ends⟩
  · refine Or.inl ⟨none, ?_⟩
    rw [name, none]
    exact Text.cutLast_eq_none p.isBase.slashless
  · refine Or.inr ⟨front, ends, ?_⟩
    rw [name, ends, List.append_assoc]
    exact Text.cutLast_append p.isBase.slashless front

/-- The base name is cut where its extension starts. -/
theorem splitBase_eq (p : Parts) :
    (match Text.cutLast '.' (p.stem ++ p.extension) with
      | some (c :: stem, ext) => (p.directory ++ c :: stem, '.' :: ext)
      | _ => (p.name, [])) = (p.directory ++ p.stem, p.extension) := by
  rcases p.isExtension with ⟨none, undotted⟩ | ⟨nonempty, letters, ext, one⟩
  · rw [name, none, List.append_nil]
    cases stem : p.stem with
    | nil => rfl
    | cons c rest =>
      rw [stem, List.tail_cons] at undotted
      rw [Text.cutLast, Text.cutLast_eq_none undotted]
      by_cases dot : c = '.'
      · rw [if_pos dot]
      · rw [if_neg dot]
  · obtain ⟨c, rest, stem⟩ := List.exists_cons_of_ne_nil nonempty
    rw [ext, Text.cutLast_append one, stem]

/-- The directory and the stem are what stands in front of the extension. -/
theorem splitExtension_name (p : Parts) :
    splitExtension p.name = (p.directory ++ p.stem, p.extension) := by
  have base := p.splitBase_eq
  rw [splitExtension]
  rcases p.cutLast_name with ⟨none, uncut⟩ | ⟨front, ends, cut⟩
  · have whole : p.name = p.stem ++ p.extension := by
      rw [name, none]
      rfl
    rw [none, ← whole] at base
    rw [none, uncut]
    exact base
  · rw [ends] at base
    rw [ends, cut]
    exact base

/-- Every text has its parts as a file name, and no other ones. -/
theorem bijective_name : Function.Bijective name := by
  constructor
  · intro p q same
    have cuts := p.splitExtension_name
    rw [same, q.splitExtension_name] at cuts
    obtain ⟨fronts, extensions⟩ := Prod.mk.inj cuts
    have directories : p.directory = q.directory := by
      have cut := q.cutLast_name
      rw [← same] at cut
      rcases p.cutLast_name with ⟨none, uncut⟩ | ⟨front, ends, cut'⟩
      · rw [uncut] at cut
        rcases cut with ⟨none', _⟩ | ⟨_, _, some⟩
        · rw [none, none']
        · cases some
      · rw [cut'] at cut
        rcases cut with ⟨_, none⟩ | ⟨front', ends', found⟩
        · cases none
        · obtain ⟨rfl, _⟩ := Prod.mk.inj (Option.some.inj found)
          rw [ends, ends']
    rw [directories] at fronts
    exact Parts.ext directories (List.append_cancel_left fronts).symm extensions.symm
  · intro cs
    have cut := isCut_splitExtension cs
    generalize (splitExtension cs).1 = stem, (splitExtension cs).2 = ext at cut
    cases cut with
    | @plain dir base isBase undotted =>
      refine ⟨⟨dir, base, [], ?_, Or.inl ⟨rfl, undotted⟩⟩, ?_⟩
      · rwa [List.append_nil]
      · exact congrArg (dir ++ ·) (List.append_nil base)
    | @dotted dir front letters c isBase one =>
      exact ⟨⟨dir, c :: front, '.' :: letters, isBase,
        Or.inr ⟨List.cons_ne_nil c front, letters, rfl, one⟩⟩, rfl⟩

/-- The parts with a number behind the stem. -/
def number (p : Parts) (k : Nat) : Parts where
  directory := p.directory
  stem := p.stem ++ (toString k).toList
  extension := p.extension
  isBase := by
    refine ⟨?_, p.isBase.behind⟩
    have slashless := p.isBase.slashless
    have undivided := not_mem_toString (c := '/') (by decide) k
    simp only [List.mem_append, not_or] at slashless ⊢
    exact ⟨⟨slashless.1, undivided⟩, slashless.2⟩
  isExtension := by
    have undotted' := not_mem_toString (c := '.') (by decide) k
    rcases p.isExtension with ⟨none, undotted⟩ | ⟨nonempty, dotted⟩
    · refine Or.inl ⟨none, ?_⟩
      cases stem : p.stem with
      | nil => exact fun mem => undotted' (List.mem_of_mem_tail mem)
      | cons c rest =>
        rw [stem] at undotted
        rw [List.cons_append, List.tail_cons, List.mem_append, not_or]
        exact ⟨undotted, undotted'⟩
    · exact Or.inr ⟨List.append_ne_nil_of_left_ne_nil nonempty _, dotted⟩

/-- A numbered name has the number behind the stem. -/
theorem numbered_name (p : Parts) {wanted : String} (parts : p.name = wanted.toList) (k : Nat) :
    (numbered wanted k).toList = (p.number k).name := by
  rw [numbered, ← parts, splitExtension_name, String.toList_ofList, name, number]
  simp only [List.append_assoc]

end Parts

/-! ## The candidates -/

/-- The names that are tried: the wanted one, and the numbered ones from 2 on. -/
def candidate (wanted : String) : (place : Nat) → String
  | 0 => wanted
  | i + 1 => numbered wanted (i + 2)

/-- A candidate has the directory and the extension of the wanted name. -/
theorem exists_parts_candidate (p : Parts) {wanted : String} (parts : p.name = wanted.toList)
    (place : Nat) : ∃ q : Parts, q.name = (candidate wanted place).toList ∧
      q.directory = p.directory ∧ q.extension = p.extension := by
  cases place with
  | zero => exact ⟨p, parts, rfl, rfl⟩
  | succ i => exact ⟨p.number (i + 2), (p.numbered_name parts (i + 2)).symm, rfl, rfl⟩

/-- A number makes a name longer, in lower case too. -/
theorem length_lowercase_lt_numbered (wanted : String) (k : Nat) :
    (Text.lowercase wanted).length < (Text.lowercase (numbered wanted k)).length := by
  obtain ⟨p, parts⟩ := Parts.bijective_name.2 wanted.toList
  have digits : 0 < (Text.lowerAfter [] (toString k).toList).length := by
    rw [toList_toString, Text.lowerAfter_toDigits]
    exact List.length_pos_of_ne_nil Nat.toDigits_ne_nil
  rw [Text.lowercase, Text.lowercase, String.length_ofList, String.length_ofList,
    p.numbered_name parts, ← parts, Parts.name, Parts.name, Parts.number]
  simp only [Text.length_lowerAfter_append]
  omega

/-- No two candidates agree in lower case. -/
theorem lowercase_candidate_injective (wanted : String) :
    Function.Injective fun place => Text.lowercase (candidate wanted place) := by
  intro i j same
  cases i with
  | zero =>
    cases j with
    | zero => rfl
    | succ j =>
      exact absurd (congrArg String.length same)
        (Nat.ne_of_lt (length_lowercase_lt_numbered wanted (j + 2)))
  | succ i =>
    cases j with
    | zero =>
      exact absurd (congrArg String.length same)
        (Nat.ne_of_gt (length_lowercase_lt_numbered wanted (i + 2)))
    | succ j =>
      have numbered_same : Text.lowercase (numbered wanted (i + 2)) =
          Text.lowercase (numbered wanted (j + 2)) := same
      exact Nat.succ.inj (lowercase_numbered_inj numbered_same)

/-- The unique name is the first candidate that is not used. -/
theorem exists_unique_eq_candidate (used : List String) (wanted : String) :
    ∃ rounds, unique used wanted = candidate wanted rounds ∧
      ∀ i < rounds, Text.lowercase (candidate wanted i) ∈ used := by
  by_cases taken : Text.lowercase wanted ∈ used
  · let isTaken (k : Nat) : Bool := Text.lowercase (numbered wanted k) ∈ used
    obtain ⟨i, least⟩ := Nat.exists_eq_add_of_le' (le_leastFree isTaken (used.length + 1) 2)
    refine ⟨i + 1, by rw [unique, if_pos taken]; exact congrArg (numbered wanted) least, ?_⟩
    intro j before
    cases j with
    | zero => exact taken
    | succ j =>
      have passed : isTaken (j + 2) = true :=
        taken_of_lt_leastFree (Nat.le_add_left 2 j) ((Nat.succ_lt_succ before).trans_eq least.symm)
      exact of_decide_eq_true passed
  · exact ⟨0, by rw [unique, if_neg taken]; rfl, fun i before => absurd before (Nat.not_lt_zero i)⟩

/-! ## The loop -/

/-- A search for an unused name: the place of the next candidate, and the used names. -/
structure Search where
  place : Nat
  used : Finset String

namespace Search

/-- The next candidate is used already, in lower case. -/
def Taken (wanted : String) (s : Search) : Prop :=
  Text.lowercase (candidate wanted s.place) ∈ s.used

/-- Enters the next candidate into the used names and goes on to the one after it. -/
def next (wanted : String) (s : Search) : Search :=
  ⟨s.place + 1, insert (Text.lowercase (candidate wanted s.place)) s.used⟩

/-- Candidates that are used are passed over, and the used names stay the same meanwhile. -/
theorem stopsAfter_of_passed {used : Finset String} {wanted : String} {place rounds : Nat}
    (passed : ∀ i < rounds, Text.lowercase (candidate wanted (place + i)) ∈ used)
    (free : Text.lowercase (candidate wanted (place + rounds)) ∉ used) :
    StopsAfter (Taken wanted) (next wanted) ⟨place, used⟩ rounds ⟨place + rounds, used⟩ := by
  induction rounds generalizing place with
  | zero => exact .stop free
  | succ rounds ih =>
    have goes : Taken wanted ⟨place, used⟩ := passed 0 (Nat.succ_pos rounds)
    have later : next wanted ⟨place, used⟩ = ⟨place + 1, used⟩ := by
      rw [next, Finset.insert_eq_of_mem goes]
    refine .round goes ?_
    rw [later, Nat.add_comm rounds 1, ← Nat.add_assoc]
    apply ih
    · intro i before
      have met := passed (i + 1) (Nat.succ_lt_succ before)
      rwa [Nat.add_comm i 1, ← Nat.add_assoc] at met
    · rwa [Nat.add_comm rounds 1, ← Nat.add_assoc] at free

end Search

/-- **The search for an unused name stops after one candidate more than there are used names, at the
latest**, for no two candidates agree in lower case. It stops at the unique name, which is not used;
the used names of the chunks after it are those before and this one in lower case; and the unique
name has the directory and the extension of the wanted one. So the number in a name is one more than
there are used names, at most. -/
theorem stops_at_unique (used : List String) (wanted : String) :
    ∃ rounds ≤ used.toFinset.card,
      StopsAfter (Search.Taken wanted) (Search.next wanted) ⟨0, used.toFinset⟩ rounds
        ⟨rounds, used.toFinset⟩ ∧
      unique used wanted = candidate wanted rounds ∧
      (Function.Injective fun place => Text.lowercase (candidate wanted place)) ∧
      Text.lowercase (unique used wanted) ∉ used ∧
      (∀ id rest, ∃ used',
        Chunk.makeUnique used ((id, wanted) :: rest) =
          (id, unique used wanted) :: Chunk.makeUnique used' rest ∧
        used'.toFinset = insert (Text.lowercase (unique used wanted)) used.toFinset ∧
        used'.toFinset = (Search.next wanted ⟨rounds, used.toFinset⟩).used) ∧
      ∃ p q : Parts, p.name = wanted.toList ∧ q.name = (unique used wanted).toList ∧
        q.directory = p.directory ∧ q.extension = p.extension := by
  obtain ⟨rounds, found, passed⟩ := exists_unique_eq_candidate used wanted
  have free := lowercase_unique_not_mem used wanted
  have distinct := lowercase_candidate_injective wanted
  have entered : (Text.lowercase (unique used wanted) :: used).toFinset =
      insert (Text.lowercase (unique used wanted)) used.toFinset := List.toFinset_cons
  have run : StopsAfter (Search.Taken wanted) (Search.next wanted) ⟨0, used.toFinset⟩ rounds
      ⟨0 + rounds, used.toFinset⟩ := by
    apply Search.stopsAfter_of_passed
    · intro i before
      rw [Nat.zero_add]
      exact List.mem_toFinset.2 (passed i before)
    · rwa [Nat.zero_add, ← found, List.mem_toFinset]
  rw [Nat.zero_add] at run
  refine ⟨rounds, le_card_of_used distinct passed, run, found, distinct, free, ?_, ?_⟩
  · intro id rest
    exact ⟨_, rfl, entered, entered.trans (by rw [found]; rfl)⟩
  · obtain ⟨p, parts⟩ := Parts.bijective_name.2 wanted.toList
    obtain ⟨q, parts', same⟩ := exists_parts_candidate p parts rounds
    exact ⟨p, q, parts, found ▸ parts', same⟩

example : unique ["task.js", "task2.js"] "Task.js" = "Task3.js" := by decide +kernel

end FileName

end WorkerBundler
