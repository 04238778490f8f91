import Mathlib.Data.Finset.Card
import WorkerBundler.Proofs.Chunks

/-!
# Unique file names

A name that is taken gets a number in front of its extension. A number is neither cased nor ignored
for case, so lower-casing leaves it alone and what is around it does not depend on it
(`lowercase_numbered`). So names with different numbers differ in more than case, one of the tried
numbers is free, and the names of all chunks differ in more than case (`nodup_lowercase_named`).
-/

namespace WorkerBundler

namespace Text

/-- Lower-casing leaves the character alone, and looks at nothing beyond it. -/
def IsBarrier (c : Char) : Prop :=
  c ≠ 'Σ' ∧ lowerChar c = [c] ∧ inRanges caseIgnorableRanges c = false ∧
    inRanges casedRanges c = false

instance (c : Char) : Decidable (IsBarrier c) :=
  inferInstanceAs (Decidable (_ ∧ _ ∧ _ ∧ _))

theorem isBarrier_of_isDigit {c : Char} (digit : c.isDigit = true) : IsBarrier c := by
  have each : ∀ n < 58, 48 ≤ n → IsBarrier (Char.ofNat n) := by decide
  rw [Char.isDigit, Bool.and_eq_true, decide_eq_true_iff, decide_eq_true_iff] at digit
  rw [← Char.ofNat_toNat c]
  exact each c.toNat (Nat.lt_succ_of_le digit.2) digit.1

section

variable {d : Char} (barrier : IsBarrier d)

include barrier

theorem startsCased_append_barrier (front rest : List Char) :
    startsCased (front ++ d :: rest) = startsCased front := by
  obtain ⟨_, _, heeded, uncased⟩ := barrier
  have first : (d :: rest).dropWhile (inRanges caseIgnorableRanges) = d :: rest :=
    List.dropWhile_cons_of_neg (by rw [heeded]; exact Bool.false_ne_true)
  unfold startsCased
  rw [List.dropWhile_append, first]
  cases left : front.dropWhile (inRanges caseIgnorableRanges) with
  | nil => exact uncased
  | cons c more => rfl

/-- What lies beyond a barrier does not matter. -/
theorem lowerAfter_append_barrier (near far cs : List Char) :
    lowerAfter (near ++ d :: far) cs = lowerAfter near cs := by
  induction cs generalizing near with
  | nil => rfl
  | cons c cs ih =>
    rw [lowerAfter, lowerAfter, startsCased_append_barrier barrier, ← List.cons_append, ih]

/-- A text is lower-cased in two parts at a barrier. -/
theorem lowerAfter_append (before front rest : List Char) :
    lowerAfter before (front ++ d :: rest) =
      lowerAfter before front ++ d :: lowerAfter [] rest := by
  induction front generalizing before with
  | nil =>
    obtain ⟨other, same, _, _⟩ := id barrier
    show lowerAfter before (d :: rest) = d :: lowerAfter [] rest
    rw [lowerAfter, if_neg other, same]
    exact congrArg (d :: ·) (lowerAfter_append_barrier barrier [] before rest)
  | cons c front ih =>
    rw [List.cons_append, lowerAfter, lowerAfter, ih, startsCased_append_barrier barrier]
    exact (List.append_assoc _ _ _).symm

end

theorem lowerAfter_append_digits {digits : List Char} (nonempty : digits ≠ [])
    (each : ∀ c ∈ digits, c.isDigit = true) (before front rest : List Char) :
    lowerAfter before (front ++ (digits ++ rest)) =
      lowerAfter before front ++ (digits ++ lowerAfter [] rest) := by
  induction digits generalizing before front with
  | nil => exact absurd rfl nonempty
  | cons d digits ih =>
    have barrier := isBarrier_of_isDigit (each d List.mem_cons_self)
    rw [List.cons_append, lowerAfter_append barrier]
    cases digits with
    | nil => rfl
    | cons d' digits =>
      have others := ih nofun (fun c mem => each c (List.mem_cons_of_mem _ mem)) [] []
      rw [List.nil_append] at others
      rw [others]
      rfl

end Text

namespace FileName

theorem toList_toString (k : Nat) : (toString k).toList = Nat.toDigits 10 k := by
  rw [Nat.toString_eq_repr, Nat.repr_eq_ofList_toDigits, String.toList_ofList]

/-- Lower-casing a numbered name leaves the number between what does not depend on it. -/
theorem lowercase_numbered (name : String) : ∃ front behind : List Char, ∀ k,
    Text.lowercase (numbered name k) =
      String.ofList (front ++ ((toString k).toList ++ behind)) := by
  refine ⟨Text.lowerAfter [] (splitExtension name.toList).1,
    Text.lowerAfter [] (splitExtension name.toList).2, ?_⟩
  intro k
  have digits : ∀ c ∈ Nat.toDigits 10 k, c.isDigit = true :=
    fun c mem => Nat.isDigit_of_mem_toDigits (by decide) (by decide) mem
  rw [Text.lowercase, numbered, String.toList_ofList, List.append_assoc, toList_toString,
    Text.lowerAfter_append_digits Nat.toDigits_ne_nil digits]

theorem lowercase_numbered_inj {name : String} {k n : Nat}
    (same : Text.lowercase (numbered name k) = Text.lowercase (numbered name n)) : k = n := by
  obtain ⟨front, behind, each⟩ := lowercase_numbered name
  rw [each, each, String.ofList_inj] at same
  have digits := List.append_cancel_right (List.append_cancel_left same)
  rw [toList_toString, toList_toString] at digits
  rw [← @Nat.ofDigitChars_toDigits 10 k (by decide) (by decide), digits,
    Nat.ofDigitChars_toDigits (by decide) (by decide)]

/-- Different names that are all used are no more than the used ones. -/
theorem le_card_of_used {used : List String} {names : Nat → String}
    (distinct : Function.Injective names) {n : Nat} (all : ∀ i < n, names i ∈ used) :
    n ≤ used.toFinset.card := by
  rw [← Finset.card_range n]
  refine Finset.card_le_card_of_injOn names ?_ distinct.injOn
  intro i mem
  exact List.mem_toFinset.2 (all i (Finset.mem_range.1 (Finset.mem_coe.1 mem)))

/-- The search ends at a number that is free, or all it tried are taken. -/
theorem leastFree_cases (taken : Nat → Bool) (fuel k : Nat) :
    taken (leastFree taken fuel k) = false ∨ ∀ i < fuel, taken (k + i) = true := by
  induction fuel generalizing k with
  | zero => exact Or.inr nofun
  | succ fuel ih =>
    rw [leastFree]
    split
    · rename_i here
      rcases ih (k + 1) with free | all
      · exact Or.inl free
      · refine Or.inr fun i bound => ?_
        cases i with
        | zero => exact here
        | succ i =>
          have next := all i (Nat.lt_of_succ_lt_succ bound)
          rwa [Nat.add_assoc, Nat.add_comm 1 i] at next
    · rename_i free
      exact Or.inl (Bool.not_eq_true _ ▸ free)

/-- The search starts at `k` and passes over nothing that is free. -/
theorem taken_of_lt_leastFree {taken : Nat → Bool} {fuel k j : Nat} (from_k : k ≤ j)
    (before : j < leastFree taken fuel k) : taken j = true := by
  induction fuel generalizing k with
  | zero => exact absurd (Nat.lt_of_le_of_lt from_k before) (Nat.lt_irrefl k)
  | succ fuel ih =>
    rw [leastFree] at before
    split at before
    · rename_i here
      rcases Nat.eq_or_lt_of_le from_k with rfl | later
      · exact here
      · exact ih later before
    · exact absurd (Nat.lt_of_le_of_lt from_k before) (Nat.lt_irrefl k)

theorem le_leastFree (taken : Nat → Bool) (fuel k : Nat) : k ≤ leastFree taken fuel k := by
  induction fuel generalizing k with
  | zero => exact Nat.le_refl k
  | succ fuel ih =>
    rw [leastFree]
    split
    · exact Nat.le_of_succ_le (ih (k + 1))
    · exact Nat.le_refl k

/-- A unique name is not used, in lower case. -/
theorem lowercase_unique_not_mem (used : List String) (name : String) :
    Text.lowercase (unique used name) ∉ used := by
  unfold unique
  split
  · rcases leastFree_cases (fun k => Text.lowercase (numbered name k) ∈ used) (used.length + 1) 2
      with free | all
    · exact of_decide_eq_false free
    · -- more numbers than used names cannot all be taken
      have distinct : Function.Injective fun i => Text.lowercase (numbered name (2 + i)) :=
        fun i j same => Nat.add_left_cancel (lowercase_numbered_inj same)
      have few := le_card_of_used distinct fun i bound => of_decide_eq_true (all i bound)
      exact absurd (few.trans (List.toFinset_card_le used)) (Nat.not_succ_le_self _)
  · assumption

end FileName

namespace Chunk

/-- No two of the unique names agree in lower case, and none agrees with a used one. -/
theorem nodup_lowercase_makeUnique (used : List String) (wanted : List (ModuleId × String)) :
    ((makeUnique used wanted).map fun n => Text.lowercase n.2).Nodup ∧
      ∀ n ∈ makeUnique used wanted, Text.lowercase n.2 ∉ used := by
  induction wanted generalizing used with
  | nil => exact ⟨.nil, nofun⟩
  | cons w rest ih =>
    obtain ⟨apart, others⟩ := ih (Text.lowercase (FileName.unique used w.2) :: used)
    refine ⟨List.nodup_cons.2 ⟨?_, apart⟩, ?_⟩
    · intro mem
      obtain ⟨n, later, same⟩ := List.mem_map.1 mem
      exact others n later (same ▸ List.mem_cons_self)
    · intro n mem
      rcases List.mem_cons.1 mem with rfl | later
      · exact FileName.lowercase_unique_not_mem used w.2
      · exact fun known => others n later (List.mem_cons_of_mem _ known)

/-- Chunks are named by making the names unique that the templates ask for. -/
theorem exists_of_named {g : Graph} {o : OutputOptions} {chunks : List Chunk} {names : FileNames}
    (named : Chunk.named g o chunks = .ok names) :
    ∃ wanted, wantedFileNames g o chunks = .ok wanted ∧ names = makeUnique [] wanted := by
  unfold Chunk.named at named
  cases filled : wantedFileNames g o chunks with
  | error e =>
    rw [filled] at named
    cases named
  | ok wanted =>
    rw [filled] at named
    cases named
    exact ⟨wanted, rfl, rfl⟩

/-- The file names of the chunks differ in more than case. -/
theorem nodup_lowercase_named {g : Graph} {o : OutputOptions} {chunks : List Chunk}
    {names : FileNames} (named : Chunk.named g o chunks = .ok names) :
    (names.map fun n => Text.lowercase n.2).Nodup := by
  obtain ⟨wanted, _, rfl⟩ := exists_of_named named
  exact (nodup_lowercase_makeUnique [] wanted).1

end Chunk

end WorkerBundler
