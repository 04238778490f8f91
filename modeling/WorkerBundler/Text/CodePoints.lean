/-!
# Sets of characters given by ranges

A class of characters is written as a list of closed ranges of code points in ascending order.
`inRanges` tests membership, and `inRanges_iff` says what it means.
-/

namespace WorkerBundler.Text

/-- Whether the code point of `c` lies in one of the closed ranges. They are in ascending order, so
none after the first one that starts above `c` counts. -/
def inRanges : List (Nat × Nat) → Char → Bool
  | [], _ => false
  | r :: rest, c =>
    if c.toNat < r.1 then false
    else if c.toNat ≤ r.2 then true
    else inRanges rest c

theorem inRanges_iff {ranges : List (Nat × Nat)} {c : Char}
    (ascending : ranges.Pairwise fun a b => a.1 ≤ b.1) :
    inRanges ranges c = true ↔ ∃ r ∈ ranges, r.1 ≤ c.toNat ∧ c.toNat ≤ r.2 := by
  induction ranges with
  | nil => simp [inRanges]
  | cons r rest ih =>
    obtain ⟨below, ordered⟩ := List.pairwise_cons.1 ascending
    rw [inRanges]
    by_cases early : c.toNat < r.1
    · have none_later : ∀ s ∈ r :: rest, ¬ s.1 ≤ c.toNat := by
        intro s mem
        rcases List.mem_cons.1 mem with rfl | later
        · omega
        · have := below s later
          omega
      simp only [early, if_true, Bool.false_eq_true, false_iff]
      rintro ⟨s, mem, low, _⟩
      exact none_later s mem low
    · by_cases here : c.toNat ≤ r.2
      · simp only [early, here, if_true, if_false, true_iff]
        exact ⟨r, List.mem_cons_self, by omega, here⟩
      · simp [early, here, ih ordered]

end WorkerBundler.Text
