import WorkerBundler.Text.Scan

/-!
# Where a scan finds its matches

A match of a scan stands at the byte that goes with it (`of_mem_hits`), and the matches do not
overlap (`pairwise_hits`). A place of the text at which the rule applies is the start of a match
unless an earlier match covers it (`mem_hits_or_covered`).

To show that there is just one match, the text around it is checked place by place: `everywhere p`
says that `p` holds at each place of a text and is decided by running it. If what `p` allows is
never matched, and does not depend on what follows, the text is passed over (`hits_eq_singleton`).
-/

namespace WorkerBundler.Text

variable {α : Type} {rule : Rule α}

theorem of_mem_hitsFrom {atStart : Bool} {skip start : Nat} {front cs : List Char} {a : α}
    (h : (start, a) ∈ hitsFrom (byteLength (front ++ cs.take skip))
      (scanFrom rule atStart skip cs)) :
    ∃ before c rest atStart n, front ++ cs = before ++ c :: rest ∧ byteLength before = start ∧
      rule atStart c rest = some (n, a) := by
  induction cs generalizing atStart skip front with
  | nil => cases h
  | cons c cs ih =>
    have moved : ∀ n, front ++ [c] ++ cs.take n = front ++ c :: cs.take n := by simp
    have same : front ++ [c] ++ cs = front ++ c :: cs := by simp
    cases skip with
    | succ skip =>
      rw [scanFrom, List.take_succ_cons, ← moved] at h
      rw [← same]
      exact ih h
    | zero =>
      rw [List.take_zero, List.append_nil, scanFrom] at h
      split at h
      · rename_i n value matched
        rw [hitsFrom] at h
        rcases List.mem_cons.1 h with first | later
        · obtain ⟨rfl, rfl⟩ := Prod.mk.inj first
          exact ⟨front, c, cs, atStart, n, rfl, rfl, matched⟩
        · rw [← byteLength_append, ← moved] at later
          rw [← same]
          exact ih later
      · rw [hitsFrom] at h
        have plain : byteLength front + c.utf8Size = byteLength (front ++ [c] ++ cs.take 0) := by
          simp
        rw [plain] at h
        rw [← same]
        exact ih h

/-- A match stands at its byte. -/
theorem of_mem_hits {start : Nat} {cs : List Char} {a : α} (h : (start, a) ∈ hits rule cs) :
    ∃ before c rest atStart n, cs = before ++ c :: rest ∧ byteLength before = start ∧
      rule atStart c rest = some (n, a) := by
  have here : (start, a) ∈ hitsFrom (byteLength ([] ++ cs.take 0)) (scanFrom rule true 0 cs) := h
  exact of_mem_hitsFrom here

/-! ## Covered places -/

/-- A match of the scan starts in front of the place behind `before` and goes on over it. -/
def Covered (rule : Rule α) (hits : List (Nat × α)) (front cs before : List Char) : Prop :=
  ∃ earlier within c rest atStart n a, before = earlier ++ within ∧ within ≠ [] ∧
    within.length ≤ n ∧ cs = earlier ++ c :: rest ∧ rule atStart c rest = some (n, a) ∧
    (byteLength (front ++ earlier), a) ∈ hits

theorem Covered.later {hits hits' : List (Nat × α)} {front cs before : List Char} {c : Char}
    (known : ∀ h ∈ hits, h ∈ hits') (h : Covered rule hits (front ++ [c]) cs before) :
    Covered rule hits' front (c :: cs) (c :: before) := by
  obtain ⟨earlier, within, d, rest, atStart, n, a, rfl, some, bound, rfl, matched, mem⟩ := h
  refine ⟨c :: earlier, within, d, rest, atStart, n, a, rfl, some, bound, rfl, matched, ?_⟩
  simpa using known _ mem

theorem mem_hitsFrom_or_covered {front before : List Char} {atStart : Bool} {skip : Nat} {c : Char}
    {rest : List Char} (cs : List Char) (cut : cs = before ++ c :: rest) :
    before.length < skip ∨
      (∃ atStart', ∀ n a, rule atStart' c rest = some (n, a) →
        (byteLength (front ++ before), a) ∈ hitsFrom (byteLength (front ++ cs.take skip))
          (scanFrom rule atStart skip cs)) ∨
      Covered rule (hitsFrom (byteLength (front ++ cs.take skip)) (scanFrom rule atStart skip cs))
        front cs before := by
  induction before generalizing front atStart skip cs with
  | nil =>
    cases skip with
    | succ skip => exact Or.inl (Nat.succ_pos skip)
    | zero =>
      refine Or.inr (Or.inl ⟨atStart, ?_⟩)
      intro n a matched
      rw [cut, List.nil_append, List.take_zero, scanFrom, matched]
      exact List.mem_cons_self
  | cons d before ih =>
    obtain ⟨cs, rfl⟩ : ∃ more, cs = d :: more := ⟨before ++ c :: rest, cut⟩
    have cut : cs = before ++ c :: rest := List.tail_eq_of_cons_eq cut
    have place : front ++ d :: before = front ++ [d] ++ before := by simp
    have moved : ∀ n, front ++ d :: cs.take n = front ++ [d] ++ cs.take n := by simp
    cases skip with
    | succ skip =>
      rw [List.take_succ_cons, scanFrom, moved, place]
      rcases ih cs cut with within | visited | covered
      · exact Or.inl (Nat.succ_lt_succ within)
      · exact Or.inr (Or.inl visited)
      · exact Or.inr (Or.inr (covered.later fun _ mem => mem))
    | zero =>
      cases matched : rule atStart d cs with
      | some m =>
        obtain ⟨n, a⟩ := m
        have first : hitsFrom (byteLength (front ++ (d :: cs).take 0))
            (scanFrom rule atStart 0 (d :: cs)) = (byteLength front, a) ::
              hitsFrom (byteLength (front ++ [d] ++ cs.take n)) (scanFrom rule false n cs) := by
          rw [List.take_zero, List.append_nil, scanFrom, matched]
          simp [hitsFrom]
        rw [first, place]
        rcases @ih _ _ n cs cut with within | ⟨atStart', visited⟩ | covered
        · refine Or.inr (Or.inr ⟨[], d :: before, d, cs, atStart, n, a, rfl,
            List.cons_ne_nil _ _, within, rfl, matched, ?_⟩)
          rw [List.append_nil]
          exact List.mem_cons_self
        · refine Or.inr (Or.inl ⟨atStart', ?_⟩)
          intro k b matched'
          exact List.mem_cons_of_mem _ (visited k b matched')
        · exact Or.inr (Or.inr (covered.later fun _ mem => List.mem_cons_of_mem _ mem))
      | none =>
        have plain : hitsFrom (byteLength (front ++ (d :: cs).take 0))
            (scanFrom rule atStart 0 (d :: cs)) =
              hitsFrom (byteLength (front ++ [d] ++ cs.take 0)) (scanFrom rule false 0 cs) := by
          rw [List.take_zero, List.append_nil, scanFrom, matched]
          simp [hitsFrom]
        rw [plain, place]
        rcases @ih _ _ 0 cs cut with within | visited | covered
        · exact absurd within (Nat.not_lt_zero _)
        · exact Or.inr (Or.inl visited)
        · exact Or.inr (Or.inr (covered.later fun _ mem => mem))

/-- Where the rule applies there is a match, or an earlier match covers the place. -/
theorem mem_hits_or_covered {before rest : List Char} {c : Char} {n : Nat} {a : α}
    (matched : ∀ atStart, rule atStart c rest = some (n, a)) :
    (byteLength before, a) ∈ hits rule (before ++ c :: rest) ∨
      Covered rule (hits rule (before ++ c :: rest)) [] (before ++ c :: rest) before := by
  have either : before.length < 0 ∨
      (∃ atStart', ∀ n a, rule atStart' c rest = some (n, a) →
        (byteLength ([] ++ before), a) ∈ hits rule (before ++ c :: rest)) ∨
      Covered rule (hits rule (before ++ c :: rest)) [] (before ++ c :: rest) before :=
    mem_hitsFrom_or_covered (before ++ c :: rest) rfl
  rcases either with within | ⟨atStart', visited⟩ | covered
  · exact absurd within (Nat.not_lt_zero _)
  · exact Or.inl (visited n a (matched atStart'))
  · exact Or.inr covered

/-! ## Matches one after the other -/

theorem le_of_mem_hitsFrom {start : Nat} {pieces : List (Piece α)} {h : Nat × α}
    (mem : h ∈ hitsFrom start pieces) : start ≤ h.1 := by
  induction pieces generalizing start with
  | nil => cases mem
  | cons piece pieces ih =>
    cases piece with
    | plain c => exact Nat.le_of_add_right_le (ih mem)
    | hit text a =>
      rcases List.mem_cons.1 mem with rfl | later
      · exact Nat.le_refl _
      · exact Nat.le_of_add_right_le (ih later)

theorem pairwise_hitsFrom {width : α → Nat}
    (wide : ∀ atStart c rest n a, rule atStart c rest = some (n, a) →
      byteLength (c :: rest.take n) = width a)
    (atStart : Bool) (skip start : Nat) (cs : List Char) :
    (hitsFrom start (scanFrom rule atStart skip cs)).Pairwise fun h k =>
      h.1 + width h.2 ≤ k.1 := by
  induction cs generalizing atStart skip start with
  | nil => exact .nil
  | cons c cs ih =>
    cases skip with
    | succ skip => exact ih false skip start
    | zero =>
      cases matched : rule atStart c cs with
      | some m =>
        obtain ⟨n, a⟩ := m
        rw [scanFrom, matched]
        refine List.pairwise_cons.2 ⟨?_, ih false n _⟩
        intro k later
        rw [← wide atStart c cs n a matched]
        exact le_of_mem_hitsFrom later
      | none =>
        rw [scanFrom, matched]
        exact ih false 0 _

/-- Each match ends before the next one starts. -/
theorem pairwise_hits (width : α → Nat)
    (wide : ∀ atStart c rest n a, rule atStart c rest = some (n, a) →
      byteLength (c :: rest.take n) = width a) (cs : List Char) :
    (hits rule cs).Pairwise fun h k => h.1 + width h.2 ≤ k.1 :=
  pairwise_hitsFrom wide true 0 0 cs

/-! ## Texts without a match -/

/-- The test holds at each place of the text; it is told the character there and the text after
it. -/
def everywhere (p : Char → List Char → Bool) : List Char → Bool
  | [] => true
  | c :: rest => p c rest && everywhere p rest

/-- What a test says at a place does not change when text is added at the end. -/
def Stable (p : Char → List Char → Bool) : Prop :=
  ∀ c rest more, p c rest = true → p c (rest ++ more) = true

variable {p : Char → List Char → Bool}

theorem everywhere_append (stable : Stable p) {a b : List Char} (left : everywhere p a = true)
    (right : everywhere p b = true) : everywhere p (a ++ b) = true := by
  induction a with
  | nil => exact right
  | cons c a ih =>
    rw [everywhere, Bool.and_eq_true] at left
    rw [List.cons_append, everywhere, Bool.and_eq_true]
    exact ⟨stable _ _ _ left.1, ih left.2⟩

theorem of_everywhere {cs before rest : List Char} {c : Char} (h : everywhere p cs = true)
    (cut : cs = before ++ c :: rest) : p c rest = true := by
  induction before generalizing cs with
  | nil =>
    rw [cut, List.nil_append, everywhere, Bool.and_eq_true] at h
    exact h.1
  | cons x before ih =>
    rw [cut, List.cons_append, everywhere, Bool.and_eq_true] at h
    exact ih h.2 rfl

/-- A text without a match is passed over. -/
theorem hitsFrom_append (stable : Stable p)
    (none : ∀ c rest, p c rest = true → ∀ atStart, rule atStart c rest = none) {front : List Char}
    (quiet : everywhere p front = true) (atStart : Bool) (start : Nat) (rest : List Char) :
    ∃ atStart', hitsFrom start (scanFrom rule atStart 0 (front ++ rest)) =
      hitsFrom (start + byteLength front) (scanFrom rule atStart' 0 rest) := by
  induction front generalizing atStart start with
  | nil => exact ⟨atStart, rfl⟩
  | cons c front ih =>
    rw [everywhere, Bool.and_eq_true] at quiet
    obtain ⟨atStart', others⟩ := ih quiet.2 false (start + c.utf8Size)
    refine ⟨atStart', ?_⟩
    rw [List.cons_append, scanFrom, none c _ (stable _ _ _ quiet.1) atStart]
    simp only [hitsFrom]
    rw [others, byteLength_cons, Nat.add_assoc]

theorem scanFrom_skip (taken rest : List Char) :
    scanFrom rule false taken.length (taken ++ rest) = scanFrom rule false 0 rest := by
  induction taken with
  | nil => rfl
  | cons c taken ih => exact ih

/-- A text with one match between two texts without any. -/
theorem hits_eq_singleton (stable : Stable p)
    (none : ∀ c rest, p c rest = true → ∀ atStart, rule atStart c rest = none)
    {front taken behind : List Char} {c : Char} {a : α} (quiet : everywhere p front = true)
    (matched : ∀ atStart, rule atStart c (taken ++ behind) = some (taken.length, a))
    (silent : everywhere p behind = true) :
    hits rule (front ++ c :: (taken ++ behind)) = [(byteLength front, a)] := by
  obtain ⟨atStart, first⟩ := hitsFrom_append stable none quiet true 0 (c :: (taken ++ behind))
  obtain ⟨_, last⟩ := hitsFrom_append stable none silent false
    (byteLength front + byteLength (c :: taken)) []
  rw [List.append_nil] at last
  rw [hits, scan, first, scanFrom, matched]
  simp only [hitsFrom, List.take_left, scanFrom_skip]
  rw [Nat.zero_add, last, scanFrom, hitsFrom]

end WorkerBundler.Text
