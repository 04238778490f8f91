import WorkerBundler.Proofs.RedirectedImports

/-!
# How leads end

Blanks apart, the lead of a static import ends in `import`, `export` or `from`, and the lead of a
dynamic one in a parenthesis (`exists_of_leadOf`). So no text ends in leads of both kinds
(`kind_eq_of_endsInLead`), and what is behind a lead tells which kind of import may start there: two
imports that start at the same place are the same (`eq_of_start_eq`).
-/

namespace WorkerBundler.ImportScan

open Text (byteLength)

variable {l cs word : List Char} {kind kind' : ImportKind} {code : String} {i j : Import}

/-! ## Leads without their blanks -/

theorem not_isQuote_of_isBlank {c : Char} (blank : Text.isBlank c = true) : isQuote c = false := by
  cases quote : isQuote c with
  | false => rfl
  | true => exact absurd blank (by simp [not_isBlank_of_isQuote quote])

theorem not_isQuote_of_isClauseChar {c : Char} (clause : isClauseChar c = true) :
    isQuote c = false := by
  cases quote : isQuote c with
  | false => rfl
  | true => exact absurd clause (by simp [not_isClauseChar_of_isQuote quote])

theorem exists_of_wordLead (h : wordLead word l = true) :
    ∃ blanks, l = word ++ blanks ∧ ∀ d ∈ blanks, Text.isBlank d = true := by
  unfold wordLead at h
  split at h
  · cases h
  · rename_i blanks found
    exact ⟨blanks, Text.after?_eq_some_iff.1 found, List.all_eq_true.1 h⟩

theorem exists_of_clauseLead {inWord : Bool} (h : clauseLead inWord l = true) :
    ∃ clause blanks, l = clause ++ ("from".toList ++ blanks) ∧
      (∀ c ∈ clause, isClauseChar c = true) ∧ ∀ d ∈ blanks, Text.isBlank d = true := by
  induction l generalizing inWord with
  | nil => cases h
  | cons c l ih =>
    rw [clauseLead, Bool.or_eq_true, Bool.and_eq_true, Bool.and_eq_true] at h
    rcases h with ⟨-, word⟩ | ⟨here, later⟩
    · obtain ⟨blanks, split, blank⟩ := exists_of_wordLead word
      exact ⟨[], blanks, split, List.forall_mem_nil _, blank⟩
    · obtain ⟨clause, blanks, rfl, each, blank⟩ := ih later
      exact ⟨c :: clause, blanks, rfl, List.forall_mem_cons.2 ⟨here, each⟩, blank⟩

/-- The characters that a lead can end in. -/
def leadEnds : ImportKind → List Char
  | .static => ['t', 'm']
  | .dynamic => ['(']

theorem not_isBlank_of_mem_leadEnds {c : Char} (mem : c ∈ leadEnds kind) :
    Text.isBlank c = false := by
  have each : ((leadEnds kind).all fun c => !Text.isBlank c) = true := by
    cases kind <;> decide
  simpa using List.all_eq_true.1 each c mem

/-- A lead is free of quotes, and its last character that is no blank is one of `ends`. -/
def EndsAs (ends l : List Char) : Prop :=
  ∃ front c blanks, l = front ++ c :: blanks ∧ c ∈ ends ∧ Bare front ∧
    ∀ d ∈ blanks, Text.isBlank d = true

theorem EndsAs.append {ends front : List Char} (bare : Bare front) (h : EndsAs ends l) :
    EndsAs ends (front ++ l) := by
  obtain ⟨front', c, blanks, rfl, last, bare', blank⟩ := h
  exact ⟨front ++ front', c, blanks, by simp, last, List.forall_mem_append.2 ⟨bare, bare'⟩, blank⟩

theorem bare_of_blank (blank : ∀ d ∈ l, Text.isBlank d = true) : Bare l :=
  fun d mem => not_isQuote_of_isBlank (blank d mem)

theorem endsAs_of_staticTailLead {front : List Char} (bare : Bare front)
    (h : staticTailLead l = true) : EndsAs (leadEnds .static) (front ++ 't' :: l) := by
  have whole := Text.takeWhile_append_drop Text.isBlank l
  have blank : ∀ d ∈ l.takeWhile Text.isBlank, Text.isBlank d = true :=
    List.all_eq_true.1 List.all_takeWhile
  rw [staticTailLead] at h
  generalize l.takeWhile Text.isBlank = blanks at h whole blank
  generalize l.drop blanks.length = rest at h whole
  rw [← whole]
  rw [Bool.or_eq_true, List.isEmpty_iff] at h
  rcases h with rfl | lead
  · exact ⟨front, 't', blanks, by simp, List.mem_cons_self, bare, blank⟩
  · obtain ⟨clause, more, rfl, each, blank'⟩ := exists_of_clauseLead lead
    have plain : Bare ['f', 'r', 'o'] := by decide
    have clean : Bare clause := fun c mem => not_isQuote_of_isClauseChar (each c mem)
    have tail : EndsAs (leadEnds .static) ("from".toList ++ more) :=
      ⟨['f', 'r', 'o'], 'm', more, rfl, by decide, plain, blank'⟩
    have word : Bare ['t'] := by decide
    have moved := (((tail.append clean).append (bare_of_blank blank)).append word).append bare
    exact moved

/-- Where a lead ends. -/
theorem exists_of_leadOf (h : leadOf kind l = true) : EndsAs (leadEnds kind) l := by
  cases kind with
  | static =>
    have ends {rest front : List Char} (found : Text.after? (front ++ ['t']) l = some rest)
        (bare : Bare front) (tail : staticTailLead rest = true) :
        EndsAs (leadEnds .static) l := by
      rw [Text.after?_eq_some_iff.1 found, List.append_assoc]
      exact endsAs_of_staticTailLead bare tail
    rw [leadOf, staticLead, Bool.or_eq_true] at h
    rcases h with imported | exported
    · dsimp only at imported
      split at imported
      · cases imported
      · rename_i rest found
        exact @ends rest "impor".toList found (by decide) imported
    · dsimp only at exported
      split at exported
      · cases exported
      · rename_i rest found
        exact @ends rest "expor".toList found (by decide) exported
  | dynamic =>
    rw [leadOf, dynamicLead] at h
    split at h
    · cases h
    · rename_i rest found
      have whole := Text.takeWhile_append_drop Text.isBlank rest
      have blank : ∀ d ∈ rest.takeWhile Text.isBlank, Text.isBlank d = true :=
        List.all_eq_true.1 List.all_takeWhile
      obtain ⟨more, split, blank'⟩ := exists_of_wordLead h
      have tail : EndsAs (leadEnds .dynamic) (['('] ++ more) :=
        ⟨[], '(', more, rfl, by decide, bare_nil, blank'⟩
      rw [Text.after?_eq_some_iff.1 found, ← whole, split]
      exact (tail.append (bare_of_blank blank)).append (by decide)

theorem bare_of_leadOf (h : leadOf kind l = true) : Bare l := by
  obtain ⟨front, c, blanks, rfl, last, bare, blank⟩ := exists_of_leadOf h
  have plain : Bare (leadEnds kind) := by
    cases kind <;> decide
  exact List.forall_mem_append.2
    ⟨bare, List.forall_mem_cons.2 ⟨plain c last, bare_of_blank blank⟩⟩

/-! ## The kind of a lead -/

/-- A quote in a text that ends without quotes stands in front of the end. -/
theorem exists_append_of_bare_end {a b c k : List Char} {q : Char} (bare : Bare b)
    (quote : isQuote q = true) (same : a ++ b = c ++ q :: k) :
    ∃ k', a = c ++ q :: k' ∧ k = k' ++ b := by
  have outside : ∀ x, b ≠ x ++ q :: k := by
    intro x inside
    have plain := bare q (inside ▸ List.mem_append_right x List.mem_cons_self)
    rw [quote] at plain
    cases plain
  rcases List.append_eq_append_iff.1 same with ⟨x, -, inside⟩ | ⟨x, split, rest⟩
  · exact absurd inside (outside x)
  · cases x with
    | nil => exact absurd rest.symm (outside [])
    | cons d x =>
      obtain ⟨rfl, later⟩ := List.cons.inj rest
      exact ⟨x, split, later⟩

theorem exists_of_endsInLead {lead : List Char → Bool} {atStart : Bool}
    (h : endsInLead lead atStart cs = true) : ∃ front l, cs = front ++ l ∧ lead l = true := by
  induction cs generalizing atStart with
  | nil => cases h
  | cons c cs ih =>
    simp only [endsInLead, opens, Bool.or_eq_true, Bool.and_eq_true] at h
    rcases h with (⟨-, here⟩ | ⟨-, behind⟩) | later
    · exact ⟨[], c :: cs, rfl, here⟩
    · exact ⟨[c], cs, rfl, behind⟩
    · obtain ⟨front, l, rfl, lead⟩ := ih later
      exact ⟨c :: front, l, rfl, lead⟩

/-- The last character that is no blank is the same, however a text is cut in front of it. -/
theorem eq_of_append_blanks {a b blanks blanks' : List Char} {c d : Char}
    (same : a ++ c :: blanks = b ++ d :: blanks') (solid : Text.isBlank c = false)
    (solid' : Text.isBlank d = false) (blank : ∀ x ∈ blanks, Text.isBlank x = true)
    (blank' : ∀ x ∈ blanks', Text.isBlank x = true) : c = d := by
  rcases List.append_eq_append_iff.1 same with ⟨k, -, rest⟩ | ⟨k, -, rest⟩
  · cases k with
    | nil => exact (List.cons.inj rest).1
    | cons x k =>
      have inside : d ∈ blanks := by
        rw [(List.cons.inj rest).2]
        exact List.mem_append_right _ List.mem_cons_self
      rw [blank d inside] at solid'
      cases solid'
  · cases k with
    | nil => exact (List.cons.inj rest).1.symm
    | cons x k =>
      have inside : c ∈ blanks' := by
        rw [(List.cons.inj rest).2]
        exact List.mem_append_right _ List.mem_cons_self
      rw [blank' c inside] at solid
      cases solid

/-- A text ends in leads of one kind only. -/
theorem kind_eq_of_endsInLead {atStart atStart' : Bool}
    (here : endsInLead (leadOf kind) atStart cs = true)
    (there : endsInLead (leadOf kind') atStart' cs = true) : kind = kind' := by
  obtain ⟨front, l, cut, lead⟩ := exists_of_endsInLead here
  obtain ⟨front', l', cut', lead'⟩ := exists_of_endsInLead there
  obtain ⟨a, c, blanks, rfl, last, -, blank⟩ := exists_of_leadOf lead
  obtain ⟨b, d, blanks', rfl, last', -, blank'⟩ := exists_of_leadOf lead'
  have same : front ++ a ++ c :: blanks = front' ++ b ++ d :: blanks' := by
    rw [List.append_assoc, ← cut, cut', List.append_assoc]
  have equal : c = d := eq_of_append_blanks same (not_isBlank_of_mem_leadEnds last)
    (not_isBlank_of_mem_leadEnds last') blank blank'
  rw [← equal] at last'
  cases kind <;> cases kind' <;> simp_all [leadEnds]

/-! ## Where imports start -/

/-- Imports that start at the same place are the same. -/
theorem eq_of_start_eq (left : i ∈ imports code) (right : j ∈ imports code)
    (same : i.start = j.start) : i = j := by
  obtain ⟨before, q, specifier, behind, cut, quotable, lead, here⟩ :=
    exists_lead_of_mem_imports left
  obtain ⟨before', q', specifier', behind', cut', quotable', lead', there⟩ :=
    exists_lead_of_mem_imports right
  obtain ⟨start, stop, -⟩ := places_of_eq_toImport quotable.quote here
  obtain ⟨start', stop', -⟩ := places_of_eq_toImport quotable'.quote there
  have place : byteLength before = byteLength before' := by omega
  obtain ⟨rfl, -⟩ := append_inj_of_byteLength (cut.symm.trans cut') place
  have kinds : j.kind = i.kind := kind_eq_of_endsInLead lead' lead
  by_contra other
  have there := (of_mem_imports right).1
  rw [kinds] at there
  rcases apart_of_mem_importsOf (of_mem_imports left).1 there other with ahead | behind
  · omega
  · omega

end WorkerBundler.ImportScan
