import Mathlib.Data.List.Forall2
import WorkerBundler.Proofs.ImportPlaces
import WorkerBundler.Proofs.Respelled

/-!
# Scanning a text with other specifiers

If nothing behind a lead reads over a replaced text (`Clear`), the scan finds the corresponding
imports in both texts. At a place in front of a replaced text there are imports in both of them, or
none (`ReadsAs.none_or_passes`), and no import starts within a text that the scan does not come to
as a specifier (`ReadsAs.importsFrom_over_edit`). So the imports of one kind correspond
(`ReadsAs.forall₂_importsFrom`), and those of both kinds do so in one order (`forall₂_imports`).
-/

namespace WorkerBundler

open Text (byteLength)

/-! ## Sorting corresponding lists -/

namespace Ordered

variable {α β : Type} {R : α → β → Prop} {le : α → α → Bool} {le' : β → β → Bool}

theorem forall₂_insert (agree : ∀ a b a' b', R a a' → R b b' → le a b = le' a' b') {a : α}
    {a' : β} {items : List α} {items' : List β} (head : R a a') (h : List.Forall₂ R items items') :
    List.Forall₂ R (insert le a items) (insert le' a' items') := by
  induction h with
  | nil => exact .cons head .nil
  | @cons b b' _ _ first rest ih =>
    rw [insert, insert, agree _ _ _ _ head first]
    split
    · exact .cons head (.cons first rest)
    · exact .cons first ih

/-- Items that correspond do so after both lists are sorted, if the two orders agree. -/
theorem forall₂_sort (agree : ∀ a b a' b', R a a' → R b b' → le a b = le' a' b')
    {items : List α} {items' : List β} (h : List.Forall₂ R items items') :
    List.Forall₂ R (sort le items) (sort le' items') := by
  induction h with
  | nil => exact .nil
  | cons head _ ih => exact forall₂_insert agree head ih

end Ordered

namespace ImportScan

/-- Nothing behind a lead in front of the edit reaches over it. Either the scan finds an import just
there, or nothing behind a lead starts there, before or after the replacement. -/
structure Clear (kind : ImportKind) (lead : List Char → Bool) (whole : List Char)
    (found : List Import) (e : Edit) : Prop where
  outer : ∀ j ∈ quotedFrom kind lead [] whole, e.start ≤ j.start ∨ j.stop + 2 ≤ e.start
  inner : (∃ i ∈ found, i.start = e.start) ∨
    (∀ j ∈ quotedFrom kind lead [] whole, j.start < e.start ∨ e.stop + 2 ≤ j.start) ∧
      leadsToQuote lead [] e.content.toList = false

variable {cursor cursor' : Nat} {rest text : List Char} {es : List Edit} {e : Edit}
  {i i' : Import}

theorem Clear.later {kind : ImportKind} {lead : List Char → Bool} {whole : List Char}
    {found : List Import} (h : Clear kind lead whole (i :: found) e) (behind : i.start < e.start) :
    Clear kind lead whole found e := by
  refine ⟨h.outer, h.inner.imp_left ?_⟩
  rintro ⟨j, mem, same⟩
  rcases List.mem_cons.1 mem with rfl | later
  · omega
  · exact ⟨j, later, same⟩

variable {kind : ImportKind} {mention? : List Char → Option Mention} {lead : List Char → Bool}
  {ending? : List Char → Option (List Char)} {atStart : Bool} {start : Nat} {c q : Char}
  {l cs specifier specifier' behind behind' ending front : List Char}

/-! ## What follows a specifier -/

/-- A text without quotes at the start of another one ends before the first quote of it. -/
theorem exists_append_of_bare {a b x : List Char} (bare : Bare a) (quote : isQuote q = true)
    (same : a ++ b = l ++ q :: x) : ∃ k, l = a ++ k ∧ b = k ++ q :: x := by
  rcases List.append_eq_append_iff.1 same with ⟨k, left, right⟩ | ⟨k, left, right⟩
  · exact ⟨k, left, right⟩
  · cases k with
    | nil =>
      rw [List.append_nil] at left
      exact ⟨[], by rw [left, List.append_nil], right.symm⟩
    | cons d k =>
      obtain ⟨rfl, -⟩ := List.cons.inj right
      have plain := bare q (left ▸ List.mem_append_right l List.mem_cons_self)
      rw [quote] at plain
      cases plain

theorem ReadsAs.ending_of_respelled (reads : ReadsAs mention? lead ending?)
    (h : Respelled cursor rest es text) : ending? text = ending? rest := by
  cases h with
  | kept => rfl
  | edit old => exact reads.ending old.quote _ _

theorem ReadsAs.exists_behind (reads : ReadsAs mention? lead ending?)
    (h : Respelled cursor rest es text) (ended : ending? rest = some ending) :
    ∃ more more', rest = ending ++ more ∧ text = ending ++ more' ∧
      Respelled (cursor + byteLength ending) more es more' := by
  obtain ⟨bare, more, whole⟩ := reads.ends ended
  cases h with
  | kept => exact ⟨more, more, whole.symm, whole.symm, .kept⟩
  | @edit _ q kept old rest text e es before after start stop later =>
    obtain ⟨k, rfl, -⟩ := exists_append_of_bare bare before.quote whole
    refine ⟨_, _, List.append_assoc _ _ _, List.append_assoc _ _ _,
      .edit before after ?_ stop later⟩
    rw [start, Text.byteLength_append]
    omega

/-- Behind one lead, two specifiers with corresponding texts behind them are both imports or both
not. -/
theorem ReadsAs.none_or_found (reads : ReadsAs mention? lead ending?)
    (opened : opens lead atStart c l = true) (bare : Bare l) (quote : isQuote q = true)
    (clean : q ∉ specifier ∧ '\n' ∉ specifier) (clean' : q ∉ specifier' ∧ '\n' ∉ specifier')
    (h : Respelled cursor behind es behind') :
    (rule mention? atStart c (l ++ q :: (specifier ++ q :: behind)) = none ∧
      rule mention? atStart c (l ++ q :: (specifier' ++ q :: behind')) = none) ∨
    ∃ ending more more', behind = ending ++ more ∧ behind' = ending ++ more' ∧
      Respelled (cursor + byteLength ending) more es more' ∧
      Found lead ending? atStart ⟨c :: l, q, specifier, ending⟩ more ∧
      Found lead ending? atStart ⟨c :: l, q, specifier', ending⟩ more' := by
  have same := reads.ending_of_respelled h
  cases ended : ending? behind with
  | none =>
    rw [ended] at same
    have silent : ∀ {s b}, q ∉ s ∧ '\n' ∉ s → ending? b = none →
        rule mention? atStart c (l ++ q :: (s ++ q :: b)) = none := by
      intro s b clean none
      have closed := (quoted?_eq_some_iff quote).2
        ⟨s, (rfl : s ++ q :: b = _), clean.1, clean.2, rfl⟩
      rw [reads.rule_append quote bare, opened, if_pos rfl, closed, Option.bind_some]
      dsimp only
      rw [none, Option.map_none]
    exact Or.inl ⟨silent clean ended, silent clean' same⟩
  | some ending =>
    obtain ⟨more, more', rfl, rfl, later⟩ := reads.exists_behind h ended
    rw [ended] at same
    exact Or.inr ⟨ending, more, more', rfl, rfl, later,
      ⟨⟨c, l, rfl, bare, opened⟩, quote, clean.1, clean.2, ended⟩,
      ⟨⟨c, l, rfl, bare, opened⟩, quote, clean'.1, clean'.2, same⟩⟩

/-! ## Passing an import -/

/-- Both texts start with an import, and with the corresponding one. -/
structure Passes (kind : ImportKind) (lead : List Char → Bool)
    (ending? : List Char → Option (List Char)) (atStart : Bool) (cursor cursor' : Nat)
    (es : List Edit) (cs text : List Char) (m m' : Mention) (later : List Edit)
    (more more' : List Char) : Prop where
  cut : cs = m.text ++ more
  cut' : text = m'.text ++ more'
  found : Found lead ending? atStart m more
  found' : Found lead ending? atStart m' more'
  respelled : Respelled (cursor + byteLength m.text) more later more'
  known : later ⊆ es
  behind : ∀ e ∈ later, (toImport kind cursor m).start < e.start
  here : Corresponds es cursor cursor' (toImport kind cursor m) (toImport kind cursor' m')
  others : ∀ {i i'}, Corresponds later (cursor + byteLength m.text) (cursor' + byteLength m'.text)
    i i' → Corresponds es cursor cursor' i i'

/-- An import in front of all edits stays as it is. -/
theorem passes_kept {m : Mention} {more more' : List Char}
    (found : Found lead ending? atStart m more) (found' : Found lead ending? atStart m more')
    (h : Respelled (cursor + byteLength m.text) more es more') :
    Passes kind lead ending? atStart cursor cursor' es (m.text ++ more) (m.text ++ more') m m es
      more more' := by
  have behind : ∀ e ∈ es, (toImport kind cursor m).start < e.start := by
    intro e mem
    have := h.starts e mem
    have := stop_toImport kind cursor found.quote
    have := stop_eq_toImport kind cursor m
    omega
  refine ⟨rfl, rfl, found, found', h, List.Subset.refl _, behind, ?_,
    fun i => i.behind_kept h.starts⟩
  have moved := lt_start_toImport kind cursor found
  refine ⟨by omega, rfl, ?_, ?_, ?_⟩
  · have first : movedTo cursor cursor' es (toImport kind cursor m).start =
        cursor' + ((toImport kind cursor m).start - cursor) := by
      cases es with
      | nil => rfl
      | cons e es => exact if_pos (Nat.le_of_lt (behind e List.mem_cons_self))
    rw [first, start_toImport kind _ found.quote, start_toImport kind _ found.quote]
    omega
  · intro e mem ahead
    have := behind e mem
    omega
  · refine Or.inr ⟨?_, rfl⟩
    intro e mem same
    have := behind e mem
    omega

/-- An import whose specifier is replaced. -/
theorem passes_edit {more more' : List Char} (old : Quotable q specifier)
    (start : e.start = cursor + byteLength (c :: l) + 1)
    (stop : e.stop = e.start + byteLength specifier)
    (found : Found lead ending? atStart ⟨c :: l, q, specifier, ending⟩ more)
    (found' : Found lead ending? atStart ⟨c :: l, q, e.content.toList, ending⟩ more')
    (h : Respelled (e.stop + 1 + byteLength ending) more es more') :
    Passes kind lead ending? atStart cursor cursor' (e :: es)
      (c :: (l ++ q :: (specifier ++ q :: (ending ++ more))))
      (c :: (l ++ q :: (e.content.toList ++ q :: (ending ++ more'))))
      ⟨c :: l, q, specifier, ending⟩ ⟨c :: l, q, e.content.toList, ending⟩ es more more' := by
  have nonempty := old.positive
  have place : cursor + byteLength (Mention.text ⟨c :: l, q, specifier, ending⟩) =
      e.stop + 1 + byteLength ending := by
    rw [stop, start, byteLength_text found.quote]
    dsimp only
    omega
  have place' : cursor' + byteLength (Mention.text ⟨c :: l, q, e.content.toList, ending⟩) =
      cursor' + (e.start - cursor) + byteLength e.content.toList + (1 + byteLength ending) := by
    rw [start, byteLength_text found'.quote]
    dsimp only
    omega
  have here : (toImport kind cursor ⟨c :: l, q, specifier, ending⟩).start = e.start := by
    rw [start_toImport kind cursor found.quote, start]
  have behind : ∀ f ∈ es, e.start < f.start := by
    intro f mem
    have := h.starts f mem
    omega
  refine ⟨?_, ?_, found, found', place ▸ h, fun f => List.mem_cons_of_mem e, here ▸ behind, ?_, ?_⟩
  · simp [Mention.text]
  · simp [Mention.text]
  · refine ⟨by omega, rfl, ?_, ?_, Or.inl ⟨e, List.mem_cons_self, here.symm, ?_, ?_⟩⟩
    · rw [here, movedTo, if_pos (Nat.le_refl _), start_toImport kind cursor' found'.quote, start]
      dsimp only
      omega
    · rw [here]
      refine List.forall_mem_cons.2 ⟨fun ahead => absurd ahead (Nat.lt_irrefl _), ?_⟩
      intro f mem ahead
      have := behind f mem
      omega
    · intro empty
      exact old.nonempty (String.ofList_eq_empty_iff.1 empty)
    · exact String.ofList_toList
  · intro i i' later
    rw [place, place', Nat.add_assoc e.stop] at later
    refine (later.behind_kept ?_).behind_edit (by omega) (by omega)
    intro f mem
    have := h.starts f mem
    omega

/-! ## One step -/

theorem exists_end_of_line (q : Char) (cs : List Char) :
    (q ∉ cs ∧ '\n' ∉ cs) ∨
      ∃ s y, (q ∉ s ∧ '\n' ∉ s) ∧ (cs = s ++ q :: y ∨ cs = s ++ '\n' :: y) := by
  induction cs with
  | nil => exact Or.inl ⟨nofun, nofun⟩
  | cons c cs ih =>
    by_cases closing : q = c
    · exact Or.inr ⟨[], cs, ⟨nofun, nofun⟩, Or.inl (by rw [closing]; rfl)⟩
    · by_cases line : '\n' = c
      · exact Or.inr ⟨[], cs, ⟨nofun, nofun⟩, Or.inr (by rw [line]; rfl)⟩
      · have head : ∀ {s}, q ∉ s ∧ '\n' ∉ s → q ∉ c :: s ∧ '\n' ∉ c :: s := by
          intro s clean
          rw [List.mem_cons, List.mem_cons, not_or, not_or]
          exact ⟨⟨closing, clean.1⟩, line, clean.2⟩
        rcases ih with clean | ⟨s, y, clean, ends⟩
        · exact Or.inl (head clean)
        · exact Or.inr ⟨c :: s, y, head clean, ends.imp (congrArg (c :: ·)) (congrArg (c :: ·))⟩

theorem quoted?_of_line (clean : q ∉ specifier ∧ '\n' ∉ specifier) (quote : isQuote q = true)
    (more : List Char) : quoted? (q :: (specifier ++ '\n' :: more)) = none := by
  cases closed : quoted? (q :: (specifier ++ '\n' :: more)) with
  | none => rfl
  | some read =>
    obtain ⟨m, behind⟩ := read
    obtain ⟨s, same, -, oneLine, -⟩ := (quoted?_eq_some_iff quote).1 closed
    rcases List.append_eq_append_iff.1 same with ⟨k, left, right⟩ | ⟨k, left, right⟩
    · cases k with
      | nil => cases right; cases quote
      | cons d k =>
        obtain ⟨rfl, -⟩ := List.cons.inj right
        exact absurd (left ▸ List.mem_append_right _ List.mem_cons_self) oneLine
    · cases k with
      | nil => cases right; cases quote
      | cons d k =>
        obtain ⟨rfl, -⟩ := List.cons.inj right
        exact absurd (left ▸ List.mem_append_right _ List.mem_cons_self) clean.1

/-- At a place in front of an edit there are corresponding imports in both texts or none. -/
theorem ReadsAs.none_or_passes (reads : ReadsAs mention? lead ending?) (cursor' : Nat)
    {k old : List Char}
    (outer : ∀ j ∈ quotedFrom kind lead [] (front ++ c :: (k ++ q :: (old ++ q :: rest))),
      e.start ≤ j.start ∨ j.stop + 2 ≤ e.start)
    (before : Quotable q old) (after : Quotable q e.content.toList)
    (start : e.start = byteLength front + byteLength (c :: k) + 1)
    (stop : e.stop = e.start + byteLength old) (h : Respelled (e.stop + 1) rest es text) :
    (rule mention? front.isEmpty c (k ++ q :: (old ++ q :: rest)) = none ∧
      rule mention? front.isEmpty c (k ++ q :: (e.content.toList ++ q :: text)) = none) ∨
    ∃ m m' later more more', Passes kind lead ending? front.isEmpty (byteLength front) cursor'
      (e :: es) (c :: (k ++ q :: (old ++ q :: rest)))
      (c :: (k ++ q :: (e.content.toList ++ q :: text))) m m' later more more' := by
  rcases bare_or_exists_quote k with bare | ⟨l, q', x, rfl, bare, quote⟩
  · cases opened : opens lead front.isEmpty c k with
    | false =>
      rw [reads.rule_append before.quote bare, reads.rule_append before.quote bare, opened]
      exact Or.inl ⟨rfl, rfl⟩
    | true =>
      rcases reads.none_or_found opened bare before.quote ⟨before.clean, before.oneLine⟩
        ⟨after.clean, after.oneLine⟩ h with none | ⟨ending, more, more', rfl, rfl, later, found⟩
      · exact Or.inl none
      · exact Or.inr ⟨_, _, _, _, _, passes_edit before start stop found.1 found.2 later⟩
  · simp only [List.append_assoc, List.cons_append] at outer ⊢
    cases opened : opens lead front.isEmpty c l with
    | false =>
      rw [reads.rule_append quote bare, reads.rule_append quote bare, opened]
      exact Or.inl ⟨rfl, rfl⟩
    | true =>
      rcases exists_end_of_line q' x with clean | ⟨s, y, clean, rfl | rfl⟩
      · -- what stands behind the lead goes on up to the edit
        have reaches := congrArg byteLength
          (takeWhile_append_of_clean clean (q :: (old ++ q :: rest)))
        rw [Text.byteLength_append] at reaches
        have lead : endsInLead lead true ([] ++ (front ++ c :: l)) = true :=
          endsInLead_append front (by rw [Bool.and_true]; exact opened)
        have mem := mem_quotedFrom kind quote (x ++ q :: (old ++ q :: rest)) lead
        rw [List.nil_append, List.append_assoc, List.cons_append] at mem
        have size := utf8Size_of_isQuote quote
        have := outer _ mem
        simp only [toImport, Text.byteLength_append, Text.byteLength_cons, Text.byteLength_nil,
          size] at this start reaches
        omega
      · have whole : Respelled (byteLength (front ++ c :: (l ++ q' :: (s ++ [q']))))
            (y ++ q :: (old ++ q :: rest)) (e :: es)
            (y ++ q :: (e.content.toList ++ q :: text)) := by
          refine .edit before after ?_ stop h
          simp only [Text.byteLength_append, Text.byteLength_cons, Text.byteLength_nil] at start ⊢
          omega
        simp only [List.append_assoc, List.cons_append]
        rcases reads.none_or_found opened bare quote clean clean whole with
          none | ⟨ending, more, more', split, split', later, found, found'⟩
        · exact Or.inl none
        · have here : c :: (l ++ q' :: (s ++ q' :: (y ++ q :: (old ++ q :: rest)))) =
              Mention.text ⟨c :: l, q', s, ending⟩ ++ more := by
            simp [Mention.text, split]
          have here' : c :: (l ++ q' :: (s ++ q' :: (y ++ q :: (e.content.toList ++ q :: text)))) =
              Mention.text ⟨c :: l, q', s, ending⟩ ++ more' := by
            simp [Mention.text, split']
          have place : byteLength (front ++ c :: (l ++ q' :: (s ++ [q']))) + byteLength ending =
              byteLength front + byteLength (Mention.text ⟨c :: l, q', s, ending⟩) := by
            simp [Mention.text]
            omega
          rw [here, here']
          exact Or.inr ⟨_, _, _, _, _, passes_kept found found' (place ▸ later)⟩
      · simp only [List.append_assoc, List.cons_append]
        rw [reads.rule_append quote bare, reads.rule_append quote bare, quoted?_of_line clean quote,
          quoted?_of_line clean quote, opened]
        exact Or.inl ⟨rfl, rfl⟩

/-- Where an import is found in front of a quote, its lead is in front of the quote. -/
theorem ReadsAs.exists_lead_of_rule (reads : ReadsAs mention? lead ending?) {hit : Nat × Mention}
    (quote : isQuote q = true) (matched : rule mention? atStart c (l ++ q :: rest) = some hit) :
    ∃ l' k q' tail, l = l' ++ k ∧ k ++ q :: rest = q' :: tail ∧ isQuote q' = true ∧ Bare l' ∧
      opens lead atStart c l' = true := by
  obtain ⟨n, m⟩ := hit
  obtain ⟨more, cut, found⟩ := reads.found_of_rule matched
  obtain ⟨c', l', front, bare, opened⟩ := found.opened
  rw [Mention.text, front, List.cons_append, List.cons_append, List.append_assoc] at cut
  obtain ⟨rfl, same⟩ := List.cons.inj cut
  obtain ⟨k, split, tail⟩ := exists_append_of_bare bare quote same.symm
  exact ⟨l', k, _, _, split, tail.symm, found.quote, bare, opened⟩

/-- No import starts within a quoted text that nothing behind a lead reads over. -/
theorem ReadsAs.rule_within (reads : ReadsAs mention? lead ending?) {before old : List Char}
    (apart : ∀ j ∈ quotedFrom kind lead [] (front ++ q :: (old ++ q :: rest)),
      j.start < e.start ∨ e.stop + 2 ≤ j.start)
    (quote : isQuote q = true) (start : e.start = byteLength front + 1)
    (stop : e.stop = e.start + byteLength old) (within : q :: old = before ++ c :: l) :
    rule mention? (front.isEmpty && before.isEmpty) c (l ++ q :: rest) = none := by
  cases matched : rule mention? (front.isEmpty && before.isEmpty) c (l ++ q :: rest) with
  | none => rfl
  | some hit =>
    obtain ⟨l', k, q', tail, rfl, more, quote', -, opened⟩ :=
      reads.exists_lead_of_rule quote matched
    have whole : front ++ q :: (old ++ q :: rest) =
        [] ++ (front ++ before ++ c :: l') ++ q' :: tail := by
      rw [← more, ← List.cons_append, within]
      simp
    have lead : endsInLead lead true ([] ++ (front ++ before ++ c :: l')) = true := by
      have empty : (front ++ before).isEmpty = (front.isEmpty && before.isEmpty) := by
        cases front <;> rfl
      refine endsInLead_append (front ++ before) ?_
      rw [Bool.and_true, empty]
      exact opened
    have mem := mem_quotedFrom kind quote' tail lead
    rw [whole] at apart
    have sizes := congrArg byteLength within
    have positive := c.utf8Size_pos
    have := apart _ mem
    simp only [toImport, Text.byteLength_append, Text.byteLength_cons, Text.byteLength_nil,
      utf8Size_of_isQuote quote, utf8Size_of_isQuote quote'] at this sizes
    omega

theorem opens_of_not_atStart (atStart : Bool) (opened : opens lead false c l = true) :
    opens lead atStart c l = true := by
  rw [opens, Bool.or_eq_true] at opened ⊢
  rcases opened with here | behind
  · cases here
  · exact Or.inr behind

/-- No import starts within a quoted text without leads that a quote follows. -/
theorem ReadsAs.rule_within_of_not_leadsToQuote (reads : ReadsAs mention? lead ending?)
    {before new : List Char} (silent : leadsToQuote lead [] new = false) (quote : isQuote q = true)
    (within : q :: new = before ++ c :: l) (atStart : Bool) :
    rule mention? (atStart && before.isEmpty) c (l ++ q :: rest) = none := by
  cases matched : rule mention? (atStart && before.isEmpty) c (l ++ q :: rest) with
  | none => rfl
  | some hit =>
    obtain ⟨l', k, q', tail, rfl, more, quote', bare, opened⟩ :=
      reads.exists_lead_of_rule quote matched
    have next : k = [] ∨ ∃ q rest, k = q :: rest ∧ isQuote q = true := by
      cases k with
      | nil => exact Or.inl rfl
      | cons d k =>
        obtain ⟨rfl, -⟩ := List.cons.inj more
        exact Or.inr ⟨d, k, rfl, quote'⟩
    cases before with
    | nil =>
      obtain ⟨rfl, rfl⟩ := List.cons.inj within
      have none := not_endsInLead_of_not_leadsToQuote silent next
      rw [opens, quote, Bool.not_true, Bool.and_false, Bool.false_and, Bool.false_or,
        Bool.and_eq_true] at opened
      cases l' with
      | nil =>
        rw [reads.empty] at opened
        cases opened.2
      | cons d l' =>
        rw [List.nil_append, endsInLead, opens, bare.head, opened.2] at none
        cases none
    | cons d before =>
      have inside : new = before ++ c :: l' ++ k := by
        rw [List.tail_eq_of_cons_eq within]
        simp
      rw [List.isEmpty_cons, Bool.and_false] at opened
      have lead := endsInLead_append before (opens_of_not_atStart (before.isEmpty && true) opened)
      rw [inside] at silent
      rw [← List.nil_append (before ++ c :: l'),
        not_endsInLead_of_not_leadsToQuote silent next] at lead
      cases lead

/-! ## Whole texts -/

theorem importsFrom_append_of_none (kind : ImportKind) (start : Nat) {passed : List Char}
    (silent : ∀ before c l, passed = before ++ c :: l →
      rule mention? (atStart && before.isEmpty) c (l ++ rest) = none) :
    importsFrom kind mention? atStart start (passed ++ rest) =
      importsFrom kind mention? (atStart && passed.isEmpty) (start + byteLength passed) rest := by
  induction passed generalizing atStart start with
  | nil => rw [List.isEmpty_nil, Bool.and_true]; rfl
  | cons c passed ih =>
    have first := silent [] c passed rfl
    rw [List.isEmpty_nil, Bool.and_true] at first
    rw [List.cons_append, importsFrom_of_none first, ih (start + c.utf8Size) ?_,
      Text.byteLength_cons, Nat.add_assoc, List.isEmpty_cons, Bool.and_false, Bool.false_and]
    intro before d l split
    have later := silent (c :: before) d l (by rw [split]; rfl)
    rwa [List.isEmpty_cons, Bool.and_false] at later

theorem ReadsAs.forall₂_importsFrom_kept (reads : ReadsAs mention? lead ending?) (kind : ImportKind)
    (atStart : Bool) (cursor cursor' : Nat) (cs : List Char) :
    List.Forall₂ (Corresponds [] cursor cursor') (importsFrom kind mention? atStart cursor cs)
      (importsFrom kind mention? atStart cursor' cs) := by
  induction atStart, cs using reads.induct generalizing cursor cursor' with
  | nil => exact .nil
  | none _ c rest none ih =>
    rw [importsFrom_of_none none, importsFrom_of_none none]
    exact (ih (cursor + c.utf8Size) (cursor' + c.utf8Size)).imp fun _ _ i => i.behind_kept nofun
  | found _ m more found ih =>
    have passes : Passes kind lead ending? _ cursor cursor' [] (m.text ++ more) (m.text ++ more) m m
      [] more more := passes_kept found found .kept
    rw [reads.importsFrom_of_found found, reads.importsFrom_of_found found]
    exact .cons passes.here ((ih _ _).imp fun _ _ i => passes.others i)

theorem importsFrom_over (quote : isQuote q = true) (kind : ImportKind) (start : Nat)
    (rest : List Char) (silent : ∀ before c l, q :: cs = before ++ c :: l →
      rule mention? (atStart && before.isEmpty) c (l ++ q :: rest) = none) :
    importsFrom kind mention? atStart start (q :: (cs ++ q :: rest)) =
      importsFrom kind mention? false (start + (1 + byteLength cs)) (q :: rest) := by
  have passed := importsFrom_append_of_none kind start silent
  rwa [List.isEmpty_cons, Bool.and_false, Text.byteLength_cons, utf8Size_of_isQuote quote]
    at passed

/-- Where the opening quote of a replaced specifier opens no import, the scan passes over both
specifiers. -/
theorem ReadsAs.importsFrom_over_edit (reads : ReadsAs mention? lead ending?) (cursor' : Nat)
    (text : List Char) {old : List Char}
    (apart : ∀ j ∈ quotedFrom kind lead [] (front ++ q :: (old ++ q :: rest)),
      j.start < e.start ∨ e.stop + 2 ≤ j.start)
    (silent : leadsToQuote lead [] e.content.toList = false) (quote : isQuote q = true)
    (start : e.start = byteLength front + 1) (stop : e.stop = e.start + byteLength old) :
    importsFrom kind mention? front.isEmpty (byteLength front) (q :: (old ++ q :: rest)) =
        importsFrom kind mention? false e.stop (q :: rest) ∧
      importsFrom kind mention? front.isEmpty cursor' (q :: (e.content.toList ++ q :: text)) =
        importsFrom kind mention? false
          (cursor' + (e.start - byteLength front) + byteLength e.content.toList) (q :: text) := by
  constructor
  · have passed := importsFrom_over quote kind (byteLength front) rest fun before c l within =>
      reads.rule_within apart quote start stop within
    have place : byteLength front + (1 + byteLength old) = e.stop := by omega
    rw [passed, place]
  · have passed := importsFrom_over quote kind cursor' text fun before c l within =>
      reads.rule_within_of_not_leadsToQuote silent quote within front.isEmpty
    have place : cursor' + (1 + byteLength e.content.toList) =
        cursor' + (e.start - byteLength front) + byteLength e.content.toList := by omega
    rw [passed, place]

/-- **The scan finds corresponding imports in both texts.** -/
theorem ReadsAs.forall₂_importsFrom (reads : ReadsAs mention? lead ending?)
    (respelled : Respelled (byteLength front) cs es text)
    (clear : ∀ e ∈ es, Clear kind lead (front ++ cs)
      (importsFrom kind mention? front.isEmpty (byteLength front) cs) e) :
    List.Forall₂ (Corresponds es (byteLength front) cursor')
      (importsFrom kind mention? front.isEmpty (byteLength front) cs)
      (importsFrom kind mention? front.isEmpty cursor' text) := by
  -- on the length of the rest: a step passes a character, an import or a replaced specifier
  induction length : cs.length using Nat.strong_induction_on
    generalizing front cs text es cursor' with
  | _ n ih =>
    subst length
    have onward : ∀ {passed rest text : List Char} {es : List Edit} {next : Nat} (next' : Nat),
        cs = passed ++ rest → passed ≠ [] → byteLength front + byteLength passed = next →
        Respelled next rest es text →
        (∀ e ∈ es, Clear kind lead (front ++ cs) (importsFrom kind mention? false next rest) e) →
        List.Forall₂ (Corresponds es next next') (importsFrom kind mention? false next rest)
          (importsFrom kind mention? false next' text) := by
      intro passed rest text es next next' cut some place respelled clear
      have empty : (front ++ passed).isEmpty = false := by simp [some]
      have shorter : rest.length < cs.length := by
        rw [cut, List.length_append]
        exact Nat.lt_add_of_pos_left (List.length_pos_iff.2 some)
      rw [← Text.byteLength_append] at place
      subst place
      rw [cut, ← List.append_assoc] at clear
      have later := @ih rest.length shorter next' text es rest (front ++ passed) respelled
      rw [empty] at later
      exact later clear rfl
    cases respelled with
    | kept => exact reads.forall₂_importsFrom_kept kind _ _ _ _
    | @edit _ q kept old rest text e es before after start stop later =>
      have own := clear e List.mem_cons_self
      cases kept with
      | nil =>
        -- the scan has come to the opening quote, so it reads this specifier as no import
        rw [List.nil_append] at onward clear own ⊢
        rw [List.nil_append]
        rw [Text.byteLength_nil, Nat.add_zero] at start
        have positive := before.positive
        have size := utf8Size_of_isQuote before.quote
        rcases own.inner with ⟨i, mem, same⟩ | ⟨apart, silent⟩
        · have := reads.lt_start_of_mem_importsFrom mem
          omega
        · obtain ⟨passed, passed'⟩ :=
            reads.importsFrom_over_edit cursor' text apart silent before.quote start stop
          rw [passed] at clear ⊢
          rw [passed']
          have closing : Respelled e.stop ([q] ++ rest) es ([q] ++ text) := by
            refine Respelled.append ?_
            rw [Text.byteLength_cons, size]
            exact later
          refine (@onward (q :: old) _ _ _ _ _ rfl (List.cons_ne_nil q old) ?_ closing ?_).imp ?_
          · rw [Text.byteLength_cons, size]
            omega
          · exact fun f mem => clear f (List.mem_cons_of_mem e mem)
          · exact fun _ _ moved => moved.behind_edit (by omega) (by omega)
      | cons c k =>
        rw [List.cons_append] at onward clear own ⊢
        rw [List.cons_append]
        rcases reads.none_or_passes cursor' own.outer before after start stop later with
          ⟨none, none'⟩ | ⟨m, m', es', more, more', passes⟩
        · rw [importsFrom_of_none none] at clear ⊢
          rw [importsFrom_of_none none']
          have ahead : Respelled (byteLength front + c.utf8Size) (k ++ q :: (old ++ q :: rest))
              (e :: es) (k ++ q :: (e.content.toList ++ q :: text)) := by
            refine .edit before after ?_ stop later
            rw [start, Text.byteLength_cons]
            omega
          have moved := @onward [c] _ _ _ _ (cursor' + c.utf8Size) rfl (List.cons_ne_nil c []) rfl
            ahead clear
          exact moved.imp fun _ _ i => i.behind_kept ahead.starts
        · have some : m.text ≠ [] := by
            obtain ⟨d, taken, text⟩ := exists_cons_of_found passes.found
            rw [text]
            exact List.cons_ne_nil d taken
          rw [passes.cut, reads.importsFrom_of_found passes.found] at clear ⊢
          rw [passes.cut', reads.importsFrom_of_found passes.found']
          refine .cons passes.here ((onward _ passes.cut some rfl passes.respelled ?_).imp ?_)
          · intro f mem
            rw [passes.cut]
            exact (clear f (passes.known mem)).later (passes.behind f mem)
          · exact fun _ _ i => passes.others i

/-! ## Both kinds of imports -/

/-- The reader of a kind of import. -/
def mentionOf : ImportKind → List Char → Option Mention
  | .static => static?
  | .dynamic => dynamic?

/-- The leads of a kind of import. -/
def leadOf : ImportKind → List Char → Bool
  | .static => staticLead
  | .dynamic => dynamicLead

/-- What has to follow the specifier. -/
def endingOf : ImportKind → List Char → Option (List Char)
  | .static => fun _ => some []
  | .dynamic => dynamicEnding?

theorem readsAs : ∀ kind, ReadsAs (mentionOf kind) (leadOf kind) (endingOf kind)
  | .static => readsAs_static
  | .dynamic => readsAs_dynamic

/-- **The imports of a respelled text correspond to those of the text.** -/
theorem forall₂_imports {code text : String} (h : Respelled 0 code.toList es text.toList)
    (clear : ∀ kind, ∀ e ∈ es, Clear kind (leadOf kind) code.toList
      (importsOf kind (mentionOf kind) code.toList) e) :
    List.Forall₂ (Corresponds es 0 0) (imports code) (imports text) := by
  have some := h.positive
  have whole : Respelled (byteLength []) code.toList es text.toList := h
  have each : ∀ kind, List.Forall₂ (Corresponds es 0 0)
      (importsOf kind (mentionOf kind) code.toList)
      (importsOf kind (mentionOf kind) text.toList) :=
    fun kind => (readsAs kind).forall₂_importsFrom whole (clear kind)
  refine Ordered.forall₂_sort ?_
    (List.rel_filter ?_ (List.rel_append (each .static) (each .dynamic)))
  · intro i j i' j' left right
    exact decide_eq_decide.2 (left.le_iff right some)
  · intro i i' h
    simpa using h.named_iff some

end ImportScan

end WorkerBundler
