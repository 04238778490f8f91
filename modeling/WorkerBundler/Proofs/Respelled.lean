import WorkerBundler.Proofs.EditedSpans
import WorkerBundler.Proofs.ImportLeads

/-!
# Texts with other specifiers

`Respelled` relates a text to what it becomes when quoted texts of it are replaced by others. A text
with replaced spans is one if each span stands between quotes that no other span comes next to
(`respelled_of_replaced`). `Corresponds` says of an import of the text what it reads and where it
stands after the replacements; imports stay in their order (`Corresponds.le_iff`).
-/

namespace WorkerBundler.ImportScan

open Text (byteLength)

/-- The text can stand between two such quotes. -/
structure Quotable (q : Char) (cs : List Char) : Prop where
  quote : isQuote q = true
  clean : q ∉ cs
  oneLine : '\n' ∉ cs
  nonempty : cs ≠ []

/-- The rest of a text, which starts at the byte `cursor`, with the quoted texts of the edits
replaced. -/
inductive Respelled : (cursor : Nat) → (rest : List Char) → List Edit → (text : List Char) → Prop
  | kept {cursor : Nat} {rest : List Char} : Respelled cursor rest [] rest
  | edit {cursor : Nat} {q : Char} {kept old rest text : List Char} {e : Edit} {es : List Edit} :
    Quotable q old → Quotable q e.content.toList →
    e.start = cursor + byteLength kept + 1 → e.stop = e.start + byteLength old →
    Respelled (e.stop + 1) rest es text →
    Respelled cursor (kept ++ q :: (old ++ q :: rest)) (e :: es)
      (kept ++ q :: (e.content.toList ++ q :: text))

/-- Where a byte of the text, which is not inside a replaced span, comes to stand. -/
def movedTo (cursor cursor' : Nat) : List Edit → Nat → Nat
  | [], p => cursor' + (p - cursor)
  | e :: es, p =>
    if p ≤ e.start then cursor' + (p - cursor)
    else movedTo e.stop (cursor' + (e.start - cursor) + byteLength e.content.toList) es p

/-- The second import is what the edits make of the first one. -/
structure Corresponds (es : List Edit) (cursor cursor' : Nat) (i i' : Import) : Prop where
  ahead : cursor ≤ i.start
  kind : i'.kind = i.kind
  start : i'.start = movedTo cursor cursor' es i.start
  outside : ∀ e ∈ es, e.start < i.start → e.stop ≤ i.start
  specifier : (∃ e ∈ es, e.start = i.start ∧ i.specifier ≠ "" ∧ i'.specifier = e.content) ∨
    ((∀ e ∈ es, e.start ≠ i.start) ∧ i'.specifier = i.specifier)

variable {cursor cursor' p r : Nat} {cs rest text front : List Char} {es : List Edit} {e : Edit}
  {i i' j j' : Import}

theorem Quotable.positive {q : Char} (h : Quotable q rest) : 0 < byteLength rest := by
  cases rest with
  | nil => exact absurd rfl h.nonempty
  | cons c rest => exact Nat.add_pos_left c.utf8Size_pos _

theorem Respelled.starts (h : Respelled cursor rest es text) : ∀ e ∈ es, cursor < e.start := by
  induction h with
  | kept => nofun
  | edit _ _ start stop _ ih =>
    intro f mem
    rcases List.mem_cons.1 mem with rfl | later
    · omega
    · have := ih f later
      omega

theorem Respelled.append {front : List Char}
    (h : Respelled (cursor + byteLength front) rest es text) :
    Respelled cursor (front ++ rest) es (front ++ text) := by
  cases h with
  | kept => exact .kept
  | @edit _ q kept old rest text e es before after start stop later =>
    rw [← List.append_assoc, ← List.append_assoc]
    refine .edit before after ?_ stop later
    rw [start, Text.byteLength_append]
    omega

theorem Respelled.positive (h : Respelled cursor rest es text) :
    ∀ e ∈ es, 0 < byteLength e.content.toList := by
  induction h with
  | kept => nofun
  | edit _ given _ _ _ ih => exact List.forall_mem_cons.2 ⟨given.positive, ih⟩

/-! ## Moving on -/

theorem Corresponds.behind_kept {size : Nat}
    (h : Corresponds es (cursor + size) (cursor' + size) i i')
    (starts : ∀ e ∈ es, cursor + size < e.start) : Corresponds es cursor cursor' i i' := by
  obtain ⟨ahead, kind, start, outside, specifier⟩ := h
  refine ⟨by omega, kind, ?_, outside, specifier⟩
  rw [start]
  cases es with
  | nil =>
    rw [movedTo, movedTo]
    omega
  | cons e es =>
    have first := starts e List.mem_cons_self
    have same : cursor' + size + (e.start - (cursor + size)) = cursor' + (e.start - cursor) := by
      omega
    rw [movedTo, movedTo, same]
    split
    · omega
    · rfl

theorem Corresponds.behind_edit
    (h : Corresponds es e.stop (cursor' + (e.start - cursor) + byteLength e.content.toList) i i')
    (ahead : cursor ≤ e.start) (nonempty : e.start < e.stop) :
    Corresponds (e :: es) cursor cursor' i i' := by
  obtain ⟨behind, kind, start, outside, specifier⟩ := h
  have other : e.start ≠ i.start := by omega
  refine ⟨by omega, kind, ?_, ?_, ?_⟩
  · rw [start, movedTo, if_neg (by omega)]
  · exact List.forall_mem_cons.2 ⟨fun _ => behind, outside⟩
  · rcases specifier with ⟨f, mem, edited⟩ | ⟨others, same⟩
    · exact Or.inl ⟨f, List.mem_cons_of_mem e mem, edited⟩
    · exact Or.inr ⟨List.forall_mem_cons.2 ⟨other, others⟩, same⟩

/-! ## The order of imports -/

theorem le_movedTo (cursor cursor' : Nat) (es : List Edit) (p : Nat) :
    cursor' ≤ movedTo cursor cursor' es p := by
  induction es generalizing cursor cursor' with
  | nil => exact Nat.le_add_right _ _
  | cons e es ih =>
    rw [movedTo]
    split
    · exact Nat.le_add_right _ _
    · have := ih e.stop (cursor' + (e.start - cursor) + byteLength e.content.toList)
      omega

/-- Replacements that leave something keep the order of the places outside of them. -/
theorem movedTo_lt (lt : p < r) (ahead : cursor ≤ p)
    (outside : ∀ e ∈ es, e.start < p → e.stop ≤ p)
    (some : ∀ e ∈ es, 0 < byteLength e.content.toList) :
    movedTo cursor cursor' es p < movedTo cursor cursor' es r := by
  induction es generalizing cursor cursor' with
  | nil =>
    rw [movedTo, movedTo]
    omega
  | cons e es ih =>
    obtain ⟨own, outside⟩ := List.forall_mem_cons.1 outside
    obtain ⟨positive, some⟩ := List.forall_mem_cons.1 some
    rw [movedTo, movedTo]
    by_cases front : r ≤ e.start
    · rw [if_pos (by omega), if_pos front]
      omega
    · rw [if_neg front]
      split
      · have := le_movedTo e.stop (cursor' + (e.start - cursor) + byteLength e.content.toList) es r
        omega
      · rename_i behind
        exact ih (own (Nat.not_le.1 behind)) outside some

theorem Corresponds.le_iff (left : Corresponds es cursor cursor' i i')
    (right : Corresponds es cursor cursor' j j')
    (some : ∀ e ∈ es, 0 < byteLength e.content.toList) :
    i.start ≤ j.start ↔ i'.start ≤ j'.start := by
  rw [left.start, right.start]
  constructor
  · intro le
    rcases Nat.lt_or_eq_of_le le with lt | same
    · exact Nat.le_of_lt (movedTo_lt lt left.ahead left.outside some)
    · rw [same]
  · intro le
    by_contra behind
    have lt := @movedTo_lt cursor cursor' _ _ es (Nat.not_le.1 behind) right.ahead right.outside
      some
    omega

theorem Corresponds.named_iff (h : Corresponds es cursor cursor' i i')
    (some : ∀ e ∈ es, 0 < byteLength e.content.toList) :
    i.specifier ≠ "" ↔ i'.specifier ≠ "" := by
  rcases h.specifier with ⟨e, mem, -, named, edited⟩ | ⟨-, same⟩
  · refine iff_of_true named ?_
    rw [edited]
    intro empty
    have := some e mem
    rw [empty] at this
    cases this
  · rw [same]

/-! ## Replaced spans between quotes -/

/-- The span of an edit stands between two quotes, and its content can stand there. -/
def QuotedIn (whole : List Char) (e : Edit) : Prop :=
  ∃ before q old behind, whole = before ++ q :: (old ++ q :: behind) ∧ Quotable q old ∧
    Quotable q e.content.toList ∧ e.start = byteLength before + 1 ∧
    e.stop = e.start + byteLength old

theorem exists_of_replaced_cons {c : Char} (h : Replaced cursor (c :: rest) es text)
    (ahead : ∀ e ∈ es, cursor < e.start) :
    ∃ more, text = c :: more ∧ Replaced (cursor + c.utf8Size) rest es more := by
  generalize whole : c :: rest = cs at h
  cases h with
  | kept => exact ⟨rest, whole.symm, .kept⟩
  | @edit _ kept old rest' text e es start stop later =>
    cases kept with
    | nil =>
      have := ahead e List.mem_cons_self
      rw [Text.byteLength_nil] at start
      omega
    | cons d kept =>
      obtain ⟨rfl, rfl⟩ := List.cons.inj whole
      rw [Text.byteLength_cons] at start
      exact ⟨_, rfl, .edit (by omega) stop later⟩

theorem respelled_of_replaced (h : Replaced (byteLength front) cs es text)
    (quoted : ∀ e ∈ es, QuotedIn (front ++ cs) e)
    (gaps : es.Pairwise fun e f => e.stop + 2 ≤ f.start)
    (ahead : ∀ e ∈ es, byteLength front < e.start) :
    Respelled (byteLength front) cs es text := by
  induction es generalizing front cs text with
  | nil =>
    cases h
    exact .kept
  | cons e es ih =>
    obtain ⟨first, gaps⟩ := List.pairwise_cons.1 gaps
    obtain ⟨own, quoted⟩ := List.forall_mem_cons.1 quoted
    cases h with
    | @edit _ kept old rest text _ _ start stop later =>
      obtain ⟨before, q, old', behind, whole, given, content, start', stop'⟩ := own
      -- the edit cuts the text just where the quotes do
      have size := utf8Size_of_isQuote given.quote
      have cut : front ++ kept ++ (old ++ rest) = before ++ [q] ++ (old' ++ q :: behind) := by
        simpa using whole
      have front' : byteLength (front ++ kept) = byteLength (before ++ [q]) := by
        rw [Text.byteLength_append, ← start, start', Text.byteLength_append, Text.byteLength_cons,
          size]
        rfl
      obtain ⟨opening, inside⟩ := append_inj_of_byteLength cut front'
      obtain ⟨rfl, rfl⟩ := append_inj_of_byteLength inside (by omega)
      obtain rfl | ⟨kept, d, rfl⟩ := List.eq_nil_or_concat kept
      · have := ahead e List.mem_cons_self
        rw [Text.byteLength_nil] at start
        omega
      · rw [List.concat_eq_append] at start opening ⊢
        rw [← List.append_assoc] at opening
        obtain ⟨rfl, same⟩ := List.append_inj' opening rfl
        obtain ⟨rfl, -⟩ := List.cons.inj same
        obtain ⟨more, rfl, beyond⟩ := exists_of_replaced_cons later fun f mem => by
          have := first f mem
          omega
        have place : byteLength (front ++ (kept ++ [d]) ++ (old ++ [d])) = e.stop + 1 := by
          simp only [Text.byteLength_append, Text.byteLength_cons, Text.byteLength_nil,
            size] at start ⊢
          omega
        have next : Respelled (byteLength (front ++ (kept ++ [d]) ++ (old ++ [d]))) behind es
            more := by
          refine ih (place ▸ size ▸ beyond) ?_ gaps ?_
          · simpa using quoted
          · intro f mem
            have := first f mem
            omega
        have whole : Respelled (byteLength front) (kept ++ d :: (old ++ d :: behind)) (e :: es)
            (kept ++ d :: (e.content.toList ++ d :: more)) := by
          refine .edit given content ?_ stop (place ▸ next)
          rw [start, Text.byteLength_append, Text.byteLength_cons, size]
          rfl
        simpa using whole

end WorkerBundler.ImportScan
