import WorkerBundler.EditedText.Basic

/-!
# Texts with replaced spans

`Replaced` says, without cutting by bytes, that a text is its source except where edits put their
contents. An edited text is so related to its source (`replaced_text`), since its edits stay in
ascending order, apart from each other and on the boundaries of characters (`Fits`, kept by
`Fits.overwrite`). `ReadsAt` says what a text reads in place of a span of its source: the content of
an edit of that span (`readsAt_of_edit`), and the span itself where all edits keep away from it
(`readsAt_of_apart`).
-/

namespace WorkerBundler

open Text (byteLength)

/-- The rest of a source, which starts at the byte `cursor`, becomes the text when the spans of the
edits, and nothing else, are replaced. -/
inductive Replaced : (cursor : Nat) → (rest : List Char) → List Edit → (text : List Char) → Prop
  | kept {cursor : Nat} {rest : List Char} : Replaced cursor rest [] rest
  | edit {cursor : Nat} {kept old rest text : List Char} {e : Edit} {edits : List Edit} :
    e.start = cursor + byteLength kept → e.stop = e.start + byteLength old →
    Replaced e.stop rest edits text →
    Replaced cursor (kept ++ (old ++ rest)) (e :: edits) (kept ++ (e.content.toList ++ text))

/-- Where the source has the bytes from `start` to `stop`, the text reads `new`, with the edits
before these bytes in front of it and those after them behind it. -/
def ReadsAt (source : List Char) (edits : List Edit) (text : List Char) (start stop : Nat)
    (new : List Char) : Prop :=
  ∃ before old behind before' behind' earlier here later,
    source = before ++ (old ++ behind) ∧ text = before' ++ (new ++ behind') ∧
      edits = earlier ++ (here ++ later) ∧ start = byteLength before ∧
      stop = start + byteLength old ∧ Replaced 0 before earlier before' ∧
      Replaced start old here new ∧ Replaced stop behind later behind'

/-! ## Cutting a text in two ways -/

/-- Of two starts of a text the longer one goes on from the shorter one. -/
theorem append_of_le_byteLength {a b c d : List Char} (same : a ++ b = c ++ d)
    (le : byteLength a ≤ byteLength c) : ∃ e, c = a ++ e ∧ b = e ++ d := by
  rcases List.append_eq_append_iff.1 same with ⟨e, longer, rest⟩ | ⟨e, longer, rest⟩
  · exact ⟨e, longer, rest⟩
  · rw [longer, Text.byteLength_append] at le
    have empty : e = [] := by
      cases e with
      | nil => rfl
      | cons x e =>
        have positive := x.utf8Size_pos
        rw [Text.byteLength_cons] at le
        omega
    rw [empty, List.append_nil] at longer
    rw [empty, List.nil_append] at rest
    exact ⟨[], by rw [longer, List.append_nil], by rw [rest, List.nil_append]⟩

/-- Starts of a text that have the same number of bytes are the same. -/
theorem append_inj_of_byteLength {a b c d : List Char} (same : a ++ b = c ++ d)
    (length : byteLength a = byteLength c) : a = c ∧ b = d := by
  obtain ⟨e, longer, rest⟩ := append_of_le_byteLength same (Nat.le_of_eq length)
  cases e with
  | nil => exact ⟨by rw [longer, List.append_nil], by rw [rest, List.nil_append]⟩
  | cons x e =>
    have positive := x.utf8Size_pos
    rw [longer, Text.byteLength_append, Text.byteLength_cons] at length
    omega

/-- A boundary behind the start of a text cuts the rest of it. -/
theorem exists_of_isBoundary {before rest : List Char} {n : Nat}
    (boundary : Text.IsBoundary n (before ++ rest)) (le : byteLength before ≤ n) :
    ∃ kept ahead, rest = kept ++ ahead ∧ n = byteLength before + byteLength kept := by
  obtain ⟨front, ahead, same, length⟩ := Text.isBoundary_iff.1 boundary
  obtain ⟨kept, longer, split⟩ := append_of_le_byteLength same (length ▸ le)
  refine ⟨kept, ahead, split, ?_⟩
  rw [← length, longer, Text.byteLength_append]

/-! ## Edits in order -/

namespace EditedText

/-- The edits are in ascending order and apart, and each replaces some whole characters. -/
structure Fits (t : EditedText) : Prop where
  apart : t.edits.Pairwise fun e f => e.stop ≤ f.start
  nonempty : ∀ e ∈ t.edits, e.start < e.stop
  boundaries : ∀ e ∈ t.edits, Text.IsBoundary e.start t.source.toList ∧
    Text.IsBoundary e.stop t.source.toList

theorem fits_ofSource (source : String) : (ofSource source).Fits :=
  ⟨.nil, nofun, nofun⟩

theorem pairwise_insertEdit {e : Edit} {edits recorded : List Edit} (here : e.start < e.stop)
    (nonempty : ∀ f ∈ edits, f.start < f.stop)
    (apart : edits.Pairwise fun e f => e.stop ≤ f.start)
    (h : insertEdit e edits = some recorded) :
    recorded.Pairwise fun e f => e.stop ≤ f.start := by
  induction edits generalizing recorded with
  | nil =>
    cases h
    exact List.pairwise_singleton _ _
  | cons f rest ih =>
    have others := fun g mem => nonempty g (List.mem_cons_of_mem _ mem)
    obtain ⟨first, apart⟩ := List.pairwise_cons.1 apart
    unfold insertEdit at h
    split at h
    · split at h
      · cases h
      · rename_i clear
        obtain ⟨more, inserted, rfl⟩ := Option.map_eq_some_iff.1 h
        refine List.pairwise_cons.2 ⟨?_, ih others apart inserted⟩
        intro g mem
        rcases List.mem_cons.1 ((perm_of_insertEdit inserted).mem_iff.1 mem) with rfl | old
        · exact Nat.not_lt.1 clear
        · exact first g old
    · split at h
      · cases h
      · rename_i clear
        cases h
        have ahead : e.stop ≤ f.start := Nat.not_lt.1 clear
        refine List.pairwise_cons.2 ⟨?_, List.pairwise_cons.2 ⟨first, apart⟩⟩
        intro g mem
        rcases List.mem_cons.1 mem with rfl | later
        · exact ahead
        · have own := nonempty f List.mem_cons_self
          have next := first g later
          omega

/-- An edit that is not refused. -/
theorem Fits.overwrite {t after : EditedText} {start stop : Nat} {content : String}
    (fits : t.Fits) (h : t.overwrite start stop content = .ok after) :
    after.Fits ∧ after.source = t.source ∧
      after.edits.Perm (⟨start, stop, content⟩ :: t.edits) := by
  unfold EditedText.overwrite at h
  split at h
  · cases h
  · split at h
    · cases h
    · split at h
      · cases h
      · split at h
        · cases h
        · rename_i some _ boundaries _ edits inserted
          cases h
          have perm := perm_of_insertEdit inserted
          have here : start < stop := Nat.not_le.1 some
          refine ⟨⟨?_, ?_, ?_⟩, rfl, perm⟩
          · exact pairwise_insertEdit here fits.nonempty fits.apart inserted
          · intro e mem
            rcases List.mem_cons.1 (perm.mem_iff.1 mem) with rfl | old
            · exact here
            · exact fits.nonempty e old
          · intro e mem
            rcases List.mem_cons.1 (perm.mem_iff.1 mem) with rfl | old
            · exact Decidable.of_not_not boundaries
            · exact fits.boundaries e old

theorem insertEdit_of_behind {e : Edit} {edits : List Edit}
    (behind : ∀ f ∈ edits, f.start < e.start ∧ f.stop ≤ e.start) :
    insertEdit e edits = some (edits ++ [e]) := by
  induction edits with
  | nil => rfl
  | cons f edits ih =>
    obtain ⟨first, clear⟩ := behind f List.mem_cons_self
    rw [insertEdit, if_pos first, if_neg (Nat.not_lt.2 clear),
      ih fun g mem => behind g (List.mem_cons_of_mem _ mem)]
    rfl

/-- An edit behind all others is not refused. -/
theorem overwrite_of_behind {t : EditedText} {before old rest : List Char}
    (cut : t.source.toList = before ++ (old ++ rest)) (some : old ≠ [])
    (clear : ∀ f ∈ t.edits, f.start < byteLength before ∧ f.stop ≤ byteLength before)
    (content : String) :
    t.overwrite (byteLength before) (byteLength before + byteLength old) content =
      .ok { t with
        edits := t.edits ++
          [⟨byteLength before, byteLength before + byteLength old, content⟩] } := by
  have positive : 0 < byteLength old := by
    cases old with
    | nil => exact absurd rfl some
    | cons c old => exact Nat.add_pos_left c.utf8Size_pos _
  have size : t.source.utf8ByteSize = byteLength before + (byteLength old + byteLength rest) := by
    rw [Text.utf8ByteSize_eq, cut, Text.byteLength_append, Text.byteLength_append]
  have first : Text.IsBoundary (byteLength before) t.source.toList :=
    Text.isBoundary_iff.2 ⟨before, old ++ rest, cut, rfl⟩
  have last : Text.IsBoundary (byteLength before + byteLength old) t.source.toList :=
    Text.isBoundary_iff.2 ⟨before ++ old, rest, by rw [cut, List.append_assoc],
      Text.byteLength_append _ _⟩
  rw [overwrite, if_neg (by omega), if_neg (by omega), if_neg (not_not_intro ⟨first, last⟩),
    insertEdit_of_behind clear]

/-! ## Reading the spans -/

/-- The first edit cuts the rest of the source. -/
theorem spansFrom_cons {cursor : Nat} {kept old : List Char} {e : Edit} (rest : List Char)
    (edits : List Edit) (start : e.start = cursor + byteLength kept)
    (stop : e.stop = e.start + byteLength old) :
    spansFrom cursor (kept ++ (old ++ rest)) (e :: edits) =
      .kept kept :: .replaced old e.content.toList :: spansFrom e.stop rest edits := by
  have cutKept : e.start - cursor = byteLength kept := by omega
  have cutOld : e.stop - e.start = byteLength old := by omega
  rw [spansFrom, cutKept, cutOld, Text.takeBytes_byteLength_append,
    Text.dropBytes_byteLength_append, Text.takeBytes_byteLength_append,
    Text.dropBytes_byteLength_append]

theorem replaced_spansFrom (before rest : List Char) {edits : List Edit}
    (apart : edits.Pairwise fun e f => e.stop ≤ f.start)
    (nonempty : ∀ e ∈ edits, e.start < e.stop)
    (boundaries : ∀ e ∈ edits, Text.IsBoundary e.start (before ++ rest) ∧
      Text.IsBoundary e.stop (before ++ rest))
    (ahead : ∀ e ∈ edits, byteLength before ≤ e.start) :
    Replaced (byteLength before) rest edits
      ((spansFrom (byteLength before) rest edits).flatMap Span.new) := by
  induction edits generalizing before rest with
  | nil =>
    have whole : (spansFrom (byteLength before) rest []).flatMap Span.new = rest := by
      simp [spansFrom, Span.new]
    rw [whole]
    exact .kept
  | cons e edits ih =>
    obtain ⟨first, apart⟩ := List.pairwise_cons.1 apart
    have here := nonempty e List.mem_cons_self
    obtain ⟨startBoundary, stopBoundary⟩ := boundaries e List.mem_cons_self
    obtain ⟨kept, more, rfl, start⟩ :=
      exists_of_isBoundary startBoundary (ahead e List.mem_cons_self)
    rw [← List.append_assoc] at stopBoundary
    obtain ⟨old, rest, rfl, stop⟩ := exists_of_isBoundary stopBoundary
      (by rw [Text.byteLength_append]; omega)
    rw [Text.byteLength_append, ← start] at stop
    have length : byteLength (before ++ (kept ++ old)) = e.stop := by
      rw [Text.byteLength_append, Text.byteLength_append]
      omega
    have spans : (spansFrom (byteLength before) (kept ++ (old ++ rest)) (e :: edits)).flatMap
        Span.new = kept ++ (e.content.toList ++
          (spansFrom e.stop rest edits).flatMap Span.new) := by
      rw [spansFrom_cons rest edits start stop]
      rfl
    rw [spans]
    refine .edit start stop ?_
    have same : before ++ (kept ++ (old ++ rest)) = before ++ (kept ++ old) ++ rest := by
      simp only [List.append_assoc]
    have others := ih (before ++ (kept ++ old)) rest apart
      (fun f mem => nonempty f (List.mem_cons_of_mem _ mem))
      (fun f mem => same ▸ boundaries f (List.mem_cons_of_mem _ mem))
      (fun f mem => length ▸ first f mem)
    rw [length] at others
    exact others

/-- The edited text is the source with the spans of the edits replaced. -/
theorem replaced_text {t : EditedText} (fits : t.Fits) :
    Replaced 0 t.source.toList t.edits t.text.toList := by
  have spans := replaced_spansFrom [] t.source.toList fits.apart fits.nonempty fits.boundaries
    (fun _ _ => Nat.zero_le _)
  rw [text, String.toList_ofList]
  exact spans

end EditedText

/-- A text without edits. -/
theorem EditedText.text_ofSource (source : String) : (ofSource source).text = source := by
  have replaced : Replaced 0 source.toList [] (ofSource source).text.toList :=
    replaced_text (fits_ofSource source)
  have same : (ofSource source).text.toList = source.toList := by
    generalize (ofSource source).text.toList = text at replaced ⊢
    generalize source.toList = cs at replaced ⊢
    cases replaced
    rfl
  exact String.toList_inj.1 same

/-! ## Reading a replaced text -/

variable {cursor : Nat} {source text : List Char} {edits earlier later : List Edit} {e : Edit}

/-- The spans of the edits follow each other. -/
theorem Replaced.pairwise (h : Replaced cursor source edits text) :
    edits.Pairwise (fun e f => e.stop ≤ f.start) ∧ ∀ e ∈ edits, cursor ≤ e.start := by
  induction h with
  | kept => exact ⟨.nil, nofun⟩
  | edit start stop _ ih =>
    obtain ⟨apart, ahead⟩ := ih
    refine ⟨List.pairwise_cons.2 ⟨ahead, apart⟩, ?_⟩
    intro f mem
    rcases List.mem_cons.1 mem with rfl | later
    · omega
    · have next := ahead f later
      omega

/-- The spans of the edits lie within the source. -/
theorem Replaced.stop_le (h : Replaced cursor source edits text) :
    ∀ e ∈ edits, e.stop ≤ cursor + byteLength source := by
  induction h with
  | kept => nofun
  | @edit cursor kept old rest text e edits start stop _ ih =>
    intro f mem
    rw [Text.byteLength_append, Text.byteLength_append]
    rcases List.mem_cons.1 mem with rfl | later
    · omega
    · have behind := ih f later
      omega

/-- The text is read off the spans. -/
theorem Replaced.flatMap_new (h : Replaced cursor source edits text) :
    (EditedText.spansFrom cursor source edits).flatMap Span.new = text := by
  induction h with
  | kept => simp [EditedText.spansFrom, Span.new]
  | edit start stop _ ih =>
    rw [EditedText.spansFrom_cons _ _ start stop]
    simp only [List.flatMap_cons, Span.new, ih]

/-- The spans of a text end in a kept text, which goes on where more text follows; those in front of
it do not depend on what follows. -/
theorem Replaced.exists_spans (h : Replaced cursor source edits text) :
    ∃ spans kept, source = spans.flatMap Span.old ++ kept ∧ text = spans.flatMap Span.new ++ kept ∧
      ∀ rest later, EditedText.spansFrom cursor (source ++ rest) (edits ++ later) =
        spans ++ EditedText.spansFrom (cursor + byteLength (spans.flatMap Span.old))
          (kept ++ rest) later := by
  induction h with
  | @kept cursor source => exact ⟨[], source, rfl, rfl, fun _ _ => rfl⟩
  | @edit cursor kept old source text e edits start stop _ ih =>
    obtain ⟨spans, last, rfl, rfl, cut⟩ := ih
    refine ⟨.kept kept :: .replaced old e.content.toList :: spans, last, ?_, ?_, ?_⟩
    · simp [Span.old]
    · simp [Span.new]
    · intro rest later
      have length : cursor + byteLength
          ((Span.kept kept :: .replaced old e.content.toList :: spans).flatMap Span.old) =
            e.stop + byteLength (spans.flatMap Span.old) := by
        simp only [List.flatMap_cons, Span.old, Text.byteLength_append]
        omega
      have next := cut rest later
      rw [length]
      simp only [List.append_assoc, List.cons_append] at next ⊢
      rw [EditedText.spansFrom_cons _ _ start stop, next]

/-- Of two edits one comes behind the other. -/
theorem Replaced.apart (h : Replaced cursor source edits text) {f : Edit} (left : e ∈ edits)
    (right : f ∈ edits) : e = f ∨ e.stop ≤ f.start ∨ f.stop ≤ e.start := by
  have ordered := h.pairwise.1
  clear h
  induction ordered with
  | nil => cases left
  | cons first _ ih =>
    rcases List.mem_cons.1 left with rfl | later
    · rcases List.mem_cons.1 right with rfl | behind
      · exact Or.inl rfl
      · exact Or.inr (Or.inl (first f behind))
    · rcases List.mem_cons.1 right with rfl | behind
      · exact Or.inr (Or.inr (first e later))
      · exact ih later behind

/-- What follows a replaced text may be replaced, too. -/
theorem Replaced.append {more more' : List Char} (h : Replaced cursor source edits text)
    (next : Replaced (cursor + byteLength source) more later more') :
    Replaced cursor (source ++ more) (edits ++ later) (text ++ more') := by
  induction h with
  | @kept cursor rest =>
    cases next with
    | kept => exact .kept
    | edit start stop others =>
      rw [List.nil_append, ← List.append_assoc rest, ← List.append_assoc rest]
      refine .edit ?_ stop others
      rw [Text.byteLength_append]
      omega
  | @edit cursor kept old rest text e edits start stop _ ih =>
    have length : cursor + byteLength (kept ++ (old ++ rest)) = e.stop + byteLength rest := by
      rw [Text.byteLength_append, Text.byteLength_append]
      omega
    simp only [List.append_assoc, List.cons_append]
    exact .edit start stop (ih (length ▸ next))

/-- An edit cuts the source and the text around its span. -/
theorem Replaced.split_edit (h : Replaced cursor source (earlier ++ e :: later) text) :
    ∃ before old behind before' behind', source = before ++ (old ++ behind) ∧
      text = before' ++ (e.content.toList ++ behind') ∧
      e.start = cursor + byteLength before ∧ e.stop = e.start + byteLength old ∧
      Replaced cursor before earlier before' ∧ Replaced e.stop behind later behind' := by
  induction earlier generalizing cursor source text with
  | nil =>
    cases h with
    | @edit _ kept old rest text' _ _ start stop others =>
      exact ⟨kept, old, rest, kept, text', rfl, rfl, start, stop, .kept, others⟩
  | cons f earlier ih =>
    cases h with
    | @edit _ kept old rest text' _ _ start stop others =>
      obtain ⟨before, old', behind, before', behind', source, text, start', stop', front, back⟩ :=
        ih others
      refine ⟨kept ++ (old ++ before), old', behind, kept ++ (f.content.toList ++ before'),
        behind', ?_, ?_, ?_, stop', .edit start stop front, back⟩
      · rw [source]
        simp only [List.append_assoc]
      · rw [text]
        simp only [List.append_assoc]
      · rw [Text.byteLength_append, Text.byteLength_append]
        omega

/-- A text with one edit. -/
theorem EditedText.toList_text_of_overwrite {source content : String}
    {before old behind : List Char} {t : EditedText}
    (cut : source.toList = before ++ (old ++ behind))
    (h : (ofSource source).overwrite (byteLength before) (byteLength before + byteLength old)
      content = .ok t) :
    t.text.toList = before ++ (content.toList ++ behind) := by
  obtain ⟨fits, same, perm⟩ := (fits_ofSource source).overwrite h
  have one : t.edits = [⟨byteLength before, byteLength before + byteLength old, content⟩] :=
    List.perm_singleton.1 perm
  have replaced := replaced_text fits
  have source_eq : t.source.toList = before ++ (old ++ behind) := by
    rw [same]
    exact cut
  rw [one, source_eq] at replaced
  generalize text : t.text.toList = new at replaced
  generalize whole : before ++ (old ++ behind) = cs at replaced
  cases replaced with
  | @edit _ kept replacedText rest tail _ _ start stop others =>
    simp only at start stop
    obtain ⟨rfl, ahead⟩ := append_inj_of_byteLength whole (by omega)
    obtain ⟨rfl, rfl⟩ := append_inj_of_byteLength ahead (by omega)
    cases others
    rfl

/-- A span that all edits keep away from is kept. -/
theorem Replaced.split_kept {before old behind : List Char}
    (h : Replaced cursor (before ++ (old ++ behind)) (earlier ++ later) text)
    (front : ∀ f ∈ earlier, f.stop ≤ cursor + byteLength before)
    (back : ∀ f ∈ later, cursor + byteLength before + byteLength old ≤ f.start) :
    ∃ before' behind', text = before' ++ (old ++ behind') ∧
      Replaced cursor before earlier before' ∧
      Replaced (cursor + byteLength before + byteLength old) behind later behind' := by
  induction earlier generalizing cursor before text with
  | nil =>
    rw [List.nil_append] at h
    generalize whole : before ++ (old ++ behind) = source at h
    cases later with
    | nil =>
      cases h with
      | kept => exact ⟨before, behind, whole.symm, .kept, .kept⟩
    | cons f later =>
      cases h with
      | @edit _ kept old' rest text' _ _ start stop others =>
        have ahead := back f List.mem_cons_self
        rw [← List.append_assoc] at whole
        obtain ⟨more, longer, split⟩ := append_of_le_byteLength whole
          (by rw [Text.byteLength_append]; omega)
        refine ⟨before, more ++ (f.content.toList ++ text'), ?_, .kept, ?_⟩
        · rw [longer]
          simp only [List.append_assoc]
        · rw [split]
          refine .edit ?_ stop others
          rw [start, longer, Text.byteLength_append, Text.byteLength_append]
          omega
  | cons f earlier ih =>
    rw [List.cons_append] at h
    generalize whole : before ++ (old ++ behind) = source at h
    cases h with
    | @edit _ kept old' rest text' _ _ start stop others =>
      have behindFirst := front f List.mem_cons_self
      rw [← List.append_assoc kept] at whole
      obtain ⟨more, longer, split⟩ := append_of_le_byteLength whole.symm
        (by rw [Text.byteLength_append]; omega)
      have length : cursor + byteLength before = f.stop + byteLength more := by
        rw [longer, Text.byteLength_append, Text.byteLength_append]
        omega
      rw [split] at others
      obtain ⟨before', behind', text, left, right⟩ := ih others
        (fun g mem => length ▸ front g (List.mem_cons_of_mem _ mem))
        (fun g mem => length ▸ back g mem)
      refine ⟨kept ++ (f.content.toList ++ before'), behind', ?_, ?_, length ▸ right⟩
      · rw [text]
        simp only [List.append_assoc]
      · rw [longer, List.append_assoc]
        exact .edit start stop left

/-- In place of the span of an edit the text reads the content of the edit. -/
theorem readsAt_of_edit (h : Replaced 0 source edits text) (mem : e ∈ edits) :
    ReadsAt source edits text e.start e.stop e.content.toList := by
  obtain ⟨earlier, later, rfl⟩ := List.append_of_mem mem
  obtain ⟨before, old, behind, before', behind', source, text, start, stop, front, back⟩ :=
    h.split_edit
  refine ⟨before, old, behind, before', behind', earlier, [e], later, source, text, rfl,
    by omega, stop, front, ?_, back⟩
  have here : Replaced e.start ([] ++ (old ++ [])) [e] ([] ++ (e.content.toList ++ [])) :=
    .edit rfl stop .kept
  simpa using here

/-- A span that no edit touches is kept between the edits before it and those behind it. -/
theorem Replaced.kept_of_apart {before old behind : List Char}
    (h : Replaced cursor (before ++ (old ++ behind)) edits text)
    (apart : ∀ e ∈ edits, e.stop ≤ cursor + byteLength before ∨
      cursor + byteLength before + byteLength old ≤ e.start)
    (nonempty : ∀ e ∈ edits, e.start < e.stop) :
    ∃ earlier later before' behind', edits = earlier ++ later ∧
      text = before' ++ (old ++ behind') ∧ Replaced cursor before earlier before' ∧
      Replaced (cursor + byteLength before + byteLength old) behind later behind' := by
  have ordered := h.pairwise.1
  have split : ∃ earlier later, edits = earlier ++ later ∧
      (∀ e ∈ earlier, e.stop ≤ cursor + byteLength before) ∧
      ∀ e ∈ later, cursor + byteLength before + byteLength old ≤ e.start := by
    clear h
    induction edits with
    | nil => exact ⟨[], [], rfl, nofun, nofun⟩
    | cons e edits ih =>
      obtain ⟨first, ordered⟩ := List.pairwise_cons.1 ordered
      rcases apart e List.mem_cons_self with front | back
      · obtain ⟨earlier, later, rfl, fronts, backs⟩ :=
          ih (fun f mem => apart f (List.mem_cons_of_mem _ mem))
            (fun f mem => nonempty f (List.mem_cons_of_mem _ mem)) ordered
        refine ⟨e :: earlier, later, rfl, ?_, backs⟩
        intro f mem
        rcases List.mem_cons.1 mem with rfl | mem
        · exact front
        · exact fronts f mem
      · refine ⟨[], e :: edits, rfl, nofun, ?_⟩
        intro f mem
        rcases List.mem_cons.1 mem with rfl | mem
        · exact back
        · have own := nonempty e List.mem_cons_self
          have next := first f mem
          omega
  obtain ⟨earlier, later, rfl, fronts, backs⟩ := split
  obtain ⟨before', behind', text, left, right⟩ := h.split_kept fronts backs
  exact ⟨earlier, later, before', behind', rfl, text, left, right⟩

/-- A span that no edit touches reads as it did. -/
theorem readsAt_of_apart (h : Replaced 0 source edits text) {before old behind : List Char}
    (cut : source = before ++ (old ++ behind))
    (apart : ∀ e ∈ edits, e.stop ≤ byteLength before ∨
      byteLength before + byteLength old ≤ e.start)
    (nonempty : ∀ e ∈ edits, e.start < e.stop) :
    ReadsAt source edits text (byteLength before) (byteLength before + byteLength old) old := by
  rw [cut] at h
  obtain ⟨earlier, later, before', behind', split, text, left, right⟩ :=
    h.kept_of_apart (by simpa using apart) nonempty
  rw [Nat.zero_add] at right
  exact ⟨before, old, behind, before', behind', earlier, [], later, cut, text, split, rfl, rfl,
    left, .kept, right⟩

end WorkerBundler
