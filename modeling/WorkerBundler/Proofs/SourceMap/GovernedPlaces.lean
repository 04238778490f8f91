import WorkerBundler.Proofs.SourceMap.Lookups
import WorkerBundler.Proofs.SourceMap.MappedPlaces

/-!
# The places of an edited text that its map governs

A map need not have a token for every character. Without them it has one where a kept text starts,
one where a line of the source starts in it, and one where an edit puts something in. This is
enough: along a line of a kept text, the edited text and the source advance alike, so that the
latest token tells the place of every character by its distance (`Token.Leads`,
`exists_leads_keptTokens`); and what an edit puts in has no other token than that of the edit.
`governs_of_accepted` says so of any edits that are all accepted, and of maps with a token for every
character, too.
-/

namespace WorkerBundler

open Text (byteLength)
open SourceMap (Token)

/-! ## Tokens that lead to a place -/

namespace SourceMap

/-- The token leads from `p` to `q`: `p` stands on the line of its generated position, and `q` as
far behind its origin as `p` behind that position. -/
def Token.Leads (t : Token) (p q : Position) : Prop :=
  ∃ distance, p = ⟨t.generated.line, t.generated.column + distance⟩ ∧
    q = ⟨t.origin.line, t.origin.column + distance⟩

variable {m : SourceMap} {t : Token} {p q : Position} {c : Char}

theorem Token.leads_self (t : Token) : t.Leads t.generated t.origin := ⟨0, rfl, rfl⟩

/-- Along a line, both places advance alike. -/
theorem Token.Leads.advance (h : t.Leads p q) (visible : c ≠ '\n') :
    t.Leads (p.advance c) (q.advance c) := by
  obtain ⟨distance, rfl, rfl⟩ := h
  refine ⟨distance + Position.units c, ?_, ?_⟩
  · rw [Position.advance, if_neg visible, Nat.add_assoc]
  · rw [Position.advance, if_neg visible, Nat.add_assoc]

theorem Token.Leads.upTo (h : t.Leads p q) : t.generated.UpTo p := by
  obtain ⟨distance, rfl, _⟩ := h
  exact Position.upTo_iff.2 (Or.inr ⟨rfl, Nat.le_add_right _ _⟩)

/-- The last token of a part governs the places up to where the next part starts. -/
theorem Ordered.governs {front part back : List Token} {next stop : Position}
    (ordered : m.Ordered) (split : m.tokens = front ++ (part ++ back))
    (last : part.getLast? = some t) (upTo : t.generated.UpTo p) (ahead : p.before next = true)
    (behind : Ascends next back stop) : m.Governs p t := by
  obtain ⟨others, rfl⟩ := List.getLast?_eq_some_iff.1 last
  have split' : m.tokens = (front ++ others) ++ t :: back := by
    rw [split]
    simp
  rw [Ordered, split'] at ordered
  obtain ⟨_, _, across⟩ := List.pairwise_append.1 ordered
  refine ⟨?_, upTo, ?_⟩
  · rw [split']
    exact List.mem_append_right _ List.mem_cons_self
  · intro u mem inFront
    rw [split'] at mem
    rcases List.mem_append.1 mem with earlier | here
    · exact Or.inr (across u earlier t List.mem_cons_self)
    · rcases List.mem_cons.1 here with rfl | later
      · exact .refl _
      · have passed := Position.before_of_before_of_upTo ahead (behind.behind u later)
        exact absurd passed (Position.not_before_iff.2 inFront)

end SourceMap

namespace EditedText

variable {o : MapOptions} {t : EditedText} {c : Char} {old new : List Char}

/-! ## Kept characters -/

theorem keptTokens_append (o : MapOptions) (isFirst : Bool) (generated origin : Position)
    (a b : List Char) : keptTokens o isFirst generated origin (a ++ b) =
      keptTokens o isFirst generated origin a ++
        keptTokens o (isFirst && a.isEmpty) (generated.advanceText a) (origin.advanceText a) b := by
  induction a generalizing isFirst generated origin with
  | nil => simp [keptTokens, Position.advanceText]
  | cons d a ih =>
    simp only [List.cons_append, keptTokens, ih, Bool.false_and, List.isEmpty_cons, Bool.and_false,
      Position.advanceText_cons]
    split <;> rfl

/-- The latest token at a visible character or in front of it leads to where the character comes
from. There is one at the start of a kept text and at the start of a line of the source. -/
theorem exists_leads_keptTokens (o : MapOptions) (visible : c ≠ '\n') {isFirst : Bool}
    {generated origin : Position} (latest : Option Token)
    (ready : isFirst = true ∨ origin.column = 0 ∨ ∃ t ∈ latest, t.Leads generated origin)
    (text : List Char) :
    ∃ t, (keptTokens o isFirst generated origin (text ++ [c])).getLast?.or latest = some t ∧
      t.Leads (generated.advanceText text) (origin.advanceText text) := by
  have step : ∀ d isFirst generated origin latest, d ≠ '\n' →
      (isFirst = true ∨ origin.column = 0 ∨ ∃ t ∈ latest, t.Leads generated origin) →
      ∃ t, (keptTokens o isFirst generated origin [d]).getLast?.or latest = some t ∧
        t.Leads generated origin := by
    intro d isFirst generated origin latest visible ready
    rw [keptTokens]
    split
    · exact ⟨_, rfl, Token.leads_self _⟩
    · rename_i skipped
      rcases ready with first | start | ⟨t, known, leads⟩
      · exact absurd ⟨visible, Or.inr (Or.inl first)⟩ skipped
      · exact absurd ⟨visible, Or.inr (Or.inr start)⟩ skipped
      · exact ⟨t, known, leads⟩
  induction text generalizing isFirst generated origin latest with
  | nil => exact step c isFirst generated origin latest visible ready
  | cons d text ih =>
    have cut := keptTokens_append o isFirst generated origin [d] (text ++ [c])
    rw [List.isEmpty_cons, Bool.and_false] at cut
    rw [List.cons_append, ← List.singleton_append, cut, List.getLast?_append, Option.or_assoc]
    apply ih
    by_cases visible : d = '\n'
    · right
      left
      rw [visible]
      rfl
    · obtain ⟨t, known, leads⟩ := step d isFirst generated origin latest visible ready
      exact Or.inr (Or.inr ⟨t, known, leads.advance visible⟩)

/-- A token governs each copied character that ends no line, and leads to where it comes from. -/
theorem exists_governs_of_copied (o : MapOptions) (visible : c ≠ '\n')
    (copied : t.Copied c old new) :
    ∃ token, (t.sourceMap o).Governs (Position.zero.advanceText new) token ∧
      token.Leads (Position.zero.advanceText new) (Position.zero.advanceText old) := by
  obtain ⟨behind, behind', earlier, later, source, _, edits, front, back⟩ := copied
  rw [← Nat.zero_add (byteLength _)] at back
  obtain ⟨spans, text, more, spans', cut, rfl, rfl⟩ := exists_kept_of_replaced front back
  have tokens : (t.sourceMap o).tokens = tokensFrom o .zero .zero t.spans := rfl
  have whole : text ++ c :: more = text ++ ([c] ++ more) := rfl
  rw [EditedText.spans, source, edits, cut, tokensFrom_append, tokensFrom, spanTokens, whole,
    ← List.append_assoc text, keptTokens_append, List.append_assoc (keptTokens _ _ _ _ _)] at tokens
  rw [Position.advanceText_append, Position.advanceText_append]
  generalize Position.zero.advanceText (spans.flatMap Span.new) = generated at tokens ⊢
  generalize Position.zero.advanceText (spans.flatMap Span.old) = origin at tokens ⊢
  obtain ⟨token, last, leads⟩ :=
    exists_leads_keptTokens o visible none (Or.inl (rfl : true = true)) text
  rw [Option.or_none] at last
  have next : generated.advanceText (Span.kept (text ++ [c] ++ more)).new =
      (generated.advanceText (text ++ [c])).advanceText more := Position.advanceText_append _ _ _
  rw [next] at tokens
  have behind := (ascends_keptTokens o ((true && (text ++ [c]).isEmpty))
    (generated.advanceText (text ++ [c])) (origin.advanceText (text ++ [c])) more).append
      (ascends_tokensFrom o _ (origin.advanceText (Span.kept (text ++ [c] ++ more)).old) spans')
  have ahead : (generated.advanceText text).before (generated.advanceText (text ++ [c])) = true := by
    rw [Position.advanceText_append]
    exact Position.before_advance _ c
  exact ⟨token, (ordered_sourceMap t o).governs tokens last leads.upTo ahead behind, leads⟩

theorem Copied.textBefore_eq (fits : t.Fits) (copied : t.Copied c old new) :
    t.textBefore (byteLength old) = new := by
  obtain ⟨behind, _, earlier, later, source, _, edits, front, back⟩ := copied
  have cut : t.CutAt old (c :: behind) new earlier later := by
    refine ⟨source, edits, front, ?_⟩
    intro f mem
    have order := back.pairwise.2 f mem
    rw [Text.byteLength_append] at order
    omega
  exact cut.textBefore_eq fits

/-! ## What edits put in -/

/-- The token of an edit governs all characters that the edit puts in. -/
theorem CutAt.governs_of_edit {e : Edit} {earlier later : List Edit}
    {before part behind front rest : List Char}
    (cut : t.CutAt before (part ++ behind) new earlier (e :: later))
    (start : e.start = byteLength before) (stop : e.stop = e.start + byteLength part)
    (content : e.content.toList = front ++ c :: rest) (o : MapOptions) :
    (t.sourceMap o).Governs (Position.zero.advanceText (new ++ front))
      ⟨Position.zero.advanceText new, Position.zero.advanceText before, some o.source, none⟩ := by
  obtain ⟨source, edits, inFront, _⟩ := cut
  obtain ⟨spans, kept, rfl, rfl, cut⟩ := inFront.exists_spans
  have start' : e.start = 0 + byteLength (spans.flatMap Span.old) + byteLength kept := by
    rw [start, Text.byteLength_append, Nat.zero_add]
  have lead : ∀ more, spans ++ .kept kept :: more = (spans ++ [.kept kept]) ++ more := by simp
  have new : (spans ++ [Span.kept kept]).flatMap Span.new = spans.flatMap Span.new ++ kept := by
    simp [Span.new]
  have old : (spans ++ [Span.kept kept]).flatMap Span.old = spans.flatMap Span.old ++ kept := by
    simp [Span.old]
  have nonempty : e.content ≠ "" := by
    intro empty
    rw [empty] at content
    cases front <;> cases content
  have tokens : (t.sourceMap o).tokens = tokensFrom o .zero .zero t.spans := rfl
  rw [EditedText.spans, source, edits, cut, spansFrom_cons _ _ start' stop, lead, tokensFrom_append,
    tokensFrom, spanTokens_replaced, if_neg nonempty, new, old] at tokens
  rw [Position.advanceText_append]
  generalize Position.zero.advanceText (spans.flatMap Span.new ++ kept) = generated at tokens ⊢
  generalize Position.zero.advanceText (spans.flatMap Span.old ++ kept) = origin at tokens ⊢
  have ahead : (generated.advanceText front).before
      (generated.advanceText (Span.replaced part e.content.toList).new) = true := by
    rw [Span.new, content, Position.advanceText_append, Position.advanceText_cons]
    exact Position.before_of_before_of_upTo (Position.before_advance _ c)
      (Position.upTo_advanceText _ rest)
  exact (ordered_sourceMap t o).governs tokens rfl (Position.upTo_advanceText generated front) ahead
    (ascends_tokensFrom o _ _ _)

/-! ## All places -/

variable {source : String} {edits : List Edit}

/-- **The map of an edited text leads each character back.** If edits are all accepted, a token
governs each character outside of them that ends no line and each character that they put in,
whether or not the map has a token for every character. A character outside the edits stands on the
line of its token, and in the source it stands as far behind the origin of the token as it stands
behind the token in the text. A character that an edit puts in comes from the start of the range of
the edit. -/
theorem governs_of_accepted (h : (ofSource source).recordAll edits = .ok t) (o : MapOptions) :
    (t.sourceMap o).Distinct ∧
      (∀ before c behind, source.toList = before ++ c :: behind → c ≠ '\n' →
        (∀ e ∈ edits, ¬(e.start ≤ byteLength before ∧ byteLength before < e.stop)) →
        (∃ behind', t.text.toList = t.textBefore (byteLength before) ++ c :: behind') ∧
        ∃ token, (t.sourceMap o).Governs
            (Position.zero.advanceText (t.textBefore (byteLength before))) token ∧
          token.source = some o.source ∧
          token.Leads (Position.zero.advanceText (t.textBefore (byteLength before)))
            (Position.zero.advanceText before)) ∧
      ∀ e ∈ edits, ∃ before old behind behind', source.toList = before ++ (old ++ behind) ∧
        byteLength before = e.start ∧ byteLength (before ++ old) = e.stop ∧
        t.text.toList = t.textBefore e.start ++ (e.content.toList ++ behind') ∧
        ∀ front c rest, e.content.toList = front ++ c :: rest →
          ∃ token, (t.sourceMap o).Governs
              (Position.zero.advanceText (t.textBefore e.start ++ front)) token ∧
            token.source = some o.source ∧ token.origin = Position.zero.advanceText before := by
  obtain ⟨fits, same⟩ := fits_of_accepted h
  have perm := (holds_of_recordAll h).recorded
  refine ⟨(ordered_sourceMap t o).nodup, ?_, ?_⟩
  · intro before c behind cut visible outside
    rw [← same] at cut
    obtain ⟨new, copied⟩ := exists_copied fits cut (by
      intro e mem
      rw [Text.byteLength_append]
      exact fits.aside_of_outside cut mem (outside e (perm.mem_iff.1 mem)))
    obtain ⟨token, governs, leads⟩ := exists_governs_of_copied o visible copied
    rw [copied.textBefore_eq fits]
    obtain ⟨_, behind', _, _, _, text, _⟩ := copied
    exact ⟨⟨behind', text⟩, token, governs, source_of_mem_tokensFrom governs.mem, leads⟩
  · intro e mem
    obtain ⟨before, old, behind, new, behind', earlier, later, cut, start, stop, text⟩ :=
      fits.exists_cut_of_edit (perm.mem_iff.2 mem)
    rw [start, cut.textBefore_eq fits]
    refine ⟨before, old, behind, behind', same ▸ cut.source, rfl, ?_, text, ?_⟩
    · rw [Text.byteLength_append, stop, start]
    · intro front c rest content
      exact ⟨_, cut.governs_of_edit start stop content o, rfl, rfl⟩

/-- Edits that delete a character, join two lines and break another one. -/
def breakingEdits : List Edit := [⟨4, 5, "D\nE"⟩, ⟨0, 1, ""⟩, ⟨2, 3, " "⟩]

/-- A map without tokens for all characters leads the last one, which has none, from column 3 to
column 4, and the start of a line that an edit begins to the start of the edit. -/
theorem governs_of_accepted_breaking : ∃ t, (ofSource "ab\ncd𝒳e").recordAll breakingEdits = .ok t ∧
    t.text = "b cD\nE𝒳e" ∧
    let m := t.sourceMap ⟨"app.js", none, false, false⟩
    m.tokens.length = 5 ∧
      (∃ token, m.lookup? ⟨1, 3⟩ = some token ∧ token.Leads ⟨1, 3⟩ ⟨1, 4⟩) ∧
      ∃ token, m.lookup? ⟨1, 0⟩ = some token ∧ token.origin = ⟨1, 1⟩ := by
  have recorded : (ofSource "ab\ncd𝒳e").recordAll breakingEdits =
      .ok ⟨"ab\ncd𝒳e", [⟨0, 1, ""⟩, ⟨2, 3, " "⟩, ⟨4, 5, "D\nE"⟩]⟩ := by
    decide
  generalize edited : (⟨"ab\ncd𝒳e", [⟨0, 1, ""⟩, ⟨2, 3, " "⟩, ⟨4, 5, "D\nE"⟩]⟩ : EditedText) = t
    at recorded
  obtain ⟨distinct, kept, put⟩ := governs_of_accepted recorded ⟨"app.js", none, false, false⟩
  refine ⟨t, recorded, edited ▸ by decide, edited ▸ by decide, ?_, ?_⟩
  · obtain ⟨_, token, governs, _, leads⟩ :=
      kept "ab\ncd𝒳".toList 'e' [] (by decide) (by decide) (by decide)
    have place : Position.zero.advanceText (t.textBefore (byteLength "ab\ncd𝒳".toList)) = ⟨1, 3⟩ :=
      edited ▸ by decide
    have origin : Position.zero.advanceText "ab\ncd𝒳".toList = ⟨1, 4⟩ := by decide
    rw [place] at governs leads
    exact ⟨token, (SourceMap.lookup?_eq_some_iff distinct).2 governs, origin ▸ leads⟩
  · obtain ⟨before, old, behind, _, source, start, _, _, each⟩ :=
      put ⟨4, 5, "D\nE"⟩ (by decide)
    obtain ⟨token, governs, _, origin⟩ := each "D\n".toList 'E' [] (by decide)
    have place : Position.zero.advanceText (t.textBefore 4 ++ "D\n".toList) = ⟨1, 0⟩ :=
      edited ▸ by decide
    have cut : "ab\ncd𝒳e".toList = "ab\nc".toList ++ "d𝒳e".toList := by decide
    obtain ⟨rfl, _⟩ := append_inj_of_byteLength (source.symm.trans cut) (start.trans (by decide))
    rw [place] at governs
    exact ⟨token, (SourceMap.lookup?_eq_some_iff distinct).2 governs, origin.trans (by decide)⟩

end EditedText

end WorkerBundler
