import WorkerBundler.Proofs.EditedSpans

/-!
# The tokens of an edited text

The tokens of the map of an edited text stand in the order of their generated positions, no two at
the same one (`ascends_tokens`). `EditedText.Copied` says that a character of the source stands in
the edited text without being part of an edit; each character that all edits keep away from is
copied (`exists_copied`). In a map of every character, a copied one that ends no line has its token,
which leads from where it stands in the edited text to where it stands in the source
(`mem_tokens_of_copied`).
-/

namespace WorkerBundler

open Text (byteLength)

/-! ## Positions in order -/

namespace Position

variable {p q r : Position}

theorem before_iff :
    p.before q = true ↔ p.line < q.line ∨ p.line = q.line ∧ p.column < q.column := by
  simp [before]

theorem not_before_self (p : Position) : ¬p.before p = true := by
  simp [before_iff]

theorem before_trans (first : p.before q = true) (second : q.before r = true) :
    p.before r = true := by
  rw [before_iff] at first second ⊢
  omega

/-- A position comes no later than another. -/
def UpTo (p q : Position) : Prop :=
  p = q ∨ p.before q = true

theorem UpTo.refl (p : Position) : p.UpTo p := Or.inl rfl

theorem before_of_upTo_of_before (first : p.UpTo q) (second : q.before r = true) :
    p.before r = true := by
  rcases first with rfl | first
  · exact second
  · exact before_trans first second

theorem before_of_before_of_upTo (first : p.before q = true) (second : q.UpTo r) :
    p.before r = true := by
  rcases second with rfl | second
  · exact first
  · exact before_trans first second

theorem UpTo.trans (first : p.UpTo q) (second : q.UpTo r) : p.UpTo r := by
  rcases second with rfl | second
  · exact first
  · exact Or.inr (before_of_upTo_of_before first second)

theorem upTo_iff :
    p.UpTo q ↔ p.line < q.line ∨ p.line = q.line ∧ p.column ≤ q.column := by
  obtain ⟨line, column⟩ := p
  obtain ⟨line', column'⟩ := q
  simp only [UpTo, before_iff, Position.mk.injEq]
  omega

theorem not_before_iff : ¬p.before q = true ↔ q.UpTo p := by
  rw [before_iff, upTo_iff]
  omega

theorem UpTo.antisymm (first : p.UpTo q) (second : q.UpTo p) : p = q := by
  rcases first with same | first
  · exact same
  · exact absurd first (not_before_iff.2 second)

theorem units_pos (c : Char) : 0 < units c := by
  unfold units
  split <;> decide

theorem before_advance (p : Position) (c : Char) : p.before (p.advance c) = true := by
  have positive := units_pos c
  rw [before_iff, advance]
  split
  · exact Or.inl (Nat.lt_succ_self _)
  · refine Or.inr ⟨rfl, ?_⟩
    dsimp only
    omega

theorem upTo_advanceText (p : Position) (cs : List Char) : p.UpTo (p.advanceText cs) := by
  induction cs generalizing p with
  | nil => exact .refl p
  | cons c cs ih =>
    have first : p.UpTo (p.advance c) := Or.inr (before_advance p c)
    exact first.trans (ih (p.advance c))

theorem advanceText_cons (p : Position) (c : Char) (cs : List Char) :
    p.advanceText (c :: cs) = (p.advance c).advanceText cs := rfl

end Position

namespace SourceMap

/-- The tokens stand from `start` on and before `stop`, at ascending positions. -/
structure Ascends (start : Position) (tokens : List Token) (stop : Position) : Prop where
  upTo : start.UpTo stop
  ordered : tokens.Pairwise fun t u => t.generated.before u.generated = true
  behind : ∀ t ∈ tokens, start.UpTo t.generated
  ahead : ∀ t ∈ tokens, t.generated.before stop = true

variable {start middle stop : Position} {tokens front back : List Token} {t u : Token}

theorem ascends_nil (le : start.UpTo stop) : Ascends start [] stop :=
  ⟨le, .nil, nofun, nofun⟩

theorem ascends_singleton (here : start.UpTo t.generated) (ahead : t.generated.before stop = true) :
    Ascends start [t] stop := by
  refine ⟨here.trans (Or.inr ahead), List.pairwise_singleton _ _, ?_, ?_⟩
  · intro u mem
    rw [List.mem_singleton.1 mem]
    exact here
  · intro u mem
    rw [List.mem_singleton.1 mem]
    exact ahead

theorem Ascends.append (first : Ascends start front middle) (second : Ascends middle back stop) :
    Ascends start (front ++ back) stop := by
  refine ⟨first.upTo.trans second.upTo, ?_, ?_, ?_⟩
  · refine List.pairwise_append.2 ⟨first.ordered, second.ordered, ?_⟩
    intro t left u right
    exact Position.before_of_before_of_upTo (first.ahead t left) (second.behind u right)
  · intro t mem
    rcases List.mem_append.1 mem with left | right
    · exact first.behind t left
    · exact first.upTo.trans (second.behind t right)
  · intro t mem
    rcases List.mem_append.1 mem with left | right
    · exact Position.before_of_before_of_upTo (first.ahead t left) second.upTo
    · exact second.ahead t right

end SourceMap

namespace EditedText

open SourceMap (Token Ascends)

variable {o : MapOptions} {generated origin : Position}

theorem ascends_keptTokens (o : MapOptions) (isFirst : Bool) (generated origin : Position)
    (text : List Char) :
    Ascends generated (keptTokens o isFirst generated origin text)
      (generated.advanceText text) := by
  induction text generalizing isFirst generated origin with
  | nil => exact SourceMap.ascends_nil (.refl _)
  | cons c text ih =>
    have others := ih false (generated.advance c) (origin.advance c)
    have step := generated.before_advance c
    rw [keptTokens, Position.advanceText_cons]
    split
    · exact Ascends.append (SourceMap.ascends_singleton (.refl generated) step) others
    · exact (SourceMap.ascends_nil (Or.inr step)).append others

theorem ascends_spanTokens (o : MapOptions) (generated origin : Position) (s : Span) :
    Ascends generated (spanTokens o generated origin s) (generated.advanceText s.new) := by
  match s with
  | .kept text => exact ascends_keptTokens o true generated origin text
  | .replaced _ [] => exact SourceMap.ascends_nil (.refl _)
  | .replaced _ (c :: content) =>
    refine SourceMap.ascends_singleton (.refl _) ?_
    exact Position.before_of_before_of_upTo (generated.before_advance c)
      (Position.upTo_advanceText _ content)

theorem ascends_tokensFrom (o : MapOptions) (generated origin : Position) (spans : List Span) :
    Ascends generated (tokensFrom o generated origin spans)
      (generated.advanceText (spans.flatMap Span.new)) := by
  induction spans generalizing generated origin with
  | nil => exact SourceMap.ascends_nil (.refl _)
  | cons s spans ih =>
    rw [List.flatMap_cons, Position.advanceText_append]
    exact (ascends_spanTokens o generated origin s).append (ih _ _)

/-- The tokens of an edited text ascend. -/
theorem ascends_tokens (t : EditedText) (o : MapOptions) :
    Ascends .zero (t.sourceMap o).tokens (Position.zero.advanceText t.text.toList) := by
  rw [text, String.toList_ofList]
  exact ascends_tokensFrom o .zero .zero t.spans

theorem source_of_mem_keptTokens {t : Token} {isFirst : Bool} {text : List Char}
    (mem : t ∈ keptTokens o isFirst generated origin text) : t.source = some o.source := by
  induction text generalizing isFirst generated origin with
  | nil => cases mem
  | cons c rest ih =>
    unfold keptTokens at mem
    dsimp only at mem
    split at mem
    · rcases List.mem_cons.1 mem with rfl | later
      · rfl
      · exact ih later
    · exact ih mem

theorem source_of_mem_spanTokens {t : Token} {s : Span} (mem : t ∈ spanTokens o generated origin s) :
    t.source = some o.source := by
  unfold spanTokens at mem
  split at mem
  · exact source_of_mem_keptTokens mem
  · cases mem
  · rw [List.mem_singleton.1 mem]

/-- The tokens of an edited text refer to its source. -/
theorem source_of_mem_tokensFrom {t : Token} {spans : List Span}
    (mem : t ∈ tokensFrom o generated origin spans) : t.source = some o.source := by
  induction spans generalizing generated origin with
  | nil => cases mem
  | cons s rest ih =>
    rcases List.mem_append.1 mem with here | later
    · exact source_of_mem_spanTokens here
    · exact ih later

/-! ## Copied characters -/

/-- The character behind `old` in the source stands behind `new` in the edited text: the edits
before it make `new` of `old`, and all others lie behind it. -/
def Copied (t : EditedText) (c : Char) (old new : List Char) : Prop :=
  ∃ behind behind' earlier later,
    t.source.toList = old ++ c :: behind ∧ t.text.toList = new ++ c :: behind' ∧
      t.edits = earlier ++ later ∧ Replaced 0 old earlier new ∧
      Replaced (byteLength (old ++ [c])) behind later behind'

/-- A character that all edits keep away from is copied. -/
theorem exists_copied {t : EditedText} (fits : t.Fits) {c : Char} {old behind : List Char}
    (cut : t.source.toList = old ++ c :: behind)
    (apart : ∀ e ∈ t.edits, e.stop ≤ byteLength old ∨ byteLength (old ++ [c]) ≤ e.start) :
    ∃ new, t.Copied c old new := by
  have replaced := replaced_text fits
  have length : byteLength (old ++ [c]) = 0 + byteLength old + byteLength [c] := by
    rw [Text.byteLength_append, Nat.zero_add]
  have cut' : t.source.toList = old ++ ([c] ++ behind) := cut
  rw [cut'] at replaced
  obtain ⟨earlier, later, new, behind', split, text, front, back⟩ :=
    replaced.kept_of_apart (by simpa [length] using apart) fits.nonempty
  exact ⟨new, behind, behind', earlier, later, cut, text, split, front, length ▸ back⟩

/-- A copied character lies in a kept span. -/
theorem exists_kept_of_replaced {cursor : Nat} {c : Char} {old new behind behind' : List Char}
    {earlier later : List Edit} (front : Replaced cursor old earlier new)
    (back : Replaced (cursor + byteLength (old ++ [c])) behind later behind') :
    ∃ spans text more spans',
      spansFrom cursor (old ++ c :: behind) (earlier ++ later) =
          spans ++ .kept (text ++ c :: more) :: spans' ∧
        old = spans.flatMap Span.old ++ text ∧ new = spans.flatMap Span.new ++ text := by
  obtain ⟨spans, text, rfl, rfl, cut⟩ := front.exists_spans
  rw [cut]
  cases back with
  | kept => exact ⟨spans, text, behind, [], rfl, rfl, rfl⟩
  | @edit _ kept old behind _ e edits start stop others =>
    have start' : e.start =
        cursor + byteLength (spans.flatMap Span.old) + byteLength (text ++ c :: kept) := by
      simp only [Text.byteLength_append, Text.byteLength_cons, Text.byteLength_nil] at start ⊢
      omega
    have whole : text ++ c :: (kept ++ (old ++ behind)) =
        (text ++ c :: kept) ++ (old ++ behind) := by
      simp
    rw [whole, spansFrom_cons behind edits start' stop]
    exact ⟨spans, text, kept, _, rfl, rfl, rfl⟩

theorem mem_keptTokens (every : o.everyCharacter = true) {c : Char} (visible : c ≠ '\n')
    (isFirst : Bool) (generated origin : Position) (text more : List Char) :
    ⟨generated.advanceText text, origin.advanceText text, some o.source, none⟩ ∈
      keptTokens o isFirst generated origin (text ++ c :: more) := by
  induction text generalizing isFirst generated origin with
  | nil =>
    rw [List.nil_append, keptTokens, if_pos ⟨visible, Or.inl every⟩]
    exact List.mem_cons_self
  | cons d text ih =>
    have later := ih false (generated.advance d) (origin.advance d)
    rw [List.cons_append, keptTokens, Position.advanceText_cons, Position.advanceText_cons]
    split
    · exact List.mem_cons_of_mem _ later
    · exact later

theorem tokensFrom_append (o : MapOptions) (generated origin : Position)
    (front back : List Span) :
    tokensFrom o generated origin (front ++ back) =
      tokensFrom o generated origin front ++
        tokensFrom o (generated.advanceText (front.flatMap Span.new))
          (origin.advanceText (front.flatMap Span.old)) back := by
  induction front generalizing generated origin with
  | nil => rfl
  | cons s front ih =>
    simp only [List.cons_append, tokensFrom, ih, List.flatMap_cons, Position.advanceText_append,
      List.append_assoc]

/-- A copied character has its token in a map of every character. -/
theorem mem_tokens_of_copied {t : EditedText} (every : o.everyCharacter = true) {c : Char}
    (visible : c ≠ '\n') {old new : List Char} (copied : t.Copied c old new) :
    ⟨Position.zero.advanceText new, Position.zero.advanceText old, some o.source, none⟩ ∈
      (t.sourceMap o).tokens := by
  obtain ⟨behind, behind', earlier, later, source, _, edits, front, back⟩ := copied
  rw [← Nat.zero_add (byteLength _)] at back
  obtain ⟨spans, text, more, spans', cut, rfl, rfl⟩ := exists_kept_of_replaced front back
  have tokens : (t.sourceMap o).tokens = tokensFrom o .zero .zero t.spans := rfl
  rw [tokens, EditedText.spans, source, edits, cut, tokensFrom_append]
  refine List.mem_append_right _ (List.mem_append_left _ ?_)
  rw [Position.advanceText_append, Position.advanceText_append]
  exact mem_keptTokens every visible true _ _ text more

end EditedText

end WorkerBundler
