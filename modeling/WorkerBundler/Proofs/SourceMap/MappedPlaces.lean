import WorkerBundler.Proofs.EditCalls

/-!
# The places of a source that a map leads to

In a map of every character, a place of the source has a token if a character stands there that ends
no line and is not edited, or if an edit starts there that puts something in (`IsMapped`). Its token
leads from the position behind what the edits make of the source in front of that place
(`textBefore`) to the position of the place. `tokens_eq_mapped` says that these are all tokens, in
the order of the source, and that the edited text goes on with the character, or with what the edit
puts in, at the generated position.

The walk that makes the tokens passes kept texts and edits in turn. `CutAt` says what holds wherever
it stands: the edits it has passed make the text so far of the source so far (`CutAt.keep`,
`CutAt.edit`).
-/

namespace WorkerBundler

open Text (byteLength)
open SourceMap (Token)

/-! ## Places of a text -/

namespace Text

/-- Each character of a text behind `front`, with all that stands in front of it. -/
def places (front : List Char) : List Char → List (List Char × Char)
  | [] => []
  | c :: rest => (front, c) :: places (front ++ [c]) rest

variable {front cs : List Char} {place : List Char × Char}

theorem places_append (front a b : List Char) :
    places front (a ++ b) = places front a ++ places (front ++ a) b := by
  induction a generalizing front with
  | nil => simp [places]
  | cons c a ih => simp [places, ih]

/-- The places of a text lie within it. -/
theorem byteLength_of_mem_places (mem : place ∈ places front cs) :
    byteLength front ≤ byteLength place.1 ∧ byteLength place.1 < byteLength (front ++ cs) := by
  induction cs generalizing front with
  | nil => cases mem
  | cons c cs ih =>
    have positive := c.utf8Size_pos
    rcases List.mem_cons.1 mem with rfl | later
    · rw [byteLength_append, byteLength_cons]
      exact ⟨Nat.le_refl _, by dsimp only; omega⟩
    · have within := ih later
      rw [List.append_assoc, byteLength_append] at within
      simp only [byteLength_cons, byteLength_nil] at within
      exact ⟨by omega, within.2⟩

end Text

namespace EditedText

/-! ## Mapped places -/

/-- The place has a token in a map of every character: a character stands there that ends no line
and lies outside all edits, or an edit starts there that puts something in. -/
def IsMapped (edits : List Edit) (place : List Char × Char) : Prop :=
  (place.2 ≠ '\n' ∧
    ∀ e ∈ edits, ¬(e.start ≤ byteLength place.1 ∧ byteLength place.1 < e.stop)) ∨
  ∃ e ∈ edits, e.start = byteLength place.1 ∧ e.content ≠ ""

instance (edits : List Edit) (place : List Char × Char) : Decidable (IsMapped edits place) :=
  inferInstanceAs (Decidable (_ ∨ _))

/-- What the edits make of the source in front of byte `n`. -/
def textBefore (t : EditedText) (n : Nat) : List Char :=
  (⟨String.ofList (Text.takeBytes n t.source.toList), t.edits.filter (·.stop ≤ n)⟩ :
    EditedText).text.toList

/-- The token of a place. -/
def tokenAt (t : EditedText) (o : MapOptions) (place : List Char × Char) : Token where
  generated := Position.zero.advanceText (t.textBefore (byteLength place.1))
  origin := Position.zero.advanceText place.1
  source := some o.source
  name := none

/-- The tokens of the places in a part of the source, behind `front`. -/
def mappedTokens (t : EditedText) (o : MapOptions) (front part : List Char) : List Token :=
  ((Text.places front part).filter (IsMapped t.edits ·)).map (t.tokenAt o)

variable {t : EditedText} {o : MapOptions} {before rest new : List Char} {c : Char} {e : Edit}
  {earlier later : List Edit}

theorem mappedTokens_append (t : EditedText) (o : MapOptions) (front a b : List Char) :
    t.mappedTokens o front (a ++ b) = t.mappedTokens o front a ++ t.mappedTokens o (front ++ a) b := by
  rw [mappedTokens, Text.places_append, List.filter_append, List.map_append]
  rfl

/-- The other edits lie in front of an edit or behind it. -/
theorem Fits.of_split (fits : t.Fits) (split : t.edits = earlier ++ e :: later) :
    (∀ f ∈ earlier, f.stop ≤ e.start) ∧ ∀ f ∈ later, e.stop ≤ f.start := by
  have apart := fits.apart
  rw [split] at apart
  obtain ⟨_, behind, across⟩ := List.pairwise_append.1 apart
  exact ⟨fun f mem => across f mem e List.mem_cons_self, (List.pairwise_cons.1 behind).1⟩

/-! ## The walk over the source -/

/-- The source is cut into `before` and `rest`: the edits `earlier` make `new` of the former, and the
others, `later`, lie in the latter. -/
structure CutAt (t : EditedText) (before rest new : List Char) (earlier later : List Edit) :
    Prop where
  source : t.source.toList = before ++ rest
  edits : t.edits = earlier ++ later
  front : Replaced 0 before earlier new
  back : ∀ f ∈ later, byteLength before ≤ f.start

namespace CutAt

theorem textBefore_eq (cut : t.CutAt before rest new earlier later) (fits : t.Fits) :
    t.textBefore (byteLength before) = new := by
  have passed : t.edits.filter (·.stop ≤ byteLength before) = earlier := by
    rw [cut.edits, List.filter_append, List.filter_eq_self.2, List.filter_eq_nil_iff.2,
      List.append_nil]
    · intro f mem
      have ahead := cut.back f mem
      have own := fits.nonempty f (cut.edits ▸ List.mem_append_right _ mem)
      simp only [decide_eq_true_eq]
      omega
    · intro f mem
      simpa using cut.front.stop_le f mem
  rw [textBefore, passed, cut.source, Text.takeBytes_byteLength_append, text,
    String.toList_ofList, spans, String.toList_ofList, cut.front.flatMap_new]

theorem tokenAt_eq (cut : t.CutAt before rest new earlier later) (fits : t.Fits) :
    t.tokenAt o (before, c) = ⟨Position.zero.advanceText new, Position.zero.advanceText before,
      some o.source, none⟩ := by
  rw [tokenAt, cut.textBefore_eq fits]

/-- The walk passes a kept text. -/
theorem keep {kept : List Char} (cut : t.CutAt before (kept ++ rest) new earlier later)
    (clear : ∀ f ∈ later, byteLength (before ++ kept) ≤ f.start) :
    t.CutAt (before ++ kept) rest (new ++ kept) earlier later where
  source := by rw [cut.source, List.append_assoc]
  edits := cut.edits
  front := by
    have whole := cut.front.append (.kept : Replaced _ kept [] kept)
    rw [List.append_nil] at whole
    exact whole
  back := clear

/-- The walk passes an edit. -/
theorem edit {old : List Char} (cut : t.CutAt before (old ++ rest) new earlier (e :: later))
    (fits : t.Fits) (start : e.start = byteLength before)
    (stop : e.stop = e.start + byteLength old) :
    t.CutAt (before ++ old) rest (new ++ e.content.toList) (earlier ++ [e]) later where
  source := by rw [cut.source, List.append_assoc]
  edits := by
    rw [cut.edits, List.append_assoc]
    rfl
  front := by
    have own : Replaced e.start ([] ++ (old ++ [])) [e] ([] ++ (e.content.toList ++ [])) :=
      .edit rfl stop .kept
    apply cut.front.append
    simpa [← start] using own
  back := by
    rw [Text.byteLength_append, ← start, ← stop]
    exact (fits.of_split cut.edits).2

/-- A kept character is mapped unless it ends a line. -/
theorem isMapped_iff (cut : t.CutAt before (c :: rest) new earlier later) (fits : t.Fits)
    (clear : ∀ f ∈ later, byteLength before < f.start) :
    IsMapped t.edits (before, c) ↔ c ≠ '\n' := by
  have outside : ∀ f ∈ t.edits, f.stop ≤ byteLength before ∨ byteLength before < f.start := by
    intro f mem
    rw [cut.edits] at mem
    rcases List.mem_append.1 mem with inFront | behind
    · left
      simpa using cut.front.stop_le f inFront
    · exact Or.inr (clear f behind)
  constructor
  · rintro (⟨visible, _⟩ | ⟨f, mem, start, _⟩)
    · exact visible
    · have own := fits.nonempty f mem
      have order := outside f mem
      dsimp only at start
      omega
  · intro visible
    refine Or.inl ⟨visible, ?_⟩
    intro f mem covered
    have order := outside f mem
    dsimp only at covered
    omega

/-- The tokens of a kept text are those of its places. -/
theorem keptTokens_eq {kept : List Char} (cut : t.CutAt before (kept ++ rest) new earlier later)
    (fits : t.Fits) (every : o.everyCharacter = true)
    (clear : ∀ f ∈ later, byteLength (before ++ kept) ≤ f.start) (isFirst : Bool) :
    keptTokens o isFirst (Position.zero.advanceText new) (Position.zero.advanceText before) kept =
      t.mappedTokens o before kept := by
  induction kept generalizing before new isFirst with
  | nil => rfl
  | cons c kept ih =>
    have positive := c.utf8Size_pos
    have mapped : IsMapped t.edits (before, c) ↔ c ≠ '\n' := by
      apply cut.isMapped_iff fits
      intro f mem
      have ahead := clear f mem
      rw [Text.byteLength_append, Text.byteLength_cons] at ahead
      omega
    have here : t.CutAt before ([c] ++ (kept ++ rest)) new earlier later := cut
    have next : t.CutAt (before ++ [c]) (kept ++ rest) (new ++ [c]) earlier later := by
      apply here.keep
      intro f mem
      have ahead := clear f mem
      simp only [Text.byteLength_append, Text.byteLength_cons, Text.byteLength_nil] at ahead ⊢
      omega
    have step : ∀ cs, Position.zero.advanceText (cs ++ [c]) =
        (Position.zero.advanceText cs).advance c :=
      fun cs => Position.advanceText_append _ cs [c]
    have others := ih next (by simpa using clear) false
    rw [step, step] at others
    rw [keptTokens, mappedTokens, Text.places]
    by_cases visible : c = '\n'
    · rw [if_neg (fun both => both.1 visible), others, List.filter_cons_of_neg]
      · rfl
      · simpa using mapped.not.2 (not_not_intro visible)
    · rw [if_pos ⟨visible, Or.inl every⟩, others, List.filter_cons_of_pos, List.map_cons,
        cut.tokenAt_eq fits]
      · rfl
      · simpa using mapped.2 visible

end CutAt

/-- Of the places within an edit only the first one may be mapped. -/
theorem Fits.filter_places (fits : t.Fits) {old : List Char} (c : Char)
    (split : t.edits = earlier ++ e :: later) (start : e.start = byteLength before)
    (stop : e.stop = e.start + byteLength (c :: old)) :
    (Text.places before (c :: old)).filter (IsMapped t.edits ·) =
      if e.content = "" then [] else [(before, c)] := by
  obtain ⟨front, back⟩ := fits.of_split split
  have here : e ∈ t.edits := by
    rw [split]
    exact List.mem_append_right _ List.mem_cons_self
  -- no other edit starts within this one
  have alone : ∀ f ∈ t.edits, e.start ≤ f.start → f.start < e.stop → f = e := by
    intro f mem low high
    have own := fits.nonempty f mem
    rw [split] at mem
    rcases List.mem_append.1 mem with inFront | behind
    · have order := front f inFront
      omega
    · rcases List.mem_cons.1 behind with rfl | behind
      · rfl
      · have order := back f behind
        omega
  have mapped : ∀ place ∈ Text.places before (c :: old),
      IsMapped t.edits place ↔ e.start = byteLength place.1 ∧ e.content ≠ "" := by
    intro place mem
    have range := Text.byteLength_of_mem_places mem
    rw [Text.byteLength_append] at range
    constructor
    · rintro (⟨_, outside⟩ | ⟨f, listed, begins, content⟩)
      · exact absurd ⟨by omega, by omega⟩ (outside e here)
      · obtain rfl := alone f listed (by omega) (by omega)
        exact ⟨begins, content⟩
    · rintro ⟨begins, content⟩
      exact Or.inr ⟨e, here, begins, content⟩
  have others : (Text.places (before ++ [c]) old).filter (IsMapped t.edits ·) = [] := by
    rw [List.filter_eq_nil_iff]
    intro place mem
    have range := Text.byteLength_of_mem_places mem
    have positive := c.utf8Size_pos
    rw [Text.byteLength_append, Text.byteLength_cons] at range
    rw [decide_eq_true_eq, mapped place (List.mem_cons_of_mem _ mem)]
    omega
  have first := mapped (before, c) List.mem_cons_self
  rw [Text.places]
  by_cases empty : e.content = ""
  · rw [if_pos empty, List.filter_cons_of_neg, others]
    simpa [empty] using first
  · rw [if_neg empty, List.filter_cons_of_pos, others]
    simpa [empty, start] using first

theorem spanTokens_replaced (generated origin : Position) (old : List Char) (content : String) :
    spanTokens o generated origin (.replaced old content.toList) =
      if content = "" then [] else [⟨generated, origin, some o.source, none⟩] := by
  by_cases empty : content = ""
  · rw [if_pos empty, empty]
    rfl
  · rw [if_neg empty]
    obtain ⟨c, more, split⟩ := List.exists_cons_of_ne_nil (String.toList_eq_nil_iff.not.2 empty)
    rw [split]
    rfl

namespace CutAt

/-- The token of an edit is that of its first place. -/
theorem spanTokens_eq {old : List Char} (cut : t.CutAt before (old ++ rest) new earlier (e :: later))
    (fits : t.Fits) (start : e.start = byteLength before)
    (stop : e.stop = e.start + byteLength old) :
    spanTokens o (Position.zero.advanceText new) (Position.zero.advanceText before)
      (.replaced old e.content.toList) = t.mappedTokens o before old := by
  have own := fits.nonempty e (cut.edits ▸ List.mem_append_right _ List.mem_cons_self)
  cases old with
  | nil =>
    rw [Text.byteLength_nil] at stop
    omega
  | cons c old =>
    rw [spanTokens_replaced, mappedTokens, fits.filter_places c cut.edits start stop]
    split
    · rfl
    · rw [List.map_singleton, cut.tokenAt_eq fits]

/-- The tokens of the rest of an edited text are those of its places. -/
theorem tokensFrom_eq {cursor : Nat} {edits : List Edit} {text : List Char}
    (cut : t.CutAt before rest new earlier edits) (fits : t.Fits) (every : o.everyCharacter = true)
    (h : Replaced cursor rest edits text) (length : byteLength before = cursor) :
    tokensFrom o (Position.zero.advanceText new) (Position.zero.advanceText before)
      (spansFrom cursor rest edits) = t.mappedTokens o before rest := by
  induction h generalizing before new earlier with
  | @kept cursor rest =>
    rw [← List.append_nil rest] at cut
    have last := cut.keptTokens_eq fits every nofun true
    simp only [spansFrom, tokensFrom, List.append_nil]
    exact last
  | @edit cursor kept old rest text e edits start stop others ih =>
    have start' : e.start = byteLength (before ++ kept) := by
      rw [Text.byteLength_append, length, start]
    have ahead : ∀ f ∈ e :: edits, byteLength (before ++ kept) ≤ f.start := by
      intro f mem
      rcases List.mem_cons.1 mem with rfl | behind
      · exact Nat.le_of_eq start'.symm
      · have order := others.pairwise.2 f behind
        omega
    have between := cut.keep ahead
    have kepts := cut.keptTokens_eq (o := o) fits every ahead true
    have own := between.spanTokens_eq (o := o) fits start' stop
    have more := ih (between.edit fits start' stop) (by
      rw [Text.byteLength_append, ← start', stop])
    rw [spansFrom_cons rest edits start stop, tokensFrom, tokensFrom, mappedTokens_append,
      mappedTokens_append]
    simp only [Span.old, Span.new, ← Position.advanceText_append]
    rw [own, more, ← kepts]
    rfl

end CutAt

/-! ## What stands at a place -/

variable {source : String} {edits : List Edit} {behind : List Char}

/-- An edit that does not hold a character lies on one side of it. -/
theorem Fits.aside_of_outside (fits : t.Fits) (cut : t.source.toList = before ++ c :: behind)
    (mem : e ∈ t.edits)
    (outside : ¬(e.start ≤ byteLength before ∧ byteLength before < e.stop)) :
    e.stop ≤ byteLength before ∨ byteLength before + byteLength [c] ≤ e.start := by
  by_cases ahead : e.stop ≤ byteLength before
  · exact Or.inl ahead
  · have boundary := (fits.boundaries e mem).1
    rw [cut] at boundary
    obtain ⟨kept, rest, split, start⟩ := exists_of_isBoundary boundary (by omega)
    cases kept with
    | nil =>
      rw [Text.byteLength_nil] at start
      omega
    | cons d kept =>
      obtain ⟨rfl, _⟩ := List.cons.inj split
      right
      rw [start, Text.byteLength_cons, Text.byteLength_cons, Text.byteLength_nil]
      omega

/-- A character outside all edits stands in the edited text behind what the edits make of the source
in front of it. -/
theorem Fits.text_of_outside (fits : t.Fits) (source : t.source.toList = before ++ c :: behind)
    (outside : ∀ e ∈ t.edits, ¬(e.start ≤ byteLength before ∧ byteLength before < e.stop)) :
    ∃ behind', t.text.toList = t.textBefore (byteLength before) ++ c :: behind' := by
  have replaced : Replaced 0 (before ++ ([c] ++ behind)) t.edits t.text.toList := by
    have whole := replaced_text fits
    rw [source] at whole
    exact whole
  obtain ⟨earlier, later, new, behind', split, text, front, back⟩ := replaced.kept_of_apart
    (by simpa using fun e mem => fits.aside_of_outside source mem (outside e mem)) fits.nonempty
  have cut : t.CutAt before (c :: behind) new earlier later := by
    refine ⟨source, split, front, ?_⟩
    intro f mem
    have order := back.pairwise.2 f mem
    omega
  rw [text, cut.textBefore_eq fits]
  exact ⟨behind', rfl⟩

/-- An edit cuts the source and the edited text around it. -/
theorem Fits.exists_cut_of_edit (fits : t.Fits) (mem : e ∈ t.edits) :
    ∃ before old behind new behind' earlier later,
      t.CutAt before (old ++ behind) new earlier (e :: later) ∧ e.start = byteLength before ∧
      e.stop = e.start + byteLength old ∧ t.text.toList = new ++ (e.content.toList ++ behind') := by
  have replaced := replaced_text fits
  obtain ⟨earlier, later, split⟩ := List.append_of_mem mem
  rw [split] at replaced
  obtain ⟨before, old, behind, new, behind', source, text, start, stop, front, back⟩ :=
    replaced.split_edit
  rw [Nat.zero_add] at start
  have own := fits.nonempty e mem
  refine ⟨before, old, behind, new, behind', earlier, later, ⟨source, split, front, ?_⟩, start, stop,
    text⟩
  intro f listed
  rcases List.mem_cons.1 listed with rfl | later
  · exact Nat.le_of_eq start.symm
  · have order := back.pairwise.2 f later
    omega

/-- What an edit puts in stands in the edited text behind what the edits make of the source in front
of the edit. -/
theorem Fits.text_of_edit (fits : t.Fits) (mem : e ∈ t.edits) :
    ∃ before old behind behind', t.source.toList = before ++ (old ++ behind) ∧ old ≠ [] ∧
      byteLength before = e.start ∧ byteLength (before ++ old) = e.stop ∧
      t.text.toList = t.textBefore e.start ++ (e.content.toList ++ behind') := by
  obtain ⟨before, old, behind, new, behind', earlier, later, cut, start, stop, text⟩ :=
    fits.exists_cut_of_edit mem
  have own := fits.nonempty e mem
  refine ⟨before, old, behind, behind', cut.source, ?_, start.symm, ?_, ?_⟩
  · rintro rfl
    rw [Text.byteLength_nil] at stop
    omega
  · rw [Text.byteLength_append]
    omega
  · rw [text, start, cut.textBefore_eq fits]

/-! ## All tokens -/

/-- **The tokens of a map of every character.** There is just one for each character that ends no
line and lies outside all edits, and one for each edit that puts something in, in the order of the
source; they lead from where the character, or what the edit puts in, stands in the edited text to
where the character, or the range of the edit, stands in the source; and their positions in the
edited text ascend. -/
theorem tokens_eq_mapped (h : (ofSource source).recordAll edits = .ok t)
    (every : o.everyCharacter = true) :
    (t.sourceMap o).tokens =
        ((Text.places [] source.toList).filter (IsMapped edits ·)).map (t.tokenAt o) ∧
      (t.sourceMap o).tokens.Pairwise (fun u v => u.generated.before v.generated = true) ∧
      (∀ before c behind, source.toList = before ++ c :: behind →
        (∀ e ∈ edits, ¬(e.start ≤ byteLength before ∧ byteLength before < e.stop)) →
        ∃ behind', t.text.toList = t.textBefore (byteLength before) ++ c :: behind') ∧
      ∀ e ∈ edits, ∃ before old behind behind', source.toList = before ++ (old ++ behind) ∧
        old ≠ [] ∧ byteLength before = e.start ∧ byteLength (before ++ old) = e.stop ∧
        t.text.toList = t.textBefore e.start ++ (e.content.toList ++ behind') := by
  obtain ⟨fits, same⟩ := fits_of_accepted h
  have perm := (holds_of_recordAll h).recorded
  have mapped : ∀ place, IsMapped edits place ↔ IsMapped t.edits place := by
    intro place
    simp only [IsMapped, perm.mem_iff]
  have start : t.CutAt [] t.source.toList [] [] t.edits :=
    ⟨rfl, rfl, .kept, fun _ _ => Nat.zero_le _⟩
  refine ⟨?_, (ascends_tokens t o).ordered, ?_, ?_⟩
  · simp only [mapped, ← same]
    exact start.tokensFrom_eq fits every (replaced_text fits) rfl
  · intro before c behind cut outside
    apply fits.text_of_outside (same ▸ cut)
    intro e mem
    exact outside e (perm.mem_iff.1 mem)
  · intro e mem
    rw [← same]
    exact fits.text_of_edit (perm.mem_iff.2 mem)

/-- Edits that join two lines, break another one and delete a character. -/
def lineEdits : List Edit := [⟨6, 7, "𝒴\nB"⟩, ⟨0, 1, ""⟩, ⟨5, 6, " "⟩]

/-- Three characters are kept, and two of the edits put something in. -/
theorem tokens_eq_mapped_lines : ∃ t, (ofSource "a𝒳\nb;c").recordAll lineEdits = .ok t ∧
    t.text = "𝒳 𝒴\nB;c" ∧
    (t.sourceMap ⟨"app.js", none, true, false⟩).tokens =
      [⟨⟨0, 0⟩, ⟨0, 1⟩, some "app.js", none⟩, ⟨⟨0, 2⟩, ⟨0, 3⟩, some "app.js", none⟩,
        ⟨⟨0, 3⟩, ⟨1, 0⟩, some "app.js", none⟩, ⟨⟨1, 1⟩, ⟨1, 1⟩, some "app.js", none⟩,
        ⟨⟨1, 2⟩, ⟨1, 2⟩, some "app.js", none⟩] := by
  have recorded : (ofSource "a𝒳\nb;c").recordAll lineEdits =
      .ok ⟨"a𝒳\nb;c", [⟨0, 1, ""⟩, ⟨5, 6, " "⟩, ⟨6, 7, "𝒴\nB"⟩]⟩ := by
    decide
  obtain ⟨tokens, _⟩ := tokens_eq_mapped (o := ⟨"app.js", none, true, false⟩) recorded rfl
  refine ⟨_, recorded, by decide, ?_⟩
  rw [tokens]
  decide

end EditedText

end WorkerBundler
