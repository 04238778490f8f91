import Mathlib.Data.List.TakeWhile
import WorkerBundler.Proofs.ImportSpans

/-!
# Import leads

What stands in front of the first quote of an import is its lead: the keyword and, perhaps, a clause
or a parenthesis. Leads have no quotes (`Bare`), so whether an import is read at the start of a text
depends on the lead, on the quoted text behind it, and on what has to follow. `ReadsAs` states this
for a reader of imports; `readsAs_static` and `readsAs_dynamic` are the two readers.
-/

namespace WorkerBundler.ImportScan

/-- Whether a character can stand at both ends of a specifier. -/
def isQuote (c : Char) : Bool := c = '\'' || c = '"'

/-- The text has no quotes. -/
def Bare (cs : List Char) : Prop := ∀ c ∈ cs, isQuote c = false

instance (cs : List Char) : Decidable (Bare cs) :=
  List.decidableBAll _ cs

/-- Whether the text consists of a word and blanks. -/
def wordLead (word cs : List Char) : Bool :=
  match Text.after? word cs with
  | none => false
  | some rest => rest.all Text.isBlank

/-- Whether the text is a clause that ends in `from`. -/
def clauseLead (inWord : Bool) : List Char → Bool
  | [] => false
  | c :: rest =>
    (!inWord && wordLead "from".toList (c :: rest)) ||
      (isClauseChar c && clauseLead (Text.isWord c) rest)

/-- Whether the text is what stands between the keyword and the quote of a static import. -/
def staticTailLead (cs : List Char) : Bool :=
  let blanks := cs.takeWhile Text.isBlank
  let rest := cs.drop blanks.length
  rest.isEmpty || clauseLead blanks.isEmpty rest

/-- Whether the text is the lead of a static import. -/
def staticLead (cs : List Char) : Bool :=
  let keyword (word : List Char) : Bool :=
    match Text.after? word cs with
    | none => false
    | some rest => staticTailLead rest
  keyword "import".toList || keyword "export".toList

/-- Whether the text is the lead of a dynamic import. -/
def dynamicLead (cs : List Char) : Bool :=
  match Text.after? "import".toList cs with
  | none => false
  | some rest => wordLead ['('] (rest.drop (rest.takeWhile Text.isBlank).length)

/-- What has to follow the closing quote of a dynamic import: blanks and a parenthesis. -/
def dynamicEnding? (behind : List Char) : Option (List Char) :=
  let more := behind.takeWhile Text.isBlank
  (Text.after? [')'] (behind.drop more.length)).map fun _ => more ++ [')']

/-! ## Texts cut at their first quote -/

variable {l cs rest word : List Char} {q : Char}

theorem not_isBlank_of_isQuote (quote : isQuote q = true) : Text.isBlank q = false := by
  rw [isQuote, Bool.or_eq_true, decide_eq_true_iff, decide_eq_true_iff] at quote
  rcases quote with rfl | rfl <;> decide

theorem bare_nil : Bare [] :=
  fun _ mem => absurd mem List.not_mem_nil

theorem Bare.tail {c : Char} (bare : Bare (c :: l)) : Bare l :=
  fun x mem => bare x (List.mem_cons_of_mem c mem)

theorem Bare.head {c : Char} (bare : Bare (c :: l)) : isQuote c = false :=
  bare c List.mem_cons_self

theorem Bare.of_subset {l' : List Char} (bare : Bare l) (sub : l' ⊆ l) : Bare l' :=
  fun x mem => bare x (sub mem)

theorem takeWhile_append_of_solid {c : Char} (solid : Text.isBlank c = false) (l rest : List Char) :
    (l ++ c :: rest).takeWhile Text.isBlank = l.takeWhile Text.isBlank := by
  induction l with
  | nil => rw [List.nil_append, List.takeWhile_cons, solid]; rfl
  | cons d l ih => rw [List.cons_append, List.takeWhile_cons, List.takeWhile_cons, ih]

theorem takeWhile_isBlank_append (quote : isQuote q = true) (l rest : List Char) :
    (l ++ q :: rest).takeWhile Text.isBlank = l.takeWhile Text.isBlank :=
  takeWhile_append_of_solid (not_isBlank_of_isQuote quote) l rest

theorem drop_takeWhile_append (l rest : List Char) :
    (l ++ rest).drop (l.takeWhile Text.isBlank).length =
      l.drop (l.takeWhile Text.isBlank).length ++ rest :=
  List.drop_append_of_le_length (List.takeWhile_prefix _).length_le

theorem after?_append_quote (quote : isQuote q = true) (bare : Bare word) (l rest : List Char) :
    Text.after? word (l ++ q :: rest) = (Text.after? word l).map (· ++ q :: rest) := by
  induction word generalizing l with
  | nil => rfl
  | cons w word ih =>
    cases l with
    | nil =>
      have other : w ≠ q := by
        rintro rfl
        rw [bare.head] at quote
        cases quote
      exact if_neg other
    | cons c l =>
      rw [List.cons_append, Text.after?, Text.after?, ih bare.tail]
      split <;> rfl

/-- A quoted text starts with its quote. -/
theorem quoted?_of_bare (bare : Bare l) (nonempty : l ≠ []) (rest : List Char) :
    quoted? (l ++ rest) = none := by
  cases l with
  | nil => exact absurd rfl nonempty
  | cons c l =>
    have plain := bare.head
    rw [isQuote, Bool.or_eq_false_iff, decide_eq_false_iff_not, decide_eq_false_iff_not] at plain
    rw [List.cons_append, quoted?, if_neg (not_or.2 plain)]

theorem takeWhile_append_of_clean {a : List Char} (clean : q ∉ a ∧ '\n' ∉ a) (b : List Char) :
    (a ++ b).takeWhile (fun d => d ≠ q ∧ d ≠ '\n') =
      a ++ b.takeWhile fun d => d ≠ q ∧ d ≠ '\n' := by
  refine List.takeWhile_append_of_pos fun d mem => decide_eq_true ⟨?_, ?_⟩
  · rintro rfl
    exact clean.1 mem
  · rintro rfl
    exact clean.2 mem

theorem takeWhile_append_quote {a : List Char} (clean : q ∉ a ∧ '\n' ∉ a) (b : List Char) :
    (a ++ q :: b).takeWhile (fun d => d ≠ q ∧ d ≠ '\n') = a := by
  rw [takeWhile_append_of_clean clean, List.takeWhile_cons_of_neg (by simp), List.append_nil]

theorem quoted?_eq_some_iff (quote : isQuote q = true) {m : Mention} {behind : List Char} :
    quoted? (q :: rest) = some (m, behind) ↔
      ∃ specifier, rest = specifier ++ q :: behind ∧ q ∉ specifier ∧ '\n' ∉ specifier ∧
        m = ⟨[], q, specifier, []⟩ := by
  have quote' : q = '\'' ∨ q = '"' := by simpa [isQuote] using quote
  rw [quoted?, if_pos quote']
  dsimp only
  constructor
  · intro h
    split at h
    · cases h
    · rename_i c behind' closing
      split at h
      · rename_i same
        have whole := Text.takeWhile_append_drop (fun c => c ≠ q ∧ c ≠ '\n') rest
        rw [closing, same] at whole
        cases h
        refine ⟨_, whole.symm, ?_, ?_, rfl⟩
        · intro mem
          simpa using List.all_eq_true.1 List.all_takeWhile q mem
        · intro mem
          simpa using List.all_eq_true.1 List.all_takeWhile '\n' mem
      · cases h
  · rintro ⟨specifier, rfl, unquoted, oneLine, rfl⟩
    rw [takeWhile_append_quote ⟨unquoted, oneLine⟩, List.drop_left]
    exact if_pos rfl

/-! ## Reading behind a lead -/

theorem after_after (m : Mention) (front more : List Char) :
    (m.after more).after front = m.after (front ++ more) := by
  rw [Mention.after, Mention.after, Mention.after, List.append_assoc]

theorem drop_ne_nil_of_not_blank (some : ¬l.all Text.isBlank = true) :
    l.drop (l.takeWhile Text.isBlank).length ≠ [] := by
  intro none
  have whole := Text.takeWhile_append_drop Text.isBlank l
  rw [none, List.append_nil] at whole
  exact some (whole ▸ List.all_takeWhile)

theorem not_isClauseChar_of_isQuote (quote : isQuote q = true) : isClauseChar q = false := by
  rw [isQuote, Bool.or_eq_true, decide_eq_true_iff, decide_eq_true_iff] at quote
  rcases quote with rfl | rfl <;> decide

theorem wordThenQuoted?_append (quote : isQuote q = true) (plain : Bare word) (bare : Bare l)
    (rest : List Char) :
    wordThenQuoted? word (l ++ q :: rest) =
      if wordLead word l then (quoted? (q :: rest)).map fun (m, behind) => (m.after l, behind)
      else none := by
  rw [wordThenQuoted?, after?_append_quote quote plain, wordLead]
  cases found : Text.after? word l with
  | none => rfl
  | some more =>
    obtain rfl := Text.after?_eq_some_iff.1 found
    simp only [Option.map_some]
    rw [takeWhile_isBlank_append quote, drop_takeWhile_append]
    by_cases blank : more.all Text.isBlank = true
    · have whole : more.takeWhile Text.isBlank = more :=
        List.takeWhile_eq_self_iff.2 (List.all_eq_true.1 blank)
      rw [if_pos blank, whole, List.drop_length, List.nil_append]
    · have left := drop_ne_nil_of_not_blank blank
      rw [if_neg blank, quoted?_of_bare (bare.of_subset ?_) left, Option.map_none]
      exact List.Subset.trans (List.drop_subset _ _) (List.subset_append_right _ _)

theorem clause?_append (quote : isQuote q = true) (bare : Bare l) (inWord : Bool)
    (rest : List Char) :
    clause? inWord (l ++ q :: rest) =
      if clauseLead inWord l then (quoted? (q :: rest)).map fun (m, _) => m.after l else none := by
  have plain : Bare "from".toList := by decide
  induction l generalizing inWord with
  | nil =>
    have word := wordThenQuoted?_append quote plain bare rest
    rw [List.nil_append] at word ⊢
    rw [clause?, word, not_isClauseChar_of_isQuote quote]
    cases inWord <;> rfl
  | cons c l ih =>
    have word := wordThenQuoted?_append quote plain bare rest
    rw [List.cons_append] at word ⊢
    rw [clause?, clauseLead, word, ih bare.tail]
    cases quoted? (q :: rest) with
    | none => cases inWord <;> simp
    | some read =>
      cases inWord <;> cases wordLead "from".toList (c :: l) <;> cases isClauseChar c <;>
        cases clauseLead (Text.isWord c) l <;> rfl

theorem staticTail?_append (quote : isQuote q = true) (bare : Bare l) (rest : List Char) :
    staticTail? (l ++ q :: rest) =
      if staticTailLead l then (quoted? (q :: rest)).map fun (m, _) => m.after l else none := by
  have whole := Text.takeWhile_append_drop Text.isBlank l
  rw [staticTail?, staticTailLead]
  dsimp only
  rw [takeWhile_isBlank_append quote, drop_takeWhile_append]
  generalize l.takeWhile Text.isBlank = blanks at whole ⊢
  generalize l.drop blanks.length = more at whole ⊢
  have bare' : Bare more := bare.of_subset (whole ▸ List.subset_append_right _ _)
  rw [clause?_append quote bare', ← whole]
  cases more with
  | nil =>
    rw [List.nil_append, List.append_nil]
    cases quoted? (q :: rest) with
    | none => rfl
    | some read => rfl
  | cons c more =>
    rw [quoted?_of_bare bare' (List.cons_ne_nil c more)]
    cases quoted? (q :: rest) with
    | none => cases clauseLead blanks.isEmpty (c :: more) <;> rfl
    | some read =>
      cases clauseLead blanks.isEmpty (c :: more) with
      | false => rfl
      | true => exact congrArg some (after_after _ _ _)

/-- A reader of imports reads a lead, a quoted text and what has to follow. -/
structure ReadsAs (mention? : List Char → Option Mention) (lead : List Char → Bool)
    (ending? : List Char → Option (List Char)) : Prop where
  sound : ∀ {cs m}, mention? cs = some m → ∃ rest, m.Reads cs rest
  empty : lead [] = false
  append : ∀ {q l}, isQuote q = true → Bare l → ∀ rest, mention? (l ++ q :: rest) =
    if lead l then
      (quoted? (q :: rest)).bind fun (m, behind) =>
        (ending? behind).map fun ending => { m.after l with behind := ending }
    else none
  ending : ∀ {q u}, isQuote q = true → ∀ rest rest', ending? (u ++ q :: rest) =
    ending? (u ++ q :: rest')
  ends : ∀ {rest ending}, ending? rest = some ending → Bare ending ∧ ending <+: rest

theorem orElse_if {α : Type} (a b : Bool) (x : Option α) :
    ((if a then x else none) <|> if b then x else none) = if a || b then x else none := by
  cases a <;> cases b <;> cases x <;> rfl

theorem behind_of_quoted? {m : Mention} {behind : List Char} (quote : isQuote q = true)
    (h : quoted? (q :: rest) = some (m, behind)) : m.behind = [] := by
  obtain ⟨_, _, _, _, rfl⟩ := (quoted?_eq_some_iff quote).1 h
  rfl

theorem readsAs_static : ReadsAs static? staticLead fun _ => some [] where
  sound := reads_of_static
  empty := rfl
  append := by
    intro q l quote bare rest
    have keyword : ∀ word, Bare word →
        ((Text.after? word (l ++ q :: rest)).bind fun rest =>
          (staticTail? rest).map (·.after word)) =
          if (match Text.after? word l with
            | none => false
            | some rest => staticTailLead rest) then
            (quoted? (q :: rest)).map fun (m, _) => m.after l
          else none := by
      intro word plain
      rw [after?_append_quote quote plain]
      cases found : Text.after? word l with
      | none => rfl
      | some more =>
        obtain rfl := Text.after?_eq_some_iff.1 found
        have bare' : Bare more := bare.of_subset (List.subset_append_right _ _)
        simp only [Option.map_some, Option.bind_some]
        rw [staticTail?_append quote bare']
        split
        · cases quoted? (q :: rest) with
          | none => rfl
          | some read => exact congrArg some (after_after _ _ _)
        · rfl
    have same : ((quoted? (q :: rest)).bind fun (m, behind) =>
        (some []).map fun ending => { m.after l with behind := ending }) =
        (quoted? (q :: rest)).map fun (m, _) => m.after l := by
      cases found : quoted? (q :: rest) with
      | none => rfl
      | some read =>
        obtain ⟨m, behind⟩ := read
        have empty := behind_of_quoted? quote found
        obtain ⟨before, quote, specifier, _⟩ := m
        cases empty
        rfl
    rw [static?, staticLead]
    dsimp only
    rw [keyword _ (by decide), keyword _ (by decide), orElse_if, same]
  ending _ _ _ := rfl
  ends := by
    intro rest ending h
    cases h
    exact ⟨bare_nil, List.nil_prefix⟩

theorem readsAs_dynamic : ReadsAs dynamic? dynamicLead dynamicEnding? where
  sound := reads_of_dynamic
  empty := rfl
  append := by
    intro q l quote bare rest
    have plain : Bare "import".toList := by decide
    rw [dynamic?, dynamicLead, after?_append_quote quote plain]
    cases found : Text.after? "import".toList l with
    | none => rfl
    | some more =>
      obtain rfl := Text.after?_eq_some_iff.1 found
      have bare' : Bare more := bare.of_subset (List.subset_append_right _ _)
      have bare'' : Bare (more.drop (more.takeWhile Text.isBlank).length) :=
        bare'.of_subset (List.drop_subset _ _)
      simp only [Option.map_some]
      rw [takeWhile_isBlank_append quote, drop_takeWhile_append,
        wordThenQuoted?_append quote (by decide) bare'']
      have whole : "import".toList ++ more.takeWhile Text.isBlank ++
          more.drop (more.takeWhile Text.isBlank).length = "import".toList ++ more := by
        rw [List.append_assoc, Text.takeWhile_append_drop]
      cases wordLead ['('] (more.drop (more.takeWhile Text.isBlank).length) with
      | false => rfl
      | true =>
        cases quoted? (q :: rest) with
        | none => rfl
        | some read =>
          obtain ⟨m, behind⟩ := read
          simp only [if_true, Option.map_some, Option.bind_some, dynamicEnding?, after_after, whole,
            Option.map_map]
          split
          · rename_i closed
            rw [closed, Text.after?, if_pos rfl]
            rfl
          · rename_i other
            cases closed : Text.after? [')']
                (behind.drop (behind.takeWhile Text.isBlank).length) with
            | none => rfl
            | some tail => exact absurd (Text.after?_eq_some_iff.1 closed) (other tail)
  ending := by
    intro q u quote rest rest'
    rw [dynamicEnding?, dynamicEnding?, takeWhile_isBlank_append quote,
      takeWhile_isBlank_append quote, drop_takeWhile_append, drop_takeWhile_append,
      after?_append_quote quote (by decide), after?_append_quote quote (by decide),
      Option.map_map, Option.map_map]
    rfl
  ends := by
    intro rest ending h
    obtain ⟨more, found, rfl⟩ := Option.map_eq_some_iff.1 h
    have whole := Text.takeWhile_append_drop Text.isBlank rest
    rw [Text.after?_eq_some_iff.1 found, ← List.append_assoc] at whole
    refine ⟨?_, more, whole⟩
    intro c mem
    rcases List.mem_append.1 mem with blank | last
    · cases quote : isQuote c with
      | false => rfl
      | true =>
        have other := List.all_eq_true.1 List.all_takeWhile c blank
        rw [not_isBlank_of_isQuote quote] at other
        cases other
    · rw [List.mem_singleton.1 last]
      decide

/-! ## Matches behind a lead -/

variable {mention? : List Char → Option Mention} {lead : List Char → Bool}
  {ending? : List Char → Option (List Char)}

/-- Whether a character and the text behind it are a lead and what has to stand in front of it. -/
def opens (lead : List Char → Bool) (atStart : Bool) (c : Char) (l : List Char) : Bool :=
  (atStart && !isQuote c && lead (c :: l)) || (endsNames c && lead l)

theorem ReadsAs.quote_append (reads : ReadsAs mention? lead ending?) (quote : isQuote q = true)
    (rest : List Char) : mention? (q :: rest) = none := by
  have whole := reads.append quote bare_nil rest
  rwa [reads.empty] at whole

/-- Behind a lead and its quote there is a match if the quoted text is closed and what has to follow
is there. -/
theorem ReadsAs.rule_append (reads : ReadsAs mention? lead ending?) (quote : isQuote q = true)
    (bare : Bare l) (atStart : Bool) (c : Char) (rest : List Char) :
    rule mention? atStart c (l ++ q :: rest) =
      if opens lead atStart c l then
        (quoted? (q :: rest)).bind fun (m, behind) => (ending? behind).map fun ending =>
          let found : Mention := { m.after (c :: l) with behind := ending }
          (found.text.length - 1, found)
      else none := by
  have here : (if atStart then mention? (c :: (l ++ q :: rest)) else none) =
      if atStart && !isQuote c && lead (c :: l) then
        (quoted? (q :: rest)).bind fun (m, behind) => (ending? behind).map fun ending =>
          { m.after (c :: l) with behind := ending }
      else none := by
    cases atStart with
    | false => rfl
    | true =>
      cases first : isQuote c with
      | true => exact reads.quote_append first _
      | false =>
        have bare' : Bare (c :: l) := List.forall_mem_cons.2 ⟨first, bare⟩
        exact reads.append quote bare' rest
  have later : (if endsNames c then (mention? (l ++ q :: rest)).map (·.after [c]) else none) =
      if endsNames c && lead l then
        (quoted? (q :: rest)).bind fun (m, behind) => (ending? behind).map fun ending =>
          { m.after (c :: l) with behind := ending }
      else none := by
    rw [reads.append quote bare]
    cases endsNames c with
    | false => rfl
    | true =>
      cases lead l with
      | false => rfl
      | true =>
        cases quoted? (q :: rest) with
        | none => rfl
        | some read => exact Option.map_map _ _ _
  unfold rule
  dsimp only
  rw [here, later, orElse_if, opens]
  split
  · cases quoted? (q :: rest) with
    | none => rfl
    | some read => exact Option.map_map _ _ _
  · rfl

/-- A match needs a quote. -/
theorem ReadsAs.rule_of_bare (reads : ReadsAs mention? lead ending?) (bare : Bare l)
    (atStart : Bool) (c : Char) : rule mention? atStart c l = none := by
  have silent : ∀ {cs}, Bare cs → mention? cs = none := by
    intro cs bare
    cases found : mention? cs with
    | none => rfl
    | some m =>
      obtain ⟨rest, reads⟩ := reads.sound found
      have quote : isQuote m.quote = true := by simpa [isQuote] using reads.quote
      have mem : m.quote ∈ cs := by
        rw [reads.text, Mention.text]
        simp
      rw [bare _ mem] at quote
      cases quote
  have here : mention? (c :: l) = none := by
    cases first : isQuote c with
    | true => exact reads.quote_append first l
    | false => exact silent (List.forall_mem_cons.2 ⟨first, bare⟩)
  rw [rule, here, silent bare]
  cases atStart <;> cases endsNames c <;> rfl

/-! ## Quoted texts behind leads -/

/-- Whether the text ends in a lead, with what has to stand in front of it. -/
def endsInLead (lead : List Char → Bool) (atStart : Bool) : List Char → Bool
  | [] => false
  | c :: rest => opens lead atStart c rest || endsInLead lead false rest

theorem endsInLead_append {atStart : Bool} {c : Char} (before : List Char)
    (opened : opens lead (before.isEmpty && atStart) c l = true) :
    endsInLead lead atStart (before ++ c :: l) = true := by
  induction before generalizing atStart with
  | nil =>
    rw [List.nil_append, endsInLead, Bool.or_eq_true]
    exact Or.inl opened
  | cons d before ih =>
    rw [List.cons_append, endsInLead, Bool.or_eq_true]
    refine Or.inr (ih ?_)
    rw [Bool.and_false]
    exact opened

/-- What stands behind the leads of a text and a quote, up to the next such quote or the end of the
line, whether or not the scan comes to it; `front` is the text in front. -/
def quotedFrom (kind : ImportKind) (lead : List Char → Bool) (front : List Char) :
    List Char → List Import
  | [] => []
  | c :: rest =>
    let here :=
      if isQuote c && endsInLead lead true front then
        [toImport kind (Text.byteLength front)
          ⟨[], c, rest.takeWhile fun d => d ≠ c ∧ d ≠ '\n', []⟩]
      else []
    here ++ quotedFrom kind lead (front ++ [c]) rest

/-- Whether a lead of the text stands in front of a quote or at the end. -/
def leadsToQuote (lead : List Char → Bool) (front : List Char) : List Char → Bool
  | [] => endsInLead lead true front
  | c :: rest =>
    (isQuote c && endsInLead lead true front) || leadsToQuote lead (front ++ [c]) rest

theorem utf8Size_of_isQuote (quote : isQuote q = true) : q.utf8Size = 1 := by
  rw [isQuote, Bool.or_eq_true, decide_eq_true_iff, decide_eq_true_iff] at quote
  rcases quote with rfl | rfl <;> rfl

theorem mem_quotedFrom (kind : ImportKind) {front before : List Char} (quote : isQuote q = true)
    (tail : List Char) (opened : endsInLead lead true (front ++ before) = true) :
    toImport kind (Text.byteLength (front ++ before))
        ⟨[], q, tail.takeWhile fun d => d ≠ q ∧ d ≠ '\n', []⟩ ∈
      quotedFrom kind lead front (before ++ q :: tail) := by
  induction before generalizing front with
  | nil =>
    rw [List.append_nil] at opened ⊢
    rw [List.nil_append, quotedFrom, quote, opened]
    exact List.mem_append_left _ List.mem_cons_self
  | cons c before ih =>
    have moved : front ++ c :: before = front ++ [c] ++ before := List.append_cons front c before
    rw [moved] at opened ⊢
    exact List.mem_append_right _ (ih opened)

theorem not_endsInLead_of_not_leadsToQuote {front before tail : List Char}
    (silent : leadsToQuote lead front (before ++ tail) = false)
    (quote : tail = [] ∨ ∃ q rest, tail = q :: rest ∧ isQuote q = true) :
    endsInLead lead true (front ++ before) = false := by
  induction before generalizing front with
  | nil =>
    rw [List.append_nil]
    rcases quote with rfl | ⟨q, rest, rfl, quote⟩
    · exact silent
    · rw [List.nil_append, leadsToQuote, quote, Bool.or_eq_false_iff] at silent
      exact silent.1
  | cons c before ih =>
    rw [List.cons_append, leadsToQuote, Bool.or_eq_false_iff] at silent
    rw [List.append_cons]
    exact ih silent.2

end WorkerBundler.ImportScan
