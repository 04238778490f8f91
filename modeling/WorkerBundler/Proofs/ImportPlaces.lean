import WorkerBundler.Proofs.ImportLeads

/-!
# Imports one by one

`importsFrom` lists the imports of one kind in the rest of a text. At each place either no import
starts, or one is `Found` there and the scan goes on behind it (`ReadsAs.induct`). Hence the imports
stand behind leads, between quotes and on one line (`ReadsAs.exists_of_mem_importsFrom`), and with
two quotes at least between one and the next (`ReadsAs.pairwise_importsFrom`), and a text without
quotes at the end of a module does not change its imports (`imports_append_of_bare`).
-/

namespace WorkerBundler.ImportScan

open Text (byteLength)

variable {kind : ImportKind} {mention? : List Char → Option Mention} {lead : List Char → Bool}
  {ending? : List Char → Option (List Char)} {atStart : Bool} {start : Nat} {c : Char}
  {cs rest more : List Char} {m : Mention}

/-- The mention stands at the start of a text that goes on with `more`, behind a lead. -/
structure Found (lead : List Char → Bool) (ending? : List Char → Option (List Char))
    (atStart : Bool) (m : Mention) (more : List Char) : Prop where
  opened : ∃ c l, m.before = c :: l ∧ Bare l ∧ opens lead atStart c l = true
  quote : isQuote m.quote = true
  clean : m.quote ∉ m.specifier
  oneLine : '\n' ∉ m.specifier
  ending : ending? (m.behind ++ more) = some m.behind

theorem bare_or_exists_quote (cs : List Char) :
    Bare cs ∨ ∃ l q tail, cs = l ++ q :: tail ∧ Bare l ∧ isQuote q = true := by
  induction cs with
  | nil => exact Or.inl bare_nil
  | cons c cs ih =>
    cases quote : isQuote c with
    | true => exact Or.inr ⟨[], c, cs, rfl, bare_nil, quote⟩
    | false =>
      rcases ih with bare | ⟨l, q, tail, rfl, bare, quote'⟩
      · exact Or.inl (List.forall_mem_cons.2 ⟨quote, bare⟩)
      · exact Or.inr ⟨c :: l, q, tail, rfl, List.forall_mem_cons.2 ⟨quote, bare⟩, quote'⟩

/-- The rule applies where an import is found. -/
theorem ReadsAs.rule_of_found (reads : ReadsAs mention? lead ending?)
    (found : Found lead ending? atStart m more) (cut : c :: rest = m.text ++ more) :
    rule mention? atStart c rest = some (m.text.length - 1, m) := by
  obtain ⟨⟨c', l, front, bare, opened⟩, quote, clean, oneLine, ending⟩ := found
  obtain ⟨before, q, specifier, behind⟩ := m
  cases front
  have cut : c :: rest = c' :: (l ++ q :: (specifier ++ q :: (behind ++ more))) := by
    simpa [Mention.text] using cut
  obtain ⟨rfl, rfl⟩ := List.cons.inj cut
  have closed := (quoted?_eq_some_iff quote).2
    ⟨specifier, (rfl : specifier ++ q :: (behind ++ more) = _), clean, oneLine, rfl⟩
  dsimp only at quote ending closed
  rw [reads.rule_append quote bare, opened, if_pos rfl, closed, Option.bind_some]
  dsimp only
  rw [ending, Option.map_some]
  simp [Mention.after]

/-- Where the rule applies an import is found. -/
theorem ReadsAs.found_of_rule (reads : ReadsAs mention? lead ending?) {n : Nat}
    (matched : rule mention? atStart c rest = some (n, m)) :
    ∃ more, c :: rest = m.text ++ more ∧ Found lead ending? atStart m more := by
  rcases bare_or_exists_quote rest with bare | ⟨l, q, tail, rfl, bare, quote⟩
  · rw [reads.rule_of_bare bare] at matched
    cases matched
  · rw [reads.rule_append quote bare] at matched
    split at matched
    · rename_i opened
      obtain ⟨⟨m', behind⟩, closed, matched⟩ := Option.bind_eq_some_iff.1 matched
      obtain ⟨ending, ended, same⟩ := Option.map_eq_some_iff.1 matched
      obtain ⟨specifier, rfl, clean, oneLine, rfl⟩ := (quoted?_eq_some_iff quote).1 closed
      obtain ⟨-, rfl⟩ := Prod.mk.inj same
      obtain ⟨more, rfl⟩ := (reads.ends ended).2
      exact ⟨more, by simp [Mention.text, Mention.after],
        ⟨c, l, by simp [Mention.after], bare, opened⟩, quote, clean, oneLine, ended⟩
    · cases matched

/-- The imports of one kind in the rest of a text, which starts at the byte `start`. -/
def importsFrom (kind : ImportKind) (mention? : List Char → Option Mention) (atStart : Bool)
    (start : Nat) (cs : List Char) : List Import :=
  (Text.hitsFrom start (Text.scanFrom (rule mention?) atStart 0 cs)).map fun (start, m) =>
    toImport kind start m

theorem importsFrom_of_none (none : rule mention? atStart c rest = none) :
    importsFrom kind mention? atStart start (c :: rest) =
      importsFrom kind mention? false (start + c.utf8Size) rest := by
  rw [importsFrom, Text.scanFrom, none]
  rfl

theorem exists_cons_of_found (found : Found lead ending? atStart m more) :
    ∃ c taken, m.text = c :: taken := by
  obtain ⟨c, l, front, -, -⟩ := found.opened
  exact ⟨c, l ++ m.quote :: (m.specifier ++ m.quote :: m.behind), by rw [Mention.text, front]; rfl⟩

theorem ReadsAs.importsFrom_of_found (reads : ReadsAs mention? lead ending?)
    (found : Found lead ending? atStart m more) :
    importsFrom kind mention? atStart start (m.text ++ more) =
      toImport kind start m ::
        importsFrom kind mention? false (start + byteLength m.text) more := by
  obtain ⟨c, taken, text⟩ := exists_cons_of_found found
  have cut : c :: (taken ++ more) = m.text ++ more := by rw [text]; rfl
  have matched := reads.rule_of_found found cut
  have length : m.text.length - 1 = taken.length := by rw [text]; rfl
  rw [length] at matched
  rw [text, List.cons_append, importsFrom, Text.scanFrom, matched]
  simp only [Text.hitsFrom, List.take_left, Text.scanFrom_skip, List.map_cons]
  rfl

/-- A scan comes to each place where no import starts, and to the place behind each import. -/
theorem ReadsAs.induct (reads : ReadsAs mention? lead ending?)
    {motive : Bool → List Char → Prop} (nil : ∀ atStart, motive atStart [])
    (none : ∀ atStart c rest, rule mention? atStart c rest = none → motive false rest →
      motive atStart (c :: rest))
    (found : ∀ atStart m more, Found lead ending? atStart m more → motive false more →
      motive atStart (m.text ++ more)) (atStart : Bool) (cs : List Char) : motive atStart cs := by
  induction length : cs.length using Nat.strong_induction_on generalizing atStart cs with
  | _ n ih =>
    subst length
    cases cs with
    | nil => exact nil atStart
    | cons c rest =>
      cases matched : rule mention? atStart c rest with
      | none => exact none atStart c rest matched (ih _ (Nat.lt_succ_self _) false rest rfl)
      | some hit =>
        obtain ⟨n, m⟩ := hit
        obtain ⟨more, cut, here⟩ := reads.found_of_rule matched
        obtain ⟨c', taken, text⟩ := exists_cons_of_found here
        rw [cut] at ih ⊢
        refine found atStart m more here (ih more.length ?_ false more rfl)
        rw [text, List.length_append, List.length_cons]
        omega

/-! ## Where the imports stand -/

theorem start_toImport (kind : ImportKind) (start : Nat) (quote : isQuote m.quote = true) :
    (toImport kind start m).start = start + byteLength m.before + 1 := by
  rw [toImport, utf8Size_of_isQuote quote]

theorem byteLength_text (quote : isQuote m.quote = true) : byteLength m.text =
    byteLength m.before + 1 + byteLength m.specifier + 1 + byteLength m.behind := by
  simp [Mention.text, utf8Size_of_isQuote quote]
  omega

theorem stop_toImport (kind : ImportKind) (start : Nat) (quote : isQuote m.quote = true) :
    (toImport kind start m).stop + 1 + byteLength m.behind = start + byteLength m.text := by
  rw [byteLength_text quote, toImport, utf8Size_of_isQuote quote]
  dsimp only
  omega

theorem stop_eq_toImport (kind : ImportKind) (start : Nat) (m : Mention) :
    (toImport kind start m).stop = (toImport kind start m).start + byteLength m.specifier := rfl

theorem lt_start_toImport (kind : ImportKind) (start : Nat)
    (found : Found lead ending? atStart m more) : start + 2 ≤ (toImport kind start m).start := by
  obtain ⟨c, l, front, -, -⟩ := found.opened
  have positive := c.utf8Size_pos
  rw [start_toImport kind start found.quote, front, Text.byteLength_cons]
  omega

theorem ReadsAs.lt_start_of_mem_importsFrom (reads : ReadsAs mention? lead ending?) {i : Import}
    (mem : i ∈ importsFrom kind mention? atStart start cs) : start + 2 ≤ i.start := by
  induction atStart, cs using reads.induct generalizing start with
  | nil => cases mem
  | none _ _ _ none ih =>
    rw [importsFrom_of_none none] at mem
    have := ih mem
    omega
  | found _ _ _ found ih =>
    rw [reads.importsFrom_of_found found] at mem
    rcases List.mem_cons.1 mem with rfl | later
    · exact lt_start_toImport kind start found
    · have := ih later
      omega

/-- Between two imports there are two quotes at least. -/
theorem ReadsAs.pairwise_importsFrom (reads : ReadsAs mention? lead ending?) :
    (importsFrom kind mention? atStart start cs).Pairwise fun i j => i.stop + 2 ≤ j.start := by
  induction atStart, cs using reads.induct generalizing start with
  | nil => exact .nil
  | none _ _ _ none ih =>
    rw [importsFrom_of_none none]
    exact ih
  | found _ m _ found ih =>
    rw [reads.importsFrom_of_found found]
    refine List.pairwise_cons.2 ⟨?_, ih⟩
    intro j later
    have := reads.lt_start_of_mem_importsFrom later
    have := stop_toImport kind start found.quote
    omega

theorem ReadsAs.exists_of_mem_importsFrom (reads : ReadsAs mention? lead ending?)
    {front : List Char} {i : Import}
    (mem : i ∈ importsFrom kind mention? front.isEmpty (byteLength front) cs) :
    ∃ before q specifier behind, front ++ cs = before ++ q :: (specifier ++ q :: behind) ∧
      isQuote q = true ∧ q ∉ specifier ∧ '\n' ∉ specifier ∧ endsInLead lead true before = true ∧
      i = toImport kind (byteLength before) ⟨[], q, specifier, []⟩ := by
  generalize empty : front.isEmpty = atStart at mem
  induction atStart, cs using reads.induct generalizing front with
  | nil => cases mem
  | none _ c _ none ih =>
    rw [importsFrom_of_none none] at mem
    have moved := @ih (front ++ [c]) (by simp) (by simpa using mem)
    rwa [← List.append_cons] at moved
  | found _ m more found ih =>
    rw [reads.importsFrom_of_found found] at mem
    rcases List.mem_cons.1 mem with rfl | later
    · obtain ⟨c, l, opened, bare, opens⟩ := found.opened
      refine ⟨front ++ m.before, m.quote, m.specifier, m.behind ++ more, ?_, found.quote,
        found.clean, found.oneLine, ?_, ?_⟩
      · simp [Mention.text]
      · rw [opened]
        exact endsInLead_append front (by rw [empty, Bool.and_true]; exact opens)
      · simp [toImport, Nat.add_assoc]
    · have some : (front ++ m.text).isEmpty = false := by
        obtain ⟨c, taken, text⟩ := exists_cons_of_found found
        simp [text]
      have moved := @ih (front ++ m.text) some (by simpa using later)
      rwa [List.append_assoc] at moved


/-! ## Texts that end without quotes -/

/-- The closing quote of a quoted text is not sought in text that lacks it. -/
theorem quoted?_append_of_bare {q : Char} (quote : isQuote q = true) (bare : Bare more)
    (tail : List Char) : quoted? (q :: (tail ++ more)) =
      (quoted? (q :: tail)).map fun (m, behind) => (m, behind ++ more) := by
  ext ⟨m, behind⟩
  rw [quoted?_eq_some_iff quote, Option.map_eq_some_iff]
  constructor
  · rintro ⟨specifier, text, clean, oneLine, rfl⟩
    rcases List.append_eq_append_iff.1 text with ⟨within, rfl, cut⟩ | ⟨within, rfl, cut⟩
    · have listed : q ∈ more := cut ▸ List.mem_append_right _ List.mem_cons_self
      rw [bare q listed] at quote
      cases quote
    · rcases List.cons_eq_append_iff.1 cut with ⟨rfl, rfl⟩ | ⟨behind', rfl, rfl⟩
      · have other := bare.head
        rw [quote] at other
        cases other
      · exact ⟨_, (quoted?_eq_some_iff quote).2 ⟨specifier, rfl, clean, oneLine, rfl⟩, rfl⟩
  · rintro ⟨⟨m', behind'⟩, closed, same⟩
    obtain ⟨rfl, rfl⟩ := Prod.mk.inj same
    obtain ⟨specifier, rfl, clean, oneLine, named⟩ := (quoted?_eq_some_iff quote).1 closed
    exact ⟨specifier, by simp, clean, oneLine, named⟩

/-- Text without a quote at the end takes no part in a match, unless it completes one. -/
theorem ReadsAs.rule_append_of_bare (reads : ReadsAs mention? lead ending?) (bare : Bare more)
    (idle : ∀ behind, ending? (behind ++ more) = ending? behind) (atStart : Bool) (c : Char)
    (rest : List Char) : rule mention? atStart c (rest ++ more) = rule mention? atStart c rest := by
  rcases bare_or_exists_quote rest with bare' | ⟨l, q, tail, rfl, bare', quote⟩
  · have whole : Bare (rest ++ more) := List.forall_mem_append.2 ⟨bare', bare⟩
    rw [reads.rule_of_bare bare', reads.rule_of_bare whole]
  · rw [List.append_assoc, List.cons_append, reads.rule_append quote bare',
      reads.rule_append quote bare', quoted?_append_of_bare quote bare]
    split
    · cases quoted? (q :: tail) with
      | none => rfl
      | some read => simp only [Option.map_some, Option.bind_some, idle]
    · rfl

theorem ReadsAs.importsFrom_of_bare (reads : ReadsAs mention? lead ending?) (bare : Bare cs) :
    importsFrom kind mention? atStart start cs = [] := by
  induction cs generalizing atStart start with
  | nil => rfl
  | cons c cs ih =>
    rw [importsFrom_of_none (reads.rule_of_bare bare.tail atStart c)]
    exact ih bare.tail

theorem ReadsAs.importsFrom_append_of_bare (reads : ReadsAs mention? lead ending?)
    (bare : Bare more) (idle : ∀ behind, ending? (behind ++ more) = ending? behind) :
    importsFrom kind mention? atStart start (cs ++ more) =
      importsFrom kind mention? atStart start cs := by
  induction atStart, cs using reads.induct generalizing start with
  | nil => exact reads.importsFrom_of_bare bare
  | none atStart c rest none ih =>
    have none' : rule mention? atStart c (rest ++ more) = .none :=
      (reads.rule_append_of_bare bare idle atStart c rest).trans none
    rw [List.cons_append, importsFrom_of_none none, importsFrom_of_none none', ih]
  | found atStart m rest found ih =>
    have found' : Found lead ending? atStart m (rest ++ more) := by
      refine { found with ending := ?_ }
      rw [← List.append_assoc, idle, found.ending]
    rw [List.append_assoc, reads.importsFrom_of_found found, reads.importsFrom_of_found found', ih]

theorem dynamicEnding?_append {c : Char} (solid : Text.isBlank c = false) (other : c ≠ ')')
    (behind more : List Char) :
    dynamicEnding? (behind ++ c :: more) = dynamicEnding? behind := by
  rw [dynamicEnding?, dynamicEnding?, takeWhile_append_of_solid solid, drop_takeWhile_append]
  cases behind.drop (behind.takeWhile Text.isBlank).length with
  | nil =>
    have none_found : Text.after? [')'] (c :: more) = none := if_neg (Ne.symm other)
    rw [List.nil_append, none_found]
    rfl
  | cons d rest =>
    rw [List.cons_append, Text.after?]
    split
    · rename_i closed
      rw [← closed]
      rfl
    · rename_i differs
      have none_found : Text.after? [')'] (d :: rest) = none := if_neg differs
      rw [none_found]

/-- **Text without quotes at the end of a module adds no import and takes none away**, unless it
may close the parenthesis of one. -/
theorem imports_append_of_bare {code tail : String} {c : Char} (cut : tail.toList = c :: more)
    (bare : Bare (c :: more)) (solid : Text.isBlank c = false) (other : c ≠ ')') :
    imports (code ++ tail) = imports code := by
  have static : importsOf .static static? (code ++ tail).toList =
      importsOf .static static? code.toList := by
    rw [String.toList_append, cut]
    exact readsAs_static.importsFrom_append_of_bare bare fun _ => rfl
  have dynamic : importsOf .dynamic dynamic? (code ++ tail).toList =
      importsOf .dynamic dynamic? code.toList := by
    rw [String.toList_append, cut]
    exact readsAs_dynamic.importsFrom_append_of_bare bare fun behind =>
      dynamicEnding?_append solid other behind more
  rw [imports, imports, static, dynamic]

end WorkerBundler.ImportScan
