import WorkerBundler.Proofs.LeadEnds

/-!
# Import statements

A statement that imports or exports from a module is found at the start of a line, no matter what
stands in front of it (`Statement.imported_once`).

An import that starts earlier can run over the ends of lines, since its clause may hold them. Yet
the specifier of an import stands on one line: an import whose quotes stand in front of the
statement ends in front of it, too, and one that runs into the statement has its first quote there,
which is the opening quote of the statement (`Found.quotes_or_ends`). So the scan comes to the
statement, or it has found the specifier of the statement behind an earlier keyword
(`mem_importsFrom_of_line`).
-/

namespace WorkerBundler.ImportScan

open Text (byteLength)

/-! ## Statements -/

/-- What stands in front of the specifier of a statement: `import`, or a keyword, a clause and the
word `from`. As a keyword ends in a letter, the clause is not empty. -/
inductive StatementLead : List Char → Prop
  | plain {blanks : List Char} :
    (∀ c ∈ blanks, Text.isBlank c = true) → StatementLead ("import".toList ++ blanks)
  | clause {keyword clause blanks : List Char} {last : Char} :
    keyword = "import".toList ∨ keyword = "export".toList →
    (∀ c ∈ clause, isClauseChar c = true) → clause.getLast? = some last →
    Text.isWord last = false → (∀ c ∈ blanks, Text.isBlank c = true) →
    StatementLead (keyword ++ (clause ++ ("from".toList ++ blanks)))

/-- A statement that imports or exports from the module of a specifier. -/
structure Statement where
  lead : List Char
  quote : Char
  specifier : String
  isLead : StatementLead lead
  either : quote = '\'' ∨ quote = '"'
  nonempty : specifier ≠ ""
  oneLine : '\n' ∉ specifier.toList
  unquoted : quote ∉ specifier.toList

namespace Statement

/-- The text of the statement. -/
def text (s : Statement) : String :=
  String.ofList (s.lead ++ s.quote :: (s.specifier.toList ++ [s.quote]))

/-- The import of a statement that starts at the byte `place`. -/
def site (s : Statement) (place : Nat) : Import :=
  let start := place + byteLength s.lead + 1
  ⟨s.specifier, start, start + s.specifier.utf8ByteSize, .static⟩

end Statement

/-! ## The leads of statements -/

variable {clause blanks lead : List Char}

theorem clauseLead_append (each : ∀ c ∈ clause, isClauseChar c = true)
    (blank : ∀ c ∈ blanks, Text.isBlank c = true) {inWord : Bool}
    (boundary : (clause.getLast?.map Text.isWord).getD inWord = false) :
    clauseLead inWord (clause ++ ("from".toList ++ blanks)) = true := by
  induction clause generalizing inWord with
  | nil =>
    have word : wordLead "from".toList ("from".toList ++ blanks) = true := by
      rw [wordLead, Text.after?_append]
      exact List.all_eq_true.2 blank
    have free : inWord = false := boundary
    rw [List.nil_append, free]
    exact Bool.or_eq_true_iff.2 (.inl word)
  | cons c clause ih =>
    obtain ⟨first, others⟩ := List.forall_mem_cons.1 each
    rw [List.cons_append, clauseLead, Bool.or_eq_true, Bool.and_eq_true (isClauseChar c)]
    refine Or.inr ⟨first, ih others ?_⟩
    rw [List.getLast?_cons] at boundary
    cases last : clause.getLast? with
    | none =>
      rw [last] at boundary
      exact boundary
    | some d =>
      rw [last] at boundary
      exact boundary

theorem staticTailLead_append {last : Char} (each : ∀ c ∈ clause, isClauseChar c = true)
    (ends : clause.getLast? = some last) (boundary : Text.isWord last = false)
    (blank : ∀ c ∈ blanks, Text.isBlank c = true) :
    staticTailLead (clause ++ ("from".toList ++ blanks)) = true := by
  have whole := Text.takeWhile_append_drop Text.isBlank clause
  have front : (clause ++ ("from".toList ++ blanks)).takeWhile Text.isBlank =
      clause.takeWhile Text.isBlank := takeWhile_append_of_solid (by decide) clause _
  rw [staticTailLead, front, drop_takeWhile_append, Bool.or_eq_true]
  generalize clause.takeWhile Text.isBlank = before at whole ⊢
  generalize clause.drop before.length = rest at whole ⊢
  subst whole
  refine Or.inr (clauseLead_append (fun c mem => each c (List.mem_append_right _ mem)) blank ?_)
  rw [List.getLast?_append] at ends
  cases final : rest.getLast? with
  | none =>
    -- only blanks stand in front of `from`, at least one of them
    rw [final] at ends
    cases before with
    | nil => cases ends
    | cons d before => rfl
  | some d =>
    rw [final] at ends
    cases ends
    exact boundary

theorem staticLead_of_statement (h : StatementLead lead) : staticLead lead = true := by
  rw [staticLead]
  dsimp only
  cases h with
  | @plain blanks blank =>
    have all : blanks.takeWhile Text.isBlank = blanks := List.takeWhile_eq_self_iff.2 blank
    have tail : staticTailLead blanks = true := by
      rw [staticTailLead, all, List.drop_length]
      rfl
    rw [Text.after?_append, Bool.or_eq_true]
    exact Or.inl tail
  | clause keyword each ends boundary blank =>
    have tail := staticTailLead_append each ends boundary blank
    rw [Bool.or_eq_true]
    rcases keyword with rfl | rfl
    · left
      rw [Text.after?_append]
      exact tail
    · right
      rw [Text.after?_append]
      exact tail

/-! ## Statements at the start of a line -/

variable {before specifier behind more : List Char} {q : Char} {atStart : Bool} {start : Nat}
  {m : Mention}

/-- A line does not end in a quote. -/
theorem getLast?_of_quote (quote : isQuote q = true)
    (line : (q :: before).getLast? = some '\n') : before.getLast? = some '\n' := by
  rw [List.getLast?_cons] at line
  cases last : before.getLast? with
  | none =>
    rw [last] at line
    cases line
    cases quote
  | some d =>
    rw [last] at line
    exact line

/-- What is closed on its line ends in front of the next line. -/
theorem exists_append_of_line {rest after : List Char} (oneLine : '\n' ∉ specifier)
    (quote : isQuote q = true) (line : before.getLast? = some '\n')
    (same : specifier ++ q :: rest = before ++ after) :
    ∃ more, before = specifier ++ q :: more ∧ rest = more ++ after ∧
      more.getLast? = some '\n' := by
  have ends : '\n' ∈ before := List.mem_of_getLast? line
  rcases List.append_eq_append_iff.1 same with ⟨k, longer, tail⟩ | ⟨k, longer, -⟩
  · cases k with
    | nil =>
      rw [List.append_nil] at longer
      exact absurd (longer ▸ ends) oneLine
    | cons d more =>
      obtain ⟨rfl, later⟩ := List.cons.inj tail
      rw [longer, List.getLast?_append_cons] at line
      exact ⟨more, longer, later, getLast?_of_quote quote line⟩
  · exact absurd (longer ▸ List.mem_append_left k ends) oneLine

/-- Where a lead opens, the quoted text behind it is found. -/
theorem found_of_opens {c : Char} {l : List Char} (opened : opens staticLead atStart c l = true)
    (bare : Bare l) (quotable : Quotable q specifier) (behind : List Char) :
    Found staticLead (fun _ => some []) atStart ⟨c :: l, q, specifier, []⟩ behind :=
  ⟨⟨c, l, rfl, bare, opened⟩, quotable.quote, quotable.clean, quotable.oneLine, rfl⟩

/-- A quote behind the first character of a match is the quote of its specifier, or stands behind
that. -/
theorem Found.exists_append {leads : List Char → Bool} {ending? : List Char → Option (List Char)}
    {front x : List Char} (found : Found leads ending? atStart m more)
    (nonempty : front ≠ []) (quote : isQuote q = true) (cut : front ++ q :: x = m.text ++ more) :
    ∃ k, front = m.before ++ k ∧
      m.quote :: (m.specifier ++ m.quote :: (m.behind ++ more)) = k ++ q :: x := by
  obtain ⟨c, l, opened, bare, -⟩ := found.opened
  have text : m.text ++ more =
      c :: (l ++ m.quote :: (m.specifier ++ m.quote :: (m.behind ++ more))) := by
    rw [Mention.text, opened]
    simp
  cases front with
  | nil => exact absurd rfl nonempty
  | cons d front =>
    obtain ⟨rfl, later⟩ := List.cons.inj (cut.trans text)
    obtain ⟨k, rfl, rest⟩ := exists_append_of_bare bare quote later.symm
    exact ⟨k, by rw [opened]; rfl, rest⟩

/-- A match that starts in front of a line quotes what is quoted behind the lead on that line, or
ends in front of the line. -/
theorem Found.quotes_or_ends (found : Found staticLead (fun _ => some []) atStart m more)
    (nonempty : lead ≠ []) (bare : Bare lead) (quote : isQuote q = true)
    (line : before = [] ∧ atStart = true ∨ before.getLast? = some '\n')
    (cut : before ++ (lead ++ q :: behind) = m.text ++ more) :
    (m.before = before ++ lead ∧ m.quote = q ∧ m.specifier ++ m.quote :: more = behind) ∨
      ∃ between, before = m.text ++ between ∧ between.getLast? = some '\n' ∧
        more = between ++ (lead ++ q :: behind) := by
  have ended : [] = m.behind := Option.some.inj found.ending
  rw [← List.append_assoc] at cut
  have front : before ++ lead ≠ [] := List.append_ne_nil_of_right_ne_nil before nonempty
  obtain ⟨k, front, rest⟩ := found.exists_append front quote cut
  rw [← ended, List.nil_append] at rest
  cases k with
  | nil =>
    rw [List.append_nil] at front
    obtain ⟨same, tails⟩ := List.cons.inj rest
    exact Or.inl ⟨front.symm, same, tails⟩
  | cons d k =>
    obtain ⟨rfl, tails⟩ := List.cons.inj rest
    obtain ⟨k, rfl, rfl⟩ := exists_append_of_bare_end bare found.quote front
    have last := line.resolve_left (by simp)
    rw [List.getLast?_append_cons] at last
    have closed : m.specifier ++ m.quote :: more = k ++ (lead ++ q :: behind) :=
      tails.trans (List.append_assoc k lead _)
    obtain ⟨between, rfl, rest, last⟩ :=
      exists_append_of_line found.oneLine found.quote (getLast?_of_quote found.quote last) closed
    exact Or.inr ⟨between, by simp [Mention.text, ← ended], last, rest⟩

/-- A character where no match starts stands in front of the line that a lead opens. -/
theorem exists_tail_of_none {c : Char} {rest : List Char}
    (none : rule static? atStart c rest = none) (isLead : staticLead lead = true)
    (quotable : Quotable q specifier)
    (line : before = [] ∧ atStart = true ∨ before.getLast? = some '\n')
    (cut : before ++ (lead ++ q :: (specifier ++ q :: behind)) = c :: rest) :
    ∃ tail, before = c :: tail ∧ tail.getLast? = some '\n' ∧
      rest = tail ++ (lead ++ q :: (specifier ++ q :: behind)) := by
  have bare : Bare lead := @bare_of_leadOf _ .static isLead
  have silent {l : List Char} (bare : Bare l) (opened : opens staticLead atStart c l = true) :
      rest ≠ l ++ q :: (specifier ++ q :: behind) := by
    intro same
    have found := found_of_opens opened bare quotable behind
    rw [readsAs_static.rule_of_found found (by simp [Mention.text, same])] at none
    cases none
  cases before with
  | nil =>
    obtain ⟨-, rfl⟩ := line.resolve_right (by simp)
    cases lead with
    | nil => cases isLead
    | cons first others =>
      obtain ⟨rfl, tails⟩ := List.cons.inj cut
      refine absurd tails.symm (silent bare.tail ?_)
      rw [opens, bare.head, isLead]
      rfl
  | cons d tail =>
    obtain ⟨rfl, tails⟩ := List.cons.inj cut
    have line : (d :: tail).getLast? = some '\n' := line.resolve_left (by simp)
    rw [List.getLast?_cons] at line
    cases last : tail.getLast? with
    | some e =>
      rw [last] at line
      exact ⟨tail, rfl, last.trans line, tails.symm⟩
    | none =>
      -- the lead stands right behind this character
      rw [last] at line
      cases line
      rw [List.getLast?_eq_none_iff.1 last] at tails
      refine absurd tails.symm (silent bare ?_)
      rw [opens, isLead, Bool.or_eq_true]
      exact Or.inr rfl

/-- **What is quoted behind a lead at the start of a line is an import**, whatever stands in
front. -/
theorem mem_importsFrom_of_line (line : before = [] ∧ atStart = true ∨ before.getLast? = some '\n')
    (isLead : staticLead lead = true) (quotable : Quotable q specifier) :
    toImport .static (start + byteLength before + byteLength lead) ⟨[], q, specifier, []⟩ ∈
      importsFrom .static static? atStart start
        (before ++ (lead ++ q :: (specifier ++ q :: behind))) := by
  have bare : Bare lead := @bare_of_leadOf _ .static isLead
  have nonempty : lead ≠ [] := by
    rintro rfl
    cases isLead
  generalize whole : before ++ (lead ++ q :: (specifier ++ q :: behind)) = cs
  induction atStart, cs using readsAs_static.induct generalizing before start with
  | nil => simp at whole
  | none atStart c rest none ih =>
    obtain ⟨tail, rfl, last, cut⟩ := exists_tail_of_none none isLead quotable line whole
    rw [importsFrom_of_none none, Text.byteLength_cons, ← Nat.add_assoc start]
    exact ih (Or.inr last) cut.symm
  | found atStart m more found ih =>
    rw [readsAs_static.importsFrom_of_found found]
    rcases found.quotes_or_ends nonempty bare quotable.quote line whole with
      ⟨front, rfl, tails⟩ | ⟨between, rfl, last, cut⟩
    · -- the specifier is quoted behind this keyword or behind an earlier one
      have same : m.specifier = specifier := by
        have read := takeWhile_append_quote ⟨found.clean, found.oneLine⟩ more
        rw [tails, takeWhile_append_quote ⟨quotable.clean, quotable.oneLine⟩] at read
        exact read.symm
      have head : toImport .static start m = toImport .static
          (start + byteLength before + byteLength lead) ⟨[], m.quote, specifier, []⟩ := by
        simp [toImport, front, same, Nat.add_assoc]
      exact head ▸ List.mem_cons_self
    · have place : start + byteLength (m.text ++ between) =
          start + byteLength m.text + byteLength between := by
        rw [Text.byteLength_append, Nat.add_assoc]
      rw [place]
      exact List.mem_cons_of_mem _ (ih (Or.inr last) cut.symm)

/-! ## The import of a statement -/

namespace Statement

theorem mem_imports (s : Statement) {front : String}
    (line : front = "" ∨ front.toList.getLast? = some '\n') (behind : String) :
    s.site front.utf8ByteSize ∈ imports (front ++ s.text ++ behind) := by
  have opening : front.toList = [] ∧ true = true ∨ front.toList.getLast? = some '\n' :=
    line.imp_left fun empty => ⟨String.toList_eq_nil_iff.2 empty, rfl⟩
  have quotable : Quotable s.quote s.specifier.toList :=
    ⟨by simpa [isQuote] using s.either, s.unquoted, s.oneLine, by simpa using s.nonempty⟩
  have cut : (front ++ s.text ++ behind).toList = front.toList ++
      (s.lead ++ s.quote :: (s.specifier.toList ++ s.quote :: behind.toList)) := by
    simp [text]
  have found : s.site front.utf8ByteSize ∈
      importsOf .static static? (front ++ s.text ++ behind).toList := by
    have place : s.site front.utf8ByteSize = toImport .static
        (0 + byteLength front.toList + byteLength s.lead)
        ⟨[], s.quote, s.specifier.toList, []⟩ := by
      simp [toImport, site, utf8Size_of_isQuote quotable.quote, Text.utf8ByteSize_eq]
    rw [place, cut, importsOf]
    exact mem_importsFrom_of_line opening (staticLead_of_statement s.isLead) quotable
  rw [imports, (Ordered.perm_sort _ _).mem_iff, List.mem_filter, List.mem_append]
  exact ⟨Or.inl found, decide_eq_true s.nonempty⟩

/-- **A statement at the start of a line is imported once**, whatever stands in front of that line
and behind the statement. -/
theorem imported_once (s : Statement) {front : String}
    (line : front = "" ∨ front.toList.getLast? = some '\n') (behind : String) :
    (imports (front ++ s.text ++ behind)).filter (fun i =>
        i.start = (s.site front.utf8ByteSize).start ∧ i.stop = (s.site front.utf8ByteSize).stop) =
      [s.site front.utf8ByteSize] := by
  have mem := s.mem_imports line behind
  have nodup := (nodup_imports (front ++ s.text ++ behind)).filter fun i =>
    i.start = (s.site front.utf8ByteSize).start ∧ i.stop = (s.site front.utf8ByteSize).stop
  refine List.perm_singleton.1 ((List.perm_ext_iff_of_nodup nodup (List.nodup_singleton _)).2 ?_)
  intro i
  rw [List.mem_filter, List.mem_singleton, decide_eq_true_iff]
  constructor
  · rintro ⟨listed, start, -⟩
    exact eq_of_start_eq listed mem start
  · rintro rfl
    exact ⟨mem, rfl, rfl⟩

/-- A module is exported from. -/
def reexport : Statement where
  lead := "export".toList ++ (" { b } ".toList ++ ("from".toList ++ " ".toList))
  quote := '"'
  specifier := "./b.js"
  isLead := .clause (Or.inr rfl) (List.all_eq_true.1 (by decide)) rfl (by decide)
    (List.all_eq_true.1 (by decide))
  either := Or.inr rfl
  nonempty := by decide
  oneLine := by decide
  unquoted := by decide

/-- The line in front ends in a keyword, whose clause runs over the end of the line. -/
theorem imported_once_behind_keyword :
    "import a\n".toList.getLast? = some '\n' ∧
      (imports ("import a\n" ++ reexport.text ++ " from 'c';")).filter
        (fun i => i.start = 28 ∧ i.stop = 34) = [⟨"./b.js", 28, 34, .static⟩] :=
  have line : "import a\n".toList.getLast? = some '\n' := by decide
  ⟨line, reexport.imported_once (Or.inr line) " from 'c';"⟩

end Statement

end WorkerBundler.ImportScan
