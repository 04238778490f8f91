import WorkerBundler.Path.Output
import WorkerBundler.Text.Quoted

/-!
# Words of written texts

A word stands in a text if it is a run of its characters. Texts are written out of others by
joining, by quoting and by finding the way to a file, and each of these adds characters of its own:
separators, escapes, dots and slashes. A word that has none of these characters cannot come about
where two texts meet, so it stands in what was written only if it stood in one of the texts before
(`exists_infix_of_join`, `infix_of_quoteChars`, `infix_of_requestFrom`).
-/

namespace WorkerBundler.Text

variable {word : List Char}

/-! ## Words of joined texts -/

/-- A word without the separator stands on one side of it. -/
theorem infix_or_infix {sep : Char} (clean : sep ∉ word) {front rest : List Char}
    (h : word <:+: front ++ sep :: rest) : word <:+: front ∨ word <:+: rest := by
  obtain ⟨before, behind, cut⟩ := h
  rcases List.append_eq_append_iff.1 cut with ⟨more, rfl, _⟩ | ⟨more, last, right⟩
  · exact Or.inl (List.infix_append before word more)
  · -- the word ends at the separator or behind it
    cases more with
    | nil =>
      rw [List.append_nil] at last
      exact Or.inl (last ▸ (List.suffix_append before word).isInfix)
    | cons c more =>
      obtain ⟨rfl, rfl⟩ := List.cons.inj right
      rcases List.append_eq_append_iff.1 last with ⟨_, _, rfl⟩ | ⟨between, _, tail⟩
      · exact absurd (List.mem_append_right _ List.mem_cons_self) clean
      · cases between with
        | nil =>
          rw [List.nil_append] at tail
          exact absurd (tail ▸ List.mem_cons_self) clean
        | cons d between =>
          obtain ⟨_, rfl⟩ := List.cons.inj tail
          exact Or.inr (List.infix_append between word behind)

/-- A word without the characters in front stands behind them. -/
theorem infix_of_append {front rest : List Char} (apart : ∀ c ∈ front, c ∉ word)
    (h : word <:+: front ++ rest) : word <:+: rest := by
  induction front with
  | nil => exact h
  | cons c front ih =>
    refine ih (fun d mem => apart d (List.mem_cons_of_mem c mem)) ?_
    rcases List.infix_cons_iff.1 h with first | later
    · rcases List.prefix_cons_iff.1 first with rfl | ⟨_, rfl, _⟩
      · exact List.nil_infix
      · exact absurd List.mem_cons_self (apart c List.mem_cons_self)
    · exact later

/-- Each part stands in the text that is joined of them. -/
theorem infix_join {sep : Char} {parts : List (List Char)} {part : List Char}
    (mem : part ∈ parts) : part <:+: join sep parts := by
  induction parts with
  | nil => cases mem
  | cons first parts ih =>
    cases parts with
    | nil => exact List.mem_singleton.1 mem ▸ List.infix_rfl
    | cons next more =>
      rw [join_cons_of_ne_nil sep first (List.cons_ne_nil next more)]
      rcases List.mem_cons.1 mem with rfl | later
      · exact (List.prefix_append part _).isInfix
      · exact ((ih later).trans (List.suffix_cons sep _).isInfix).trans
          (List.suffix_append first _).isInfix

/-- A word without the separator stands in one of the parts. -/
theorem exists_infix_of_join {sep : Char} (clean : sep ∉ word) (nonempty : word ≠ [])
    {parts : List (List Char)} (h : word <:+: join sep parts) : ∃ part ∈ parts, word <:+: part := by
  induction parts with
  | nil => exact absurd (List.infix_nil.1 h) nonempty
  | cons part parts ih =>
    cases parts with
    | nil => exact ⟨part, List.mem_cons_self, h⟩
    | cons next more =>
      rw [join_cons_of_ne_nil sep part (List.cons_ne_nil next more)] at h
      rcases infix_or_infix clean h with here | later
      · exact ⟨part, List.mem_cons_self, here⟩
      · obtain ⟨found, mem, here⟩ := ih later
        exact ⟨found, List.mem_cons_of_mem part mem, here⟩

theorem infix_of_mem_parts {sep : Char} {s part : String} (mem : part ∈ parts sep s) :
    part.toList <:+: s.toList := by
  obtain ⟨cs, cut, rfl⟩ := List.mem_map.1 mem
  rw [String.toList_ofList, ← join_splitAll sep s.toList]
  exact infix_join cut

/-! ## Words of quoted texts -/

/-- The characters that escapes are spelled with. -/
def escapeSpelling : List Char := "\\\"bfnrtu0123456789abcdef".toList

theorem lowerHexDigit_mem : ∀ n < 16, lowerHexDigit n ∈ escapeSpelling := by
  decide

/-- A character stands for itself or is spelled by an escape. -/
theorem escapeChar_cases (c : Char) :
    escapeChar c = [c] ∨ escapeChar c ≠ [] ∧ escapeChar c ⊆ escapeSpelling := by
  rw [escapeChar]
  iterate 7
    split
    · exact Or.inr (by decide)
  split
  · rename_i control
    have high := lowerHexDigit_mem (c.toNat / 16) (by omega)
    have low := lowerHexDigit_mem (c.toNat % 16) (Nat.mod_lt _ (by decide))
    refine Or.inr ⟨List.cons_ne_nil _ _, ?_⟩
    have front : ['\\', 'u', '0', '0'] ⊆ escapeSpelling := by decide
    exact List.append_subset.2
      ⟨front, List.cons_subset.2 ⟨high, List.cons_subset.2 ⟨low, List.nil_subset _⟩⟩⟩
  · exact Or.inl rfl

/-- The word is spelled without the characters of escapes. -/
def FreeOfEscapes (word : List Char) : Prop :=
  ∀ c ∈ word, c ∉ escapeSpelling

instance (word : List Char) : Decidable (FreeOfEscapes word) :=
  List.decidableBAll _ word

theorem prefix_of_escaped {cs : List Char} (free : FreeOfEscapes word)
    (h : word <+: cs.flatMap escapeChar) : word <+: cs := by
  induction cs generalizing word with
  | nil => exact h
  | cons c cs ih =>
    cases word with
    | nil => exact List.nil_prefix
    | cons d word =>
      rw [List.flatMap_cons] at h
      rcases escapeChar_cases c with itself | ⟨nonempty, spelled⟩
      · rw [itself, List.singleton_append] at h
        obtain ⟨rfl, rest⟩ := List.cons_prefix_cons.1 h
        have here := ih (fun x mem => free x (List.mem_cons_of_mem d mem)) rest
        exact List.cons_prefix_cons.2 ⟨rfl, here⟩
      · obtain ⟨x, more, escape⟩ := List.exists_cons_of_ne_nil nonempty
        rw [escape, List.cons_append] at h
        obtain ⟨rfl, _⟩ := List.cons_prefix_cons.1 h
        exact absurd (spelled (escape ▸ List.mem_cons_self)) (free d List.mem_cons_self)

theorem infix_of_escaped {cs : List Char} (free : FreeOfEscapes word)
    (h : word <:+: cs.flatMap escapeChar) : word <:+: cs := by
  induction cs with
  | nil => exact h
  | cons c cs ih =>
    have escaped := h
    rw [List.flatMap_cons] at escaped
    rcases escapeChar_cases c with itself | ⟨_, spelled⟩
    · rw [itself, List.singleton_append] at escaped
      rcases List.infix_cons_iff.1 escaped with first | later
      · refine (prefix_of_escaped free ?_).isInfix
        rwa [List.flatMap_cons, itself]
      · exact List.infix_cons (ih later)
    · have later := infix_of_append (fun d mem here => free d here (spelled mem)) escaped
      exact List.infix_cons (ih later)

/-- A word that no escape spells stands in a quoted text only where the text itself has it. -/
theorem infix_of_quoteChars {cs : List Char} (free : FreeOfEscapes word)
    (h : word <:+: quoteChars cs) : word <:+: cs := by
  have unquoted : '"' ∉ word := fun mem => free '"' mem (by decide)
  have opened : ∀ c ∈ ['"'], c ∉ word := fun c mem => List.mem_singleton.1 mem ▸ unquoted
  rcases infix_or_infix unquoted (infix_of_append opened h) with here | behind
  · exact infix_of_escaped free here
  · rw [List.infix_nil.1 behind]
    exact List.nil_infix

end WorkerBundler.Text

/-! ## Words of requests -/

namespace WorkerBundler

theorem Path.mem_of_mem_foldl_enter {names place : List String} {part : String}
    (mem : part ∈ names.foldl enter place) : part ∈ place ∨ part ∈ names := by
  induction names generalizing place with
  | nil => exact Or.inl mem
  | cons name names ih =>
    rcases ih mem with entered | later
    · rw [enter] at entered
      split at entered
      · exact Or.inl entered
      · split at entered
        · exact Or.inl (List.dropLast_subset place entered)
        · rcases List.mem_append.1 entered with old | new
          · exact Or.inl old
          · exact Or.inr (List.mem_singleton.1 new ▸ List.mem_cons_self)
    · exact Or.inr (List.mem_cons_of_mem name later)

theorem Path.infix_of_mem_segments {path part : String} (mem : part ∈ segments path) :
    part.toList <:+: path.toList := by
  rcases mem_of_mem_foldl_enter mem with start | part
  · cases start
  · exact Text.infix_of_mem_parts part

/-- A word without slashes stands in a way only if it stands in a name of its goal or goes up. -/
theorem Path.exists_infix_of_way {word : List Char} (nonempty : word ≠ []) (slashes : '/' ∉ word)
    {start goal : List String} (h : word <:+: (way start goal).toList) :
    ∃ part, (part = ".." ∨ part ∈ goal) ∧ word <:+: part.toList := by
  rw [way, Text.unparts, String.toList_ofList] at h
  obtain ⟨_, joined, here⟩ := Text.exists_infix_of_join slashes nonempty h
  obtain ⟨part, mem, rfl⟩ := List.mem_map.1 joined
  refine ⟨part, ?_, here⟩
  rcases List.mem_append.1 mem with up | down
  · exact Or.inl (List.mem_replicate.1 up).2
  · exact Or.inr (List.mem_of_mem_drop down)

/-- A word without dots and slashes stands in the request for a file only if it stands in the name
of the file. -/
theorem OutputPath.infix_of_requestFrom {word : List Char} (nonempty : word ≠ [])
    (dots : '.' ∉ word) (slashes : '/' ∉ word) {importer target : String}
    (h : word <:+: (requestFrom importer target).toList) : word <:+: target.toList := by
  have marks : ∀ c ∈ ['.', '/'], c ∉ word := by
    simpa using ⟨dots, slashes⟩
  have mark : "./".toList ⊆ ['.', '/'] := by decide
  have dotted : "..".toList ⊆ ['.', '/'] := by decide
  have way : word <:+: (relative (directory importer) target).toList := by
    rw [requestFrom, request] at h
    split at h
    · exact h
    · rw [String.toList_append] at h
      exact Text.infix_of_append (fun c mem => marks c (mark mem)) h
  obtain ⟨part, up | goal, here⟩ := Path.exists_infix_of_way nonempty slashes way
  · rw [up, ← List.append_nil "..".toList] at here
    have empty := Text.infix_of_append (fun c mem => marks c (dotted mem)) here
    exact absurd (List.infix_nil.1 empty) nonempty
  · exact here.trans (Path.infix_of_mem_segments goal)

end WorkerBundler
