import WorkerBundler.Proofs.EmittedNames
import WorkerBundler.Proofs.Keyed
import WorkerBundler.Proofs.Worker.WrapperText

/-!
# What becomes of the markers of a text

A marker of a text starts a placeholder or it does not, and a placeholder names a worker file or it
does not. `replaced_or_shared` says what substituting makes of them: a text without a marker is
left alone; a marker that starts no placeholder, or the placeholder of no file, makes it fail; else
the placeholders are replaced.

There is one exception. The marker starts with the two underscores that a placeholder ends with, so
the end of one placeholder may be part of the next. The search for placeholders goes on behind the
first of them and passes over the second, whose marker is then neither replaced nor refused
(`SharesEnding`).
-/

namespace WorkerBundler.Worker

open Text (byteLength)

/-- The marker of placeholders stands at the byte `p`. -/
def MarkedAt (cs : List Char) (p : Nat) : Prop :=
  ∃ before behind, cs = before ++ (Placeholder.marker ++ behind) ∧ byteLength before = p

/-- The placeholder of a reference. -/
def placeholderText (reference : List Char) : List Char :=
  Placeholder.marker ++ (reference ++ Placeholder.ending)

theorem byteLength_placeholderText (reference : List Char) :
    byteLength (placeholderText reference) = byteLength (Placeholder.marker ++ reference) + 2 := by
  rw [placeholderText, ← List.append_assoc, Text.byteLength_append]
  rfl

/-- The placeholder of the reference stands at the byte `p`. -/
def PlaceholderAt (cs : List Char) (p : Nat) (reference : List Char) : Prop :=
  ∃ before behind, cs = before ++ (placeholderText reference ++ behind) ∧ byteLength before = p

/-- Eight characters that the search takes for a reference. -/
def LooksMinted (reference : List Char) : Prop :=
  reference.length = Placeholder.referenceLength ∧
    ∀ c ∈ reference, Placeholder.isReferenceChar c = true

/-- Eight small letters or digits. -/
def IsReference (reference : List Char) : Prop :=
  reference.length = 8 ∧ ∀ c ∈ reference, 'a' ≤ c ∧ c ≤ 'z' ∨ '0' ≤ c ∧ c ≤ '9'

instance (reference : List Char) : Decidable (IsReference reference) :=
  @instDecidableAnd _ _ _ (List.decidableBAll _ reference)

theorem looksMinted_of_isReference {reference : List Char} (h : IsReference reference) :
    LooksMinted reference := by
  refine ⟨h.1, ?_⟩
  intro c mem
  rw [Placeholder.isReferenceChar, Bool.or_eq_true, Bool.and_eq_true, decide_eq_true_iff,
    decide_eq_true_iff]
  rcases h.2 c mem with letter | ⟨low, high⟩
  · exact Or.inl letter
  · refine Or.inr ((Text.inRanges_iff (by decide)).2 ⟨(0x30, 0x39), by decide, ?_, ?_⟩)
    · exact low
    · exact high

/-! ## Placeholders that overlap -/

theorem reference?_eq_some_iff {behind reference : List Char} :
    Placeholder.reference? (Placeholder.marker ++ behind) = some reference ↔
      LooksMinted reference ∧ ∃ more, behind = reference ++ (Placeholder.ending ++ more) := by
  rw [Placeholder.reference?, Text.after?_append]
  dsimp only
  constructor
  · intro h
    split at h
    · rename_i found
      obtain ⟨length, chars, ending⟩ := found
      cases h
      obtain ⟨more, closed⟩ := Option.isSome_iff_exists.1 ending
      refine ⟨⟨length, List.all_eq_true.1 chars⟩, more, ?_⟩
      rw [← Text.after?_eq_some_iff.1 closed, List.take_append_drop]
    · cases h
  · rintro ⟨⟨length, chars⟩, more, rfl⟩
    rw [← length, List.take_left, List.drop_left, Text.after?_append, if_pos]
    exact ⟨rfl, List.all_eq_true.2 chars, rfl⟩

theorem eq_marker_of_reference? {cs reference : List Char}
    (h : Placeholder.reference? cs = some reference) :
    LooksMinted reference ∧ ∃ more, cs = placeholderText reference ++ more := by
  cases marked : Text.after? Placeholder.marker cs with
  | none =>
    rw [Placeholder.reference?, marked] at h
    cases h
  | some behind =>
    obtain rfl := Text.after?_eq_some_iff.1 marked
    obtain ⟨looks, more, rfl⟩ := reference?_eq_some_iff.1 h
    refine ⟨looks, more, ?_⟩
    simp only [placeholderText, List.append_assoc]

/-- The marker does not overlap itself but with its underscores. -/
theorem getElem?_marker_ne : ∀ k < 22, 0 < k →
    ∃ i < 24 - k, Placeholder.marker[k + i]? ≠ Placeholder.marker[i]? := by
  decide

/-- A marker that starts within a placeholder starts with the underscores at its end. -/
theorem length_of_overlap {reference front more behind : List Char} (looks : LooksMinted reference)
    (nonempty : front ≠ [])
    (same : placeholderText reference ++ more = front ++ (Placeholder.marker ++ behind)) :
    32 ≤ front.length := by
  by_contra short
  have positive := List.length_pos_iff.2 nonempty
  have length : reference.length = 8 := looks.1
  have at_marker : ∀ i < 24, (placeholderText reference ++ more)[front.length + i]? =
      Placeholder.marker[i]? := by
    intro i bound
    rw [same, List.getElem?_append_right (Nat.le_add_right _ _), Nat.add_sub_cancel_left,
      List.getElem?_append_left bound]
  have in_marker : ∀ i < 24, (placeholderText reference ++ more)[i]? =
      Placeholder.marker[i]? := by
    intro i bound
    rw [placeholderText, List.append_assoc, List.getElem?_append_left bound]
  have in_reference : ∀ i < 8, (placeholderText reference ++ more)[24 + i]? = reference[i]? := by
    intro i bound
    have behind : Placeholder.marker.length ≤ 24 + i := Nat.le_add_right 24 i
    have place : 24 + i - Placeholder.marker.length = i := Nat.add_sub_cancel_left 24 i
    rw [placeholderText, List.append_assoc, List.append_assoc, List.getElem?_append_right behind,
      place, List.getElem?_append_left (by omega)]
  have letters : ∀ i < 8, ∃ c, reference[i]? = some c ∧
      Placeholder.isReferenceChar c = true := by
    intro i bound
    have inside : i < reference.length := by omega
    exact ⟨_, List.getElem?_eq_getElem inside, looks.2 _ (List.getElem_mem inside)⟩
  by_cases early : front.length < 22
  · obtain ⟨i, bound, differ⟩ := getElem?_marker_ne front.length early positive
    exact differ ((in_marker _ (by omega)).symm.trans (at_marker i (by omega)))
  · by_cases late : 24 ≤ front.length
    · obtain ⟨c, here, letter⟩ := letters (front.length - 24) (by omega)
      rw [← in_reference _ (by omega), Nat.add_sub_cancel' late] at here
      have first := at_marker 0 (by decide)
      rw [Nat.add_zero, here] at first
      cases first
      exact absurd letter (by decide)
    · obtain ⟨c, here, letter⟩ := letters 0 (by decide)
      rw [← in_reference 0 (by decide)] at here
      have next := at_marker (24 - front.length) (by omega)
      rw [Nat.add_sub_cancel' (by omega), ← Nat.add_zero 24, here] at next
      have cases : front.length = 22 ∨ front.length = 23 := by omega
      rcases cases with length | length
      · rw [length] at next
        cases next
        exact absurd letter (by decide)
      · rw [length] at next
        cases next
        exact absurd letter (by decide)

/-! ## The two searches -/

variable {code : String} {cs before behind reference : List Char} {p : Nat}

theorem of_markerRule {atStart : Bool} {c : Char} {rest : List Char} {n : Nat}
    {token : Option (List Char)} (h : Placeholder.markerRule atStart c rest = some (n, token)) :
    n = 23 ∧ (∃ behind, c :: rest = Placeholder.marker ++ behind) ∧
      (token = none ↔ ∃ reference, Placeholder.reference? (c :: rest) = some reference) := by
  obtain ⟨behind, marked, same⟩ := Option.map_eq_some_iff.1 h
  obtain ⟨rfl, rfl⟩ := Prod.mk.inj same
  refine ⟨rfl, ⟨behind, Text.after?_eq_some_iff.1 marked⟩, ?_⟩
  rw [← Option.isSome_iff_exists]
  split
  · rename_i found
    exact iff_of_true rfl found
  · rename_i missing
    exact iff_of_false nofun missing

theorem markerRule_marker (atStart : Bool) (behind : List Char) :
    Placeholder.markerRule atStart '_' (Placeholder.marker.tail ++ behind) =
      some (23, if (Placeholder.reference? (Placeholder.marker ++ behind)).isSome then none
        else some ((Placeholder.marker ++ behind).takeWhile Placeholder.isTokenChar)) := by
  rw [Placeholder.markerRule, ← marker_append, Text.after?_append]
  rfl

theorem malformed?_eq_none_iff : Placeholder.malformed? code = none ↔
    ∀ h ∈ Text.hits Placeholder.markerRule code.toList, h.2 = none := by
  rw [Placeholder.malformed?, Option.map_eq_none_iff, List.findSome?_eq_none_iff]

/-- If no malformed placeholder is found, each marker starts a placeholder. -/
theorem exists_placeholder_of_wellFormed (wellFormed : Placeholder.malformed? code = none)
    (marked : code.toList = before ++ (Placeholder.marker ++ behind)) :
    ∃ reference, LooksMinted reference ∧
      ∃ more, Placeholder.marker ++ behind = placeholderText reference ++ more := by
  have clean := malformed?_eq_none_iff.1 wellFormed
  have cut : code.toList = before ++ '_' :: (Placeholder.marker.tail ++ behind) := marked
  have place := @Text.mem_hits_or_covered _ _ before _ _ _ _ fun atStart =>
    markerRule_marker atStart behind
  rw [← cut] at place
  rcases place with here | ⟨earlier, within, c, rest, atStart, n, a, rfl, some, bound, split,
    matched, mem⟩
  · obtain ⟨reference, found⟩ :=
      (of_markerRule (markerRule_marker true behind)).2.2.1 (clean _ here)
    exact ⟨reference, eq_marker_of_reference? found⟩
  · -- a marker that starts within the one before it leaves that one without a reference
    obtain ⟨rfl, _, well⟩ := of_markerRule matched
    obtain ⟨reference, found⟩ := well.1 (clean _ mem)
    obtain ⟨looks, more, same⟩ := eq_marker_of_reference? found
    rw [marked, List.append_assoc] at split
    have far := length_of_overlap looks some
      (same.symm.trans (List.append_cancel_left split).symm)
    omega

theorem of_rule {atStart : Bool} {c : Char} {rest : List Char} {n : Nat}
    (h : Placeholder.rule atStart c rest = some (n, reference)) :
    LooksMinted reference ∧ n = 33 ∧ ∃ more, c :: rest = placeholderText reference ++ more := by
  obtain ⟨reference', found, same⟩ := Option.map_eq_some_iff.1 h
  obtain ⟨rfl, rfl⟩ := Prod.mk.inj same
  obtain ⟨looks, more, cut⟩ := eq_marker_of_reference? found
  refine ⟨looks, ?_, more, cut⟩
  rw [looks.1]
  rfl

theorem rule_placeholder (looks : LooksMinted reference) (behind : List Char) (atStart : Bool) :
    Placeholder.rule atStart '_'
      (Placeholder.marker.tail ++ (reference ++ (Placeholder.ending ++ behind))) =
      some (33, reference) := by
  rw [Placeholder.rule, ← marker_append, reference?_eq_some_iff.2 ⟨looks, behind, rfl⟩,
    Option.map_some, looks.1]
  rfl

theorem placeholderAt_of_mem {h : Nat × List Char} (mem : h ∈ Placeholder.references code) :
    LooksMinted h.2 ∧ PlaceholderAt code.toList h.1 h.2 := by
  obtain ⟨before, c, rest, atStart, n, cut, place, matched⟩ := Text.of_mem_hits mem
  obtain ⟨looks, _, more, split⟩ := of_rule matched
  exact ⟨looks, before, more, by rw [cut, split], place⟩

theorem pairwise_references (code : String) : (Placeholder.references code).Pairwise
    fun h k => h.1 + byteLength (placeholderText h.2) ≤ k.1 := by
  refine Text.pairwise_hits (fun r => byteLength (placeholderText r)) ?_ code.toList
  intro atStart c rest n r matched
  obtain ⟨looks, rfl, more, split⟩ := of_rule matched
  have whole : c :: rest.take 33 = (c :: rest).take 34 := rfl
  have length : (placeholderText r).length = 34 := by
    rw [placeholderText, List.length_append, List.length_append, looks.1]
    rfl
  rw [whole, split, ← length, List.take_left]

/-- The marker at `p` starts with underscores that end a placeholder. -/
def SharesEnding (cs : List Char) (p start : Nat) (reference : List Char) : Prop :=
  PlaceholderAt cs start reference ∧
    start + byteLength (Placeholder.marker ++ reference) ≤ p ∧
    p < start + byteLength (placeholderText reference)

theorem shares_of_overlap {within more rest : List Char} (looks : LooksMinted reference)
    (overlap : placeholderText reference ++ more = within ++ rest) (far : 32 ≤ within.length)
    (near : within.length ≤ 33) :
    byteLength (Placeholder.marker ++ reference) ≤ byteLength within ∧
      byteLength within < byteLength (placeholderText reference) := by
  have front : (Placeholder.marker ++ reference).length = 32 := by
    rw [List.length_append, looks.1]
    rfl
  have length : (placeholderText reference).length = 34 := by
    rw [placeholderText, List.length_append, List.length_append, looks.1]
    rfl
  obtain ⟨last, ends⟩ : within <+: placeholderText reference :=
    List.prefix_of_prefix_length_le (overlap ▸ List.prefix_append within rest)
      (List.prefix_append _ more) (by omega)
  have starts : Placeholder.marker ++ reference <+: placeholderText reference := by
    rw [placeholderText, ← List.append_assoc]
    exact List.prefix_append _ _
  obtain ⟨shared, rfl⟩ : Placeholder.marker ++ reference <+: within :=
    List.prefix_of_prefix_length_le starts (ends ▸ List.prefix_append within last) (by omega)
  have positive : 0 < byteLength last := by
    cases last with
    | nil =>
      rw [List.append_nil] at ends
      rw [ends, length] at near
      exact absurd near (by decide)
    | cons c last => exact Nat.add_pos_left c.utf8Size_pos _
  rw [← ends]
  simp only [Text.byteLength_append]
  omega

/-- A placeholder is found unless it starts with the end of one that is. -/
theorem mem_references_or_shares (looks : LooksMinted reference)
    (here : PlaceholderAt code.toList p reference) :
    (p, reference) ∈ Placeholder.references code ∨
      ∃ h ∈ Placeholder.references code, SharesEnding code.toList p h.1 h.2 := by
  obtain ⟨before, behind, cut, rfl⟩ := here
  have cut' : code.toList = before ++ '_' ::
      (Placeholder.marker.tail ++ (reference ++ (Placeholder.ending ++ behind))) := by
    rw [cut, placeholderText, List.append_assoc, List.append_assoc, ← marker_append]
  have place := @Text.mem_hits_or_covered _ _ before _ _ _ _ (rule_placeholder looks behind)
  rw [← cut'] at place
  rcases place with here | ⟨earlier, within, c, rest, atStart, n, a, rfl, some, bound, split,
    matched, mem⟩
  · exact Or.inl here
  · obtain ⟨looks', rfl, more, same⟩ := of_rule matched
    rw [cut, List.append_assoc, same] at split
    have overlap := (List.append_cancel_left split).symm
    have marked : placeholderText reference ++ behind =
        Placeholder.marker ++ (reference ++ (Placeholder.ending ++ behind)) := by
      rw [placeholderText, List.append_assoc, List.append_assoc]
    have far := length_of_overlap looks' some (marked ▸ overlap)
    obtain ⟨first, last⟩ := shares_of_overlap looks' overlap far bound
    refine Or.inr ⟨(byteLength earlier, a), mem, (placeholderAt_of_mem mem).2, ?_, ?_⟩
    · rw [Text.byteLength_append earlier within]
      exact Nat.add_le_add_left first _
    · rw [Text.byteLength_append earlier within]
      exact Nat.add_lt_add_left last _

/-! ## Overwriting what is found -/

/-- The computation fails at a placeholder. -/
def FailsAtPlaceholder {α : Type} (x : Except BuildError α) : Prop :=
  ∃ e, x = .error e ∧ e.code = "UNRESOLVED_PLACEHOLDER"

/-- The edit puts the literal of a worker file in place of the placeholder. -/
def Substitutes (fileName : String → Except BuildError String) (file : String)
    (h : Nat × List Char) (e : Edit) : Prop :=
  e.start = h.1 ∧ e.stop = h.1 + byteLength (placeholderText h.2) ∧
    ∃ workerFile, fileName (String.ofList h.2) = .ok workerFile ∧
      e.content = literal file workerFile

variable {fileName : String → Except BuildError String} {file : String}
  {found : List (Nat × List Char)}

/-- Placeholders in order are all overwritten, unless one of them has no file. -/
theorem overwritePlaceholders_cases {t : EditedText} (fits : t.Fits)
    (placed : ∀ h ∈ found, PlaceholderAt t.source.toList h.1 h.2)
    (apart : found.Pairwise fun h k => h.1 + byteLength (placeholderText h.2) ≤ k.1)
    (ahead : ∀ h ∈ found, ∀ f ∈ t.edits, f.start < h.1 ∧ f.stop ≤ h.1) :
    (∃ after edits, overwritePlaceholders file fileName found t = .ok after ∧ after.Fits ∧
        after.source = t.source ∧ after.edits = t.edits ++ edits ∧
        List.Forall₂ (Substitutes fileName file) found edits) ∨
      (∃ h ∈ found, ∀ workerFile, fileName (String.ofList h.2) ≠ .ok workerFile) ∧
        FailsAtPlaceholder (overwritePlaceholders file fileName found t) := by
  induction found generalizing t with
  | nil => exact Or.inl ⟨t, [], rfl, fits, rfl, (List.append_nil _).symm, .nil⟩
  | cons h found ih =>
    obtain ⟨start, reference⟩ := h
    obtain ⟨first, later⟩ := List.pairwise_cons.1 apart
    obtain ⟨before, behind, cut, rfl⟩ := placed _ List.mem_cons_self
    have clear := ahead _ List.mem_cons_self
    rw [overwritePlaceholders]
    split
    · rename_i raised missing
      refine Or.inr ⟨⟨_, List.mem_cons_self, ?_⟩, _, rfl, rfl⟩
      intro workerFile given
      cases missing.symm.trans given
    · rename_i workerFile given
      have size : (Placeholder.ofReference (String.ofList reference)).utf8ByteSize =
          byteLength (placeholderText reference) := by
        rw [Placeholder.ofReference, Text.utf8ByteSize_ofList, String.toList_ofList,
          placeholderText, List.append_assoc]
      have nonempty : placeholderText reference ≠ [] :=
        List.append_ne_nil_of_left_ne_nil (by decide) _
      have recorded := EditedText.overwrite_of_behind cut nonempty clear (literal file workerFile)
      have own : Substitutes fileName file (byteLength before, reference)
          ⟨byteLength before, byteLength before + byteLength (placeholderText reference),
            literal file workerFile⟩ := ⟨rfl, rfl, workerFile, given, rfl⟩
      generalize (⟨byteLength before, byteLength before + byteLength (placeholderText reference),
        literal file workerFile⟩ : Edit) = e at recorded own
      obtain ⟨fits', _, _⟩ := fits.overwrite recorded
      have positive := fits'.nonempty e (List.mem_append_right _ List.mem_cons_self)
      have ahead' : ∀ h ∈ found, ∀ f ∈ t.edits ++ [e], f.start < h.1 ∧ f.stop ≤ h.1 := by
        intro h mem f known
        rcases List.mem_append.1 known with old | new
        · exact ahead h (List.mem_cons_of_mem _ mem) f old
        · have next := first h mem
          rw [List.mem_singleton.1 new, own.2.1]
          rw [own.1, own.2.1] at positive
          rw [own.1]
          dsimp only at positive next ⊢
          omega
      rw [size, recorded]
      rcases ih fits' (fun h mem => placed h (List.mem_cons_of_mem _ mem)) later ahead' with
        ⟨after, edits, done, fits'', source, all, each⟩ | ⟨⟨h, mem, missing⟩, failed⟩
      · refine Or.inl ⟨after, e :: edits, done, fits'', source, ?_, .cons own each⟩
        rw [all, List.append_assoc]
        rfl
      · exact Or.inr ⟨⟨h, List.mem_cons_of_mem _ mem, missing⟩, failed⟩

/-! ## Substituting -/

theorem isReference_of_isMinted {reference : String} (minted : IsMinted reference) :
    IsReference reference.toList :=
  ⟨(digits_of_isMinted minted).1, forall_digitChar (by decide) minted⟩

/-- The reference of a file is well-formed. -/
theorem isReference_of_fileName {e : Emitter} (reached : e.Reached) {workerFile : String}
    (given : e.fileName (String.ofList reference) = .ok workerFile) : IsReference reference := by
  have minted := isReference_of_isMinted (reached.minted given)
  rwa [String.toList_ofList] at minted

theorem markedAt_of_placeholderAt (h : PlaceholderAt cs p reference) : MarkedAt cs p := by
  obtain ⟨before, behind, cut, place⟩ := h
  refine ⟨before, reference ++ (Placeholder.ending ++ behind), ?_, place⟩
  rw [cut, placeholderText, List.append_assoc, List.append_assoc]

theorem exists_placeholderAt (wellFormed : Placeholder.malformed? code = none)
    (marked : MarkedAt code.toList p) :
    ∃ reference, LooksMinted reference ∧ PlaceholderAt code.toList p reference := by
  obtain ⟨before, behind, cut, place⟩ := marked
  obtain ⟨reference, looks, more, same⟩ := exists_placeholder_of_wellFormed wellFormed cut
  exact ⟨reference, looks, before, more, same ▸ cut, place⟩

section

variable {request : RenderRequest} {kind : Option SourceMapKind}

theorem fails_of_malformed {token : String}
    (malformed : Placeholder.malformed? request.code = some token) :
    FailsAtPlaceholder (substitute fileName request kind) := by
  rw [substitute, malformed]
  exact ⟨_, rfl, rfl⟩

/-- A text whose placeholders are well-formed is left alone if it has none; else they are all
overwritten, unless one of them has no file. -/
theorem substitute_cases (wellFormed : Placeholder.malformed? request.code = none) :
    (substitute fileName request kind = .ok none ∧ Placeholder.references request.code = []) ∨
      (∃ output edits, substitute fileName request kind = .ok (some output) ∧
        Placeholder.references request.code ≠ [] ∧
        Replaced 0 request.code.toList edits output.code.toList ∧
        List.Forall₂ (Substitutes fileName request.chunk.fileName)
          (Placeholder.references request.code) edits) ∨
      (∃ h ∈ Placeholder.references request.code,
          ∀ workerFile, fileName (String.ofList h.2) ≠ .ok workerFile) ∧
        FailsAtPlaceholder (substitute fileName request kind) := by
  have overwritten := @overwritePlaceholders_cases fileName request.chunk.fileName
    (Placeholder.references request.code) (.ofSource request.code)
    (EditedText.fits_ofSource request.code) (fun h mem => (placeholderAt_of_mem mem).2)
    (pairwise_references request.code) nofun
  rw [substitute, wellFormed]
  dsimp only
  cases found : Placeholder.references request.code with
  | nil => exact Or.inl ⟨rfl, rfl⟩
  | cons h rest =>
    refine Or.inr ?_
    rw [found] at overwritten
    dsimp only
    rcases overwritten with
      ⟨after, edits, done, fits, source, all, each⟩ | ⟨missing, e, failed, code⟩
    · rw [done]
      have replaced := EditedText.replaced_text fits
      rw [source, all] at replaced
      exact Or.inl ⟨_, edits, rfl, List.cons_ne_nil h rest, replaced, each⟩
    · rw [failed]
      exact Or.inr ⟨missing, e, rfl, code⟩

end

/-- The placeholder of a worker file stands at the byte `p`. -/
def FileAt (fileName : String → Except BuildError String) (cs : List Char) (p : Nat) : Prop :=
  ∃ reference workerFile, IsReference reference ∧ PlaceholderAt cs p reference ∧
    fileName (String.ofList reference) = .ok workerFile

/-- A position has one placeholder. -/
theorem eq_of_placeholderAt {reference' : List Char} (looks : LooksMinted reference)
    (looks' : LooksMinted reference') (h : PlaceholderAt cs p reference)
    (h' : PlaceholderAt cs p reference') : reference = reference' := by
  obtain ⟨before, behind, cut, place⟩ := h
  obtain ⟨before', behind', cut', place'⟩ := h'
  obtain ⟨_, same⟩ := append_inj_of_byteLength (cut.symm.trans cut') (place.trans place'.symm)
  simp only [placeholderText, List.append_assoc] at same
  exact List.append_inj_left (List.append_cancel_left same) (looks.1.trans looks'.1.symm)

/-- What is malformed is a marker that starts no placeholder. -/
theorem exists_of_malformed {token : String}
    (malformed : Placeholder.malformed? code = some token) :
    ∃ p, MarkedAt code.toList p ∧
      ∀ reference, LooksMinted reference → ¬PlaceholderAt code.toList p reference := by
  obtain ⟨_, first, _⟩ := Option.map_eq_some_iff.1 malformed
  obtain ⟨h, mem, found⟩ := List.exists_of_findSome?_eq_some first
  obtain ⟨before, c, rest, atStart, n, cut, place, matched⟩ := Text.of_mem_hits mem
  obtain ⟨_, ⟨behind, marked⟩, well⟩ := of_markerRule matched
  refine ⟨h.1, ⟨before, behind, marked ▸ cut, place⟩, ?_⟩
  rintro reference looks ⟨before', behind', cut', place'⟩
  obtain ⟨_, here⟩ := append_inj_of_byteLength (cut.symm.trans cut') (place.trans place'.symm)
  have none := well.2 ⟨reference, by
    rw [here, placeholderText, List.append_assoc, List.append_assoc]
    exact reference?_eq_some_iff.2 ⟨looks, behind', rfl⟩⟩
  cases none.symm.trans found

/-- **What substituting makes of the markers of a text.** A text without a marker is left alone.
Otherwise either each marker starts a placeholder, and each placeholder is replaced by the literal
of its file unless it starts with the end of a replaced one; or some marker does not start the
placeholder of a file, and substituting fails. -/
theorem replaced_or_shared {e : Emitter} (reached : e.Reached) (request : RenderRequest)
    (kind : Option SourceMapKind) :
    (substitute e.fileName request kind = .ok none ∧ ∀ p, ¬MarkedAt request.code.toList p) ∨
      (∃ output edits, substitute e.fileName request kind = .ok (some output) ∧
        (∃ p, MarkedAt request.code.toList p) ∧
        Replaced 0 request.code.toList edits output.code.toList ∧
        (∀ edit ∈ edits, ∃ reference, IsReference reference ∧
          PlaceholderAt request.code.toList edit.start reference ∧
          Substitutes e.fileName request.chunk.fileName (edit.start, reference) edit) ∧
        ∀ p, MarkedAt request.code.toList p →
          (∃ reference, LooksMinted reference ∧ PlaceholderAt request.code.toList p reference) ∧
          ((∃ edit ∈ edits, edit.start = p) ∨
            ∃ edit ∈ edits, edit.start < p ∧ p < edit.stop ∧ edit.stop ≤ p + 2)) ∨
      FailsAtPlaceholder (substitute e.fileName request kind) ∧
        ∃ p, MarkedAt request.code.toList p ∧ ¬FileAt e.fileName request.code.toList p := by
  cases malformed : Placeholder.malformed? request.code with
  | some token =>
    obtain ⟨p, marked, without⟩ := exists_of_malformed malformed
    refine Or.inr (Or.inr ⟨fails_of_malformed malformed, p, marked, ?_⟩)
    rintro ⟨reference, _, well, here, _⟩
    exact without reference (looksMinted_of_isReference well) here
  | none =>
    have found : ∀ p, MarkedAt request.code.toList p →
        ∃ h ∈ Placeholder.references request.code, h.1 = p ∨
          SharesEnding request.code.toList p h.1 h.2 := by
      intro p marked
      obtain ⟨reference, looks, here⟩ := exists_placeholderAt malformed marked
      rcases mem_references_or_shares looks here with mem | ⟨h, mem, shares⟩
      · exact ⟨_, mem, Or.inl rfl⟩
      · exact ⟨h, mem, Or.inr shares⟩
    rcases @substitute_cases e.fileName request kind malformed with
      ⟨done, empty⟩ | ⟨output, edits, done, nonempty, replaced, each⟩ | ⟨⟨h, mem, missing⟩, failed⟩
    · refine Or.inl ⟨done, ?_⟩
      intro p marked
      obtain ⟨h, mem, _⟩ := found p marked
      rw [empty] at mem
      cases mem
    · obtain ⟨first, mem⟩ := List.exists_mem_of_ne_nil _ nonempty
      refine Or.inr (Or.inl ⟨output, edits, done,
        ⟨_, markedAt_of_placeholderAt (placeholderAt_of_mem mem).2⟩, replaced, ?_, ?_⟩)
      · intro edit mem
        obtain ⟨h, known, own⟩ := exists_of_forall₂_right each mem
        have start := own.1
        obtain ⟨workerFile, given, _⟩ := own.2.2
        refine ⟨h.2, isReference_of_fileName reached given, ?_, ?_⟩
        · rw [start]
          exact (placeholderAt_of_mem known).2
        · rw [start]
          exact own
      · intro p marked
        refine ⟨exists_placeholderAt malformed marked, ?_⟩
        obtain ⟨h, known, place⟩ := found p marked
        obtain ⟨edit, mem, start, stop, _⟩ := exists_of_forall₂_left each known
        rcases place with here | ⟨_, last, inside⟩
        · exact Or.inl ⟨edit, mem, start.trans here⟩
        · rw [byteLength_placeholderText] at stop inside
          refine Or.inr ⟨edit, mem, ?_⟩
          rw [start, stop]
          rw [Text.byteLength_append] at last inside ⊢
          have marker : byteLength Placeholder.marker = 24 := by decide
          omega
    · obtain ⟨looks, here⟩ := placeholderAt_of_mem mem
      refine Or.inr (Or.inr ⟨failed, h.1, markedAt_of_placeholderAt here, ?_⟩)
      rintro ⟨reference, workerFile, well, here', given⟩
      rw [eq_of_placeholderAt (looksMinted_of_isReference well) looks here' here] at given
      exact missing workerFile given

/-- The emitter after the worker `./t.js` of `/a.js` was emitted and got the file name `t.js`. -/
def namedEmitter : Emitter :=
  ⟨[⟨"bx9tbpve", ⟨"./t.js", some "/a.js", none⟩, some "t.js"⟩], 0, 1⟩

theorem reached_namedEmitter : namedEmitter.Reached := by
  have emitted : Emitter.empty.emit ⟨"./t.js", some "/a.js", none⟩ =
      some ("bx9tbpve", ⟨[⟨"bx9tbpve", ⟨"./t.js", some "/a.js", none⟩, none⟩], 0, 1⟩) := by
    decide
  exact @Emitter.Reached.assign _ _ "bx9tbpve" "t.js" (.emit .empty emitted) rfl

/-- A chunk in which the placeholder of a worker shares its ending with the next placeholder. -/
def sharingRequest : RenderRequest where
  code := "f(__ROLLDOWN_NODE_WORKER__bx9tbpve__ROLLDOWN_NODE_WORKER__bx9tbpve__);"
  chunk := ⟨"main", "main.js", "/a.js", true⟩
  sourceMap := none

/-- The placeholder at the byte 2 is replaced, and what is left of the other one keeps its
reference. -/
theorem shared_sharingRequest :
    substitute namedEmitter.fileName sharingRequest none =
        .ok (some ⟨"f(\"./t.js\"ROLLDOWN_NODE_WORKER__bx9tbpve__);", none⟩) ∧
      FileAt namedEmitter.fileName sharingRequest.code.toList 34 ∧
      ∃ edits, Replaced 0 sharingRequest.code.toList edits
          "f(\"./t.js\"ROLLDOWN_NODE_WORKER__bx9tbpve__);".toList ∧
        ∃ edit ∈ edits, edit.start < 34 ∧ 34 < edit.stop ∧ edit.stop ≤ 36 := by
  have done : substitute namedEmitter.fileName sharingRequest none =
      .ok (some ⟨"f(\"./t.js\"ROLLDOWN_NODE_WORKER__bx9tbpve__);", none⟩) := by
    decide
  have well : IsReference "bx9tbpve".toList := by decide
  have first : PlaceholderAt sharingRequest.code.toList 2 "bx9tbpve".toList :=
    ⟨"f(".toList, "ROLLDOWN_NODE_WORKER__bx9tbpve__);".toList, by decide,
      by decide⟩
  have second : PlaceholderAt sharingRequest.code.toList 34 "bx9tbpve".toList :=
    ⟨"f(__ROLLDOWN_NODE_WORKER__bx9tbpve".toList, ");".toList, by decide,
      by decide⟩
  refine ⟨done, ⟨_, "t.js", well, second, rfl⟩, ?_⟩
  rcases replaced_or_shared reached_namedEmitter sharingRequest none with
    ⟨left, _⟩ | ⟨output, edits, same, _, replaced, own, each⟩ | ⟨⟨e, failed, _⟩, _⟩
  · cases done.symm.trans left
  · cases done.symm.trans same
    refine ⟨edits, replaced, ?_⟩
    rcases (each 34 (markedAt_of_placeholderAt second)).2 with ⟨edit, mem, here⟩ | shares
    · -- the edit of the first placeholder would overlap this one
      obtain ⟨r, _, _, _, stop, _⟩ := own edit mem
      rcases (each 2 (markedAt_of_placeholderAt first)).2 with ⟨f, known, start⟩ | far
      · obtain ⟨r', well', at_two, _, stop', _⟩ := own f known
        rw [start] at at_two
        obtain rfl := eq_of_placeholderAt (looksMinted_of_isReference well')
          (looksMinted_of_isReference well) at_two first
        have length : byteLength (placeholderText "bx9tbpve".toList) = 34 := by decide
        rw [length, start] at stop'
        dsimp only at stop stop'
        rcases replaced.apart mem known with rfl | before | behind <;> omega
      · obtain ⟨f, known, early, _, near⟩ := far
        obtain ⟨r', _, _, _, stop', _⟩ := own f known
        rw [byteLength_placeholderText, Text.byteLength_append] at stop'
        have marker : byteLength Placeholder.marker = 24 := by decide
        dsimp only at stop'
        omega
    · exact shares
  · cases done.symm.trans failed

end WorkerBundler.Worker
