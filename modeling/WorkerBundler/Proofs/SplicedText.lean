import WorkerBundler.Proofs.EditCalls

/-!
# Edits spliced into a text one by one

`Edit.splice?` changes a text at once, so that the positions behind the edit shift. Edits of one
source may still be spliced one after the other if the last one comes first, since no edit then
shifts the range of another: this makes the edited text (`Replaced.spliceAll`). Which edits an
edited text holds does not depend on the order in which they were recorded
(`recordAll_of_perm`). `text_eq_spliced` says both of any edits that are all accepted.
-/

namespace WorkerBundler

open Text (byteLength IsBoundary)

/-! ## Splicing -/

/-- Puts the content of the edit in the place of its range, if this is a range within the text that
cuts no character. -/
def Edit.splice? (e : Edit) (text : List Char) : Option (List Char) :=
  if e.start ≤ e.stop ∧ IsBoundary e.start text ∧ IsBoundary e.stop text then
    some (Text.takeBytes e.start text ++ (e.content.toList ++ Text.dropBytes e.stop text))
  else none

/-- Splices edits one after the other, each into what the ones before it left. -/
def spliceAll : List Edit → List Char → Option (List Char)
  | [], text => some text
  | e :: rest, text => (e.splice? text).bind (spliceAll rest)

theorem spliceAll_append (first second : List Edit) (text : List Char) :
    spliceAll (first ++ second) text = (spliceAll first text).bind (spliceAll second) := by
  induction first generalizing text with
  | nil => rfl
  | cons e rest ih =>
    simp only [List.cons_append, spliceAll, Option.bind_assoc]
    exact congrArg (Option.bind (e.splice? text)) (funext ih)

theorem Edit.splice?_append {e : Edit} {before old : List Char} (behind : List Char)
    (start : e.start = byteLength before) (stop : e.stop = e.start + byteLength old) :
    e.splice? (before ++ (old ++ behind)) = some (before ++ (e.content.toList ++ behind)) := by
  have startBoundary : IsBoundary e.start (before ++ (old ++ behind)) :=
    Text.isBoundary_iff.2 ⟨before, old ++ behind, rfl, start.symm⟩
  have length : byteLength (before ++ old) = e.stop := by
    rw [Text.byteLength_append]
    omega
  have stopBoundary : IsBoundary e.stop (before ++ (old ++ behind)) :=
    Text.isBoundary_iff.2 ⟨before ++ old, behind, (List.append_assoc _ _ _).symm, length⟩
  have left : Text.takeBytes e.start (before ++ (old ++ behind)) = before := by
    rw [start, Text.takeBytes_byteLength_append]
  have right : Text.dropBytes e.stop (before ++ (old ++ behind)) = behind := by
    rw [← length, ← List.append_assoc, Text.dropBytes_byteLength_append]
  rw [splice?, if_pos ⟨by omega, startBoundary, stopBoundary⟩, left, right]

/-- What edits make of the rest of a source is what they make of it one by one from the last to the
first. -/
theorem Replaced.spliceAll {cursor : Nat} {rest text : List Char} {edits : List Edit}
    (h : Replaced cursor rest edits text) (before : List Char) (length : byteLength before = cursor) :
    spliceAll edits.reverse (before ++ rest) = some (before ++ text) := by
  induction h generalizing before with
  | kept => rfl
  | @edit cursor kept old rest text e edits start stop others ih =>
    have later := ih (before ++ (kept ++ old)) (by
      rw [Text.byteLength_append, Text.byteLength_append]
      omega)
    have start' : e.start = byteLength (before ++ kept) := by
      rw [Text.byteLength_append, length, start]
    have own := Edit.splice?_append text start' stop
    simp only [List.append_assoc] at later own
    rw [List.reverse_cons, spliceAll_append, later]
    simp only [Option.bind_some, WorkerBundler.spliceAll, own]

/-! ## The order of recording -/

namespace EditedText

variable {source : String} {edits other : List Edit} {t t' : EditedText}

/-- Edits that are apart from each other and from the recorded ones, and cut no character, are all
accepted. -/
theorem exists_recordAll (fits : t.Fits) (apart : edits.Pairwise Edit.Apart)
    (clear : ∀ e ∈ edits, ∀ f ∈ t.edits, e.Apart f)
    (within : ∀ e ∈ edits, e.start < e.stop ∧ e.stop ≤ t.source.utf8ByteSize ∧
      IsBoundary e.start t.source.toList ∧ IsBoundary e.stop t.source.toList) :
    ∃ after, t.recordAll edits = .ok after := by
  induction edits generalizing t with
  | nil => exact ⟨t, rfl⟩
  | cons e rest ih =>
    obtain ⟨first, apart⟩ := List.pairwise_cons.1 apart
    obtain ⟨some, inBounds, start, stop⟩ := within e List.mem_cons_self
    obtain ⟨next, recorded⟩ := fits.accepts_iff.2
      ⟨some, inBounds, start, stop, clear e List.mem_cons_self⟩
    obtain ⟨fits', same, perm⟩ := fits.overwrite recorded
    have others : ∀ f ∈ rest, ∀ g ∈ next.edits, f.Apart g := by
      intro f mem g listed
      rcases List.mem_cons.1 (perm.mem_iff.1 listed) with rfl | old
      · exact (first f mem).symm
      · exact clear f (List.mem_cons_of_mem _ mem) g old
    rw [recordAll, recorded]
    exact ih fits' apart others fun f mem => same ▸ within f (List.mem_cons_of_mem _ mem)

/-- Texts with the same source and edits are the same, whatever the order of recording. -/
theorem Fits.eq_of_perm (fits : t.Fits) (fits' : t'.Fits) (source : t.source = t'.source)
    (perm : t.edits.Perm t'.edits) : t = t' := by
  have edits : t.edits = t'.edits := by
    apply List.Perm.eq_of_pairwise ?_ fits.apart fits'.apart perm
    intro e f left right before after
    have first := fits.nonempty e left
    have second := fits'.nonempty f right
    omega
  cases t
  cases t'
  cases source
  cases edits
  rfl

/-- The recorded edits share no byte. -/
theorem Fits.pairwise_apart (fits : t.Fits) : t.edits.Pairwise Edit.Apart := by
  apply fits.apart.imp_of_mem
  intro e f left right before
  exact (Edit.apart_iff (fits.nonempty e left) (fits.nonempty f right)).2 (.inl before)

/-- Edits that are all accepted in one order are so in any order, with the same outcome. -/
theorem recordAll_of_perm (h : (ofSource source).recordAll edits = .ok t)
    (perm : other.Perm edits) : (ofSource source).recordAll other = .ok t := by
  obtain ⟨fits, same⟩ := fits_of_accepted h
  have holds := holds_of_recordAll h
  have reordered : t.edits.Perm other := holds.recorded.trans perm.symm
  have apart : other.Pairwise Edit.Apart :=
    reordered.pairwise fits.pairwise_apart Edit.Apart.symm
  obtain ⟨t', recorded⟩ := exists_recordAll (fits_ofSource source) apart (fun _ _ => nofun) (by
    intro e mem
    have listed := reordered.mem_iff.2 mem
    obtain ⟨some, inBounds⟩ := holds.within e listed
    exact ⟨some, inBounds, holds.whole e listed⟩)
  obtain ⟨fits', same'⟩ := fits_of_accepted recorded
  have known : t'.edits.Perm t.edits := (holds_of_recordAll recorded).recorded.trans reordered.symm
  rw [recorded, fits'.eq_of_perm fits (same'.trans same.symm) known]

/-! ## Any edits that are all accepted -/

/-- **Edits make of a source what splicing them one by one makes of it.** If edits are all accepted,
then the edited text is the source with the edits spliced in, in descending order of their starts;
and in any other order they are all accepted, too, and make the same edited text, with the same text
and the same maps. -/
theorem text_eq_spliced (h : (ofSource source).recordAll edits = .ok t) :
    (∀ descending : List Edit, descending.Perm edits →
      descending.Pairwise (fun e f => f.start ≤ e.start) →
        spliceAll descending source.toList = some t.text.toList) ∧
      ∀ other : List Edit, other.Perm edits →
        ∃ t', (ofSource source).recordAll other = .ok t' ∧ t'.text = t.text ∧
          ∀ o, t'.sourceMap o = t.sourceMap o := by
  constructor
  · intro descending perm order
    obtain ⟨fits, same⟩ := fits_of_accepted h
    have reversed : descending = t.edits.reverse := by
      have recorded := (holds_of_recordAll h).recorded
      have ascending : t.edits.Pairwise fun e f => e.start ≤ f.start := by
        apply fits.apart.imp_of_mem
        intro e f left _ before
        have some := fits.nonempty e left
        omega
      have shared : descending.Perm t.edits := perm.trans recorded.symm
      apply List.Perm.eq_of_pairwise ?_ order (List.pairwise_reverse.2 ascending)
        (shared.trans (List.reverse_perm _).symm)
      intro e f left right after before
      have left := shared.mem_iff.1 left
      have right := List.mem_reverse.1 right
      have own := fits.nonempty e left
      have own' := fits.nonempty f right
      rcases (replaced_text fits).apart left right with same | order | order
      · exact same
      · omega
      · omega
    have spliced := (replaced_text fits).spliceAll [] rfl
    rw [reversed, ← same]
    exact spliced
  · intro other perm
    exact ⟨t, recordAll_of_perm h perm, rfl, fun _ => rfl⟩

/-- Edits that touch each other, of characters of one, two and four bytes. -/
def letterEdits : List Edit := [⟨3, 7, "wide"⟩, ⟨9, 10, ""⟩, ⟨1, 3, "e"⟩]

/-- The letters are replaced from the last to the first, and recorded in another order. -/
theorem text_eq_spliced_letters : ∃ t t', (ofSource "aé𝒳b;c").recordAll letterEdits = .ok t ∧
    t.text = "aewideb;" ∧
    spliceAll [⟨9, 10, ""⟩, ⟨3, 7, "wide"⟩, ⟨1, 3, "e"⟩] "aé𝒳b;c".toList =
      some "aewideb;".toList ∧
    (ofSource "aé𝒳b;c").recordAll letterEdits.reverse = .ok t' ∧ t'.text = "aewideb;" := by
  have recorded : (ofSource "aé𝒳b;c").recordAll letterEdits =
      .ok ⟨"aé𝒳b;c", [⟨1, 3, "e"⟩, ⟨3, 7, "wide"⟩, ⟨9, 10, ""⟩]⟩ := by
    decide
  have text : (⟨"aé𝒳b;c", [⟨1, 3, "e"⟩, ⟨3, 7, "wide"⟩, ⟨9, 10, ""⟩]⟩ : EditedText).text =
      "aewideb;" := by
    decide
  obtain ⟨spliced, reordered⟩ := text_eq_spliced recorded
  have perm : List.Perm [⟨9, 10, ""⟩, ⟨3, 7, "wide"⟩, ⟨1, 3, "e"⟩] letterEdits := by
    decide
  have descending := spliced _ perm (by decide)
  rw [text] at descending
  obtain ⟨t', recorded', text', _⟩ := reordered _ (List.reverse_perm letterEdits)
  exact ⟨_, t', recorded, text, descending, recorded', text'.trans text⟩

end EditedText

end WorkerBundler
