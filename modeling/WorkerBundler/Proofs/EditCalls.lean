import WorkerBundler.Proofs.SourceMap.Carried
import Mathlib.Data.List.TakeWhile

/-!
# Calls that record edits

A call asks an edited text to record an edit, and is accepted or refused. The place of an edit is
found among the recorded ones by their starts, and only the neighbours there are compared with it
(`insertBetween`); since the recorded edits are apart, this keeps the new one apart from all of them
(`Fits.accepts_iff`). `callAll` makes calls one after the other. After any calls, the next one is
accepted exactly if its range holds some bytes of the source, cuts no character, and shares no byte
with an edit accepted before; a refused call changes nothing; and the edited text is read from
slices of the source which all are valid (`accepts_after_calls`).
-/

namespace WorkerBundler

open Text (byteLength IsBoundary)

/-! ## Ranges that share no byte -/

namespace Edit

/-- No byte lies in the ranges of both edits. -/
def Apart (e f : Edit) : Prop :=
  ∀ n, ¬((e.start ≤ n ∧ n < e.stop) ∧ f.start ≤ n ∧ n < f.stop)

variable {e f : Edit}

theorem Apart.symm (h : e.Apart f) : f.Apart e := fun n inside => h n inside.symm

theorem apart_iff (here : e.start < e.stop) (there : f.start < f.stop) :
    e.Apart f ↔ e.stop ≤ f.start ∨ f.stop ≤ e.start := by
  constructor
  · intro apart
    by_contra meet
    -- the later one of the two starts lies in both ranges
    apply apart (max e.start f.start)
    omega
  · intro order n inside
    omega

end Edit

/-! ## The neighbours of an edit -/

namespace EditedText

variable {e : Edit} {edits : List Edit} {t : EditedText}

/-- Puts an edit behind those with smaller starts, unless it meets the last one of these or the
first one of the others. -/
def insertBetween (e : Edit) (edits : List Edit) : Option (List Edit) :=
  let front := edits.takeWhile (·.start < e.start)
  let back := edits.dropWhile (·.start < e.start)
  if (∃ f ∈ front.getLast?, e.start < f.stop) ∨ ∃ f ∈ back.head?, f.start < e.stop then none
  else some (front ++ e :: back)

/-- An edit is compared with its neighbours only. -/
theorem insertEdit_eq_insertBetween (apart : edits.Pairwise fun e f => e.stop ≤ f.start) :
    insertEdit e edits = insertBetween e edits := by
  induction edits with
  | nil => simp [insertEdit, insertBetween]
  | cons f rest ih =>
    obtain ⟨first, others⟩ := List.pairwise_cons.1 apart
    rw [insertEdit]
    split
    · rename_i smaller
      split
      · rename_i meets
        -- what follows starts behind the stop of `f`, so `f` is the last with a smaller start
        have last : rest.takeWhile (·.start < e.start) = [] := by
          cases rest with
          | nil => rfl
          | cons g rest =>
            have behind := first g List.mem_cons_self
            rw [List.takeWhile_cons_of_neg]
            simp only [decide_eq_true_eq]
            omega
        simp [insertBetween, smaller, last, meets]
      · rename_i clear
        rw [ih others]
        simp only [insertBetween, List.takeWhile_cons, List.dropWhile_cons, smaller, decide_true,
          if_true, List.getLast?_cons]
        cases hlast : (rest.takeWhile (·.start < e.start)).getLast? with
        | none => simp [clear, apply_ite (Option.map _)]
        | some l => simp [apply_ite (Option.map _)]
    · rename_i larger
      simp [insertBetween, larger]

/-- Edits stop where the last one of them does, or in front of that. -/
theorem stop_le_of_getLast? (nonempty : ∀ f ∈ edits, f.start < f.stop)
    (apart : edits.Pairwise fun e f => e.stop ≤ f.start) {n : Nat}
    (last : ∀ f ∈ edits.getLast?, f.stop ≤ n) : ∀ f ∈ edits, f.stop ≤ n := by
  intro f mem
  rcases List.eq_nil_or_concat' edits with rfl | ⟨front, final, rfl⟩
  · cases mem
  · have ends : final.stop ≤ n := last final (by simp)
    rcases List.mem_append.1 mem with inFront | here
    · have order := (List.pairwise_append.1 apart).2.2 f inFront final (List.mem_singleton_self _)
      have own := nonempty final (by simp)
      omega
    · rw [List.mem_singleton.1 here]
      exact ends

/-- Edits start where the first one of them does, or behind that. -/
theorem le_start_of_head? (nonempty : ∀ f ∈ edits, f.start < f.stop)
    (apart : edits.Pairwise fun e f => e.stop ≤ f.start) {n : Nat}
    (head : ∀ f ∈ edits.head?, n ≤ f.start) : ∀ f ∈ edits, n ≤ f.start := by
  intro f mem
  cases edits with
  | nil => cases mem
  | cons first rest =>
    have begins : n ≤ first.start := head first rfl
    rcases List.mem_cons.1 mem with rfl | later
    · exact begins
    · have order := (List.pairwise_cons.1 apart).1 f later
      have own := nonempty first List.mem_cons_self
      omega

/-- An edit is put among edits that are apart exactly if it is apart from all of them. -/
theorem exists_insertBetween_iff (here : e.start < e.stop)
    (nonempty : ∀ f ∈ edits, f.start < f.stop)
    (apart : edits.Pairwise fun e f => e.stop ≤ f.start) :
    (∃ recorded, insertBetween e edits = some recorded) ↔ ∀ f ∈ edits, e.Apart f := by
  have cut := List.takeWhile_append_dropWhile (p := (·.start < e.start)) (l := edits)
  have smaller : ∀ f ∈ edits.takeWhile (·.start < e.start), f.start < e.start := by
    intro f mem
    have own := List.mem_takeWhile_imp mem
    exact of_decide_eq_true own
  have larger : ∀ f ∈ (edits.dropWhile (·.start < e.start)).head?, e.start ≤ f.start := by
    intro f head
    have refused := List.head?_dropWhile_not (·.start < e.start) edits
    rw [Option.mem_def.1 head] at refused
    simpa using refused
  simp only [insertBetween]
  generalize edits.takeWhile (·.start < e.start) = front at cut smaller ⊢
  generalize edits.dropWhile (·.start < e.start) = back at cut larger ⊢
  subst cut
  obtain ⟨inFront, inBack⟩ := List.forall_mem_append.1 nonempty
  obtain ⟨ordered, ordered', _⟩ := List.pairwise_append.1 apart
  constructor
  · rintro ⟨recorded, put⟩ f mem
    split at put
    · cases put
    · rename_i clear
      rw [not_or] at clear
      obtain ⟨clear, clear'⟩ := clear
      rw [Edit.apart_iff here (nonempty f mem)]
      rcases List.mem_append.1 mem with before | behind
      · right
        apply stop_le_of_getLast? inFront ordered ?_ f before
        intro last found
        by_contra meets
        exact clear ⟨last, found, Nat.lt_of_not_le meets⟩
      · left
        apply le_start_of_head? inBack ordered' ?_ f behind
        intro first found
        by_contra meets
        exact clear' ⟨first, found, Nat.lt_of_not_le meets⟩
  · intro each
    have order : ∀ f ∈ front ++ back, e.stop ≤ f.start ∨ f.stop ≤ e.start := by
      intro f mem
      exact (Edit.apart_iff here (nonempty f mem)).1 (each f mem)
    refine ⟨front ++ e :: back, if_neg ?_⟩
    rw [not_or]
    constructor
    · rintro ⟨f, last, meets⟩
      have mem := List.mem_of_mem_getLast? last
      have before := smaller f mem
      rcases order f (List.mem_append_left _ mem) with ahead | passed
      · omega
      · omega
    · rintro ⟨f, head, meets⟩
      have mem := List.mem_of_mem_head? head
      have own := inBack f mem
      have behind := larger f head
      rcases order f (List.mem_append_right _ mem) with ahead | passed
      · omega
      · omega

/-! ## Accepted calls -/

/-- The call that asks for the edit is accepted. -/
def Accepts (t : EditedText) (e : Edit) : Prop :=
  ∃ after, t.overwrite e.start e.stop e.content = .ok after

theorem Fits.accepts_iff (fits : t.Fits) :
    t.Accepts e ↔ e.start < e.stop ∧ e.stop ≤ t.source.utf8ByteSize ∧
      IsBoundary e.start t.source.toList ∧ IsBoundary e.stop t.source.toList ∧
      ∀ f ∈ t.edits, e.Apart f := by
  rw [Accepts, EditedText.overwrite]
  by_cases some : e.start < e.stop
  swap
  · simp [Nat.le_of_not_lt some, some]
  by_cases within : e.stop ≤ t.source.utf8ByteSize
  swap
  · simp [Nat.not_le_of_lt some, Nat.lt_of_not_le within, within]
  rw [if_neg (by omega), if_neg (by omega)]
  by_cases whole : IsBoundary e.start t.source.toList ∧ IsBoundary e.stop t.source.toList
  swap
  · rw [if_pos whole]
    simp only [reduceCtorEq, exists_false, false_iff]
    rintro ⟨_, _, start, stop, _⟩
    exact whole ⟨start, stop⟩
  rw [if_neg (not_not_intro whole), insertEdit_eq_insertBetween fits.apart]
  have put := exists_insertBetween_iff some fits.nonempty fits.apart
  constructor
  · rintro ⟨after, recorded⟩
    refine ⟨some, within, whole.1, whole.2, put.1 ?_⟩
    split at recorded
    · cases recorded
    · rename_i edits inserted
      exact ⟨edits, inserted⟩
  · rintro ⟨_, _, _, _, apart⟩
    obtain ⟨edits, inserted⟩ := put.2 apart
    rw [show (⟨e.start, e.stop, e.content⟩ : Edit) = e from rfl, inserted]
    exact ⟨_, rfl⟩

/-- Makes the calls one after the other. A refused call leaves the text as it is. -/
def callAll (t : EditedText) : List Edit → EditedText
  | [] => t
  | e :: rest =>
    match t.overwrite e.start e.stop e.content with
    | .ok after => callAll after rest
    | .error _ => callAll t rest

/-- Those of the calls that are accepted. -/
def acceptedCalls (t : EditedText) : List Edit → List Edit
  | [] => []
  | e :: rest =>
    match t.overwrite e.start e.stop e.content with
    | .ok after => e :: acceptedCalls after rest
    | .error _ => acceptedCalls t rest

/-- Calls do what those of them that are accepted do. -/
theorem recordAll_acceptedCalls (t : EditedText) (calls : List Edit) :
    t.recordAll (t.acceptedCalls calls) = .ok (t.callAll calls) := by
  induction calls generalizing t with
  | nil => rfl
  | cons e rest ih =>
    rw [acceptedCalls, callAll]
    cases answered : t.overwrite e.start e.stop e.content with
    | error fault => exact ih t
    | ok after =>
      dsimp only
      rw [recordAll, answered]
      exact ih after

theorem callAll_append (t : EditedText) (calls more : List Edit) :
    t.callAll (calls ++ more) = (t.callAll calls).callAll more := by
  induction calls generalizing t with
  | nil => rfl
  | cons e rest ih =>
    rw [List.cons_append, callAll, callAll]
    split
    · exact ih _
    · exact ih t

theorem callAll_of_not_accepts (refused : ¬t.Accepts e) : t.callAll [e] = t := by
  rw [callAll]
  split
  · rename_i after accepted
    exact absurd ⟨after, accepted⟩ refused
  · rfl

/-- Accepted edits are recorded, and nothing else is. -/
theorem perm_of_recordAll {after : EditedText} (fits : t.Fits) (h : t.recordAll edits = .ok after) :
    after.edits.Perm (edits ++ t.edits) := by
  induction edits generalizing t with
  | nil =>
    cases h
    exact .refl _
  | cons e rest ih =>
    rw [recordAll] at h
    split at h
    · cases h
    · rename_i next recorded
      obtain ⟨fits', _, perm⟩ := fits.overwrite recorded
      exact ((ih fits' h).trans (perm.append_left rest)).trans List.perm_middle

/-- Edits that a source accepts fit it. -/
theorem fits_of_accepted {source : String} (h : (ofSource source).recordAll edits = .ok t) :
    t.Fits ∧ t.source = source :=
  fits_of_recordAll (fits_ofSource source) h

/-! ## Slices of the source -/

/-- The slices of a source of `length` bytes that an edited text is read from, from `cursor` on:
in turn what is kept in front of an edit and what the edit replaces, and what is kept at the end. -/
def slicesFrom (length cursor : Nat) : List Edit → List (Nat × Nat)
  | [] => [(cursor, length)]
  | e :: edits => (cursor, e.start) :: (e.start, e.stop) :: slicesFrom length e.stop edits

/-- The slices of the source that the text is read from. -/
def slices (t : EditedText) : List (Nat × Nat) :=
  slicesFrom t.source.utf8ByteSize 0 t.edits

end EditedText

/-- The bytes of the text from `start` to `stop`, where this is a range within the text that cuts no
character. -/
def Text.slice? (start stop : Nat) (cs : List Char) : Option (List Char) :=
  if start ≤ stop ∧ IsBoundary start cs ∧ IsBoundary stop cs then
    some (takeBytes (stop - start) (dropBytes start cs))
  else none

theorem Text.slice?_append (before here behind : List Char) :
    slice? (byteLength before) (byteLength before + byteLength here) (before ++ (here ++ behind)) =
      some here := by
  have start : IsBoundary (byteLength before) (before ++ (here ++ behind)) :=
    isBoundary_iff.2 ⟨before, here ++ behind, rfl, rfl⟩
  have stop : IsBoundary (byteLength before + byteLength here) (before ++ (here ++ behind)) :=
    isBoundary_iff.2 ⟨before ++ here, behind, (List.append_assoc _ _ _).symm,
      byteLength_append _ _⟩
  rw [slice?, if_pos ⟨Nat.le_add_right _ _, start, stop⟩, Nat.add_sub_cancel_left,
    dropBytes_byteLength_append, takeBytes_byteLength_append]

/-- Where edits cut the rest of a source, its slices are its spans. -/
theorem Replaced.slices {cursor : Nat} {rest text : List Char} {edits : List Edit}
    (h : Replaced cursor rest edits text) (before : List Char) (length : byteLength before = cursor) :
    (EditedText.slicesFrom (byteLength (before ++ rest)) cursor edits).map
        (fun s => Text.slice? s.1 s.2 (before ++ rest)) =
      (EditedText.spansFrom cursor rest edits).map fun s => some s.old := by
  induction h generalizing before with
  | @kept cursor rest =>
    have last := Text.slice?_append before rest []
    rw [List.append_nil, ← Text.byteLength_append, length] at last
    simp only [EditedText.slicesFrom, EditedText.spansFrom, List.map_cons, List.map_nil, last,
      Span.old]
  | @edit cursor kept old rest text e edits start stop others ih =>
    have first := Text.slice?_append before kept (old ++ rest)
    have second := Text.slice?_append (before ++ kept) old rest
    rw [Text.byteLength_append, length, ← start] at second
    rw [List.append_assoc, ← stop] at second
    rw [length, ← start] at first
    have later := ih (before ++ (kept ++ old)) (by
      rw [Text.byteLength_append, Text.byteLength_append]
      omega)
    have whole : before ++ (kept ++ old) ++ rest = before ++ (kept ++ (old ++ rest)) := by
      simp only [List.append_assoc]
    rw [whole] at later
    rw [EditedText.spansFrom_cons rest edits start stop, EditedText.slicesFrom]
    simp only [List.map_cons, first, second, later, Span.old]

namespace EditedText

/-! ## Any calls -/

/-- What a text holds of the edits accepted so far: it has recorded just these, they are in
ascending order, apart and within the source, they cut no character, and the slices that the text is
read from are valid and make up its spans. -/
structure Holds (source : String) (accepted : List Edit) (t : EditedText) : Prop where
  source_eq : t.source = source
  recorded : t.edits.Perm accepted
  apart : t.edits.Pairwise fun e f => e.stop ≤ f.start
  within : ∀ e ∈ t.edits, e.start < e.stop ∧ e.stop ≤ source.utf8ByteSize
  whole : ∀ e ∈ t.edits, IsBoundary e.start source.toList ∧ IsBoundary e.stop source.toList
  slices : t.slices.map (fun s => Text.slice? s.1 s.2 source.toList) = t.spans.map fun s => some s.old

theorem holds_of_recordAll {source : String} {accepted : List Edit} {t : EditedText}
    (h : (ofSource source).recordAll accepted = .ok t) : Holds source accepted t := by
  obtain ⟨fits, rfl⟩ := fits_of_accepted h
  have perm := perm_of_recordAll (fits_ofSource t.source) h
  have slices := (replaced_text fits).slices [] rfl
  rw [List.nil_append, ← Text.utf8ByteSize_eq] at slices
  refine ⟨rfl, by simpa [ofSource] using perm, fits.apart, ?_, fits.boundaries, slices⟩
  intro e mem
  refine ⟨fits.nonempty e mem, ?_⟩
  rw [Text.utf8ByteSize_eq]
  exact (fits.boundaries e mem).2.le_byteLength

/-- **A call is accepted exactly if its range is free.** After any calls, the text holds the edits
accepted so far; another call is accepted exactly if its range holds bytes of the source, cuts no
character and has no byte in common with the range of a call accepted before; and if it is refused,
the edits, the text and its maps are what they were. -/
theorem accepts_after_calls (source : String) (calls : List Edit) :
    let t := (ofSource source).callAll calls
    let earlier := (ofSource source).acceptedCalls calls
    Holds source earlier t ∧
      (∀ e, t.Accepts e ↔ e.start < e.stop ∧ e.stop ≤ source.utf8ByteSize ∧
        IsBoundary e.start source.toList ∧ IsBoundary e.stop source.toList ∧
        ∀ f ∈ earlier, e.Apart f) ∧
      ∀ e, ¬t.Accepts e →
        let after := (ofSource source).callAll (calls ++ [e])
        after.edits = t.edits ∧ after.text = t.text ∧ ∀ o, after.sourceMap o = t.sourceMap o := by
  intro t earlier
  have recorded := recordAll_acceptedCalls (ofSource source) calls
  have holds : Holds source earlier t := holds_of_recordAll recorded
  refine ⟨holds, ?_, ?_⟩
  · intro e
    have fits : t.Fits := (fits_of_accepted recorded).1
    rw [fits.accepts_iff, holds.source_eq]
    simp only [holds.recorded.mem_iff]
  · intro e refused after
    have unchanged : after = t := by
      rw [show after = t.callAll [e] from callAll_append _ calls [e],
        callAll_of_not_accepts refused]
    rw [unchanged]
    exact ⟨rfl, rfl, fun _ => rfl⟩

/-- Calls that touch an accepted one are accepted, calls that meet it are not. -/
example : (ofSource "abcdef").acceptedCalls
    [⟨2, 2, "x"⟩, ⟨4, 10, "x"⟩, ⟨1, 4, "x"⟩, ⟨3, 5, "y"⟩, ⟨0, 2, "y"⟩, ⟨4, 6, "y"⟩] =
      [⟨1, 4, "x"⟩, ⟨4, 6, "y"⟩] := by
  decide

end EditedText

end WorkerBundler
