import WorkerBundler.Proofs.Words
import WorkerBundler.Proofs.Worker.Occurrences

/-!
# Markers after substituting

A substituted text has no marker, so substituting once more leaves it alone
(`unmarked_of_substitute`). Three things could go wrong. A literal could bring a marker along, but it
has only those of the name of its file (`marked_of_literal`). A marker could come about where a
literal meets the text around it, but the literal has its quotation marks there
(`Replaced.infix_cases`). And a marker of the source could be passed over, but each of them starts
within a placeholder that is replaced (`exists_covering`).
-/

namespace WorkerBundler

/-! ## Words of texts with replaced spans -/

open Text (byteLength)

/-- Where spans are replaced by quoted texts, a word without quotation marks stands in one of these
or was there before, apart from the spans. -/
theorem Replaced.infix_cases {cursor : Nat} {source text word : List Char} {edits : List Edit}
    (h : Replaced cursor source edits text) (quoted : ∀ e ∈ edits, ∃ s, e.content = Text.quote s)
    (unquoted : '"' ∉ word) (here : word <:+: text) :
    (∃ e ∈ edits, word <:+: e.content.toList) ∨
      ∃ before behind, source = before ++ (word ++ behind) ∧
        ∀ e ∈ edits, e.stop ≤ cursor + byteLength before ∨
          cursor + byteLength before + byteLength word ≤ e.start := by
  induction h with
  | kept =>
    obtain ⟨before, behind, rfl⟩ := here
    exact Or.inr ⟨before, behind, List.append_assoc before word behind, nofun⟩
  | @edit cursor kept old rest text e edits start stop next ih =>
    obtain ⟨s, content⟩ := quoted e List.mem_cons_self
    have spelled : e.content.toList = '"' :: (s.toList.flatMap Text.escapeChar ++ ['"']) := by
      rw [content, Text.quote, String.toList_ofList, Text.quoteChars]
    rw [spelled, List.cons_append, List.append_assoc, List.singleton_append] at here
    rcases Text.infix_or_infix unquoted here with ⟨before, behind, rfl⟩ | here
    · refine Or.inr ⟨before, behind ++ (old ++ rest), by simp only [List.append_assoc], ?_⟩
      intro f mem
      rw [Text.byteLength_append, Text.byteLength_append] at start
      rcases List.mem_cons.1 mem with rfl | later
      · omega
      · have ahead := next.pairwise.2 f later
        omega
    · rcases Text.infix_or_infix unquoted here with inside | behind
      · refine Or.inl ⟨e, List.mem_cons_self, inside.trans ?_⟩
        rw [spelled]
        exact List.infix_cons (List.prefix_append _ _).isInfix
      · rcases ih (fun f mem => quoted f (List.mem_cons_of_mem e mem)) behind with
          ⟨f, mem, found⟩ | ⟨before, behind, rfl, clear⟩
        · exact Or.inl ⟨f, List.mem_cons_of_mem e mem, found⟩
        · refine Or.inr ⟨kept ++ (old ++ before), behind, by simp only [List.append_assoc], ?_⟩
          intro f mem
          rw [Text.byteLength_append, Text.byteLength_append]
          rcases List.mem_cons.1 mem with rfl | later
          · omega
          · have apart := clear f later
            omega

end WorkerBundler

/-! ## Markers -/

namespace WorkerBundler.Worker

open Text (byteLength)

/-- The marker of placeholders stands somewhere in the text. -/
def Marked (text : String) : Prop :=
  Placeholder.marker <:+: text.toList

instance (text : String) : Decidable (Marked text) :=
  inferInstanceAs (Decidable (Placeholder.marker <:+: text.toList))

theorem marked_of_markedAt {text : String} {p : Nat} (h : MarkedAt text.toList p) :
    Marked text := by
  obtain ⟨before, behind, cut, _⟩ := h
  exact ⟨before, behind, by rw [cut, List.append_assoc]⟩

/-- A literal has the markers of the file name only. -/
theorem marked_of_literal {chunkFile workerFile : String}
    (h : Marked (literal chunkFile workerFile)) : Marked workerFile := by
  have free : Text.FreeOfEscapes Placeholder.marker := by decide
  rw [Marked, literal, Text.quote, String.toList_ofList] at h
  exact OutputPath.infix_of_requestFrom (by decide) (by decide) (by decide)
    (Text.infix_of_quoteChars free h)

/-- In a text without malformed placeholders each marker starts within a placeholder that is
found. -/
theorem exists_covering {code : String} {p : Nat} (wellFormed : Placeholder.malformed? code = none)
    (marked : MarkedAt code.toList p) :
    ∃ h ∈ Placeholder.references code,
      h.1 ≤ p ∧ p < h.1 + byteLength (placeholderText h.2) := by
  obtain ⟨reference, looks, here⟩ := exists_placeholderAt wellFormed marked
  rcases mem_references_or_shares looks here with mem | ⟨h, mem, _, first, last⟩
  · refine ⟨_, mem, Nat.le_refl p, ?_⟩
    rw [byteLength_placeholderText]
    omega
  · exact ⟨h, mem, by omega, last⟩

section

variable {fileName : String → Except BuildError String} {request : RenderRequest}
  {kind : Option SourceMapKind}

/-- If substituting fails, then at a placeholder: no edit of a placeholder is refused. -/
theorem code_of_substitute_error {failure : BuildError}
    (failed : substitute fileName request kind = .error failure) :
    failure.code = "UNRESOLVED_PLACEHOLDER" := by
  have fails : FailsAtPlaceholder (substitute fileName request kind) := by
    cases malformed : Placeholder.malformed? request.code with
    | some token => exact fails_of_malformed malformed
    | none =>
      rcases @substitute_cases fileName request kind malformed with
        ⟨left, _⟩ | ⟨output, edits, done, _⟩ | ⟨_, fails⟩
      · cases left.symm.trans failed
      · cases done.symm.trans failed
      · exact fails
  obtain ⟨e, raised, code⟩ := fails
  cases raised.symm.trans failed
  exact code

theorem substitute_of_unmarked (unmarked : ¬Marked request.code) :
    substitute fileName request kind = .ok none := by
  cases malformed : Placeholder.malformed? request.code with
  | some token =>
    obtain ⟨p, marked, _⟩ := exists_of_malformed malformed
    exact absurd (marked_of_markedAt marked) unmarked
  | none =>
    have empty : Placeholder.references request.code = [] := by
      rw [List.eq_nil_iff_forall_not_mem]
      intro h mem
      exact unmarked (marked_of_markedAt
        (markedAt_of_placeholderAt (placeholderAt_of_mem mem).2))
    rw [substitute, malformed, empty]

/-- A substituted text had no malformed placeholder, and all placeholders that were found are
overwritten. -/
theorem replaced_of_substitute {output : RenderOutput}
    (done : substitute fileName request kind = .ok (some output)) :
    Placeholder.malformed? request.code = none ∧
      ∃ edits, Replaced 0 request.code.toList edits output.code.toList ∧
        List.Forall₂ (Substitutes fileName request.chunk.fileName)
          (Placeholder.references request.code) edits := by
  cases malformed : Placeholder.malformed? request.code with
  | some token =>
    obtain ⟨e, failed, _⟩ := @fails_of_malformed fileName request kind token malformed
    cases failed.symm.trans done
  | none =>
    rcases @substitute_cases fileName request kind malformed with
      ⟨left, _⟩ | ⟨output', edits, done', _, replaced, each⟩ | ⟨_, e, failed, _⟩
    · cases left.symm.trans done
    · cases done'.symm.trans done
      exact ⟨rfl, edits, replaced, each⟩
    · cases failed.symm.trans done

/-- If no worker file has a marker in its name, no marker is left. -/
theorem not_marked_of_substitute {output : RenderOutput}
    (unmarked : ∀ reference workerFile, fileName reference = .ok workerFile → ¬Marked workerFile)
    (done : substitute fileName request kind = .ok (some output)) : ¬Marked output.code := by
  intro marked
  obtain ⟨wellFormed, edits, replaced, each⟩ := replaced_of_substitute done
  have literals : ∀ e ∈ edits, ∃ workerFile, ¬Marked workerFile ∧
      e.content = literal request.chunk.fileName workerFile := by
    intro e mem
    obtain ⟨h, _, _, _, workerFile, given, content⟩ := exists_of_forall₂_right each mem
    exact ⟨workerFile, unmarked _ workerFile given, content⟩
  have quoted : ∀ e ∈ edits, ∃ s, e.content = Text.quote s := by
    intro e mem
    obtain ⟨workerFile, _, content⟩ := literals e mem
    exact ⟨_, content⟩
  rcases replaced.infix_cases quoted (by decide) marked with
    ⟨e, mem, inside⟩ | ⟨before, behind, cut, clear⟩
  · obtain ⟨workerFile, free, content⟩ := literals e mem
    exact free (marked_of_literal (content ▸ inside))
  · -- a marker of the source starts within a placeholder, which was overwritten
    obtain ⟨h, known, first, last⟩ := exists_covering wellFormed ⟨before, behind, cut, rfl⟩
    obtain ⟨e, mem, start, stop, _⟩ := exists_of_forall₂_left each known
    have apart := clear e mem
    have length : byteLength Placeholder.marker = 24 := by decide
    omega

end

/-- **Substituting leaves no marker.** While no worker file has the marker in its name, substituting
fails at a placeholder at most and never at an edit, and a substituted text has no marker: no
substitution, with whatever file names, finds anything to do in it. -/
theorem unmarked_of_substitute (e : Emitter)
    (unmarked : ∀ m ∈ e.emissions, ∀ name ∈ m.fileName, ¬Marked name) (request : RenderRequest)
    (kind : Option SourceMapKind) :
    (∀ failure, substitute e.fileName request kind = .error failure →
      failure.code = "UNRESOLVED_PLACEHOLDER") ∧
      ∀ output, substitute e.fileName request kind = .ok (some output) →
        ¬Marked output.code ∧
          ∀ fileName again kind, again.code = output.code →
            substitute fileName again kind = .ok none := by
  refine ⟨fun failure => code_of_substitute_error, ?_⟩
  intro output done
  have none : ¬Marked output.code := by
    refine not_marked_of_substitute ?_ done
    intro reference workerFile given
    obtain ⟨m, mem, named⟩ := Emitter.exists_of_fileName given
    exact unmarked m mem workerFile named
  refine ⟨none, ?_⟩
  intro fileName again kind same
  refine substitute_of_unmarked ?_
  rwa [same]

/-- The marker that shares its underscores with the placeholder before it loses them to the
literal. -/
theorem unmarked_of_substitute_sharing :
    (∀ m ∈ namedEmitter.emissions, ∀ name ∈ m.fileName, ¬Marked name) ∧
      ∃ output, substitute namedEmitter.fileName sharingRequest none = .ok (some output) ∧
        ¬Marked output.code ∧
        substitute namedEmitter.fileName { sharingRequest with code := output.code } none =
          .ok none := by
  have unmarked : ∀ m ∈ namedEmitter.emissions, ∀ name ∈ m.fileName, ¬Marked name := by
    decide
  have done : substitute namedEmitter.fileName sharingRequest none =
      .ok (some ⟨"f(\"./t.js\"ROLLDOWN_NODE_WORKER__bx9tbpve__);", none⟩) := by
    decide
  obtain ⟨free, again⟩ := (unmarked_of_substitute namedEmitter unmarked sharingRequest none).2 _ done
  exact ⟨unmarked, _, done, free, again _ _ _ rfl⟩

end WorkerBundler.Worker
