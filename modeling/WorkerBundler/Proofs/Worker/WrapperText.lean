import WorkerBundler.Proofs.EditedSpans
import WorkerBundler.Proofs.ImportSpans
import WorkerBundler.Proofs.Loading.Provenance
import WorkerBundler.Proofs.Worker.Requests

/-!
# The text of a wrapper

A wrapper is a fixed text around one placeholder. The fixed text is checked place by place
(`everywhere_wrapperHead`): no marker starts in it, so the placeholder is the only one and
well-formed (`references_wrapper`, `malformed?_wrapper`), and every specifier in it names a package
(`isBare_of_mem_imports`). So nothing but the placeholder of a wrapper is ever replaced, and the
result is the wrapper around the literal of the worker's file (`substitute_wrapper`).
-/

namespace WorkerBundler

open Text (byteLength everywhere Stable)

/-! ## Tests of a place -/

namespace Text

/-- The text has a character other than that of `lead` before either of them ends. -/
def differs : List Char → List Char → Bool
  | l :: lead, c :: cs => l ≠ c || differs lead cs
  | _, _ => false

theorem after?_of_differs {lead cs : List Char} (h : differs lead cs = true) :
    after? lead cs = none := by
  induction lead generalizing cs with
  | nil => simp [differs] at h
  | cons l lead ih =>
    cases cs with
    | nil => rfl
    | cons c cs =>
      unfold after?
      split
      · rename_i same
        exact ih (by simpa [differs, same] using h)
      · rfl

theorem differs_append {lead cs : List Char} (h : differs lead cs = true) (more : List Char) :
    differs lead (cs ++ more) = true := by
  induction lead generalizing cs with
  | nil => simp [differs] at h
  | cons l lead ih =>
    cases cs with
    | nil => simp [differs] at h
    | cons c cs =>
      rw [differs, Bool.or_eq_true] at h
      rw [List.cons_append, differs, Bool.or_eq_true]
      exact h.imp_right ih

theorem everywhere_of_forall {p : Char → List Char → Bool} {cs : List Char}
    (h : ∀ c ∈ cs, ∀ rest, p c rest = true) : everywhere p cs = true := by
  induction cs with
  | nil => rfl
  | cons c cs ih =>
    rw [everywhere, Bool.and_eq_true]
    exact ⟨h c List.mem_cons_self cs, ih fun x mem => h x (List.mem_cons_of_mem _ mem)⟩

theorem everywhere_imp {p q : Char → List Char → Bool} {cs : List Char}
    (imp : ∀ c rest, p c rest = true → q c rest = true) (h : everywhere p cs = true) :
    everywhere q cs = true := by
  induction cs with
  | nil => rfl
  | cons c cs ih =>
    rw [everywhere, Bool.and_eq_true] at h ⊢
    exact ⟨imp c cs h.1, ih h.2⟩

end Text

namespace Worker

/-- No marker of placeholders starts here. -/
def startsNoMarker (c : Char) (rest : List Char) : Bool :=
  Text.differs Placeholder.marker (c :: rest)

/-- If a specifier starts behind this character it names a package, and it has no query. -/
def isCalm (c : Char) (rest : List Char) : Bool :=
  c ≠ '"' && c ≠ '?' && (c ≠ '\'' || match rest with
    | [] => false
    | d :: _ => d ≠ '.' && d ≠ '/')

theorem stable_startsNoMarker : Stable startsNoMarker :=
  fun _ _ more h => Text.differs_append h more

theorem stable_isCalm : Stable isCalm := by
  intro c rest more h
  cases rest with
  | nil =>
    have bare : c ≠ '\'' := by
      rintro rfl
      cases h
    simp_all [isCalm]
  | cons d rest => exact h

/-- Both tests at once. -/
def isInert (c : Char) (rest : List Char) : Bool :=
  startsNoMarker c rest && isCalm c rest

theorem stable_isInert : Stable isInert := by
  intro c rest more h
  rw [isInert, Bool.and_eq_true] at h ⊢
  exact ⟨stable_startsNoMarker _ _ _ h.1, stable_isCalm _ _ _ h.2⟩

/-! ## The fixed text -/

theorem everywhere_wrapperHead (format : Format) :
    everywhere isInert (wrapperHead format).toList = true := by
  unfold wrapperHead
  rw [String.toList_append, String.toList_append]
  refine Text.everywhere_append stable_isInert (Text.everywhere_append stable_isInert ?_ ?_) ?_
  · decide
  · cases format with
    | cjs => rfl
    | esm =>
      dsimp only
      rw [String.toList_append]
      refine Text.everywhere_append stable_isInert ?_ ?_
      · decide
      · decide
  · decide

theorem everywhere_wrapperTail : everywhere isInert wrapperTail.toList = true := by
  decide

theorem startsNoMarker_of_isInert (c : Char) (rest : List Char) (h : isInert c rest = true) :
    startsNoMarker c rest = true :=
  (Bool.and_eq_true _ _ ▸ h).1

theorem isCalm_of_isInert (c : Char) (rest : List Char) (h : isInert c rest = true) :
    isCalm c rest = true :=
  (Bool.and_eq_true _ _ ▸ h).2

/-! ## The placeholder -/

/-- The reference is one that the emitter mints. -/
def IsMinted (reference : String) : Prop :=
  ∃ chunk seed, reference = Emitter.mint chunk seed

theorem digits_of_isMinted {reference : String} (minted : IsMinted reference) :
    reference.toList.length = Placeholder.referenceLength ∧
      ∀ c ∈ reference.toList, ∃ n < 36, c = Digest.digitChar n := by
  obtain ⟨chunk, seed, rfl⟩ := minted
  rw [Emitter.mint, String.toList_ofList]
  constructor
  · rw [List.length_map, Digest.length_digits]
    rfl
  · intro c mem
    obtain ⟨d, digit, rfl⟩ := List.mem_map.1 mem
    exact ⟨d, Digest.lt_of_mem_digits (by decide) digit, rfl⟩

theorem forall_digitChar {P : Char → Prop} (each : ∀ n < 36, P (Digest.digitChar n))
    {reference : String} (minted : IsMinted reference) : ∀ c ∈ reference.toList, P c := by
  intro c mem
  obtain ⟨n, digit, rfl⟩ := (digits_of_isMinted minted).2 c mem
  exact each n digit

/-- A placeholder starts with its marker and says its reference. -/
theorem reference?_placeholder {reference : String} (minted : IsMinted reference)
    (behind : List Char) :
    Placeholder.reference?
        (Placeholder.marker ++ (reference.toList ++ (Placeholder.ending ++ behind))) =
      some reference.toList := by
  have length := (digits_of_isMinted minted).1
  have chars : reference.toList.all Placeholder.isReferenceChar = true :=
    List.all_eq_true.2 (forall_digitChar (by decide) minted)
  rw [Placeholder.reference?, Text.after?_append]
  simp only [← length, List.take_left, List.drop_left, Text.after?_append, chars,
    Option.isSome_some, and_self, ↓reduceIte]

theorem toList_wrapper (format : Format) (reference : String) :
    (wrapper format (Placeholder.ofReference reference)).toList =
      (wrapperHead format).toList ++ (Placeholder.marker ++
        (reference.toList ++ (Placeholder.ending ++ wrapperTail.toList))) := by
  rw [wrapper, Placeholder.ofReference, String.toList_append, String.toList_append,
    String.toList_ofList]
  simp only [List.append_assoc]

theorem after?_marker_of_startsNoMarker {c : Char} {rest : List Char}
    (h : startsNoMarker c rest = true) : Text.after? Placeholder.marker (c :: rest) = none :=
  Text.after?_of_differs h

theorem marker_append (rest : List Char) :
    Placeholder.marker ++ rest = '_' :: (Placeholder.marker.tail ++ rest) := rfl

theorem startsNoMarker_of_ne {c : Char} (h : c ≠ '_') (rest : List Char) :
    startsNoMarker c rest = true := by
  have first : startsNoMarker c rest =
      ('_' ≠ c || Text.differs Placeholder.marker.tail rest) := rfl
  rw [first, decide_eq_true (Ne.symm h), Bool.true_or]

/-- A wrapper has its placeholder and no other. -/
theorem references_wrapper (format : Format) {reference : String} (minted : IsMinted reference) :
    Placeholder.references (wrapper format (Placeholder.ofReference reference)) =
      [(byteLength (wrapperHead format).toList, reference.toList)] := by
  have unmatched : ∀ c rest, startsNoMarker c rest = true →
      ∀ atStart, Placeholder.rule atStart c rest = none := by
    intro c rest h _
    rw [Placeholder.rule, Placeholder.reference?, after?_marker_of_startsNoMarker h]
    rfl
  have matched : ∀ atStart, Placeholder.rule atStart '_'
      (Placeholder.marker.tail ++ (reference.toList ++ Placeholder.ending) ++
        wrapperTail.toList) =
      some ((Placeholder.marker.tail ++ (reference.toList ++ Placeholder.ending)).length,
        reference.toList) := by
    intro _
    have length : Placeholder.marker.length = Placeholder.marker.tail.length + 1 := rfl
    rw [Placeholder.rule, List.append_assoc, List.append_assoc, ← marker_append,
      reference?_placeholder minted, Option.map_some, List.length_append, List.length_append,
      length]
    congr 2
    omega
  have here := Text.hits_eq_singleton stable_startsNoMarker unmatched
    (Text.everywhere_imp startsNoMarker_of_isInert (everywhere_wrapperHead format)) matched
    (Text.everywhere_imp startsNoMarker_of_isInert everywhere_wrapperTail)
  rw [List.append_assoc, List.append_assoc, ← marker_append] at here
  rw [Placeholder.references, toList_wrapper, here]

/-- No marker of a wrapper lacks its placeholder. -/
theorem malformed?_wrapper (format : Format) {reference : String} (minted : IsMinted reference) :
    Placeholder.malformed? (wrapper format (Placeholder.ofReference reference)) = none := by
  have unmatched : ∀ c rest, startsNoMarker c rest = true →
      ∀ atStart, Placeholder.markerRule atStart c rest = none := by
    intro c rest h _
    rw [Placeholder.markerRule, after?_marker_of_startsNoMarker h]
    rfl
  have matched : ∀ atStart, Placeholder.markerRule atStart '_' (Placeholder.marker.tail ++
      (reference.toList ++ (Placeholder.ending ++ wrapperTail.toList))) =
      some (Placeholder.marker.tail.length, none) := by
    intro _
    rw [Placeholder.markerRule, ← marker_append, Text.after?_append,
      reference?_placeholder minted]
    rfl
  have silent : everywhere startsNoMarker
      (reference.toList ++ (Placeholder.ending ++ wrapperTail.toList)) = true := by
    have behind : everywhere startsNoMarker
        (Placeholder.ending ++ wrapperTail.toList) = true := by
      decide
    refine Text.everywhere_append stable_startsNoMarker ?_ behind
    have others : ∀ c ∈ reference.toList, c ≠ '_' := forall_digitChar (by decide) minted
    exact Text.everywhere_of_forall fun c mem => startsNoMarker_of_ne (others c mem)
  have here := Text.hits_eq_singleton stable_startsNoMarker unmatched
    (Text.everywhere_imp startsNoMarker_of_isInert (everywhere_wrapperHead format)) matched silent
  rw [← marker_append] at here
  rw [Placeholder.malformed?, toList_wrapper, here]
  rfl

/-! ## The imports -/

theorem everywhere_isCalm_wrapper (format : Format) {reference : String}
    (minted : IsMinted reference) : everywhere isCalm
      (wrapper format (Placeholder.ofReference reference)).toList = true := by
  have letters : ∀ c ∈ reference.toList, c ≠ '"' ∧ c ≠ '?' ∧ c ≠ '\'' :=
    forall_digitChar (by decide) minted
  rw [toList_wrapper]
  refine Text.everywhere_append stable_isCalm
    (Text.everywhere_imp isCalm_of_isInert (everywhere_wrapperHead format)) ?_
  apply Text.everywhere_append stable_isCalm (by decide)
  refine Text.everywhere_append stable_isCalm ?_ (by decide)
  refine Text.everywhere_of_forall fun c mem rest => ?_
  obtain ⟨noQuote, noQuestion, noQuote'⟩ := letters c mem
  simp [isCalm, noQuote, noQuestion, noQuote']

/-- Each import of a wrapper names a package, without a query. -/
theorem isBare_of_mem_imports {format : Format} {reference : String} (minted : IsMinted reference)
    {i : Import}
    (mem : i ∈ ImportScan.imports (wrapper format (Placeholder.ofReference reference))) :
    Resolver.isBare i.specifier = true ∧ isWorkerRequest i.specifier = false := by
  obtain ⟨⟨before, q, behind, cut, quote, _, _, _⟩, named⟩ :=
    ImportScan.liesIn_of_mem_imports mem
  have calm := everywhere_isCalm_wrapper format minted
  have opening := Text.of_everywhere calm cut
  have noQuestion : '?' ∉ i.specifier.toList := by
    intro asked
    obtain ⟨front, rest, split⟩ := List.append_of_mem asked
    have whole : (wrapper format (Placeholder.ofReference reference)).toList =
        (before ++ q :: front) ++ '?' :: (rest ++ q :: behind) := by
      rw [cut, split]
      simp
    have here := Text.of_everywhere calm whole
    simp [isCalm] at here
  constructor
  · cases letters : i.specifier.toList with
    | nil => exact absurd (String.toList_inj.1 letters) named
    | cons c rest =>
      rw [letters] at opening
      rcases quote with rfl | rfl
      · have start : c ≠ '.' ∧ c ≠ '/' := by simpa [isCalm] using opening
        simp [Resolver.isBare, DiskPath.isAbsolute, letters, start.1, start.2]
      · cases opening
  · rw [isWorkerRequest, Request.query?, Text.cutFirst_eq_none noQuestion]

/-- Each import of a wrapper is external. -/
theorem isExternal_of_wrapper {σ : Type} {env : Environment σ} {w : Options}
    {given : List Emission} (alone : env.plugins = [plugin w]) {format : Format}
    {reference : String} (minted : IsMinted reference) {m : Module}
    (origin : m.ComesFrom env given)
    (code : m.code = wrapper format (Placeholder.ofReference reference)) {r : ImportRecord}
    (mem : r ∈ m.imports) : r.target.isExternal = true := by
  have scanned : r.site ∈ ImportScan.imports m.code :=
    origin.sites ▸ List.mem_map_of_mem mem
  rw [code] at scanned
  obtain ⟨bare, plain⟩ := isBare_of_mem_imports minted scanned
  have answers := Loader.mayAnswer_of_resolveImport (origin.targets r mem)
  rw [resolve_unclaimed alone plain, Hook.mayAnswer_answer, Resolver.resolveOnDisk] at answers
  simp only [Option.isSome_some, bare, Bool.and_self, ↓reduceIte] at answers
  rw [← Option.some.inj (Except.ok.inj answers)]

/-! ## The literal -/

/-- The wrapper of a chunk becomes the wrapper around the literal of the worker's file. -/
theorem substitute_wrapper {format : Format} {reference : String} (minted : IsMinted reference)
    {fileName : String → Except BuildError String} {request : RenderRequest}
    {sourceMap : Option SourceMapKind} {output : Option RenderOutput}
    (code : request.code = wrapper format (Placeholder.ofReference reference))
    (h : substitute fileName request sourceMap = .ok output) :
    ∃ workerFile changed, fileName reference = .ok workerFile ∧ output = some changed ∧
      changed.code = wrapper format (literal request.chunk.fileName workerFile) := by
  rw [substitute, code] at h
  simp only [malformed?_wrapper format minted, references_wrapper format minted] at h
  split at h
  · cases h
  · rename_i t overwritten
    cases h
    rw [overwritePlaceholders] at overwritten
    simp only [String.ofList_toList] at overwritten
    split at overwritten
    · cases overwritten
    · rename_i workerFile found
      split at overwritten
      · cases overwritten
      · rename_i t' recorded
        cases overwritten
        refine ⟨workerFile, _, found, rfl, ?_⟩
        rw [Placeholder.ofReference, Text.utf8ByteSize_ofList] at recorded
        have cut := toList_wrapper format reference
        rw [← List.append_assoc reference.toList, ← List.append_assoc Placeholder.marker,
          ← List.append_assoc Placeholder.marker] at cut
        have text := EditedText.toList_text_of_overwrite cut recorded
        rw [← String.toList_inj]
        dsimp only
        rw [text, wrapper, String.toList_append, String.toList_append, List.append_assoc]

/-- The placeholder of a wrapper can be replaced where the worker has a file. -/
theorem exists_substitute_wrapper {format : Format} {reference : String}
    (minted : IsMinted reference) {fileName : String → Except BuildError String}
    {workerFile : String} (named : fileName reference = .ok workerFile) {request : RenderRequest}
    (sourceMap : Option SourceMapKind)
    (code : request.code = wrapper format (Placeholder.ofReference reference)) :
    ∃ output, substitute fileName request sourceMap = .ok output := by
  let source := EditedText.ofSource (wrapper format (Placeholder.ofReference reference))
  let old := Placeholder.marker ++ reference.toList ++ Placeholder.ending
  have cut : source.source.toList =
      (wrapperHead format).toList ++ (old ++ wrapperTail.toList) := by
    rw [List.append_assoc, List.append_assoc]
    exact toList_wrapper format reference
  have some : old ≠ [] := List.append_ne_nil_of_left_ne_nil
    (List.append_ne_nil_of_left_ne_nil (List.cons_ne_nil '_' _) _) _
  have clear (f : Edit) (mem : f ∈ source.edits) :
      f.start < byteLength (wrapperHead format).toList ∧
        f.stop ≤ byteLength (wrapperHead format).toList :=
    absurd mem List.not_mem_nil
  have recorded := EditedText.overwrite_of_behind cut some clear
    (literal request.chunk.fileName workerFile)
  have size : (Placeholder.ofReference reference).utf8ByteSize = byteLength old :=
    Text.utf8ByteSize_ofList old
  rw [substitute, code]
  simp only [malformed?_wrapper format minted, references_wrapper format minted,
    overwritePlaceholders, String.ofList_toList, named]
  rw [size, recorded]
  exact ⟨_, rfl⟩

end Worker

end WorkerBundler
