import WorkerBundler.Proofs.EditCalls
import WorkerBundler.Proofs.LeadEnds

/-!
# Imports that overlap

The scans for static and for dynamic imports do not know of each other, and each of them looks into
quoted texts. So the spans of two imports are disjoint, unless an import of one kind opens within
the specifier of one of the other kind (`not_disjoint_iff`). A chunk is refused an edit exactly if
two such imports are both to be replaced, and then it is the later one of them that is refused
(`clashes_of_imports`).
-/

namespace WorkerBundler

open Text (byteLength)

namespace Import

/-- No byte lies in the spans of both imports. -/
def Disjoint (i j : Import) : Prop :=
  ∀ n, ¬((i.start ≤ n ∧ n < i.stop) ∧ j.start ≤ n ∧ n < j.stop)

/-- The lead of the first import and its opening quote stand in the specifier of the second one,
which is of the other kind and goes on behind them. -/
def OpensWithin (i j : Import) : Prop :=
  i.kind = j.kind.other ∧ ∃ front lead q behind,
    j.specifier.toList = front ++ lead ++ q :: behind ∧ behind ≠ [] ∧
      ImportScan.isQuote q = true ∧ ImportScan.leadOf i.kind lead = true ∧
      i.start = j.start + byteLength front + byteLength lead + 1

variable {i j : Import}

theorem Disjoint.symm (h : i.Disjoint j) : j.Disjoint i := fun n inside => h n inside.symm

end Import

namespace ImportScan

variable {code : String} {i j : Import}

/-- The span of an import has as many bytes as its specifier, at least one. -/
theorem lt_of_mem_imports (mem : i ∈ imports code) :
    i.start < i.stop ∧ i.stop = i.start + byteLength i.specifier.toList := by
  obtain ⟨_, _, specifier, _, _, quotable, -, same⟩ := exists_lead_of_mem_imports mem
  obtain ⟨-, stop, named⟩ := places_of_eq_toImport quotable.quote same
  have positive := quotable.positive
  rw [named]
  omega

/-- An import that starts within another one is of the other kind. -/
theorem kind_ne_of_lt (left : i ∈ imports code) (right : j ∈ imports code)
    (behind : j.start < i.start) (within : i.start < j.stop) : i.kind ≠ j.kind := by
  intro same
  have there := (of_mem_imports right).1
  rw [← same] at there
  have other : i ≠ j := by
    intro equal
    rw [equal] at behind
    exact Nat.lt_irrefl _ behind
  rcases apart_of_mem_importsOf (of_mem_imports left).1 there other with ahead | passed
  · have own := (lt_of_mem_imports left).1
    omega
  · omega

/-- An import that starts within another one opens there. -/
theorem opensWithin_of_lt (left : i ∈ imports code) (right : j ∈ imports code)
    (behind : j.start < i.start) (within : i.start < j.stop) : i.OpensWithin j := by
  obtain ⟨before, q, specifier, rest, cut, quotable, lead, here⟩ := exists_lead_of_mem_imports left
  obtain ⟨before', q', specifier', rest', cut', quotable', -, there⟩ :=
    exists_lead_of_mem_imports right
  obtain ⟨start, -, -⟩ := places_of_eq_toImport quotable.quote here
  obtain ⟨start', stop', named⟩ := places_of_eq_toImport quotable'.quote there
  have size := utf8Size_of_isQuote quotable'.quote
  have size' := utf8Size_of_isQuote quotable.quote
  -- the text in front of the first import goes on behind the opening quote of the second one
  have whole : before' ++ [q'] ++ (specifier' ++ q' :: rest') =
      before ++ q :: (specifier ++ q :: rest) := by
    rw [← cut, cut']
    simp
  obtain ⟨front, rfl, inside⟩ := append_of_le_byteLength whole (by simp; omega)
  simp only [Text.byteLength_append, Text.byteLength_cons, Text.byteLength_nil] at start
  -- and the first one has its opening quote in the specifier of the second one
  have split : front ++ [q] ++ (specifier ++ q :: rest) = specifier' ++ q' :: rest' := by
    rw [inside]
    simp
  obtain ⟨more, specified, -⟩ := append_of_le_byteLength split (by simp; omega)
  obtain ⟨head, l, ends, isLead⟩ := exists_of_endsInLead lead
  have opening : head ++ l = before' ++ q' :: front := by
    rw [← ends]
    simp
  obtain ⟨front, -, rfl⟩ :=
    exists_append_of_bare_end (bare_of_leadOf isLead) quotable'.quote opening
  rw [Text.byteLength_append front] at start
  have kinds := ImportKind.eq_other_of_ne (kind_ne_of_lt left right behind within)
  refine ⟨kinds, front, l, q, more, ?_, ?_, quotable.quote, isLead, ?_⟩
  · rw [named, specified]
    simp
  · rintro rfl
    rw [specified] at stop'
    simp at stop'
    omega
  · omega

theorem not_disjoint_of_opensWithin (left : i ∈ imports code) (right : j ∈ imports code)
    (opens : i.OpensWithin j) : ¬i.Disjoint j := by
  obtain ⟨-, front, lead, q, behind, specified, some, quote, -, start⟩ := opens
  have own := (lt_of_mem_imports left).1
  have size := (lt_of_mem_imports right).2
  have positive : 0 < byteLength behind := by
    cases behind with
    | nil => exact absurd rfl some
    | cons c behind => exact Nat.add_pos_left c.utf8Size_pos _
  rw [specified, Text.byteLength_append, Text.byteLength_append, Text.byteLength_cons,
    utf8Size_of_isQuote quote] at size
  intro disjoint
  apply disjoint i.start
  omega

/-- **Imports are disjoint, unless one of them opens within the other.** -/
theorem not_disjoint_iff (left : i ∈ imports code) (right : j ∈ imports code) (other : i ≠ j) :
    ¬i.Disjoint j ↔ i.OpensWithin j ∨ j.OpensWithin i := by
  constructor
  · intro meet
    obtain ⟨n, inside⟩ := not_forall_not.1 meet
    rcases Nat.lt_trichotomy i.start j.start with before | same | behind
    · exact Or.inr (opensWithin_of_lt right left before (by omega))
    · exact absurd (eq_of_start_eq left right same) other
    · exact Or.inl (opensWithin_of_lt left right behind (by omega))
  · rintro (opens | opens)
    · exact not_disjoint_of_opensWithin left right opens
    · intro disjoint
      exact not_disjoint_of_opensWithin right left opens disjoint.symm

/-- The span of an import lies in the text and cuts no character. -/
theorem span_of_mem_imports (mem : i ∈ imports code) : i.stop ≤ code.utf8ByteSize ∧
    Text.IsBoundary i.start code.toList ∧ Text.IsBoundary i.stop code.toList := by
  obtain ⟨before, q, specifier, behind, cut, quotable, -, same⟩ := exists_lead_of_mem_imports mem
  obtain ⟨start, stop, -⟩ := places_of_eq_toImport quotable.quote same
  have size := utf8Size_of_isQuote quotable.quote
  refine ⟨?_, Text.isBoundary_iff.2 ⟨before ++ [q], specifier ++ q :: behind, ?_, ?_⟩,
    Text.isBoundary_iff.2 ⟨before ++ q :: specifier, q :: behind, ?_, ?_⟩⟩
  · rw [Text.utf8ByteSize_eq, cut]
    simp
    omega
  · simpa using cut
  · simp
    omega
  · simpa using cut
  · simp
    omega

/-- Imports are listed in the order of the text. -/
theorem pairwise_imports (code : String) :
    (imports code).Pairwise fun i j => i.start < j.start := by
  have sorted : (imports code).Pairwise fun i j => decide (i.start ≤ j.start) = true :=
    Ordered.pairwise_sort (fun i j => by simpa using Nat.le_total i.start j.start)
      (fun i j k => by simpa using Nat.le_trans) _
  refine (sorted.and (nodup_imports code)).imp_of_mem ?_
  rintro i j left right ⟨le, other⟩
  refine Nat.lt_of_le_of_ne (of_decide_eq_true le) fun same => ?_
  exact other (eq_of_start_eq left right same)

end ImportScan

/-! ## Refused edits -/

namespace EditedText

variable {t : EditedText} {e : Edit} {fault : EditFault}

/-- Of a span of the source an edit is refused only if it meets another one. -/
theorem Fits.overlap_of_refused (fits : t.Fits) (some : e.start < e.stop)
    (within : e.stop ≤ t.source.utf8ByteSize)
    (boundaries : Text.IsBoundary e.start t.source.toList ∧ Text.IsBoundary e.stop t.source.toList)
    (refused : t.overwrite e.start e.stop e.content = .error fault) :
    fault = .overlap e.start e.stop ∧ ∃ f ∈ t.edits, ¬e.Apart f := by
  have meets : ¬t.Accepts e := by
    rintro ⟨after, accepted⟩
    rw [refused] at accepted
    cases accepted
  rw [fits.accepts_iff] at meets
  refine ⟨?_, ?_⟩
  · rw [EditedText.overwrite, if_neg (by omega), if_neg (by omega),
      if_neg (not_not_intro boundaries)] at refused
    split at refused
    · cases refused
      rfl
    · cases refused
  · by_contra none
    push Not at none
    exact meets ⟨some, within, boundaries.1, boundaries.2, none⟩

end EditedText

/-! ## Refused replacements -/

namespace Chunk

open ImportScan (imports)

variable {names : FileNames} {file code : String} {records : List ImportRecord} {t : EditedText}
  {r s : ImportRecord} {e f : Edit} {fault : EditFault}

/-- Two imports are both to be replaced, and their spans share a byte. -/
structure Clash (names : FileNames) (file : String) (records : List ImportRecord)
    (r s : ImportRecord) : Prop where
  first : r ∈ records
  second : s ∈ records
  replaced : (rewrite? names file r).isSome = true ∧ (rewrite? names file s).isSome = true
  order : r.site.start < s.site.start
  meet : ¬r.site.Disjoint s.site

theorem apart_iff_disjoint (left : rewrite? names file r = some e)
    (right : rewrite? names file s = some f) : e.Apart f ↔ r.site.Disjoint s.site := by
  obtain ⟨start, stop⟩ := span_of_rewrite? left
  obtain ⟨start', stop'⟩ := span_of_rewrite? right
  rw [Edit.Apart, Import.Disjoint, start, stop, start', stop']

/-- One record is refused, or what is done for it does not depend on the records behind it. -/
theorem redirectImports_cons_error {record : ImportRecord}
    (h : redirectImports names file (record :: records) t = .error (.fatal (.edit fault))) :
    (∃ e, rewrite? names file record = some e ∧
      t.overwrite e.start e.stop e.content = .error fault) ∨
      ∃ t', (∀ others, redirectImports names file (record :: others) t =
          redirectImports names file others t') ∧
        redirectImports names file records t' = .error (.fatal (.edit fault)) := by
  unfold redirectImports at h
  split at h
  · rename_i outside
    exact Or.inr ⟨t, fun others => by rw [redirectImports, if_pos outside], h⟩
  · rename_i outside
    have inside : record.target.isExternal = false := by simpa using outside
    split at h
    · cases h
    · rename_i target found
      dsimp only at h
      have rewrite := rewrite?_of_internal file inside found
      split at h
      · rename_i same
        refine Or.inr ⟨t, fun others => ?_, h⟩
        rw [redirectImports, if_neg outside, found]
        dsimp only
        rw [if_pos same]
      · rename_i other
        rw [if_neg other] at rewrite
        split at h
        · rename_i refused
          cases h
          refine Or.inl ⟨_, rewrite, ?_⟩
          dsimp only
          exact refused
        · rename_i t' recorded
          refine Or.inr ⟨t', fun others => ?_, h⟩
          rw [redirectImports, if_neg outside, found]
          dsimp only
          rw [if_neg other, recorded]

/-- The replacements in front of the first one that is refused are accepted. -/
theorem exists_refused (h : redirectImports names file records t = .error (.fatal (.edit fault))) :
    ∃ front s rest after e, records = front ++ s :: rest ∧
      redirectImports names file front t = .ok after ∧ rewrite? names file s = some e ∧
      after.overwrite e.start e.stop e.content = .error fault := by
  induction records generalizing t with
  | nil => cases h
  | cons record records ih =>
    rcases redirectImports_cons_error h with ⟨e, rewrite, refused⟩ | ⟨t', passes, later⟩
    · exact ⟨[], record, records, t, e, rfl, rfl, rewrite, refused⟩
    · obtain ⟨front, s, rest, after, e, rfl, accepted, refused⟩ := ih later
      exact ⟨record :: front, s, rest, after, e, rfl, (passes front).trans accepted, refused⟩

/-- A replacement is refused only where it clashes with one in front of it. -/
theorem clash_of_refused (sites : records.map ImportRecord.site = imports code)
    (h : redirectImports names file records (.ofSource code) = .error (.fatal (.edit fault))) :
    ∃ r s, Clash names file records r s ∧ fault = .overlap s.site.start s.site.stop := by
  obtain ⟨front, s, rest, after, e, rfl, accepted, rewrite, refused⟩ := exists_refused h
  obtain ⟨fits, source, perm, -⟩ := fits_of_redirectImports (EditedText.fits_ofSource code) accepted
  have second : s ∈ front ++ s :: rest := List.mem_append_right _ List.mem_cons_self
  have scanned : s.site ∈ imports code := sites ▸ List.mem_map_of_mem second
  obtain ⟨start, stop⟩ := span_of_rewrite? rewrite
  have some := (ImportScan.lt_of_mem_imports scanned).1
  have within := ImportScan.span_of_mem_imports scanned
  rw [← start, ← stop] at some within
  have same : after.source = code := source
  rw [← same] at within
  obtain ⟨named, f, recorded, meet⟩ := fits.overlap_of_refused some within.1 within.2 refused
  have listed : f ∈ rewrites names file front := by
    simpa [EditedText.ofSource] using perm.mem_iff.1 recorded
  obtain ⟨r, mem, rewrite'⟩ := List.mem_filterMap.1 listed
  have order : r.site.start < s.site.start := by
    have ordered := ImportScan.pairwise_imports code
    rw [← sites, List.map_append, List.pairwise_append] at ordered
    exact ordered.2.2 r.site (List.mem_map_of_mem mem) s.site List.mem_cons_self
  refine ⟨r, s, ⟨List.mem_append_left _ mem, second, ⟨?_, ?_⟩, order, ?_⟩, ?_⟩
  · rw [rewrite']
    rfl
  · rw [rewrite]
    rfl
  · intro disjoint
    exact meet ((apart_iff_disjoint rewrite rewrite').2 disjoint.symm)
  · rw [named, start, stop]

/-- Clashing replacements are not both recorded. -/
theorem not_ok_of_clash (clash : Clash names file records r s) {after : EditedText} :
    redirectImports names file records (.ofSource code) ≠ .ok after := by
  intro h
  obtain ⟨fits, -, perm, -⟩ := fits_of_redirectImports (EditedText.fits_ofSource code) h
  obtain ⟨e, left⟩ := Option.isSome_iff_exists.1 clash.replaced.1
  obtain ⟨f, right⟩ := Option.isSome_iff_exists.1 clash.replaced.2
  have recorded {r : ImportRecord} {e : Edit} (mem : r ∈ records)
      (rewrite : rewrite? names file r = some e) : e ∈ after.edits :=
    perm.mem_iff.2 (List.mem_append_left _ (List.mem_filterMap.2 ⟨r, mem, rewrite⟩))
  apply clash.meet
  rw [← apart_iff_disjoint left right]
  have order := clash.order
  rw [← (span_of_rewrite? left).1, ← (span_of_rewrite? right).1] at order
  rcases (EditedText.replaced_text fits).apart (recorded clash.first left)
    (recorded clash.second right) with rfl | before | behind
  · exact absurd order (Nat.lt_irrefl _)
  · intro n inside
    omega
  · intro n inside
    omega

variable {g : Graph} {cwd : String} {kind : Option SourceMapKind} {c : Chunk} {m : Module}

theorem render_eq_error_iff (found : c.moduleIn g = .ok m) (named : c.fileName names = .ok file)
    {failure : BuildError} : c.render g names cwd kind = .error failure ↔
      redirectImports names file m.imports (.ofSource m.code) = .error failure := by
  rw [render, found, named]
  dsimp only [bind, Except.bind]
  cases redirectImports names file m.imports (.ofSource m.code) with
  | error failure' =>
    dsimp only
    rw [Except.error.injEq, Except.error.injEq]
  | ok t =>
    constructor
    · intro h
      cases h
    · intro h
      cases h

/-- **Rendering is refused an edit exactly if two imports clash**, and then one of these opens
within the specifier of the other. -/
theorem clashes_of_imports (code : String) :
    (∀ i ∈ imports code, ∀ j ∈ imports code, i ≠ j →
      (¬i.Disjoint j ↔ i.OpensWithin j ∨ j.OpensWithin i)) ∧
    ∀ (g : Graph) (names : FileNames) (cwd : String) (kind : Option SourceMapKind) (c : Chunk)
      (m : Module) (file : String), c.moduleIn g = .ok m → c.fileName names = .ok file →
      m.code = code → m.imports.map ImportRecord.site = imports code →
      (∀ r ∈ m.imports, r.target.isExternal = false → ∃ name, names.of? r.target = some name) →
      ((∃ fault, c.render g names cwd kind = .error (.fatal (.edit fault))) ↔
        ∃ r s, Clash names file m.imports r s) ∧
      ∀ fault, c.render g names cwd kind = .error (.fatal (.edit fault)) →
        ∃ r s, Clash names file m.imports r s ∧ fault = .overlap s.site.start s.site.stop := by
  refine ⟨fun i left j right => ImportScan.not_disjoint_iff left right, ?_⟩
  intro g names cwd kind c m file found named same sites placed
  rw [← same] at sites
  have refused : ∀ fault, c.render g names cwd kind = .error (.fatal (.edit fault)) →
      ∃ r s, Clash names file m.imports r s ∧ fault = .overlap s.site.start s.site.stop :=
    fun fault h => clash_of_refused sites ((render_eq_error_iff found named).1 h)
  refine ⟨⟨?_, ?_⟩, refused⟩
  · rintro ⟨fault, h⟩
    obtain ⟨r, s, clash, -⟩ := refused fault h
    exact ⟨r, s, clash⟩
  · rintro ⟨r, s, clash⟩
    cases pointed : redirectImports names file m.imports (.ofSource m.code) with
    | ok after => exact absurd pointed (not_ok_of_clash clash)
    | error failure =>
      obtain ⟨fault, rfl⟩ := error_of_redirectImports placed pointed
      exact ⟨fault, (render_eq_error_iff found named).2 pointed⟩

/-! ## A specifier inside a specifier -/

theorem imports_nestedModule : imports nestedModule.code =
    [⟨"./a import('.b').js", 8, 27, .static⟩, ⟨".b", 20, 22, .dynamic⟩] := by
  decide +kernel

/-- One import of the nested module opens within the other one. -/
theorem exists_overlap_nestedModule :
    ∃ i ∈ imports nestedModule.code, ∃ j ∈ imports nestedModule.code, i ≠ j ∧ ¬i.Disjoint j := by
  rw [imports_nestedModule]
  exact ⟨_, List.mem_cons_self, _, List.mem_cons_of_mem _ List.mem_cons_self, by decide,
    fun disjoint => disjoint 20 (by decide)⟩

/-- Of the two imports of the nested module only the inner one is to be replaced, so no edit is
refused although their spans overlap. -/
theorem clashes_nestedModule :
    (∃ i ∈ imports nestedModule.code, ∃ j ∈ imports nestedModule.code,
      i.OpensWithin j ∨ j.OpensWithin i) ∧
      ¬∃ fault, nestedChunk.render nestedGraph nestedNames "/" none =
        .error (.fatal (.edit fault)) := by
  obtain ⟨spans, faults⟩ := clashes_of_imports nestedModule.code
  constructor
  · obtain ⟨i, left, j, right, other, meet⟩ := exists_overlap_nestedModule
    exact ⟨i, left, j, right, (spans i left j right other).1 meet⟩
  · have named : ∀ r ∈ nestedModule.imports, (nestedNames.of? r.target).isSome = true := by decide
    have placed : ∀ r ∈ nestedModule.imports, r.target.isExternal = false →
        ∃ name, nestedNames.of? r.target = some name :=
      fun r mem _ => Option.isSome_iff_exists.1 (named r mem)
    have inner : ∀ r ∈ nestedModule.imports,
        (rewrite? nestedNames "main.js" r).isSome = true → r.site.start = 20 := by decide
    have sites : nestedModule.imports.map ImportRecord.site = imports nestedModule.code :=
      imports_nestedModule.symm
    rw [(faults nestedGraph nestedNames "/" none nestedChunk nestedModule "main.js" (by decide)
      (by decide) rfl sites placed).1]
    rintro ⟨r, s, clash⟩
    have order := clash.order
    rw [inner r clash.first clash.replaced.1, inner s clash.second clash.replaced.2] at order
    exact Nat.lt_irrefl _ order

/-- File names from which both imports of the nested module are to be replaced. -/
def movedNames : FileNames :=
  [(⟨"/main.js", false⟩, "main.js"), (⟨"/.b.js", false⟩, "lib/.b.js"),
    (⟨"/a import('.b').js", false⟩, "lib/a import('.b').js")]

theorem named_movedNames :
    named nestedGraph ⟨"[name].js", "lib/[name].js", none⟩ (ofGraph nestedGraph) =
      .ok movedNames := by
  decide +kernel

theorem render_movedNames : nestedChunk.render nestedGraph movedNames "/" none =
    .error (.fatal (.edit (.overlap 20 22))) := by
  decide +kernel

/-- The scan finds imports that overlap, and a chunk is refused an edit where both are to be
replaced. -/
theorem refused_nestedModule : ∃ (l : Loading Unit) (names : FileNames) (c : Chunk) (m : Module),
    LoadsTo nestedEnvironment [⟨"main", "./main.js"⟩] ⟨.empty, ()⟩ l ∧
      named l.graph ⟨"[name].js", "lib/[name].js", none⟩ (ofGraph l.graph) = .ok names ∧
      c ∈ ofGraph l.graph ∧ c.moduleIn l.graph = .ok m ∧
      (∃ i ∈ imports m.code, ∃ j ∈ imports m.code, i ≠ j ∧ ¬i.Disjoint j) ∧
      c.render l.graph names "/" none = .error (.fatal (.edit (.overlap 20 22))) := by
  obtain ⟨l, loads, graph⟩ := exists_loadsTo (f := fun g _ => g) fetch_nestedEnvironment
  refine ⟨l, movedNames, nestedChunk, nestedModule, loads, ?_, ?_, ?_,
    exists_overlap_nestedModule, ?_⟩
  · rw [graph]
    exact named_movedNames
  · rw [graph]
    decide
  · rw [graph]
    decide
  · rw [graph]
    exact render_movedNames

end Chunk

end WorkerBundler
