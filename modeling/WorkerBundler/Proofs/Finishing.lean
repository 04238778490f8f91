import WorkerBundler.Finishing
import WorkerBundler.Proofs.Loading.Notes
import WorkerBundler.Proofs.Loading.Sequential

/-!
# Finishing chunks at the same time

To finish one chunk after the other is one of the orders in which plugins can finish several chunks
(`reach_finishChunks`): what they do with one chunk is a run of steps whatever stands beside it
(`Change.reach_renderAll`). In every order, plugins that write no notes leave the notes alone
(`Change.KeepsNotes.step`).
-/

namespace WorkerBundler

variable {σ : Type} {kind : Option SourceMapKind} {plugins : List (Plugin σ)} {notes : σ}

/-! ## One chunk after the other -/

namespace Change

/-- Steps of the plugins with a chunk. -/
abbrev Reach (kind : Option SourceMapKind) :
    Change σ × Plugin.Rendering σ → Change σ × Plugin.Rendering σ → Prop :=
  Relation.ReflTransGen fun p q => Step kind p.1 p.2 q.1 q.2

/-- A chunk after all plugins have been asked about it, or one of them has failed. -/
def ofResult (chunk : RenderedChunk) : Except BuildError (String × List SourceMap) → Change σ
  | .ok (code, maps) => .asking chunk code maps []
  | .error e => .failed e

/-- What plugins make of a chunk without a pause, they make of it in steps. -/
theorem reach_renderAll (chunk : RenderedChunk) (plugins : List (Plugin σ)) (code : String)
    (maps : List SourceMap) (r : Plugin.Rendering σ) :
    Reach kind (.asking chunk code maps plugins, r)
      (.ofResult chunk (Plugin.renderAll chunk kind plugins code maps r).1,
        (Plugin.renderAll chunk kind plugins code maps r).2) := by
  induction plugins generalizing code maps r with
  | nil => exact .refl
  | cons p rest ih =>
    let hook := p.renderChunk ⟨code, chunk, kind⟩
    have ticks : Reach kind (.asked chunk code maps p hook rest, r) _ :=
      Hook.reach_run
        (fun h s => ((asked chunk code maps p h rest : Change σ), { r with session := s }))
        (fun ticks => Step.tick ticks) hook r.session
    have first : Reach kind (.asking chunk code maps (p :: rest), r) _ :=
      ticks.head (a := (_, _)) Step.ask
    rw [Plugin.renderAll]
    rcases ran : (p.renderChunk ⟨code, chunk, kind⟩).run r.session with ⟨e | _ | output, s⟩
    · rw [ran] at first
      exact first.tail .raised
    · rw [ran] at first
      exact (first.tail .unchanged).trans (ih code maps _)
    · rw [ran] at first
      exact (first.tail .changed).trans (ih output.code _ _)

end Change

/-- Steps of the plugins with several chunks. -/
abbrev ChangeMany (kind : Option SourceMapKind) :
    Changes σ × Plugin.Rendering σ → Changes σ × Plugin.Rendering σ → Prop :=
  Relation.ReflTransGen fun p q => ChangeOne kind p.1 p.2 q.1 q.2

/-- One of several chunks can be finished while the others stand still. -/
theorem changeMany_renderAll (kind : Option SourceMapKind) (before after : Changes σ)
    (map : Option SourceMap) (chunk : RenderedChunk) (plugins : List (Plugin σ)) (code : String)
    (r : Plugin.Rendering σ) :
    ChangeMany kind (before ++ (map, .asking chunk code [] plugins) :: after, r)
      (before ++ (map, .ofResult chunk (Plugin.renderAll chunk kind plugins code [] r).1) :: after,
        (Plugin.renderAll chunk kind plugins code [] r).2) :=
  reach_place (r := Change.Step kind) (fun x r => (before ++ (map, x) :: after, r))
    (fun step => .step step) (Change.reach_renderAll chunk plugins code [] r)

/-- Chunks can be finished one after the other, behind chunks that are. -/
theorem reach_finishChunks (plugins : List (Plugin σ)) (names : FileNames)
    (kind : Option SourceMapKind) (rendered : List (Chunk × String × Option SourceMap))
    (r : Plugin.Rendering σ) (before : List FinishedChunk) : ∃ changes,
      ChangeMany kind
        (before.map FinishedChunk.change ++ Change.startAll plugins names rendered, r)
        (changes, (Bundle.finishChunks plugins names kind rendered r).2) ∧
      ChangesEnd kind changes ((Bundle.finishChunks plugins names kind rendered r).1.map
        (before.flatMap (FinishedChunk.assets kind) ++ ·)) := by
  induction rendered generalizing r before with
  | nil =>
    refine ⟨before.map FinishedChunk.change, ?_, ?_⟩
    · simp only [Change.startAll, List.map_nil, List.append_nil]
      exact .refl
    · have ends : ChangesEnd kind (before.map (FinishedChunk.change (σ := σ))) _ :=
        .finished before
      simpa [Bundle.finishChunks, Except.map] using ends
  | cons x rest ih =>
    obtain ⟨c, text, map⟩ := x
    cases told : c.toRendered names with
    | error e =>
      have starts : Change.startAll plugins names ((c, text, map) :: rest) =
          (map, .failed e) :: Change.startAll plugins names rest := by
        simp [Change.startAll, Change.start, told]
      rw [Bundle.finishChunks, told, starts]
      exact ⟨_, .refl, .failed (List.mem_append_right _ List.mem_cons_self)⟩
    | ok chunk =>
      have first := changeMany_renderAll kind (before.map FinishedChunk.change)
        (Change.startAll plugins names rest) map chunk plugins text r
      have starts : Change.startAll plugins names ((c, text, map) :: rest) =
          (map, .asking chunk text [] plugins) :: Change.startAll plugins names rest := by
        simp [Change.startAll, Change.start, told]
      rw [Bundle.finishChunks, told, starts]
      rcases ran : Plugin.renderAll chunk kind plugins text [] r with ⟨e | ⟨code, maps⟩, r₁⟩
      · rw [ran] at first
        simp only [ran]
        exact ⟨_, first, .failed (List.mem_append_right _ List.mem_cons_self)⟩
      · rw [ran] at first
        simp only [ran]
        let done : FinishedChunk := ⟨map, chunk, code, maps⟩
        obtain ⟨changes, others, ends⟩ := ih r₁ (before ++ [done])
        have moved : (before ++ [done]).map FinishedChunk.change ++
            Change.startAll plugins names rest = before.map FinishedChunk.change ++
              (map, .ofResult chunk (.ok (code, maps))) :: Change.startAll plugins names rest := by
          simp [done, FinishedChunk.change, Change.ofResult]
        rw [moved] at others
        rcases finished : Bundle.finishChunks plugins names kind rest r₁ with ⟨e | assets, r₂⟩
        · rw [finished] at others ends
          exact ⟨changes, first.trans others, ends⟩
        · rw [finished] at others ends
          refine ⟨changes, first.trans others, ?_⟩
          simpa [done, Except.map, FinishedChunk.assets] using ends

/-! ## Plugins that write no notes -/

namespace Change

/-- No hook writes notes that is under way for the chunk, or that is asked for next. -/
def KeepsNotes : Change σ → Prop
  | .asking _ _ _ plugins => ∀ p ∈ plugins, p.KeepsNotes
  | .asked _ _ _ _ h rest => h.KeepsNotes ∧ ∀ p ∈ rest, p.KeepsNotes
  | .failed _ => True

theorem keepsNotes_start (keep : ∀ p ∈ plugins, p.KeepsNotes) (names : FileNames) (c : Chunk)
    (text : String) : (start plugins names c text).KeepsNotes := by
  unfold start
  split
  · trivial
  · exact keep

/-- A step of plugins with a chunk leaves the notes alone. -/
theorem KeepsNotes.step {x x' : Change σ} {r r' : Plugin.Rendering σ} (keeps : x.KeepsNotes)
    (step : Step kind x r x' r') : x'.KeepsNotes ∧ r'.session.notes = r.session.notes := by
  cases step with
  | ask =>
    obtain ⟨here, others⟩ := List.forall_mem_cons.1 keeps
    exact ⟨⟨here.renderChunk _, others⟩, rfl⟩
  | tick ticks =>
    obtain ⟨still, same⟩ := keeps.1.tick ticks
    exact ⟨⟨still, keeps.2⟩, same⟩
  | unchanged => exact ⟨keeps.2, rfl⟩
  | changed => exact ⟨keeps.2, rfl⟩
  | raised => exact ⟨trivial, rfl⟩

end Change

theorem keepsNotes_of_changeOne {changes changes' : Changes σ} {r r' : Plugin.Rendering σ}
    (keep : ∀ x ∈ changes, x.2.KeepsNotes) (step : ChangeOne kind changes r changes' r') :
    (∀ x ∈ changes', x.2.KeepsNotes) ∧ r'.session.notes = r.session.notes := by
  cases step with
  | step steps =>
    obtain ⟨still, same⟩ := (keep _ (List.mem_append_right _ List.mem_cons_self)).step steps
    refine ⟨?_, same⟩
    intro x mem
    rcases eq_or_mem_of_mem_replaced mem with rfl | old
    · exact still
    · exact keep x old

end WorkerBundler
