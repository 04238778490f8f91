import WorkerBundler.Proofs.Bundling

/-!
# What a build makes

`Bundler.Generates` says that a build loads its input and bundles the graph into assets, whatever
the order in which the modules arrive; a build that succeeds does so (`generates_of_build`). If the
plugins finish chunks without changing the session, then the names that the emitter was given stand
while each chunk is finished, and the assets of each chunk are among those of the build
(`finished_of_ofGraph`). Conversely, a graph is bundled where each chunk is rendered and finished
(`exists_ofGraph`).
-/

namespace WorkerBundler

variable {σ : Type}

/-! ## Builds -/

/-- The build can load its input as `l` and makes the assets of it. -/
structure Bundler.Generates (b : Bundler σ) (disk : Disk) (o : OutputOptions) (l : Loading σ)
    (assets : List Asset) : Prop where
  loads : LoadsTo (b.options.environment disk) b.options.input ⟨.empty, b.session.notes⟩ l
  bundles :
    (Bundle.ofGraph b.options.plugins b.options.cwd o l.graph l.loader.session).1 = .ok assets

/-- A build that succeeds generates its assets. -/
theorem Bundler.generates_of_build {b after : Bundler σ} {disk : Disk} {limit : Nat}
    {o : OutputOptions} {assets : List Asset} {warnings : List BuildError}
    (h : b.build disk limit o = some (⟨.ok assets, warnings⟩, after)) :
    ∃ l, b.Generates disk o l assets := by
  unfold Bundler.build at h
  dsimp only at h
  split at h
  · cases h
  · cases h
  · rename_i g session fetched
    obtain ⟨l, loads, rfl, rfl⟩ := loads_of_fetch fetched
    refine ⟨l, loads, ?_⟩
    have report := congrArg Prod.fst (Option.some.inj h)
    exact congrArg Report.result report

/-- Builds keep the options. -/
theorem Bundler.options_of_build {b after : Bundler σ} {disk : Disk} {limit : Nat}
    {o : OutputOptions} {report : Report} (h : b.build disk limit o = some (report, after)) :
    after.options = b.options := by
  unfold Bundler.build at h
  dsimp only at h
  split at h
  · cases h
  · cases h
    rfl
  · cases h
    rfl

/-! ## Finishing chunks -/

/-- The plugins leave the session alone when they finish a chunk. -/
def Plugin.KeepSession (plugins : List (Plugin σ)) : Prop :=
  ∀ p ∈ plugins, ∀ request s, ((p.renderChunk request).run s).2 = s

theorem Plugin.session_renderAll {plugins : List (Plugin σ)} (keep : Plugin.KeepSession plugins)
    {chunk : RenderedChunk} {kind : Option SourceMapKind} {code : String} {maps : List SourceMap}
    {r : Plugin.Rendering σ} :
    (Plugin.renderAll chunk kind plugins code maps r).2.session = r.session := by
  induction plugins generalizing code maps r with
  | nil => rfl
  | cons p rest ih =>
    have here := keep p List.mem_cons_self ⟨code, chunk, kind⟩ r.session
    have others : Plugin.KeepSession rest := fun q mem => keep q (List.mem_cons_of_mem _ mem)
    rw [Plugin.renderAll]
    rcases ran : (p.renderChunk ⟨code, chunk, kind⟩).run r.session with ⟨raised | output, s⟩
    · rw [ran] at here
      exact here
    · rw [ran] at here
      cases output with
      | none => exact (ih others).trans here
      | some output => exact (ih others).trans here

namespace Bundle

variable {plugins : List (Plugin σ)} {names : FileNames} {kind : Option SourceMapKind}
  {assets : List Asset}

/-- The rendered chunk is finished in the session, and its assets are among those. -/
def Finished (plugins : List (Plugin σ)) (names : FileNames) (kind : Option SourceMapKind)
    (session : Session σ) (assets : List Asset) (c : Chunk) (rendered : String) : Prop :=
  ∃ chunk r code maps r' map, c.toRendered names = .ok chunk ∧ r.session = session ∧
    Plugin.renderAll chunk kind plugins rendered [] r = (.ok (code, maps), r') ∧
    assetsOf kind chunk.fileName code map ⊆ assets

/-- The plugins finish the rendered chunk, in a state with the property, as the group of assets. -/
def FinishedAs (plugins : List (Plugin σ)) (names : FileNames) (kind : Option SourceMapKind)
    (inState : Plugin.Rendering σ → Prop) (x : Chunk × String × Option SourceMap)
    (group : List Asset) : Prop :=
  ∃ chunk r code maps r', x.1.toRendered names = .ok chunk ∧ inState r ∧
    Plugin.renderAll chunk kind plugins x.2.1 [] r = (.ok (code, maps), r') ∧
    group = assetsOf kind chunk.fileName code
      (x.2.2.bind fun first => SourceMap.collapse (first :: maps))

/-- The assets of a bundle are those of its chunks, in order. -/
theorem forall₂_finishChunks (inState : Plugin.Rendering σ → Prop)
    (kept : ∀ chunk text r, inState r →
      inState (Plugin.renderAll chunk kind plugins text [] r).2)
    {rendered : List (Chunk × String × Option SourceMap)} {r : Plugin.Rendering σ}
    (start : inState r) (h : (finishChunks plugins names kind rendered r).1 = .ok assets) :
    ∃ groups, assets = groups.flatten ∧
      List.Forall₂ (FinishedAs plugins names kind inState) rendered groups := by
  induction rendered generalizing r assets with
  | nil =>
    cases h
    exact ⟨[], rfl, .nil⟩
  | cons x rest ih =>
    obtain ⟨c, text, map⟩ := x
    unfold finishChunks at h
    split at h
    · cases h
    · rename_i chunk told
      split at h
      · cases h
      · rename_i code maps r₁ ran
        dsimp only at h
        split at h
        · cases h
        · rename_i others r₂ finished
          cases h
          have next : inState r₁ := by
            have kept := kept chunk text r start
            rw [ran] at kept
            exact kept
          obtain ⟨groups, rfl, each⟩ := ih next (congrArg Prod.fst finished)
          exact ⟨_ :: groups, rfl, .cons ⟨chunk, r, code, maps, r₁, told, start, ran, rfl⟩ each⟩

/-- A bundle is made from the names of its chunks, the names given to the emitter, the rendered
chunks and what the plugins make of them. -/
theorem ofGraph_ok {cwd : String} {o : OutputOptions} {g : Graph} {session : Session σ}
    (h : (ofGraph plugins cwd o g session).1 = .ok assets) :
    ∃ names emitter rendered, Chunk.named g o (Chunk.ofGraph g) = .ok names ∧
      Chunk.assignNames names g.emittedEntries session.emitter = .ok emitter ∧
      renderChunks g names cwd o.sourceMap (Chunk.ofGraph g) = .ok rendered ∧
      (finishChunks plugins names o.sourceMap rendered
        ⟨{ session with emitter := emitter }, []⟩).1 = .ok assets := by
  unfold ofGraph at h
  dsimp only at h
  split at h
  · cases h
  · rename_i names named
    split at h
    · cases h
    · rename_i emitter assigned
      split at h
      · cases h
      · rename_i rendered rendering
        exact ⟨names, emitter, rendered, named, assigned, rendering, h⟩

/-- Each chunk of a bundle is rendered and finished with the same names, in a state with what the
plugins keep of the session in which the emitted chunks have their names. -/
theorem forall₂_ofGraph (inState : Session σ → Plugin.Rendering σ → Prop)
    (start : ∀ s, inState s ⟨s, []⟩) {cwd : String} {o : OutputOptions}
    (kept : ∀ s chunk text r, inState s r →
      inState s (Plugin.renderAll chunk o.sourceMap plugins text [] r).2)
    {g : Graph} {session : Session σ} (h : (ofGraph plugins cwd o g session).1 = .ok assets) :
    ∃ names emitter groups, Chunk.named g o (Chunk.ofGraph g) = .ok names ∧
      Chunk.assignNames names g.emittedEntries session.emitter = .ok emitter ∧
      assets = groups.flatten ∧
      List.Forall₂ (fun c group => ∃ x, (x.1 = c ∧ c.render g names cwd o.sourceMap = .ok x.2) ∧
        FinishedAs plugins names o.sourceMap (inState { session with emitter := emitter }) x group)
        (Chunk.ofGraph g) groups := by
  obtain ⟨names, emitter, rendered, named, assigned, rendering, done⟩ := ofGraph_ok h
  obtain ⟨groups, whole, each⟩ := forall₂_finishChunks
    (inState { session with emitter := emitter }) (kept _) (start _) done
  exact ⟨names, emitter, groups, named, assigned, whole,
    forall₂_through (forall₂_renderChunks rendering) each⟩

/-- If the plugins keep the session, each chunk of a bundle is finished in the same one. -/
theorem finished_of_ofGraph (keep : Plugin.KeepSession plugins) {cwd : String} {o : OutputOptions}
    {g : Graph} {session : Session σ} (h : (ofGraph plugins cwd o g session).1 = .ok assets) :
    ∃ names emitter, Chunk.named g o (Chunk.ofGraph g) = .ok names ∧
      Chunk.assignNames names g.emittedEntries session.emitter = .ok emitter ∧
      ∀ c ∈ Chunk.ofGraph g, ∃ text map, c.render g names cwd o.sourceMap = .ok (text, map) ∧
        Finished plugins names o.sourceMap { session with emitter := emitter } assets c text := by
  obtain ⟨names, emitter, groups, named, assigned, rfl, each⟩ :=
    forall₂_ofGraph (fun s r => r.session = s) (fun _ => rfl)
      (fun _ _ _ _ same => (Plugin.session_renderAll keep).trans same) h
  refine ⟨names, emitter, named, assigned, ?_⟩
  intro c mem
  obtain ⟨group, among, x, ⟨rfl, text⟩, chunk, r, code, maps, r', told, same, ran, rfl⟩ :=
    exists_of_forall₂_left each mem
  exact ⟨x.2.1, x.2.2, text, chunk, r, code, maps, r', _, told, same, ran,
    fun _ inGroup => List.mem_flatten.2 ⟨_, among, inGroup⟩⟩

/-- The plugins raise no error when they finish the rendered chunk in the session. -/
def Finishes (plugins : List (Plugin σ)) (names : FileNames) (kind : Option SourceMapKind)
    (session : Session σ) (c : Chunk) (rendered : String) : Prop :=
  ∃ chunk, c.toRendered names = .ok chunk ∧ ∀ r : Plugin.Rendering σ, r.session = session →
    ∃ changed, (Plugin.renderAll chunk kind plugins rendered [] r).1 = .ok changed

theorem exists_finishChunks (keep : Plugin.KeepSession plugins)
    {rendered : List (Chunk × String × Option SourceMap)} {r : Plugin.Rendering σ}
    (each : ∀ x ∈ rendered, Finishes plugins names kind r.session x.1 x.2.1) :
    ∃ assets, (finishChunks plugins names kind rendered r).1 = .ok assets := by
  induction rendered generalizing r with
  | nil => exact ⟨[], rfl⟩
  | cons x rest ih =>
    obtain ⟨c, text, map⟩ := x
    obtain ⟨chunk, told, finishes⟩ := each _ List.mem_cons_self
    obtain ⟨⟨code, maps⟩, changed⟩ := finishes r rfl
    have kept : (Plugin.renderAll chunk kind plugins text [] r).2.session = r.session :=
      Plugin.session_renderAll keep
    rcases ran : Plugin.renderAll chunk kind plugins text [] r with ⟨result, r₁⟩
    rw [ran] at changed kept
    cases changed
    obtain ⟨others, finished⟩ := ih (r := r₁) fun x mem =>
      kept ▸ each x (List.mem_cons_of_mem _ mem)
    rw [finishChunks, told]
    simp only [ran]
    rcases tail : finishChunks plugins names kind rest r₁ with ⟨result, r₂⟩
    rw [tail] at finished
    cases finished
    exact ⟨_, rfl⟩

/-- A graph is bundled where each chunk is rendered and finished. -/
theorem exists_ofGraph (keep : Plugin.KeepSession plugins) {cwd : String} {o : OutputOptions}
    {g : Graph} {session : Session σ} {emitter : Emitter}
    (named : Chunk.named g o (Chunk.ofGraph g) = .ok names)
    (assigned : Chunk.assignNames names g.emittedEntries session.emitter = .ok emitter)
    (each : ∀ c ∈ Chunk.ofGraph g, ∃ text map, c.render g names cwd o.sourceMap = .ok (text, map) ∧
      Finishes plugins names o.sourceMap { session with emitter := emitter } c text) :
    ∃ assets, (ofGraph plugins cwd o g session).1 = .ok assets := by
  rw [ofGraph]
  simp only [named, assigned]
  cases rendering : renderChunks g names cwd o.sourceMap (Chunk.ofGraph g) with
  | error e =>
    obtain ⟨c, mem, failed⟩ := error_of_renderChunks rendering
    obtain ⟨text, map, rendered, _⟩ := each c mem
    cases failed.symm.trans rendered
  | ok rendered =>
    refine exists_finishChunks keep fun x mem => ?_
    obtain ⟨c, listed, rfl, rendered⟩ :=
      exists_of_forall₂_right (forall₂_renderChunks rendering) mem
    obtain ⟨text, map, again, finishes⟩ := each _ listed
    have same : (text, map) = x.2 := Except.ok.inj (again.symm.trans rendered)
    rw [← same]
    exact finishes

end Bundle

end WorkerBundler
