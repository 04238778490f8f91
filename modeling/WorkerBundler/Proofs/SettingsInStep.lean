import WorkerBundler.Proofs.BuildEnds
import WorkerBundler.Proofs.SourceMapSettings
import WorkerBundler.Worker.Plugin

/-!
# Builds in step with different settings for source maps

Where hooks that change chunks take turns, it is not enough that plugins answer the same in the end:
what one of them does on the way may be seen by another. A plugin that is `InStep` follows each
request of its hooks with one setting by requests of its hooks with the other, and leaves sessions
alike each time. Then two builds with these settings can be carried out side by side, with the same
modules loaded in the same order and the same plugins at work on each chunk
(`Building.SideBySide.step`). So whatever a build may end with, the other may end with, too, up to
maps (`Bundler.same_but_maps`).
-/

namespace WorkerBundler

variable {σ : Type} {alike : Session σ → Session σ → Prop} {kind kind' : Option SourceMapKind}

/-! ## Hooks in step -/

/-- Requests of a hook, one after the other. -/
abbrev Hook.Ticks {α : Type} : Hook σ α × Session σ → Hook σ α × Session σ → Prop :=
  Relation.ReflTransGen fun p q => p.1.tick p.2 = some q

/-- In sessions that are alike, the second of two related hooks follows each request of the first
one by requests of its own that leave the sessions alike; when the first has answered, it comes to
the same answer, maps aside. -/
structure Hook.Follow (alike : Session σ → Session σ → Prop)
    (related : Hook σ (Option RenderOutput) → Hook σ (Option RenderOutput) → Prop) : Prop where
  tick : ∀ {h h' k s s' t}, related h k → alike s t → h.tick s = some (h', s') →
    ∃ k' t', Hook.Ticks (k, t) (k', t') ∧ related h' k' ∧ alike s' t'
  answer : ∀ {result k s t}, related (.answer result) k → alike s t →
    ∃ result' t', Hook.Ticks (k, t) (.answer result', t') ∧ alike s t' ∧
      result.map (Option.map RenderOutput.code) = result'.map (Option.map RenderOutput.code)

namespace Hook

theorem run_of_tick {α : Type} {h h' : Hook σ α} {s s' : Session σ}
    (ticks : h.tick s = some (h', s')) : h.run s = h'.run s' := by
  cases h with
  | answer result => cases ticks
  | emit chunk next =>
    cases minted : s.emitter.emit chunk with
    | none =>
      simp only [tick, minted] at ticks
      cases ticks
      simp only [run, minted]
    | some given =>
      simp only [tick, minted] at ticks
      cases ticks
      simp only [run, minted]
  | readNames next => cases ticks; rfl
  | readNotes next => cases ticks; rfl
  | writeNotes notes next => cases ticks; rfl

theorem run_of_ticks {α : Type} {result : Except BuildError α} {x : Hook σ α × Session σ}
    {s' : Session σ} (ticks : Ticks x (.answer result, s')) : x.1.run x.2 = (result, s') := by
  induction ticks using Relation.ReflTransGen.head_induction_on with
  | refl => rfl
  | head step _ ih => exact (run_of_tick step).trans ih

variable {related : Hook σ (Option RenderOutput) → Hook σ (Option RenderOutput) → Prop}
  {h k : Hook σ (Option RenderOutput)} {s t : Session σ}

/-- All requests of the first hook are followed. -/
theorem Follow.ticks (follow : Follow alike related) {x : Hook σ (Option RenderOutput) × Session σ}
    (start : related h k) (same : alike s t) (ticks : Ticks (h, s) x) :
    ∃ k' t', Ticks (k, t) (k', t') ∧ related x.1 k' ∧ alike x.2 t' := by
  induction ticks with
  | refl => exact ⟨k, t, .refl, start, same⟩
  | tail _ step ih =>
    obtain ⟨k₁, t₁, first, related₁, same₁⟩ := ih
    obtain ⟨k₂, t₂, others, related₂, same₂⟩ := follow.tick related₁ same₁ step
    exact ⟨k₂, t₂, first.trans others, related₂, same₂⟩

/-- Related hooks that are carried out without a pause come to the same answer, maps aside. -/
theorem Follow.run (follow : Follow alike related) (start : related h k) (same : alike s t) :
    (h.run s).1.map (Option.map RenderOutput.code) =
        (k.run t).1.map (Option.map RenderOutput.code) ∧
      alike (h.run s).2 (k.run t).2 := by
  have ran : Ticks (h, s) (.answer (h.run s).1, (h.run s).2) :=
    Hook.reach_run Prod.mk (fun ticks => ticks) h s
  obtain ⟨k₁, t₁, first, related₁, same₁⟩ := follow.ticks start same ran
  obtain ⟨result, t₂, others, same₂, answer⟩ := follow.answer related₁ same₁
  rw [run_of_ticks (first.trans others)]
  exact ⟨answer, same₂⟩

/-- What the second hook comes to when the first one has answered: the same error, no change, or a
change to the same code. -/
theorem Follow.answered (follow : Follow alike related)
    {result : Except BuildError (Option RenderOutput)}
    (asked : related (.answer result) k) (same : alike s t) : ∃ result' t',
      Ticks (k, t) (.answer result', t') ∧ alike s t' ∧
      match result with
      | .error e => result' = .error e
      | .ok none => result' = .ok none
      | .ok (some output) =>
        ∃ output' : RenderOutput, output'.code = output.code ∧ result' = .ok (some output') := by
  obtain ⟨result', t', ticks, same', answer⟩ := follow.answer asked same
  refine ⟨result', t', ticks, same', ?_⟩
  rcases of_map_eq answer with ⟨e, rfl, rfl⟩ | ⟨output, output', rfl, rfl, codes⟩
  · rfl
  · cases output with
    | none => rw [Option.map_eq_none_iff.1 codes.symm]
    | some output =>
      obtain ⟨changed, rfl, code⟩ := Option.map_eq_some_iff.1 codes.symm
      exact ⟨changed, code, rfl⟩

end Hook

namespace Plugin

/-- The hooks with the second setting follow those with the first one. -/
def Follows (alike : Session σ → Session σ → Prop) (kind kind' : Option SourceMapKind)
    (p : Plugin σ) : Prop :=
  ∃ related, Hook.Follow alike related ∧
    ∀ code chunk, related (p.renderChunk ⟨code, chunk, kind⟩) (p.renderChunk ⟨code, chunk, kind'⟩)

/-- Such a plugin is indifferent to the settings. -/
theorem Follows.indifferent {p : Plugin σ} (follows : p.Follows alike kind kind') :
    p.Indifferent alike kind kind' := by
  obtain ⟨related, follow, asked⟩ := follows
  exact ⟨fun code chunk _ _ same => (follow.run (asked code chunk) same).1,
    fun code chunk _ _ same => (follow.run (asked code chunk) same).2⟩

/-- The hooks with each of the two settings follow those with the other. -/
structure InStep (alike : Session σ → Session σ → Prop) (kind kind' : Option SourceMapKind)
    (p : Plugin σ) : Prop where
  forth : p.Follows alike kind kind'
  back : p.Follows (fun s t => alike t s) kind' kind

end Plugin

/-! ## Chunks in step -/

/-- The plugins have come equally far with a chunk under two settings, maps aside. -/
inductive Change.InStep (alike : Session σ → Session σ → Prop) (kind kind' : Option SourceMapKind)
    (told : Except BuildError RenderedChunk) : Change σ → Change σ → Prop
  | asking {chunk : RenderedChunk} {code : String} {maps maps' : List SourceMap}
    {plugins : List (Plugin σ)} :
    told = .ok chunk → (∀ p ∈ plugins, p.Follows alike kind kind') →
    InStep alike kind kind' told (.asking chunk code maps plugins)
      (.asking chunk code maps' plugins)
  | asked {chunk : RenderedChunk} {code : String} {maps maps' : List SourceMap} {p : Plugin σ}
    {h k : Hook σ (Option RenderOutput)} {rest : List (Plugin σ)}
    {related : Hook σ (Option RenderOutput) → Hook σ (Option RenderOutput) → Prop} :
    told = .ok chunk → Hook.Follow alike related → related h k →
    (∀ p ∈ rest, p.Follows alike kind kind') →
    InStep alike kind kind' told (.asked chunk code maps p h rest)
      (.asked chunk code maps' p k rest)
  | failed (e : BuildError) : InStep alike kind kind' told (.failed e) (.failed e)

namespace Change

theorem inStep_start {plugins : List (Plugin σ)}
    (follow : ∀ p ∈ plugins, p.Follows alike kind kind') (names : FileNames) (c : Chunk)
    (text : String) :
    InStep alike kind kind' (c.toRendered names) (start plugins names c text)
      (start plugins names c text) := by
  unfold start
  split
  · exact .failed _
  · rename_i told
    exact .asking told follow

/-- Requests of the hook that changes a chunk are steps of the plugins with it. -/
theorem reach_ticks {chunk : RenderedChunk} {code : String} {maps : List SourceMap} {p : Plugin σ}
    {h h' : Hook σ (Option RenderOutput)} {rest : List (Plugin σ)} {s s' : Session σ}
    (warnings : List BuildError) (ticks : Hook.Ticks (h, s) (h', s')) :
    Reach kind (.asked chunk code maps p h rest, ⟨s, warnings⟩)
      (.asked chunk code maps p h' rest, ⟨s', warnings⟩) :=
  reach_place (r := fun h s h' s' => h.tick s = some (h', s'))
    (fun h s =>
      ((asked chunk code maps p h rest, ⟨s, warnings⟩) : Change σ × Plugin.Rendering σ))
    (fun ticked => Step.tick ticked) ticks

/-- A step of the plugins with a chunk is followed under the other setting. -/
theorem InStep.step {told : Except BuildError RenderedChunk} {x x' y : Change σ}
    {r r' t : Plugin.Rendering σ} (inStep : InStep alike kind kind' told x y)
    (same : alike r.session t.session) (step : Step kind x r x' r') :
    ∃ y' t', Reach kind' (y, t) (y', t') ∧ InStep alike kind kind' told x' y' ∧
      alike r'.session t'.session := by
  cases step with
  | ask =>
    cases inStep with
    | asking told follow =>
      obtain ⟨⟨related, follows, asked⟩, others⟩ := List.forall_mem_cons.1 follow
      exact ⟨_, t, .single .ask, .asked told follows (asked _ _) others, same⟩
  | tick ticks =>
    cases inStep with
    | asked told follows asked others =>
      obtain ⟨k', t', ticks', asked', same'⟩ := follows.tick asked same ticks
      exact ⟨_, _, reach_ticks t.warnings ticks', .asked told follows asked' others, same'⟩
  | unchanged =>
    cases inStep with
    | asked told follows asked others =>
      obtain ⟨_, _, ticks, same', rfl⟩ := follows.answered asked same
      exact ⟨_, _, (reach_ticks t.warnings ticks).tail .unchanged, .asking told others, same'⟩
  | changed =>
    cases inStep with
    | asked told follows asked others =>
      obtain ⟨_, _, ticks, same', output', code, rfl⟩ := follows.answered asked same
      refine ⟨_, _, (reach_ticks t.warnings ticks).tail .changed, ?_, same'⟩
      rw [code]
      exact .asking told others
  | raised =>
    cases inStep with
    | asked told follows asked others =>
      obtain ⟨_, _, ticks, same', rfl⟩ := follows.answered asked same
      exact ⟨_, _, (reach_ticks t.warnings ticks).tail .raised, .failed _, same'⟩

end Change

/-! ## Several chunks in step -/

/-- Chunks under two settings, pair by pair. -/
abbrev ChangePairs (σ : Type) :=
  List ((Option SourceMap × Change σ) × (Option SourceMap × Change σ))

/-- The plugins have come equally far with a rendered chunk under two settings, and its map is there
where there is a setting. -/
structure Change.PairInStep (alike : Session σ → Session σ → Prop)
    (kind kind' : Option SourceMapKind) (names : FileNames) (x : Chunk × String × SourceMap)
    (c : (Option SourceMap × Change σ) × (Option SourceMap × Change σ)) : Prop where
  first : c.1.1 = kind.map fun _ => x.2.2
  second : c.2.1 = kind'.map fun _ => x.2.2
  inStep : InStep alike kind kind' (x.1.toRendered names) c.1.2 c.2.2

theorem ChangeOne.cons_cases {c : Option SourceMap × Change σ} {cs changes : Changes σ}
    {r r' : Plugin.Rendering σ} (step : ChangeOne kind (c :: cs) r changes r') :
    (∃ x, c.2.Step kind r x r' ∧ changes = (c.1, x) :: cs) ∨
      ∃ cs', ChangeOne kind cs r cs' r' ∧ changes = c :: cs' := by
  generalize known : c :: cs = all at step
  cases step with
  | @step before after map x x' _ _ steps =>
    cases before with
    | nil =>
      cases known
      exact Or.inl ⟨x', steps, rfl⟩
    | cons first before =>
      cases known
      exact Or.inr ⟨_, .step steps, rfl⟩

theorem ChangeOne.head {map : Option SourceMap} {x x' : Change σ} {r r' : Plugin.Rendering σ}
    (step : x.Step kind r x' r') (cs : Changes σ) :
    ChangeOne kind ((map, x) :: cs) r ((map, x') :: cs) r' :=
  show ChangeOne kind ([] ++ (map, x) :: cs) r ([] ++ (map, x') :: cs) r' from .step step

theorem ChangeOne.tail {cs cs' : Changes σ} {r r' : Plugin.Rendering σ}
    (c : Option SourceMap × Change σ) (step : ChangeOne kind cs r cs' r') :
    ChangeOne kind (c :: cs) r (c :: cs') r' := by
  cases step with
  | step steps =>
    rw [← List.cons_append, ← List.cons_append]
    exact .step steps

/-- A step of the plugins with one of several chunks is followed under the other setting. -/
theorem exists_changeMany {names : FileNames} {rendered : List (Chunk × String × SourceMap)}
    {pairs : ChangePairs σ}
    (each : List.Forall₂ (Change.PairInStep alike kind kind' names) rendered pairs)
    {r r' t : Plugin.Rendering σ} (same : alike r.session t.session) {changes : Changes σ}
    (step : ChangeOne kind (pairs.map Prod.fst) r changes r') :
    ∃ pairs' t', changes = pairs'.map Prod.fst ∧
      List.Forall₂ (Change.PairInStep alike kind kind' names) rendered pairs' ∧
      ChangeMany kind' (pairs.map Prod.snd, t) (pairs'.map Prod.snd, t') ∧
      alike r'.session t'.session := by
  induction each generalizing changes with
  | nil =>
    generalize known : List.map Prod.fst [] = none at step
    cases step with
    | step _ => simp at known
  | @cons x c rendered pairs here others ih =>
    -- Either the first chunk goes on and the others stand still, or it is the other way round.
    rcases step.cons_cases with ⟨change, steps, rfl⟩ | ⟨changes, steps, rfl⟩
    · obtain ⟨change', t', follows, inStep, same'⟩ := here.inStep.step same steps
      refine ⟨((c.1.1, change), (c.2.1, change')) :: pairs, t', rfl,
        .cons ⟨here.first, here.second, inStep⟩ others, ?_, same'⟩
      exact reach_place (r := Change.Step kind')
        (fun x r => ((c.2.1, x) :: pairs.map Prod.snd, r)) (fun step => .head step _) follows
    · obtain ⟨pairs', t', rfl, each', follows, same'⟩ := ih steps
      exact ⟨c :: pairs', t', rfl, .cons here each',
        reach_place (r := ChangeOne kind') (fun cs r => (c.2 :: cs, r)) (fun step => step.tail c.2)
          follows, same'⟩

/-- A rendered chunk under two settings before the first plugin is asked about it. -/
def Change.startPair (plugins : List (Plugin σ)) (names : FileNames)
    (kind kind' : Option SourceMapKind) (x : Chunk × String × SourceMap) :
    (Option SourceMap × Change σ) × (Option SourceMap × Change σ) :=
  ((kind.map fun _ => x.2.2, start plugins names x.1 x.2.1),
    (kind'.map fun _ => x.2.2, start plugins names x.1 x.2.1))

/-- Rendered chunks are in step before a plugin is asked about one of them. -/
theorem forall₂_startPair {plugins : List (Plugin σ)}
    (follow : ∀ p ∈ plugins, p.Follows alike kind kind') (names : FileNames)
    (rendered : List (Chunk × String × SourceMap)) :
    List.Forall₂ (Change.PairInStep alike kind kind' names) rendered
      (rendered.map (Change.startPair plugins names kind kind')) :=
  List.forall₂_map_right_iff.2 (List.forall₂_same.2 fun x _ =>
    ⟨rfl, rfl, Change.inStep_start follow names x.1 x.2.1⟩)

/-- If the chunks are rendered with one setting, they are rendered with the other, and the plugins
start on them in step. -/
theorem exists_startPairs {plugins : List (Plugin σ)}
    (follow : ∀ p ∈ plugins, p.Follows alike kind kind') {g : Graph} {names : FileNames}
    {cwd : String} {chunks : List Chunk} {rendered : List (Chunk × String × Option SourceMap)}
    (h : Bundle.renderChunks g names cwd kind chunks = .ok rendered) :
    ∃ rendered' texts pairs, Bundle.renderChunks g names cwd kind' chunks = .ok rendered' ∧
      List.Forall₂ (Bundle.RendersAs g names cwd) chunks texts ∧
      List.Forall₂ (Change.PairInStep alike kind kind' names) texts pairs ∧
      Change.startAll plugins names rendered = pairs.map Prod.fst ∧
      Change.startAll plugins names rendered' = pairs.map Prod.snd := by
  rcases Bundle.renderChunks_cases g names cwd chunks with ⟨e, failed⟩ | ⟨texts, renders, each⟩
  · cases (failed kind).symm.trans h
  · cases (renders kind).symm.trans h
    refine ⟨_, texts, _, renders kind', each, forall₂_startPair follow names texts, ?_, ?_⟩
    · simp [Change.startAll, Change.startPair, Bundle.asRendered, Function.comp_def]
    · simp [Change.startAll, Change.startPair, Bundle.asRendered, Function.comp_def]

/-- What cannot be rendered with one setting cannot be rendered with the other. -/
theorem renderChunks_error {g : Graph} {names : FileNames} {cwd : String} {chunks : List Chunk}
    {e : BuildError} (h : Bundle.renderChunks g names cwd kind chunks = .error e) :
    Bundle.renderChunks g names cwd kind' chunks = .error e := by
  rcases Bundle.renderChunks_cases g names cwd chunks with ⟨e', failed⟩ | ⟨texts, renders, _⟩
  · cases (failed kind).symm.trans h
    exact failed kind'
  · cases (renders kind).symm.trans h

/-- Chunks that are failed under one setting are failed under the other. -/
theorem failed_of_inStep {names : FileNames} {rendered : List (Chunk × String × SourceMap)}
    {pairs : ChangePairs σ}
    (each : List.Forall₂ (Change.PairInStep alike kind kind' names) rendered pairs)
    {map : Option SourceMap} {e : BuildError} (failed : (map, .failed e) ∈ pairs.map Prod.fst) :
    ∃ map', (map', .failed e) ∈ pairs.map Prod.snd := by
  obtain ⟨⟨⟨_, x⟩, ⟨map', y⟩⟩, mem, known⟩ := List.mem_map.1 failed
  obtain ⟨_, _, inStep⟩ := exists_of_forall₂_right each mem
  cases known
  cases inStep.inStep with
  | failed _ => exact ⟨map', List.mem_map.2 ⟨_, mem, rfl⟩⟩

/-- Chunks that are finished under one setting are finished under the other, up to maps. -/
theorem finished_of_inStep {names : FileNames} {rendered : List (Chunk × String × SourceMap)}
    {pairs : ChangePairs σ}
    (each : List.Forall₂ (Change.PairInStep alike kind kind' names) rendered pairs)
    {finished : List FinishedChunk}
    (ended : pairs.map Prod.fst = finished.map FinishedChunk.change) :
    ∃ (finished' : List FinishedChunk) (chunks : List Bundle.FinalChunk)
      (groups groups' : List (List Asset)),
      pairs.map Prod.snd = finished'.map FinishedChunk.change ∧
      finished.flatMap (FinishedChunk.assets kind) = groups.flatten ∧
      finished'.flatMap (FinishedChunk.assets kind') = groups'.flatten ∧
      List.Forall₂ (fun x y => y.chunk = x.1 ∧
        names.of? x.1.module = some y.file ∧ y.first = x.2.2) rendered chunks ∧
      List.Forall₂ (Bundle.FinalChunk.Becomes kind) chunks groups ∧
      List.Forall₂ (Bundle.FinalChunk.Becomes kind') chunks groups' := by
  induction each generalizing finished with
  | nil =>
    obtain rfl : finished = [] := List.map_eq_nil_iff.1 ended.symm
    exact ⟨[], [], [], [], rfl, rfl, rfl, .nil, .nil, .nil⟩
  | @cons x c rendered pairs here others ih =>
    obtain ⟨⟨map, change⟩, ⟨map', change'⟩⟩ := c
    obtain ⟨f, rest, rfl, first, behind⟩ := List.map_eq_cons_iff.1 ended.symm
    obtain ⟨finished', chunks, groups, groups', ended', whole, whole', each', becomes, becomes'⟩ :=
      ih behind.symm
    obtain ⟨firstMap, secondMap, inStep⟩ := here
    cases first
    cases inStep with
    | @asking _ _ _ maps' _ told _ =>
      let y : Bundle.FinalChunk := ⟨x.1, f.chunk.fileName, f.code, x.2.2⟩
      let f' : FinishedChunk := ⟨map', f.chunk, f.code, maps'⟩
      refine ⟨f' :: finished', y :: chunks, f.assets kind :: groups, f'.assets kind' :: groups',
        congrArg (f'.change :: ·) ended', ?_, ?_,
        .cons ⟨rfl, Bundle.fileName_of_toRendered told, rfl⟩ each', .cons ?_ becomes,
        .cons ?_ becomes'⟩
      · rw [List.flatMap_cons, whole, List.flatten_cons]
      · rw [List.flatMap_cons, whole', List.flatten_cons]
      · have becomes := y.becomes_assetsOf kind f.maps
        rw [← firstMap] at becomes
        exact becomes
      · have becomes := y.becomes_assetsOf kind' maps'
        rw [← secondMap] at becomes
        exact becomes

/-- Chunks in step come to the same in the end, up to maps. -/
theorem exists_changesEnd {g : Graph} {names : FileNames} {cwd : String}
    {rendered : List (Chunk × String × SourceMap)} {pairs : ChangePairs σ}
    (renders : List.Forall₂ (Bundle.RendersAs g names cwd) (Chunk.ofGraph g) rendered)
    (each : List.Forall₂ (Change.PairInStep alike kind kind' names) rendered pairs)
    {result : Except BuildError (List Asset)}
    (ends : ChangesEnd kind (pairs.map Prod.fst) result) :
    ∃ result', ChangesEnd kind' (pairs.map Prod.snd) result' ∧
      Bundle.SameButMaps cwd kind kind' result result' := by
  generalize known : pairs.map Prod.fst = changes at ends
  cases ends with
  | failed failed =>
    subst known
    obtain ⟨_, failed'⟩ := failed_of_inStep each failed
    exact ⟨_, .failed failed', .failed _⟩
  | finished finished =>
    obtain ⟨finished', chunks, groups, groups', ended, whole, whole', each', becomes, becomes'⟩ :=
      finished_of_inStep each known
    rw [ended, whole]
    refine ⟨_, .finished finished', ?_⟩
    rw [whole']
    exact .of_rendered renders each' becomes becomes'

/-! ## Builds side by side -/

namespace Building

variable {options : InputOptions σ} {disk : Disk} {o : OutputOptions}

/-- Two builds with different settings that have come equally far: they have the same modules and
the same names, and their chunks are in step; or they have ended with the same, up to maps. -/
inductive SideBySide (alike : Session σ → Session σ → Prop) (kind kind' : Option SourceMapKind)
    (cwd : String) : Building σ → Building σ → Prop
  | loading (l : Loading σ) :
    SideBySide alike kind kind' cwd ⟨.loading l, .none⟩ ⟨.loading l, .none⟩
  | naming (g : Graph) (names : FileNames) (left : List EmittedEntry) (s : Session σ) :
    SideBySide alike kind kind' cwd ⟨.naming g names left s, .none⟩ ⟨.naming g names left s, .none⟩
  | finishing {g : Graph} {names : FileNames} {rendered : List (Chunk × String × SourceMap)}
    {pairs : ChangePairs σ} {r t : Plugin.Rendering σ} :
    List.Forall₂ (Bundle.RendersAs g names cwd) (Chunk.ofGraph g) rendered →
    List.Forall₂ (Change.PairInStep alike kind kind' names) rendered pairs →
    alike r.session t.session →
    SideBySide alike kind kind' cwd ⟨.finishing (pairs.map Prod.fst) r, .none⟩
      ⟨.finishing (pairs.map Prod.snd) t, .none⟩
  | ended {report report' : Report} {s s' : Session σ} {left left' : Strays σ} :
    Bundle.SameButMaps cwd kind kind' report.result report'.result →
    SideBySide alike kind kind' cwd ⟨.ended report s, left⟩ ⟨.ended report' s', left'⟩

/-- A step of a build is followed by the build beside it. -/
theorem SideBySide.step (follow : ∀ p ∈ options.plugins, p.Follows alike kind kind')
    (refl : ∀ s, alike s s) {x x' y : Building σ}
    (beside : SideBySide alike kind kind' options.cwd x y)
    (step : Step options disk { o with sourceMap := kind } x x') :
    ∃ y', Reach options disk { o with sourceMap := kind' } y y' ∧
      SideBySide alike kind kind' options.cwd x' y' := by
  cases beside with
  | loading l =>
    have sameNames : Chunk.named l.graph { o with sourceMap := kind' } (Chunk.ofGraph l.graph) =
        Chunk.named l.graph { o with sourceMap := kind } (Chunk.ofGraph l.graph) :=
      (Bundle.named_withSetting _ _ _).trans (Bundle.named_withSetting _ _ _).symm
    cases step with
    | stage steps =>
      cases steps with
      | load loads => exact ⟨_, .single (.stage (.load loads)), .loading _⟩
      | failed done errors => exact ⟨_, .single (.stage (.failed done errors)), .ended (.failed _)⟩
      | named done errors named =>
        exact ⟨_, .single (.stage (.named done errors (sameNames.trans named))), .naming _ _ _ _⟩
      | unnamed done errors unnamed =>
        exact ⟨_, .single (.stage (.unnamed done errors (sameNames.trans unnamed))),
          .ended (.failed _)⟩
    | refused phase refused => exact ⟨_, .single (.refused phase refused), .ended (.failed _)⟩
    | stray steps => exact absurd steps Strays.not_step_none
  | naming g names left s =>
    cases step with
    | stage steps =>
      cases steps with
      | assigned assigned => exact ⟨_, .single (.stage (.assigned assigned)), .naming _ _ _ _⟩
      | unassigned unassigned =>
        exact ⟨_, .single (.stage (.unassigned unassigned)), .ended (.failed _)⟩
      | rendered rendering =>
        obtain ⟨_, texts, pairs, rendering', renders, each, first, second⟩ :=
          exists_startPairs follow rendering
        refine ⟨_, .single (.stage (.rendered rendering')), ?_⟩
        rw [first, second]
        exact .finishing renders each (refl s)
      | unrendered unrendered =>
        exact ⟨_, .single (.stage (.unrendered (renderChunks_error unrendered))),
          .ended (.failed _)⟩
    | stray steps => exact absurd steps Strays.not_step_none
  | @finishing g names rendered pairs r t renders each same =>
    cases step with
    | stage steps =>
      cases steps with
      | change change =>
        obtain ⟨pairs', t', rfl, each', follows, same'⟩ := exists_changeMany each same change
        exact ⟨_, reach_finishing follows, .finishing renders each' same'⟩
      | finished ends =>
        obtain ⟨_, ends', same'⟩ := exists_changesEnd renders each ends
        exact ⟨_, .single (.stage (.finished ends')), .ended same'⟩
    | stray steps => exact absurd steps Strays.not_step_none
  | ended same =>
    cases step with
    | stage steps => cases steps
    | stray _ => exact ⟨_, .refl, .ended same⟩

end Building

/-! ## Builds with two settings -/

namespace Bundler

variable {b : Bundler σ} {disk : Disk} {o : OutputOptions}

/-- All that a build does is followed by the build beside it. -/
theorem exists_sideBySide (follow : ∀ p ∈ b.options.plugins, p.Follows alike kind kind')
    (refl : ∀ s, alike s s) {x : Building σ}
    (h : Building.Reach b.options disk { o with sourceMap := kind } (b.begin disk .none) x) :
    ∃ y, Building.Reach b.options disk { o with sourceMap := kind' } (b.begin disk .none) y ∧
      Building.SideBySide alike kind kind' b.options.cwd x y := by
  induction h with
  | refl =>
    refine ⟨_, .refl, ?_⟩
    unfold begin Stage.start
    split
    · exact .ended (.failed _)
    · exact .loading _
  | tail _ step ih =>
    obtain ⟨y, first, beside⟩ := ih
    obtain ⟨y', next, beside'⟩ := beside.step follow refl step
    exact ⟨y', first.trans next, beside'⟩

/-- What a build may end with, a build in step with it may end with, too, up to maps. -/
theorem MayEnd.exists_same (follow : ∀ p ∈ b.options.plugins, p.Follows alike kind kind')
    (refl : ∀ s, alike s s) {report : Report} {session : Session σ} {left : Strays σ}
    (ends : b.MayEnd disk { o with sourceMap := kind } .none report session left) :
    ∃ report' session' left',
      b.MayEnd disk { o with sourceMap := kind' } .none report' session' left' ∧
      Bundle.SameButMaps b.options.cwd kind kind' report.result report'.result := by
  obtain ⟨y, reach, beside⟩ := exists_sideBySide follow refl ends
  cases beside with
  | ended same => exact ⟨_, _, _, reach, same⟩

/-- What a build ends with when its chunks are finished in turn, a build with the other setting ends
with, too, up to maps. -/
theorem EndsInTurn.exists_same
    (bundles : ∀ g s, Bundle.SameButMaps b.options.cwd kind kind'
      (Bundle.ofGraph b.options.plugins b.options.cwd { o with sourceMap := kind } g s).1
      (Bundle.ofGraph b.options.plugins b.options.cwd { o with sourceMap := kind' } g s).1)
    {report : Report} {session : Session σ}
    (ends : b.EndsInTurn disk { o with sourceMap := kind } report session) :
    ∃ report' session', b.EndsInTurn disk { o with sourceMap := kind' } report' session' ∧
      Bundle.SameButMaps b.options.cwd kind kind' report.result report'.result := by
  cases ends with
  | failed fails => exact ⟨_, _, .failed fails, .failed _⟩
  | @bundled l _ r loads bundled =>
    have same := bundles l.graph l.loader.session
    rw [bundled] at same
    exact ⟨_, _, .bundled loads rfl, same⟩

/-- **The setting for source maps reaches nothing but maps.** With plugins that are indifferent to
two settings, builds with both come to the same error, or to the same chunks up to maps: when they
load one module after the other, when they load them in any other order and finish the chunks in
turn, and, with plugins that are in step, in every order of steps. -/
theorem same_but_maps (refl : ∀ s, alike s s)
    (indifferent : ∀ p ∈ b.options.plugins, p.Indifferent alike kind kind') (disk : Disk)
    (o : OutputOptions) :
    (∀ limit,
      (b.build disk limit { o with sourceMap := kind } = none ∧
        b.build disk limit { o with sourceMap := kind' } = none) ∨
      ∃ report report' after after',
        b.build disk limit { o with sourceMap := kind } = some (report, after) ∧
        b.build disk limit { o with sourceMap := kind' } = some (report', after') ∧
        Bundle.SameButMaps b.options.cwd kind kind' report.result report'.result) ∧
      (∀ report session, b.EndsInTurn disk { o with sourceMap := kind } report session →
        ∃ report' session', b.EndsInTurn disk { o with sourceMap := kind' } report' session' ∧
          Bundle.SameButMaps b.options.cwd kind kind' report.result report'.result) ∧
      (∀ report' session', b.EndsInTurn disk { o with sourceMap := kind' } report' session' →
        ∃ report session, b.EndsInTurn disk { o with sourceMap := kind } report session ∧
          Bundle.SameButMaps b.options.cwd kind kind' report.result report'.result) ∧
      ((∀ p ∈ b.options.plugins, p.InStep alike kind kind') →
        (∀ report session left,
          b.MayEnd disk { o with sourceMap := kind } .none report session left →
          ∃ report' session' left',
            b.MayEnd disk { o with sourceMap := kind' } .none report' session' left' ∧
            Bundle.SameButMaps b.options.cwd kind kind' report.result report'.result) ∧
        ∀ report' session' left',
          b.MayEnd disk { o with sourceMap := kind' } .none report' session' left' →
          ∃ report session left,
            b.MayEnd disk { o with sourceMap := kind } .none report session left ∧
            Bundle.SameButMaps b.options.cwd kind kind' report.result report'.result) := by
  have bundles := fun g s => Bundle.ofGraph_of_indifferent refl indifferent b.options.cwd o g s
  refine ⟨?_, ?_, ?_, ?_⟩
  · intro limit
    unfold build
    dsimp only
    rcases Loader.fetch (b.options.environment disk) limit b.options.input
      { b.session with emitter := .empty } with _ | ⟨e | g, s⟩
    · exact Or.inl ⟨rfl, rfl⟩
    · exact Or.inr ⟨_, _, _, _, rfl, rfl, .failed e⟩
    · exact Or.inr ⟨_, _, _, _, rfl, rfl, bundles g s⟩
  · intro report session ends
    exact ends.exists_same bundles
  · intro report' session' ends
    obtain ⟨report, session, ends', same⟩ := ends.exists_same fun g s => (bundles g s).symm
    exact ⟨report, session, ends', same.symm⟩
  · intro inStep
    refine ⟨?_, ?_⟩
    · intro report session left ends
      have forth : ∀ p ∈ b.options.plugins, p.Follows alike kind kind' :=
        fun p mem => (inStep p mem).forth
      exact ends.exists_same forth refl
    · intro report' session' left' ends
      have back : ∀ p ∈ b.options.plugins, p.Follows (fun s t => alike t s) kind' kind :=
        fun p mem => (inStep p mem).back
      obtain ⟨report, session, left, ends', same⟩ := ends.exists_same back refl
      exact ⟨report, session, left, ends', same.symm⟩

end Bundler

/-! ## Hooks that differ in notes and maps -/

/-- The sessions hold the same emitted chunks. -/
def Session.SameEmitter (s s' : Session σ) : Prop := s.emitter = s'.emitter

namespace Hook

/-- The hooks make the same requests, but for those about notes, and answer the same, maps aside. -/
inductive SameButNotes :
    Hook σ (Option RenderOutput) → Hook σ (Option RenderOutput) → Prop
  | answer {a b : Except BuildError (Option RenderOutput)} :
    a.map (Option.map RenderOutput.code) = b.map (Option.map RenderOutput.code) →
    SameButNotes (.answer a) (.answer b)
  | emit {chunk : EmittedChunk} {next next' : String → Hook σ (Option RenderOutput)} :
    (∀ reference, SameButNotes (next reference) (next' reference)) →
    SameButNotes (.emit chunk next) (.emit chunk next')
  | readNames {next next' : (String → Except BuildError String) → Hook σ (Option RenderOutput)} :
    (∀ fileName, SameButNotes (next fileName) (next' fileName)) →
    SameButNotes (.readNames next) (.readNames next')
  | readFirst {next : σ → Hook σ (Option RenderOutput)} {k : Hook σ (Option RenderOutput)} :
    (∀ notes, SameButNotes (next notes) k) → SameButNotes (.readNotes next) k
  | writeFirst {notes : σ} {next k : Hook σ (Option RenderOutput)} :
    SameButNotes next k → SameButNotes (.writeNotes notes next) k
  | readSecond {h : Hook σ (Option RenderOutput)} {next : σ → Hook σ (Option RenderOutput)} :
    (∀ notes, SameButNotes h (next notes)) → SameButNotes h (.readNotes next)
  | writeSecond {notes : σ} {h next : Hook σ (Option RenderOutput)} :
    SameButNotes h next → SameButNotes h (.writeNotes notes next)

theorem SameButNotes.symm {h k : Hook σ (Option RenderOutput)} (same : SameButNotes h k) :
    SameButNotes k h := by
  induction same with
  | answer answers => exact .answer answers.symm
  | emit _ ih => exact .emit ih
  | readNames _ ih => exact .readNames ih
  | readFirst _ ih => exact .readSecond ih
  | writeFirst _ ih => exact .writeSecond ih
  | readSecond _ ih => exact .readFirst ih
  | writeSecond _ ih => exact .writeFirst ih

theorem SameButNotes.tick {h h' k : Hook σ (Option RenderOutput)} {s s' t : Session σ}
    (related : SameButNotes h k) (same : s.SameEmitter t) (ticks : h.tick s = some (h', s')) :
    ∃ k' t', Ticks (k, t) (k', t') ∧ SameButNotes h' k' ∧ s'.SameEmitter t' := by
  induction related generalizing t with
  | answer _ => cases ticks
  | @emit chunk next next' each _ =>
    have same : s.emitter = t.emitter := same
    rw [Hook.tick] at ticks
    split at ticks
    · rename_i minted
      cases ticks
      refine ⟨_, t, .single ?_, .answer rfl, same⟩
      rw [Hook.tick, ← same, minted]
    · rename_i reference emitter minted
      cases ticks
      refine ⟨_, { t with emitter := emitter }, .single ?_, each reference, rfl⟩
      rw [Hook.tick, ← same, minted]
  | readNames each _ =>
    have same : s.emitter = t.emitter := same
    cases ticks
    refine ⟨_, t, .single rfl, ?_, same⟩
    rw [← same]
    exact each _
  | readFirst each _ =>
    cases ticks
    exact ⟨_, t, .refl, each _, same⟩
  | writeFirst next _ =>
    cases ticks
    exact ⟨_, t, .refl, next, same⟩
  -- The second hook first catches up with its requests about notes.
  | readSecond _ ih =>
    obtain ⟨k', t', others, related, same'⟩ := ih t.notes same ticks
    exact ⟨k', t', others.head rfl, related, same'⟩
  | @writeSecond notes _ _ _ ih =>
    obtain ⟨k', t', others, related, same'⟩ := ih (t := { t with notes := notes }) same ticks
    exact ⟨k', t', others.head rfl, related, same'⟩

theorem SameButNotes.exists_answer {result : Except BuildError (Option RenderOutput)}
    {k : Hook σ (Option RenderOutput)} {s t : Session σ} (related : SameButNotes (.answer result) k)
    (same : s.SameEmitter t) : ∃ result' t', Ticks (k, t) (.answer result', t') ∧ s.SameEmitter t' ∧
      result.map (Option.map RenderOutput.code) = result'.map (Option.map RenderOutput.code) := by
  generalize known : Hook.answer result = h at related
  induction related generalizing t with
  | answer answers =>
    cases known
    exact ⟨_, t, .refl, same, answers⟩
  | emit _ _ => cases known
  | readNames _ _ => cases known
  | readFirst _ _ => cases known
  | writeFirst _ _ => cases known
  | readSecond _ ih =>
    obtain ⟨result', t', others, rest⟩ := ih t.notes same known
    exact ⟨result', t', others.head rfl, rest⟩
  | @writeSecond notes _ _ _ ih =>
    obtain ⟨result', t', others, rest⟩ := ih (t := { t with notes := notes }) same known
    exact ⟨result', t', others.head rfl, rest⟩

theorem follow_sameButNotes :
    Follow (σ := σ) Session.SameEmitter SameButNotes where
  tick related same ticks := related.tick same ticks
  answer related same := related.exists_answer same

end Hook

/-- A plugin whose hooks differ in notes and maps alone is in step, as long as the chunks that have
been emitted are the same. -/
theorem Plugin.inStep_of_sameButNotes {p : Plugin σ} (same : ∀ code chunk,
      (p.renderChunk ⟨code, chunk, kind⟩).SameButNotes (p.renderChunk ⟨code, chunk, kind'⟩)) :
    p.InStep Session.SameEmitter kind kind' where
  forth := ⟨_, Hook.follow_sameButNotes, same⟩
  back := by
    have flipped : (fun s t : Session σ => t.SameEmitter s) = Session.SameEmitter := by
      funext s t
      exact propext eq_comm
    rw [flipped]
    exact ⟨_, Hook.follow_sameButNotes, fun code chunk => (same code chunk).symm⟩

/-- Whether a map is asked for does not matter to the text with its placeholders replaced. -/
theorem Worker.code_substitute (fileName : String → Except BuildError String) (code : String)
    (chunk : RenderedChunk) (asked asked' own own' : Option SourceMapKind) :
    (substitute fileName ⟨code, chunk, asked⟩ own).map (Option.map RenderOutput.code) =
      (substitute fileName ⟨code, chunk, asked'⟩ own').map (Option.map RenderOutput.code) := by
  unfold substitute
  dsimp only
  split
  · rfl
  · split
    · rfl
    · split <;> rfl

/-- The plugin that bundles workers is in step with all settings, whatever its own setting is. -/
theorem Worker.inStep_plugin (w : Options) :
    (plugin w : Plugin σ).InStep Session.SameEmitter kind kind' :=
  Plugin.inStep_of_sameButNotes fun code chunk =>
    .readNames fun fileName => .answer (code_substitute fileName code chunk kind kind' _ _)

/-! ## A plugin that counts its maps -/

/-- A plugin with a module of every name. It changes the first character of a chunk; where a map is
expected it gives one, and counts it in the notes. -/
def countingPlugin : Plugin Nat where
  name := "counting"
  resolveId request := return some ⟨request.specifier, false⟩
  load id := return some id
  renderChunk request := do
    let t : EditedText := ⟨request.code, [⟨0, 1, "M"⟩]⟩
    if request.sourceMap.isSome then
      Hook.setNotes ((← Hook.notes) + 1)
      return some ⟨t.text, some (t.sourceMap ⟨request.chunk.fileName, none, true, false⟩)⟩
    else
      return some ⟨t.text, none⟩

/-- A bundler with that plugin behind the plugin that bundles workers, which has a setting of its
own. -/
def countingBundler : Bundler Nat :=
  .new { input := [⟨"main", "main"⟩], cwd := "/", externalTest := fun _ _ _ => .ok false,
         plugins := [Worker.plugin ⟨some .inline, .esm⟩, countingPlugin] } 0

/-- The count of maps, which the setting changes, matters to no answer. -/
theorem inStep_countingPlugin :
    countingPlugin.InStep Session.SameEmitter none (some .file) :=
  Plugin.inStep_of_sameButNotes fun _ _ =>
    .readSecond fun _ => .writeSecond (.answer rfl)

theorem build_countingBundler :
    (countingBundler.build ⟨[], []⟩ 1 { sourceMap := none }).map (fun r =>
      (r.1.result.toOption, r.2.session.notes)) = some (some [⟨"main.js", "Main"⟩], 0) ∧
    (countingBundler.build ⟨[], []⟩ 1 { sourceMap := some .file }).map (fun r =>
      (r.1.result.toOption.map (List.map Asset.fileName), r.2.session.notes)) =
        some (some ["main.js", "main.js.map"], 1) := by
  decide +kernel

/-- With maps and without, the chunk is the same, though the plugin has counted; and with maps, too,
the build may end so in other orders of steps. -/
theorem same_but_maps_counting : ∃ (report report' : Report) (after after' : Bundler Nat),
    countingBundler.build ⟨[], []⟩ 1 { sourceMap := none } = some (report, after) ∧
    countingBundler.build ⟨[], []⟩ 1 { sourceMap := some .file } = some (report', after') ∧
    report.result.toOption = some [⟨"main.js", "Main"⟩] ∧
    report'.result.toOption.map (List.map Asset.fileName) = some ["main.js", "main.js.map"] ∧
    after.session.notes = 0 ∧ after'.session.notes = 1 ∧
    Bundle.SameButMaps "/" none (some .file) report.result report'.result ∧
    ∃ ended session left,
      countingBundler.MayEnd ⟨[], []⟩ { sourceMap := some .file } .none ended session left ∧
      Bundle.SameButMaps "/" none (some .file) report.result ended.result := by
  have inStep : ∀ p ∈ countingBundler.options.plugins,
      p.InStep Session.SameEmitter none (some .file) := by
    intro p mem
    rcases List.mem_cons.1 mem with rfl | mem
    · exact Worker.inStep_plugin _
    · rw [List.mem_singleton.1 mem]
      exact inStep_countingPlugin
  obtain ⟨built, built'⟩ := build_countingBundler
  obtain ⟨⟨report, after⟩, made, known⟩ := Option.map_eq_some_iff.1 built
  obtain ⟨⟨report', after'⟩, made', known'⟩ := Option.map_eq_some_iff.1 built'
  obtain ⟨assets, notes⟩ := Prod.mk.inj known
  obtain ⟨assets', notes'⟩ := Prod.mk.inj known'
  have refl : ∀ s : Session Nat, s.SameEmitter s := fun _ => rfl
  obtain ⟨builds, _, _, orders⟩ := Bundler.same_but_maps refl
    (fun p mem => (inStep p mem).forth.indifferent) ⟨[], []⟩ {}
  obtain ⟨left, ends⟩ := (Bundler.endsInTurn_of_build made).mayEnd .none
  obtain ⟨ended, session, left', ends', sameEnd⟩ := (orders inStep).1 report _ left ends
  rcases builds 1 with ⟨none, _⟩ | ⟨_, _, _, _, first, second, same⟩
  · cases made.symm.trans none
  · cases made.symm.trans first
    cases made'.symm.trans second
    exact ⟨report, report', after, after', made, made', assets, assets', notes, notes', same,
      ended, session, left', ends', sameEnd⟩

end WorkerBundler
