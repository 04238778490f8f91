import WorkerBundler.Proofs.BuildEnds
import WorkerBundler.Worker.Plugin

/-!
# Builds after builds

A bundler keeps its session from one build to the next, and a build may end or be given up anywhere:
with an entry refused, in the middle of loading, with some of the file names known to the emitter,
or while plugins change the chunks. What the session then holds of emitted chunks is forgotten when
the next build begins. The notes are not; but if no plugin writes notes, they never change, neither
by a build nor by the strays of earlier ones (`Bundler.notes_of_mayStop`).

So builds after builds differ from those of a new bundler by the strays alone
(`Bundler.build_again`), and of these there are none as long as no build is given up or refuses an
entry behind others. Where there are some, they can make a difference: a chunk that one of them
emits is known to the build beside it (`leaked_hastyBundler`).
-/

namespace WorkerBundler

variable {σ : Type} {env : Environment σ} {session : Session σ} {notes : σ}

/-! ## Strays and stages that leave the notes alone -/

namespace Strays

/-- Nothing that the strays have under way writes notes. -/
def KeepsNotes (strays : Strays σ) : Prop :=
  ∀ x ∈ strays.working, x.2.KeepsNotes

/-- Work that has not begun writes no notes. -/
theorem keepsNotes_queue (queue : List Task) : (⟨queue, []⟩ : Strays σ).KeepsNotes :=
  fun _ mem => absurd mem List.not_mem_nil

theorem KeepsNotes.append {strays more : Strays σ} (keeps : strays.KeepsNotes)
    (others : more.KeepsNotes) : (strays.append more).KeepsNotes := by
  intro x mem
  rcases List.mem_append.1 mem with here | there
  · exact keeps x here
  · exact others x there

/-- A step of strays leaves the notes alone. -/
theorem KeepsNotes.step {strays left : Strays σ} {s s' : Session σ}
    (keep : ∀ p ∈ env.plugins, p.KeepsNotes) (keeps : strays.KeepsNotes)
    (step : strays.Step env s left s') : left.KeepsNotes ∧ s'.notes = s.notes := by
  cases step with
  | begin =>
    refine ⟨?_, rfl⟩
    intro x mem
    rcases List.mem_append.1 mem with old | new
    · exact keeps x old
    · obtain rfl := List.mem_singleton.1 new
      exact Loader.keepsNotes_transformedCode keep _
  | work works =>
    obtain ⟨still, same⟩ :=
      Work.KeepsNotes.step keep (keeps _ (List.mem_append_right _ List.mem_cons_self)) works
    refine ⟨?_, same⟩
    intro x mem
    rcases eq_or_mem_of_mem_replaced mem with rfl | old
    · exact still
    · exact keeps x old
  | ends _ => exact ⟨fun x mem => keeps x (mem_of_mem_removed mem), rfl⟩

end Strays

namespace Stage

variable {options : InputOptions σ} {disk : Disk} {o : OutputOptions} {x x' : Stage σ}

/-- The stage has these notes, and nothing that is under way writes others. -/
def KeepsNotes (notes : σ) : Stage σ → Prop
  | .loading l => l.KeepsNotes notes
  | .naming _ _ _ s => s.notes = notes
  | .finishing changes r => (∀ x ∈ changes, x.2.KeepsNotes) ∧ r.session.notes = notes
  | .ended _ s => s.notes = notes

theorem KeepsNotes.notes_eq (keeps : x.KeepsNotes notes) : x.session.notes = notes := by
  cases x with
  | loading l => exact Loading.KeepsNotes.notes keeps
  | naming _ _ _ _ => exact keeps
  | finishing _ _ => exact keeps.2
  | ended _ _ => exact keeps

theorem KeepsNotes.withSession (keeps : x.KeepsNotes notes) (same : session.notes = notes) :
    (x.withSession session).KeepsNotes notes := by
  cases x with
  | loading l => exact ⟨same, keeps.phase, keeps.working⟩
  | naming _ _ _ _ => exact same
  | finishing _ _ => exact ⟨keeps.1, same⟩
  | ended _ _ => exact same

/-- What a stage leaves when it is given up writes no notes either. -/
theorem KeepsNotes.strays (keeps : x.KeepsNotes notes) : x.strays.KeepsNotes := by
  cases x with
  | loading l => exact keeps.working
  | naming _ _ _ _ => exact Strays.keepsNotes_queue []
  | finishing _ _ => exact Strays.keepsNotes_queue []
  | ended _ _ => exact Strays.keepsNotes_queue []

theorem keepsNotes_start (keep : ∀ p ∈ options.plugins, p.KeepsNotes) :
    (start options disk notes).KeepsNotes notes := by
  unfold start
  split
  · exact rfl
  · let first : Session σ := ⟨.empty, notes⟩
    show Loading.KeepsNotes first.notes (.start (options.environment disk) options.input first)
    exact Loading.keepsNotes_start keep

/-- A step of a build leaves the notes alone. -/
theorem KeepsNotes.step (keep : ∀ p ∈ options.plugins, p.KeepsNotes) (keeps : x.KeepsNotes notes)
    (step : x.Step options disk o x') : x'.KeepsNotes notes := by
  cases step with
  | load loads => exact Loading.KeepsNotes.step keep keeps loads
  | failed _ _ => exact Loading.KeepsNotes.notes keeps
  | named _ _ _ => exact Loading.KeepsNotes.notes keeps
  | unnamed _ _ _ => exact Loading.KeepsNotes.notes keeps
  | assigned _ => exact keeps
  | unassigned _ => exact keeps
  | rendered _ =>
    refine ⟨?_, keeps⟩
    intro x mem
    obtain ⟨_, _, rfl⟩ := List.mem_map.1 mem
    exact Change.keepsNotes_start keep _ _ _
  | unrendered _ => exact keeps
  | change changes =>
    obtain ⟨still, same⟩ := keepsNotes_of_changeOne keeps.1 changes
    exact ⟨still, same.trans keeps.2⟩
  | finished _ => exact keeps.2

end Stage

/-! ## Builds that leave the notes alone -/

namespace Bundler

variable {b : Bundler σ} {options : InputOptions σ} {disk : Disk} {o : OutputOptions}
  {strays left : Strays σ}

/-- At every moment of a build the notes are those that it began with, whatever the strays beside it
do. -/
theorem keepsNotes_of_reach (keep : ∀ p ∈ b.options.plugins, p.KeepsNotes)
    (keeps : strays.KeepsNotes) {x : Building σ}
    (h : Building.Reach b.options disk o (b.begin disk strays) x) :
    x.stage.KeepsNotes b.session.notes ∧ x.strays.KeepsNotes := by
  induction h with
  | refl => exact ⟨Stage.keepsNotes_start keep, keeps⟩
  | tail _ step ih =>
    obtain ⟨stage, beside⟩ := ih
    cases step with
    | stage steps => exact ⟨Stage.KeepsNotes.step keep stage steps, beside⟩
    | refused _ _ => exact ⟨stage.notes_eq, beside.append (Strays.keepsNotes_queue _)⟩
    | stray steps =>
      obtain ⟨still, same⟩ := Strays.KeepsNotes.step keep beside steps
      exact ⟨stage.withSession (same.trans stage.notes_eq), still⟩

/-- Wherever a build stops, the notes are those it began with. -/
theorem notes_of_mayStop (keep : ∀ p ∈ b.options.plugins, p.KeepsNotes)
    (keeps : strays.KeepsNotes) (h : b.MayStop disk o strays session left) :
    session.notes = b.session.notes ∧ left.KeepsNotes := by
  obtain ⟨x, reach, rfl, rfl⟩ := h
  obtain ⟨stage, beside⟩ := keepsNotes_of_reach keep keeps reach
  exact ⟨stage.notes_eq, beside.append stage.strays⟩

/-- Where a build ends it may stop. -/
theorem MayEnd.mayStop {report : Report} (h : b.MayEnd disk o strays report session left) :
    b.MayStop disk o strays session left := by
  refine ⟨_, h, rfl, ?_⟩
  simp [Strays.append, Stage.strays, Strays.none]

/-! ## Builds one after the other -/

/-- What is left of any number of builds is strays and what has been emitted. -/
theorem exists_emitter_of_history (keep : ∀ p ∈ options.plugins, p.KeepsNotes)
    (history : History options notes b strays) :
    (∃ emitter, b = ⟨options, emitter, notes⟩) ∧ strays.KeepsNotes := by
  induction history with
  | new => exact ⟨⟨.empty, rfl⟩, Strays.keepsNotes_queue []⟩
  | @build _ _ _ _ _ session _ stops ih =>
    obtain ⟨⟨emitter, rfl⟩, keeps⟩ := ih
    obtain ⟨same, still⟩ := notes_of_mayStop keep keeps stops
    obtain rfl : session.notes = notes := same
    exact ⟨⟨session.emitter, rfl⟩, still⟩
  | @stray _ _ _ _ session _ steps ih =>
    obtain ⟨⟨emitter, rfl⟩, keeps⟩ := ih
    obtain ⟨still, same⟩ := Strays.KeepsNotes.step keep keeps steps
    obtain rfl : session.notes = notes := same
    exact ⟨⟨session.emitter, rfl⟩, still⟩

/-- **Builds leave nothing to later ones but strays** if no plugin writes notes. After any number of
builds, ended or given up, a build without a pause has the report that it has on a new bundler and
leaves the same behind; and beside the strays that are left, in any order of steps, a build may end
and stop just as it may on a new bundler beside them. Where there are no strays, a build that ends
leaves some only if it refuses an entry behind others, and then it may leave some. -/
theorem build_again (keep : ∀ p ∈ options.plugins, p.KeepsNotes)
    (history : History options notes b strays) (disk : Disk) (o : OutputOptions) :
    (∀ limit, b.build disk limit o = (new options notes).build disk limit o) ∧
      (∀ report session left, b.MayEnd disk o strays report session left ↔
        (new options notes).MayEnd disk o strays report session left) ∧
      (∀ session left, b.MayStop disk o strays session left ↔
        (new options notes).MayStop disk o strays session left) ∧
      (∀ limit report after, b.build disk limit o = some (report, after) →
        ∃ left, b.MayEnd disk o strays report after.session left ∧
          History options notes after left) ∧
      (∀ report session left, b.MayEnd disk o strays report session left →
        History options notes { b with session := session } left ∧
          (strays = .none →
            left = .none ∨ ∃ e, report = ⟨.error e, []⟩ ∧ b.MayRefuse disk e)) ∧
      ∀ e, b.MayRefuse disk e →
        ∃ session left, b.MayEnd disk o .none ⟨.error e, []⟩ session left ∧ left ≠ .none := by
  obtain ⟨⟨emitter, rfl⟩, _⟩ := exists_emitter_of_history keep history
  refine ⟨fun _ => rfl, fun _ _ _ => Iff.rfl, fun _ _ => Iff.rfl, ?_, ?_,
    fun _ refuses => refuses.exists_mayEnd⟩
  · intro limit report after built
    obtain ⟨left, ends⟩ := (endsInTurn_of_build built).mayEnd strays
    have same : (⟨options, after.session⟩ : Bundler σ) = after := by
      rw [← show after.options = options from options_of_build built]
    exact ⟨left, ends, same ▸ history.build ends.mayStop⟩
  · intro report session left ends
    refine ⟨history.build ends.mayStop, ?_⟩
    rintro rfl
    rcases strays_of_reach ends with alone | ⟨e, _, refuses, ended⟩
    · exact Or.inl alone.strays
    · cases ended
      exact Or.inr ⟨e, rfl, refuses⟩

end Bundler

/-! ## Plugins that write no notes -/

/-- The plugin that bundles workers writes no notes. -/
theorem Worker.keepsNotes_plugin (w : Worker.Options) :
    (Worker.plugin w : Plugin σ).KeepsNotes where
  resolveId _ := trivial
  load id := by
    unfold Worker.plugin
    dsimp only
    split
    · trivial
    · exact fun _ => trivial
  transform _ _ := trivial
  renderChunk _ := fun _ => trivial

/-- A plugin with a module of every name. The module `main` emits the chunk that the notes name and
holds its reference, to which the chunk `main` adds the file name. With source maps it fails. -/
def citingPlugin : Plugin String where
  name := "citing"
  resolveId request := return some ⟨request.specifier, false⟩
  load id := do
    if id = "main" then
      return some (← Hook.emitChunk ⟨← Hook.notes, none, none⟩)
    else
      return some id
  renderChunk request := do
    if request.sourceMap.isSome then
      Hook.fail (.fatal (.raised "no maps" []))
    else if request.chunk.name = "main" then
      let fileName ← Hook.fileNames
      return some ⟨request.code ++ ":" ++ (← Hook.ofExcept (fileName request.code)), none⟩
    else
      return none

theorem keepsNotes_citingPlugin : citingPlugin.KeepsNotes where
  resolveId _ := trivial
  load id := by
    unfold citingPlugin
    dsimp only
    split
    · exact fun _ _ => trivial
    · trivial
  transform _ _ := trivial
  renderChunk request := by
    unfold citingPlugin
    dsimp only
    split
    · trivial
    · split
      · intro fileName
        exact (Hook.keepsNotes_ofExcept (fileName request.code)).bind fun _ => trivial
      · trivial

/-- A bundler with that plugin. -/
def citingBundler : Bundler String :=
  .new { input := [⟨"main", "main"⟩], cwd := "/", externalTest := fun _ _ _ => .ok false,
         plugins := [citingPlugin] } "worker"

/-- Settings with which its builds fail. -/
def citingMaps : OutputOptions where
  sourceMap := some .hidden

theorem build_citingMaps : (citingBundler.build ⟨[], []⟩ 2 citingMaps).map (fun r =>
    (r.1.result.toOption, r.2.session.emitter.emissions.map Emission.fileName)) =
      some (none, [some "worker-933db17d.js"]) := by
  decide +kernel

theorem build_citingBundler : (citingBundler.build ⟨[], []⟩ 2 {}).map (fun r =>
    r.1.result.toOption) =
      some (some [⟨"main.js", "rheizlfz:worker-933db17d.js"⟩, ⟨"worker-933db17d.js", "worker"⟩]) := by
  decide +kernel

/-- After a build that fails when the emitted chunk has its file name, the next one gives the chunk
the reference that it has in a first build. -/
theorem build_again_citingBundler : ∃ (report : Report) (after : Bundler String),
    citingBundler.build ⟨[], []⟩ 2 citingMaps = some (report, after) ∧
      report.result.toOption = none ∧
      after.session.emitter.emissions.map Emission.fileName = [some "worker-933db17d.js"] ∧
      after.build ⟨[], []⟩ 2 {} = citingBundler.build ⟨[], []⟩ 2 {} ∧
      (after.build ⟨[], []⟩ 2 {}).map (fun r => r.1.result.toOption) =
        some (some [⟨"main.js", "rheizlfz:worker-933db17d.js"⟩,
          ⟨"worker-933db17d.js", "worker"⟩]) := by
  have keep : ∀ p ∈ citingBundler.options.plugins, p.KeepsNotes := by
    intro p mem
    rw [List.mem_singleton.1 mem]
    exact keepsNotes_citingPlugin
  obtain ⟨⟨report, after⟩, built, known⟩ := Option.map_eq_some_iff.1 build_citingMaps
  obtain ⟨failed, emitted⟩ := Prod.mk.inj known
  obtain ⟨_, _, _, first, _⟩ := Bundler.build_again keep .new ⟨[], []⟩ citingMaps
  obtain ⟨_, _, history⟩ := first 2 report after built
  obtain ⟨same, _⟩ := Bundler.build_again keep history ⟨[], []⟩ {}
  refine ⟨report, after, built, failed, emitted, same 2, ?_⟩
  rw [same 2]
  exact build_citingBundler

/-! ## Strays that emit -/

/-- The chunk that the module `first` emits. -/
def lateChunk : EmittedChunk := ⟨"late", none, none⟩

/-- The reference of that chunk if it is the first that is emitted. -/
def lateReference : String := Emitter.mint lateChunk 0

/-- A plugin with a module of every name but `second`, where it asks for the file name of the chunk
that the module `first` emits. -/
def hastyPlugin : Plugin Unit where
  name := "hasty"
  resolveId request := do
    if request.specifier = "second" then
      let fileName ← Hook.fileNames
      Hook.ofExcept ((fileName lateReference).map fun _ => none)
    else
      return some ⟨request.specifier, false⟩
  load id := do
    if id = "first" then
      let _ ← Hook.emitChunk lateChunk
    return some id

theorem keepsNotes_hastyPlugin : hastyPlugin.KeepsNotes where
  resolveId request := by
    unfold hastyPlugin
    dsimp only
    split
    · exact fun fileName => Hook.keepsNotes_ofExcept _
    · trivial
  load id := by
    unfold hastyPlugin
    dsimp only
    split
    · exact fun _ => trivial
    · trivial
  transform _ _ := trivial
  renderChunk _ := trivial

/-- A bundler with that plugin, which refuses the second of its entries. -/
def hastyBundler : Bundler Unit :=
  .new { input := [⟨"first", "first"⟩, ⟨"second", "second"⟩], cwd := "/",
         externalTest := fun _ _ _ => .ok false, plugins := [hastyPlugin] } ()

namespace Hasty

/-- What its builds resolve requests with. -/
def environment : Environment Unit := hastyBundler.options.environment ⟨[], []⟩

/-- Its first entry before it is loaded. -/
def task : Task := ⟨⟨"first", false⟩, true⟩

/-- Its entries, the second of which the hook is to resolve. -/
def jobs (second : Hook Unit ModuleId) : List (InputItem × Hook Unit ModuleId) :=
  [(⟨"first", "first"⟩, .answer (.ok task.id)), (⟨"second", "second"⟩, second)]

/-- A build that resolves its entries, beside strays. -/
def opening (second : Hook Unit ModuleId) (s : Session Unit) (strays : Strays Unit) :
    Building Unit :=
  ⟨.loading ⟨.start s, .opening (jobs second), [], [], []⟩, strays⟩

/-- The hook that resolves the second entry. -/
def asks : Hook Unit ModuleId := Loader.resolveEntry environment "second" none

/-- That hook fails where the chunk has no file name. -/
theorem tick_asks {s : Session Unit} {e : BuildError}
    (unnamed : s.emitter.fileName lateReference = .error e) :
    asks.tick s = some (.answer (.error e), s) := by
  have first : asks.tick s = some (Hook.bind (Hook.bind (Hook.bind
      (Hook.ofExcept ((s.emitter.fileName lateReference).map fun _ => none)) _) _) _, s) := rfl
  rw [first, unnamed]
  rfl

theorem tickOne_jobs {second : Hook Unit ModuleId} {s s' : Session Unit}
    {jobs' : List (InputItem × Hook Unit ModuleId)} (step : TickOne (jobs second) s jobs' s') :
    ∃ h, second.tick s = some (h, s') ∧ jobs' = jobs h := by
  generalize known : jobs second = before at step
  cases step with
  | @tick before after key h h' _ _ ticks =>
    cases before with
    | nil =>
      cases known
      cases ticks
    | cons first before =>
      cases before with
      | nil =>
        cases known
        exact ⟨h', ticks, rfl⟩
      | cons next before => simp [jobs] at known

theorem results_of_jobs {second : Hook Unit ModuleId}
    {results : List (InputItem × Except BuildError ModuleId)}
    (known : jobs second = results.map fun r => (r.1, .answer r.2)) : ∃ result,
      second = .answer result ∧
      results = [(⟨"first", "first"⟩, .ok task.id), (⟨"second", "second"⟩, result)] := by
  match results with
  | [] => cases known
  | [_] => simp [jobs] at known
  | [(_, _), (_, result)] =>
    simp only [jobs, List.map_cons, List.map_nil, List.cons.injEq, Prod.mk.injEq,
      Hook.answer.injEq] at known
    obtain ⟨⟨rfl, rfl⟩, ⟨rfl, rfl⟩, _⟩ := known
    exact ⟨result, rfl, rfl⟩
  | _ :: _ :: _ :: _ => simp [jobs] at known

/-- While the entries are resolved, and no strays are there, the second entry is the only thing that
goes on. -/
theorem step_opening {second : Hook Unit ModuleId} {s : Session Unit} {x : Building Unit}
    (step : Building.Step hastyBundler.options ⟨[], []⟩ {} (opening second s .none) x) :
    (∃ h s', second.tick s = some (h, s') ∧ x = opening h s' .none) ∨
      (∃ id, second = .answer (.ok id)) ∨
      ∃ e left, second = .answer (.error e) ∧ x = ⟨.ended ⟨.error e, []⟩ s, left⟩ := by
  cases step with
  | stage steps =>
    cases steps with
    | load loads =>
      rcases Loading.step_of_blank loads with ⟨jobs', s', ticks, rfl⟩ | ⟨results, _, known, each, _⟩
      · obtain ⟨h, ticked, rfl⟩ := tickOne_jobs ticks
        exact Or.inl ⟨h, s', ticked, rfl⟩
      · obtain ⟨result, rfl, rfl⟩ := results_of_jobs known
        cases each with
        | cons _ others =>
          cases others with
          | cons resolved _ => exact Or.inr (Or.inl ⟨_, congrArg Hook.answer resolved.2⟩)
    | failed done _ => cases done.waiting
    | named done _ _ => cases done.waiting
    | unnamed done _ _ => cases done.waiting
  | @refused _ results e _ phase refused =>
    obtain ⟨result, rfl, rfl⟩ := results_of_jobs (Phase.opening.inj phase)
    cases result with
    | error _ =>
      cases refused
      exact Or.inr (Or.inr ⟨e, _, rfl, rfl⟩)
    | ok _ => cases refused
  | stray steps => exact absurd steps Strays.not_step_none

/-- The error if nothing is known of the chunk. -/
abbrev unknown : BuildError := .of (.unknownReference lateReference)

/-- A build without strays: it resolves its second entry, refuses it next, or has refused it. -/
inductive Unaided : Building Unit → Prop
  | asking : Unaided (opening asks ⟨.empty, ()⟩ .none)
  | answered : Unaided (opening (.answer (.error unknown)) ⟨.empty, ()⟩ .none)
  | refused (s : Session Unit) (left : Strays Unit) :
    Unaided ⟨.ended ⟨.error unknown, []⟩ s, left⟩

theorem Unaided.step {x x' : Building Unit} (unaided : Unaided x)
    (step : Building.Step hastyBundler.options ⟨[], []⟩ {} x x') : Unaided x' := by
  cases unaided with
  | asking =>
    have ticks : asks.tick ⟨.empty, ()⟩ = some (.answer (.error unknown), ⟨.empty, ()⟩) :=
      tick_asks rfl
    rcases step_opening step with ⟨h, s', ticked, rfl⟩ | ⟨id, answered⟩ | ⟨e, left, answered, _⟩
    · cases ticks.symm.trans ticked
      exact .answered
    · rw [answered] at ticks
      cases ticks
    · rw [answered] at ticks
      cases ticks
  | answered =>
    rcases step_opening step with ⟨h, s', ticked, _⟩ | ⟨id, answered⟩ | ⟨e, left, answered, rfl⟩
    · cases ticked
    · cases answered
    · cases answered
      exact .refused _ left
  | refused s left =>
    cases step with
    | stage steps => cases steps
    | stray _ => exact .refused _ _

theorem unaided_of_reach {x : Building Unit}
    (h : Building.Reach hastyBundler.options ⟨[], []⟩ {} (hastyBundler.begin ⟨[], []⟩ .none) x) :
    Unaided x := by
  induction h with
  | refl => exact .asking
  | tail _ step ih => exact ih.step step

/-- The build ends, and the first entry becomes stray. -/
theorem reach_refused {s : Session Unit} {e : BuildError} (strays : Strays Unit)
    (unnamed : s.emitter.fileName lateReference = .error e) :
    Building.Reach hastyBundler.options ⟨[], []⟩ {} (opening asks s strays)
      ⟨.ended ⟨.error e, []⟩ s, strays.append ⟨[task], []⟩⟩ := by
  have ticks : TickOne
      ([(⟨"first", "first"⟩, .answer (.ok task.id))] ++ (⟨"second", "second"⟩, asks) :: []) s
      (jobs (.answer (.error e))) s := .tick (tick_asks unnamed)
  have resolves : Building.Step hastyBundler.options ⟨[], []⟩ {} (opening asks s strays)
      (opening (.answer (.error e)) s strays) := .stage (.load (.resolveEntry rfl ticks))
  let results : List (InputItem × Except BuildError ModuleId) :=
    [(⟨"first", "first"⟩, .ok task.id), (⟨"second", "second"⟩, .error e)]
  have refuses : Building.Step hastyBundler.options ⟨[], []⟩ {}
      (opening (.answer (.error e)) s strays)
      ⟨.ended ⟨.error e, []⟩ s, strays.append ⟨[task], []⟩⟩ :=
    .refused (show _ = Phase.opening (results.map _) from rfl) rfl
  exact (Relation.ReflTransGen.single resolves).tail refuses

/-- The session when the stray has emitted the chunk. -/
def emitted : Session Unit := ⟨⟨[⟨lateReference, lateChunk, none⟩], 0, 1⟩, ()⟩

theorem tick_load : ∃ h,
    (Loader.transformedCode environment "first").tick ⟨.empty, ()⟩ = some (h, emitted) := by
  have minted : (⟨.empty, ()⟩ : Session Unit).emitter.emit lateChunk =
      some (lateReference, emitted.emitter) := by
    decide +kernel
  obtain ⟨next, loads⟩ :
      ∃ next, Loader.transformedCode environment "first" = .emit lateChunk next := ⟨_, rfl⟩
  rw [loads, Hook.tick, minted]
  exact ⟨_, rfl⟩

theorem fileName_emitted : emitted.emitter.fileName lateReference =
    .error (.of (.fileNameNotGenerated lateReference)) := by
  simp [emitted, Emitter.fileName, Emitter.find?]

/-- Beside a stray first entry, the stray can emit the chunk while the entries are resolved. -/
theorem reach_emitted : ∃ working, Building.Reach hastyBundler.options ⟨[], []⟩ {}
    (hastyBundler.begin ⟨[], []⟩ ⟨[task], []⟩) (opening asks emitted ⟨[], working⟩) := by
  obtain ⟨h, ticks⟩ := tick_load
  -- The lists are written so that the steps, which splice them, can be read off.
  have begins : Strays.Step environment ⟨[] ++ task :: [], []⟩ ⟨.empty, ()⟩
      ⟨[] ++ [], [] ++ [(task, .begin environment "first")]⟩ ⟨.empty, ()⟩ := .begin
  have emits : Strays.Step environment
      ⟨[], [] ++ (task, .begin environment "first") :: []⟩ ⟨.empty, ()⟩
      ⟨[], [] ++ (task, .coding h) :: []⟩ emitted := .work (.coding ticks)
  have first : Building.Step hastyBundler.options ⟨[], []⟩ {}
      (hastyBundler.begin ⟨[], []⟩ ⟨[task], []⟩)
      (opening asks ⟨.empty, ()⟩ ⟨[], [(task, .begin environment "first")]⟩) := .stray begins
  have second : Building.Step hastyBundler.options ⟨[], []⟩ {}
      (opening asks ⟨.empty, ()⟩ ⟨[], [(task, .begin environment "first")]⟩)
      (opening asks emitted ⟨[], [(task, .coding h)]⟩) := .stray emits
  exact ⟨_, (Relation.ReflTransGen.single first).tail second⟩

end Hasty

/-- **Strays can make a difference.** Without strays a build of the bundler knows nothing of the
chunk whose file name it asks for. But the stray of such a build can emit the chunk in the next
build, which then ends with another error. -/
theorem leaked_hastyBundler :
    (∀ p ∈ hastyBundler.options.plugins, p.KeepsNotes) ∧
      (∀ report session left, hastyBundler.MayEnd ⟨[], []⟩ {} .none report session left →
        report = ⟨.error (.of (.unknownReference lateReference)), []⟩) ∧
      ∃ report session strays, hastyBundler.MayEnd ⟨[], []⟩ {} .none report session strays ∧
        ∃ session' left, Bundler.MayEnd { hastyBundler with session := session } ⟨[], []⟩ {} strays
          ⟨.error (.of (.fileNameNotGenerated lateReference)), []⟩ session' left := by
  refine ⟨?_, ?_, ?_⟩
  · intro p mem
    rw [List.mem_singleton.1 mem]
    exact keepsNotes_hastyPlugin
  · intro report session left ends
    cases Hasty.unaided_of_reach ends
    rfl
  · have refused : hastyBundler.MayEnd ⟨[], []⟩ {} .none ⟨.error Hasty.unknown, []⟩ ⟨.empty, ()⟩
        ⟨[Hasty.task], []⟩ := Hasty.reach_refused .none rfl
    obtain ⟨working, emits⟩ := Hasty.reach_emitted
    exact ⟨_, _, _, refused, _, _, emits.trans (Hasty.reach_refused _ Hasty.fileName_emitted)⟩

end WorkerBundler
