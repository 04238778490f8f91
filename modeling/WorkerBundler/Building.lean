import WorkerBundler.Bundler
import WorkerBundler.Finishing

/-!
# Builds under way

`Bundler.build` is a build without a pause. A `Stage` is how far a build has come, and `Stage.Step`
one thing that it can do next, so that its hooks take turns wherever several of them are under way.

The modules of a build are worked on by tasks of their own. A build that ends because an entry is
refused, or that is given up, does not wait for the tasks that it has begun. These `Strays` go on:
no loader takes in their results, but they share the session with the builds that follow, and what
they emit is emitted there. So a `Building` is a build with the strays beside it, `Bundler.MayEnd`
and `Bundler.MayStop` say what may come of one, and a `History` is any number of builds one after
the other.
-/

namespace WorkerBundler

variable {σ : Type}

/-! ## Strays -/

/-- Modules of builds that are over, on which the work has not begun or goes on. -/
structure Strays (σ : Type) where
  queue : List Task
  working : List (Task × Work σ)

namespace Strays

/-- No strays. -/
def none : Strays σ := ⟨[], []⟩

/-- The strays and further ones. -/
def append (strays more : Strays σ) : Strays σ :=
  ⟨strays.queue ++ more.queue, strays.working ++ more.working⟩

/-- One step of the strays in a session: the work on a module begins, goes on or ends. -/
inductive Step (env : Environment σ) : Strays σ → Session σ → Strays σ → Session σ → Prop
  | begin {before after : List Task} {task : Task} {working : List (Task × Work σ)}
    {s : Session σ} :
    Step env ⟨before ++ task :: after, working⟩ s
      ⟨before ++ after, working ++ [(task, .begin env task.id.id)]⟩ s
  | work {queue : List Task} {before after : List (Task × Work σ)} {task : Task} {w w' : Work σ}
    {s s' : Session σ} :
    w.Step env task.id.id s w' s' →
    Step env ⟨queue, before ++ (task, w) :: after⟩ s ⟨queue, before ++ (task, w') :: after⟩ s'
  | ends {queue : List Task} {before after : List (Task × Work σ)} {task : Task} {w : Work σ}
    {result : Except BuildError Module} {s : Session σ} :
    w.Ends task result →
    Step env ⟨queue, before ++ (task, w) :: after⟩ s ⟨queue, before ++ after⟩ s

end Strays

/-- The loader with the entries that it takes in before one that is refused. -/
def Loader.accept (l : Loader σ) : List (InputItem × Except BuildError ModuleId) → Loader σ
  | [] => l
  | (_, .error _) :: _ => l
  | (item, .ok id) :: rest => (l.addEntry item.name id).accept rest

/-! ## Stages -/

/-- How far a build has come: it loads the modules, gives the emitted chunks that are left their
file names, lets the plugins finish the chunks, or has ended. -/
inductive Stage (σ : Type) where
  | loading (l : Loading σ)
  | naming (g : Graph) (names : FileNames) (left : List EmittedEntry) (s : Session σ)
  | finishing (changes : Changes σ) (r : Plugin.Rendering σ)
  | ended (report : Report) (s : Session σ)

namespace Stage

/-- The session of a build. -/
def session : Stage σ → Session σ
  | .loading l => l.loader.session
  | .naming _ _ _ s => s
  | .finishing _ r => r.session
  | .ended _ s => s

/-- A build with another session. -/
def withSession : Stage σ → Session σ → Stage σ
  | .loading l, s => .loading (l.withSession s)
  | .naming g names left _, s => .naming g names left s
  | .finishing changes r, s => .finishing changes { r with session := s }
  | .ended report _, s => .ended report s

/-- The strays that a build leaves if it is given up. -/
def strays : Stage σ → Strays σ
  | .loading l => ⟨l.loader.queue, l.working⟩
  | _ => .none

/-- A build before its first step. -/
def start (options : InputOptions σ) (disk : Disk) (notes : σ) : Stage σ :=
  if options.input = [] then .ended ⟨.error (.fatal .noInput), []⟩ ⟨.empty, notes⟩
  else .loading (.start (options.environment disk) options.input ⟨.empty, notes⟩)

/-- One step of a build, other than ending with a refused entry. -/
inductive Step (options : InputOptions σ) (disk : Disk) (o : OutputOptions) :
    Stage σ → Stage σ → Prop
  | load {l l' : Loading σ} :
    Loading.Step (options.environment disk) l l' →
    Step options disk o (.loading l) (.loading l')
  | failed {l : Loading σ} {e : BuildError} {later : List BuildError} :
    l.Done → l.loader.errors = e :: later →
    Step options disk o (.loading l) (.ended ⟨.error e, []⟩ l.loader.session)
  | named {l : Loading σ} {names : FileNames} :
    l.Done → l.loader.errors = [] → Chunk.named l.graph o (Chunk.ofGraph l.graph) = .ok names →
    Step options disk o (.loading l)
      (.naming l.graph names l.graph.emittedEntries l.loader.session)
  | unnamed {l : Loading σ} {e : BuildError} :
    l.Done → l.loader.errors = [] → Chunk.named l.graph o (Chunk.ofGraph l.graph) = .error e →
    Step options disk o (.loading l) (.ended ⟨.error e, []⟩ l.loader.session)
  | assigned {g : Graph} {names : FileNames} {entry : EmittedEntry} {left : List EmittedEntry}
    {s : Session σ} {emitter : Emitter} :
    Chunk.assignNames names [entry] s.emitter = .ok emitter →
    Step options disk o (.naming g names (entry :: left) s)
      (.naming g names left { s with emitter := emitter })
  | unassigned {g : Graph} {names : FileNames} {entry : EmittedEntry} {left : List EmittedEntry}
    {s : Session σ} {e : BuildError} :
    Chunk.assignNames names [entry] s.emitter = .error e →
    Step options disk o (.naming g names (entry :: left) s) (.ended ⟨.error e, []⟩ s)
  | rendered {g : Graph} {names : FileNames} {s : Session σ}
    {rendered : List (Chunk × String × Option SourceMap)} :
    Bundle.renderChunks g names options.cwd o.sourceMap (Chunk.ofGraph g) = .ok rendered →
    Step options disk o (.naming g names [] s)
      (.finishing (Change.startAll options.plugins names rendered) ⟨s, []⟩)
  | unrendered {g : Graph} {names : FileNames} {s : Session σ} {e : BuildError} :
    Bundle.renderChunks g names options.cwd o.sourceMap (Chunk.ofGraph g) = .error e →
    Step options disk o (.naming g names [] s) (.ended ⟨.error e, []⟩ s)
  | change {changes changes' : Changes σ} {r r' : Plugin.Rendering σ} :
    ChangeOne o.sourceMap changes r changes' r' →
    Step options disk o (.finishing changes r) (.finishing changes' r')
  | finished {changes : Changes σ} {r : Plugin.Rendering σ}
    {result : Except BuildError (List Asset)} :
    ChangesEnd o.sourceMap changes result →
    Step options disk o (.finishing changes r) (.ended ⟨result, r.warnings⟩ r.session)

end Stage

/-! ## Builds beside strays -/

/-- A build under way, and the strays beside it. -/
structure Building (σ : Type) where
  stage : Stage σ
  strays : Strays σ

namespace Building

/-- One step of a build or of the strays beside it. With a refused entry the work on the modules of
the entries before it becomes stray. -/
inductive Step (options : InputOptions σ) (disk : Disk) (o : OutputOptions) :
    Building σ → Building σ → Prop
  | stage {x x' : Stage σ} {strays : Strays σ} :
    x.Step options disk o x' → Step options disk o ⟨x, strays⟩ ⟨x', strays⟩
  | refused {l : Loading σ} {results : List (InputItem × Except BuildError ModuleId)}
    {e : BuildError} {strays : Strays σ} :
    l.phase = .opening (results.map fun r => (r.1, .answer r.2)) →
    l.loader.addEntries results = .error e →
    Step options disk o ⟨.loading l, strays⟩
      ⟨.ended ⟨.error e, []⟩ l.loader.session, strays.append ⟨(l.loader.accept results).queue, []⟩⟩
  | stray {x : Stage σ} {strays strays' : Strays σ} {s : Session σ} :
    strays.Step (options.environment disk) x.session strays' s →
    Step options disk o ⟨x, strays⟩ ⟨x.withSession s, strays'⟩

/-- Any number of these steps. -/
abbrev Reach (options : InputOptions σ) (disk : Disk) (o : OutputOptions) :
    Building σ → Building σ → Prop :=
  Relation.ReflTransGen (Step options disk o)

end Building

/-! ## What may come of a build -/

namespace Bundler

/-- A build of the bundler before its first step. -/
def begin (b : Bundler σ) (disk : Disk) (strays : Strays σ) : Building σ :=
  ⟨.start b.options disk b.session.notes, strays⟩

/-- Beside the strays a build of the bundler may end with the report, in some order of steps, and
leave the session and strays. -/
def MayEnd (b : Bundler σ) (disk : Disk) (o : OutputOptions) (strays : Strays σ) (report : Report)
    (session : Session σ) (left : Strays σ) : Prop :=
  Building.Reach b.options disk o (b.begin disk strays) ⟨.ended report session, left⟩

/-- Beside the strays a build of the bundler may end or be given up, and leave the session and
strays. -/
def MayStop (b : Bundler σ) (disk : Disk) (o : OutputOptions) (strays : Strays σ)
    (session : Session σ) (left : Strays σ) : Prop :=
  ∃ x, Building.Reach b.options disk o (b.begin disk strays) x ∧ x.stage.session = session ∧
    x.strays.append x.stage.strays = left

/-- Any number of builds of a new bundler, each with a disk and output options of its own, lead to
the bundler and leave the strays, which also go on between the builds. -/
inductive History (options : InputOptions σ) (notes : σ) : Bundler σ → Strays σ → Prop
  | new : History options notes (new options notes) .none
  | build {b : Bundler σ} {strays left : Strays σ} {disk : Disk} {o : OutputOptions}
    {session : Session σ} :
    History options notes b strays → b.MayStop disk o strays session left →
    History options notes { b with session := session } left
  | stray {b : Bundler σ} {strays left : Strays σ} {disk : Disk} {session : Session σ} :
    History options notes b strays →
    strays.Step (b.options.environment disk) b.session left session →
    History options notes { b with session := session } left

end Bundler

end WorkerBundler
