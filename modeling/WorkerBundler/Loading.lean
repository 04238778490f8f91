import WorkerBundler.Loader
import Mathlib.Logic.Relation

/-!
# Loads under way

`Loader.fetch` carries out the work on the modules of a build one after the other. Modules may as
well be worked on at the same time: their hooks then take turns request by request, and their
results reach the loader in any order. A `Loading` is the state of such a load, `Loading.Step` is
one thing that can happen next, and `Loads` relates a build's input to each graph that some order
of steps ends with. Two fields record history and steer nothing: `begun`, the modules on which work
has begun, and `handedOut`, the emissions that the emitter has handed to the loader.

`Loading.LastDrain` singles out the end of a load: the loader has taken the pending emissions, no
module is worked on any more, and only the hooks that resolve those emissions still run.
-/

namespace WorkerBundler

variable {σ α κ : Type}

/-! ## Hooks that take turns -/

/-- Carries out the next request of a hook. A hook that has answered has none. -/
def Hook.tick : Hook σ α → Session σ → Option (Hook σ α × Session σ)
  | .answer _, _ => none
  | .emit chunk next, s =>
    match s.emitter.emit chunk with
    | none => some (.answer (.error (.fatal .referencesExhausted)), s)
    | some (reference, emitter) => some (next reference, { s with emitter := emitter })
  | .readNames next, s => some (next s.emitter.fileName, s)
  | .readNotes next, s => some (next s.notes, s)
  | .writeNotes notes next, s => some (next, { s with notes := notes })

/-- One of several hooks under way carries out its next request. -/
inductive TickOne : List (κ × Hook σ α) → Session σ → List (κ × Hook σ α) → Session σ → Prop
  | tick {before after : List (κ × Hook σ α)} {key : κ} {h h' : Hook σ α} {s s' : Session σ} :
    h.tick s = some (h', s') →
    TickOne (before ++ (key, h) :: after) s (before ++ (key, h') :: after) s'

/-! ## Work on a module -/

/-- How far the work on a module has come: its code is read and transformed, or its imports are
resolved, all at the same time. -/
inductive Work (σ : Type) where
  | coding (h : Hook σ String)
  | resolving (code : String) (jobs : List (Import × Hook σ ModuleId))

/-- The work on a module before its first request. -/
def Work.begin (env : Environment σ) (id : String) : Work σ :=
  .coding (Loader.transformedCode env id)

/-- One step of the work on the module `id`. -/
inductive Work.Step (env : Environment σ) (id : String) :
    Work σ → Session σ → Work σ → Session σ → Prop
  | coding {h h' : Hook σ String} {s s' : Session σ} :
    h.tick s = some (h', s') → Work.Step env id (.coding h) s (.coding h') s'
  | scanned {code : String} {s : Session σ} :
    Work.Step env id (.coding (.answer (.ok code))) s
      (.resolving code ((ImportScan.imports code).map fun site =>
        (site, Loader.resolveImport env id site.specifier))) s
  | resolving {code : String} {jobs jobs' : List (Import × Hook σ ModuleId)} {s s' : Session σ} :
    TickOne jobs s jobs' s' →
    Work.Step env id (.resolving code jobs) s (.resolving code jobs') s'

/-- The result of work that has ended. One import that cannot be resolved ends it. -/
inductive Work.Ends (task : Task) : Work σ → Except BuildError Module → Prop
  | unread {e : BuildError} : Work.Ends task (.coding (.answer (.error e))) (.error e)
  | unresolved {code : String} {jobs : List (Import × Hook σ ModuleId)} {site : Import}
    {e : BuildError} :
    (site, .answer (.error e)) ∈ jobs → Work.Ends task (.resolving code jobs) (.error e)
  | loaded {code : String} (records : List ImportRecord) :
    Work.Ends task
      (.resolving code (records.map fun r => (r.site, .answer (.ok r.target))))
      (.ok ⟨task.id, code, records, task.isUserEntry⟩)

/-! ## Loads -/

/-- What the loader itself is doing: it resolves the entries, is about to take the pending
emissions, resolves the emission `m` with others to follow, or waits for the result of a module. -/
inductive Phase (σ : Type) where
  | opening (jobs : List (InputItem × Hook σ ModuleId))
  | taking
  | draining (m : Emission) (h : Hook σ ModuleId) (rest : List Emission)
  | waiting

/-- The loader at the start of its work on emitted chunks. -/
def Phase.drain (env : Environment σ) : List Emission → Phase σ
  | [] => .waiting
  | m :: rest => .draining m (Loader.resolveEntry env m.chunk.id m.chunk.importer) rest

/-- The emissions that the loader has yet to take in. -/
def Phase.toTakeIn : Phase σ → List Emission
  | .opening _ => []
  | .taking => []
  | .draining m _ rest => m :: rest
  | .waiting => []

/-- The state of a load. -/
structure Loading (σ : Type) where
  loader : Loader σ
  phase : Phase σ
  working : List (Task × Work σ)
  begun : List ModuleId
  handedOut : List Emission

namespace Loading

/-- The emitter of a load. -/
def emitter (l : Loading σ) : Emitter := l.loader.session.emitter

/-- The graph of a load so far. -/
def graph (l : Loading σ) : Graph := l.loader.graph

/-- A load with another session. -/
def withSession (l : Loading σ) (s : Session σ) : Loading σ :=
  { l with loader := { l.loader with session := s } }

/-- A load before its first step. -/
def start (env : Environment σ) (input : List InputItem) (session : Session σ) : Loading σ where
  loader := .start session
  phase := .opening (input.map fun item => (item, Loader.resolveEntry env item.specifier none))
  working := []
  begun := []
  handedOut := []

/-- The loader takes the pending emissions and turns to the first of them. -/
def takePending (env : Environment σ) (l : Loading σ) : Loading σ :=
  let (pending, emitter) := l.emitter.takePending
  { l.withSession { l.loader.session with emitter := emitter } with
    phase := .drain env pending
    handedOut := l.handedOut ++ pending }

/-- One step of the loader's work on emitted chunks: a request of the hook that resolves the
current one, or the loader takes in what it has been resolved to. -/
inductive DrainStep (env : Environment σ) : Loading σ → Loading σ → Prop
  | tick {l : Loading σ} {m : Emission} {h h' : Hook σ ModuleId} {rest : List Emission}
    {s : Session σ} :
    l.phase = .draining m h rest → h.tick l.loader.session = some (h', s) →
    DrainStep env l { l.withSession s with phase := .draining m h' rest }
  | takeIn {l : Loading σ} {m : Emission} {result : Except BuildError ModuleId}
    {rest : List Emission} :
    l.phase = .draining m (.answer result) rest →
    DrainStep env l
      { l with loader := l.loader.addResolved m result, phase := .drain env rest }

/-- One step of a load. When the loader has taken in the entries or a result, the modules that it
has queued may be worked on before it takes the pending emissions. -/
inductive Step (env : Environment σ) : Loading σ → Loading σ → Prop
  | resolveEntry {l : Loading σ} {jobs jobs' : List (InputItem × Hook σ ModuleId)}
    {s : Session σ} :
    l.phase = .opening jobs → TickOne jobs l.loader.session jobs' s →
    Step env l { l.withSession s with phase := .opening jobs' }
  | opened {l : Loading σ} {results : List (InputItem × Except BuildError ModuleId)}
    {loader : Loader σ} :
    l.phase = .opening (results.map fun r => (r.1, .answer r.2)) →
    l.loader.addEntries results = .ok loader →
    Step env l { l with loader := loader, phase := .taking }
  | take {l : Loading σ} : l.phase = .taking → Step env l (takePending env l)
  | begin {l : Loading σ} {before after : List Task} {task : Task} :
    l.loader.queue = before ++ task :: after →
    Step env l
      { l with
        loader := { l.loader with queue := before ++ after }
        working := l.working ++ [(task, .begin env task.id.id)]
        begun := l.begun ++ [task.id] }
  | work {l : Loading σ} {before after : List (Task × Work σ)} {task : Task} {w w' : Work σ}
    {s : Session σ} :
    l.working = before ++ (task, w) :: after →
    w.Step env task.id.id l.loader.session w' s →
    Step env l { l.withSession s with working := before ++ (task, w') :: after }
  | arrive {l : Loading σ} {before after : List (Task × Work σ)} {task : Task} {w : Work σ}
    {result : Except BuildError Module} :
    l.phase = .waiting → l.working = before ++ (task, w) :: after → w.Ends task result →
    Step env l
      { l with loader := l.loader.receive result, working := before ++ after, phase := .taking }
  | drain {l l' : Loading σ} : DrainStep env l l' → Step env l l'

/-- Any number of steps of a load. -/
abbrev Reach (env : Environment σ) : Loading σ → Loading σ → Prop :=
  Relation.ReflTransGen (Step env)

/-- Nothing is left to do: no module waits or is worked on, and every emission that was handed out
has been taken in. -/
structure Done (l : Loading σ) : Prop where
  waiting : l.phase = .waiting
  queue : l.loader.queue = []
  working : l.working = []

/-- The load `l` has only the work on emitted chunks behind it since `last`, where the loader had
just taken the pending emissions and no module waited or was worked on. -/
structure LastDrain (env : Environment σ) (last l : Loading σ) : Prop where
  taken : ∃ before, last = takePending env before
  queue : last.loader.queue = []
  working : last.working = []
  steps : Relation.ReflTransGen (DrainStep env) last l

end Loading

/-- Some order of steps loads the input without an error and ends as `l`. -/
structure LoadsTo (env : Environment σ) (input : List InputItem) (session : Session σ)
    (l : Loading σ) : Prop where
  input_ne_nil : input ≠ []
  reach : Loading.Reach env (.start env input session) l
  done : l.Done
  errors : l.loader.errors = []

/-- Some order of steps loads the input into the graph and leaves the session. -/
def Loads (env : Environment σ) (input : List InputItem) (session : Session σ) (g : Graph)
    (after : Session σ) : Prop :=
  ∃ l, LoadsTo env input session l ∧ l.graph = g ∧ l.loader.session = after

end WorkerBundler
