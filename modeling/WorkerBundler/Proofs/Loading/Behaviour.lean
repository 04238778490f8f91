import WorkerBundler.Proofs.HookOutcomes
import WorkerBundler.Proofs.Loading.Emissions

/-!
# Environments that behave the same in every order

A `Behaviour` says what requests resolve to, what the chunks resolve to that the code of a module
emits, and which specifiers that code imports. An environment follows it if its hooks come to just
that in every run, whatever references, names and notes they are given (`Environment.Follows`): code
may depend on references as long as nothing of this does.

`Behaviour.Needs` is the least set of modules that the entries of an input lead to by imports and
emitted chunks. `Behaviour.Owes` says what the work on a module still has to emit; each step of the
work emits one chunk of that or none (`Owes.step`), and at its end nothing is left.
-/

namespace WorkerBundler

variable {σ : Type} {env : Environment σ}

/-! ## Behaviours -/

/-- What an environment makes of requests and of the code of modules. A request has no target if it
cannot be resolved, and code that cannot be read has no specifiers. -/
structure Behaviour where
  target : ResolveRequest → Option ModuleId
  emits : String → List (Option ModuleId)
  specifiers : String → Option (List String)

namespace Behaviour

variable (b : Behaviour) (input : List InputItem)

/-- The module inside the bundle that an entry or an emitted chunk denotes. -/
def entry (specifier : String) (importer : Option String) : Option ModuleId :=
  (b.target ⟨specifier, importer⟩).filter (!·.isExternal)

/-- The module that an emitted chunk denotes. -/
def look (chunk : EmittedChunk) : Option ModuleId := b.entry chunk.id chunk.importer

/-- The imports of a module resolve to the targets. -/
def Imports (id : String) (targets : List ModuleId) : Prop :=
  ∃ specifiers, b.specifiers id = some specifiers ∧
    List.Forall₂ (fun s target => b.target ⟨s, some id⟩ = some target) specifiers targets

/-- The modules that the input cannot do without. -/
inductive Needs : ModuleId → Prop
  | entry {item : InputItem} {id : ModuleId} :
    item ∈ input → b.entry item.specifier none = some id → Needs id
  | emitted {m id : ModuleId} : Needs m → some id ∈ b.emits m.id → Needs id
  | dependency {m id : ModuleId} {targets : List ModuleId} :
    Needs m → b.Imports m.id targets → id ∈ targets → id.isExternal = false → Needs id

variable {b input}

theorem Imports.unique {id : String} {targets targets' : List ModuleId}
    (h : b.Imports id targets) (h' : b.Imports id targets') : targets = targets' := by
  obtain ⟨specifiers, read, each⟩ := h
  obtain ⟨specifiers', read', each'⟩ := h'
  obtain rfl : specifiers = specifiers' := Option.some.inj (read.symm.trans read')
  clear read read'
  induction each generalizing targets' with
  | nil =>
    cases each'
    rfl
  | cons first _ ih =>
    cases each' with
    | cons first' others' =>
      rw [Option.some.inj (first.symm.trans first'), ih others']

end Behaviour

/-! ## Following a behaviour -/

/-- What a request resolves to, with failures and requests left open taken together. -/
def Resolver.targetOf (result : Except BuildError (Option ModuleId)) : Option ModuleId :=
  result.toOption.join

/-- The specifiers that the code imports. -/
def ImportScan.specifiersOf (result : Except BuildError String) : Option (List String) :=
  result.toOption.map fun code => (ImportScan.imports code).map Import.specifier

/-- The hooks of the environment behave so in every run, and they emit chunks only while the code of
a module is read and transformed. What they do to a module is taken together, as one plugin is given
the code, references and all, that another one made. -/
structure Environment.Follows (env : Environment σ) (b : Behaviour) : Prop where
  resolve : ∀ request,
    (Resolver.resolve env request).Yields b.look Resolver.targetOf [] (b.target request)
  code : ∀ id, (Loader.transformedCode env id).Yields b.look ImportScan.specifiersOf
    (b.emits id) (b.specifiers id)

variable {b : Behaviour} {input : List InputItem}

namespace Environment.Follows

theorem resolveEntry (follows : env.Follows b) (specifier : String) (importer : Option String) :
    (Loader.resolveEntry env specifier importer).Yields b.look Except.toOption []
      (b.entry specifier importer) := by
  apply Hook.Yields.bind_nil (follows.resolve ⟨specifier, importer⟩)
  · intro found same
    have found_eq : found = b.target ⟨specifier, importer⟩ := same
    rw [Behaviour.entry, ← found_eq]
    cases found with
    | none => cases importer <;> exact ⟨rfl, rfl⟩
    | some id =>
      cases external : id.isExternal <;>
        simp [external, Hook.Yields, Hook.fail, pure, Except.toOption, Option.filter]
  · intro e same
    have nothing : none = b.target ⟨specifier, importer⟩ := same
    rw [Behaviour.entry, ← nothing]
    rfl

theorem resolveImport (follows : env.Follows b) (importer specifier : String) :
    (Loader.resolveImport env importer specifier).Yields b.look Except.toOption []
      (b.target ⟨specifier, some importer⟩) := by
  apply Hook.Yields.bind_nil (follows.resolve ⟨specifier, some importer⟩)
  · intro found same
    have found_eq : found = b.target ⟨specifier, some importer⟩ := same
    rw [← found_eq]
    cases found <;> exact ⟨rfl, rfl⟩
  · intro e same
    exact same

end Environment.Follows

/-! ## Work under way -/

namespace Behaviour

/-- The work on the module `id` keeps to the behaviour and still has to emit what looks like `rest`.
-/
inductive Owes (b : Behaviour) (id : String) : Work σ → List (Option ModuleId) → Prop
  | coding {h : Hook σ String} {rest : List (Option ModuleId)} :
    h.Yields b.look ImportScan.specifiersOf rest (b.specifiers id) → Owes b id (.coding h) rest
  | resolving {code : String} {jobs : List (Import × Hook σ ModuleId)} :
    b.specifiers id = some (jobs.map (·.1.specifier)) →
    (∀ job ∈ jobs, job.2.Yields b.look Except.toOption [] (b.target ⟨job.1.specifier, some id⟩)) →
    Owes b id (.resolving code jobs) []

theorem Owes.step (follows : env.Follows b) {id : String} {w w' : Work σ} {s s' : Session σ}
    {rest : List (Option ModuleId)} (owes : b.Owes id w rest) (step : Work.Step env id w s w' s') :
    Hook.Request b.look s s' rest (b.Owes id w') (∃ e, w' = .coding (.answer (.error e))) := by
  cases step with
  | coding ticks =>
    cases owes with
    | coding yields =>
      refine (yields.tick ticks).imp (fun _ => .coding) ?_
      rintro ⟨e, rfl⟩
      exact ⟨e, rfl⟩
  | @scanned code =>
    cases owes with
    | coding yields =>
      obtain ⟨rfl, same⟩ := yields
      refine .quiet rfl (.resolving ?_ ?_)
      · rw [← same, List.map_map]
        rfl
      · intro job mem
        obtain ⟨site, _, rfl⟩ := List.mem_map.1 mem
        exact follows.resolveImport id site.specifier
  | @resolving code jobs jobs' _ _ ticks =>
    cases owes with
    | resolving read yields =>
      obtain ⟨sites, same, still⟩ := Hook.yields_of_tickOne
        (fun site : Import => b.target ⟨site.specifier, some id⟩) yields ticks
      refine .quiet same (.resolving ?_ still)
      have specifiers : jobs'.map (·.1.specifier) = jobs.map (·.1.specifier) := by
        have mapped := congrArg (List.map Import.specifier) sites
        simpa only [List.map_map, Function.comp_def] using mapped
      rw [specifiers]
      exact read

/-- A module whose work has ended without an error has the imports of the behaviour. -/
theorem Owes.imports {task : Task} {w : Work σ} {m : Module} {rest : List (Option ModuleId)}
    (owes : b.Owes task.id.id w rest) (ends : w.Ends task (.ok m)) :
    b.Imports task.id.id (m.imports.map ImportRecord.target) := by
  cases ends with
  | loaded records =>
    cases owes with
    | resolving read yields =>
      refine ⟨_, read, ?_⟩
      rw [List.map_map, List.forall₂_map_left_iff, List.forall₂_map_right_iff,
        List.forall₂_same]
      intro r mem
      exact (yields _ (List.mem_map_of_mem mem)).2.symm

/-- Work that has ended owes nothing. -/
theorem Owes.nil_of_ends {task : Task} {w : Work σ} {result : Except BuildError Module}
    {rest : List (Option ModuleId)} (owes : b.Owes task.id.id w rest) (ends : w.Ends task result) :
    rest = [] := by
  cases owes with
  | coding yields =>
    cases ends with
    | unread => exact yields.1
  | resolving _ _ => rfl

end Behaviour

end WorkerBundler
