import WorkerBundler.Proofs.Loading.Conformance
import WorkerBundler.Proofs.ResolvedPaths

/-!
# Modules that the disk resolves

Where no plugin resolves a request, each module of a load is the file that some request denotes, and
since resolved paths are canonical, no file is loaded as two modules (`canonical_of_resolved`).

`Hook.Only` says that a hook has answers of one kind only, whatever it is given; each request keeps
this (`Only.tick`). `Loading.Admits` collects that the hooks under way, and so the ids in the queue,
are of one kind. Every step keeps it (`Admits.step`), also in a load that has errors.
-/

namespace WorkerBundler

variable {σ α β κ : Type}

/-! ## Hooks whose answers are of one kind -/

namespace Hook

/-- Every answer of the hook has the property, whatever references, names and notes it is given. -/
def Only (P : α → Prop) : Hook σ α → Prop
  | .answer result => ∀ a, result = .ok a → P a
  | .emit _ next => ∀ reference, (next reference).Only P
  | .readNames next => ∀ fileName, (next fileName).Only P
  | .readNotes next => ∀ notes, (next notes).Only P
  | .writeNotes _ next => next.Only P

variable {P : α → Prop} {Q : β → Prop}

theorem only_pure {a : α} (h : P a) : (pure a : Hook σ α).Only P := by
  rintro _ ⟨⟩
  exact h

theorem only_fail (e : BuildError) : (fail e : Hook σ α).Only P :=
  nofun

theorem Only.bind {h : Hook σ α} {f : α → Hook σ β} (first : h.Only P)
    (second : ∀ a, P a → (f a).Only Q) : (h.bind f).Only Q := by
  induction h with
  | answer result =>
    cases result with
    | ok a => exact second a (first a rfl)
    | error e => exact nofun
  | emit chunk next ih => exact fun reference => ih reference (first reference)
  | readNames next ih => exact fun fileName => ih fileName (first fileName)
  | readNotes next ih => exact fun notes => ih notes (first notes)
  | writeNotes notes next ih => exact ih first

/-- A request leaves a hook of the kind. -/
theorem Only.tick {h h' : Hook σ α} {s s' : Session σ} (only : h.Only P)
    (step : h.tick s = some (h', s')) : h'.Only P := by
  cases h with
  | answer result => cases step
  | emit chunk next =>
    rw [Hook.tick] at step
    split at step
    · cases step
      exact only_fail _
    · cases step
      exact only _
  | readNames next => cases step; exact only _
  | readNotes next => cases step; exact only _
  | writeNotes notes next => cases step; exact only

theorem only_of_tickOne {jobs jobs' : List (κ × Hook σ α)} {s s' : Session σ}
    (only : ∀ job ∈ jobs, job.2.Only P) (step : TickOne jobs s jobs' s') :
    ∀ job ∈ jobs', job.2.Only P := by
  cases step with
  | tick ticks =>
    intro job mem
    rcases eq_or_mem_of_mem_replaced mem with rfl | old
    · exact (only _ (List.mem_append_right _ List.mem_cons_self)).tick ticks
    · exact only job old

end Hook

/-! ## Requests that no plugin resolves -/

/-- No plugin answers a request. -/
def Environment.ResolvesOnDisk (env : Environment σ) : Prop :=
  ∀ p ∈ env.plugins, ∀ request, (p.resolveId request).Only (· = none)

variable {env : Environment σ}

theorem Plugin.firstAnswer_only {ask : Plugin σ → Hook σ (Option α)} {plugins : List (Plugin σ)}
    (each : ∀ p ∈ plugins, (ask p).Only (· = none)) :
    (firstAnswer ask plugins).Only (· = none) := by
  induction plugins with
  | nil => exact Hook.only_pure rfl
  | cons p rest ih =>
    obtain ⟨first, others⟩ := List.forall_mem_cons.1 each
    refine Hook.Only.bind first ?_
    rintro _ rfl
    exact ih others

/-- The module lies inside the bundle and is the file that some request denotes. -/
def Environment.HasFile (env : Environment σ) (id : ModuleId) : Prop :=
  id.isExternal = false ∧
    ∃ importer specifier, Resolver.resolvePath env.disk env.cwd importer specifier = some id.id

namespace Environment.ResolvesOnDisk

theorem resolve (onDisk : env.ResolvesOnDisk) (request : ResolveRequest) :
    (Resolver.resolve env request).Only fun found =>
      ∀ id, found = some id → id.isExternal = false → env.HasFile id := by
  refine Hook.Only.bind (Plugin.firstAnswer_only fun p mem => onDisk p mem request) ?_
  rintro _ rfl found answered id rfl internal
  exact ⟨internal, _, _, Resolver.resolvePath_of_resolveOnDisk answered internal⟩

theorem resolveEntry (onDisk : env.ResolvesOnDisk) (specifier : String)
    (importer : Option String) : (Loader.resolveEntry env specifier importer).Only env.HasFile := by
  refine Hook.Only.bind (onDisk.resolve ⟨specifier, importer⟩) ?_
  intro found each
  cases found with
  | none => cases importer <;> exact Hook.only_fail _
  | some id =>
    cases external : id.isExternal with
    | true =>
      simp only [external, if_true]
      exact Hook.only_fail _
    | false =>
      simp only [external, Bool.false_eq_true, if_false]
      exact Hook.only_pure (each id rfl external)

theorem resolveImport (onDisk : env.ResolvesOnDisk) (importer specifier : String) :
    (Loader.resolveImport env importer specifier).Only fun id =>
      id.isExternal = false → env.HasFile id := by
  refine Hook.Only.bind (onDisk.resolve ⟨specifier, some importer⟩) ?_
  intro found each
  cases found with
  | none => exact Hook.only_fail _
  | some id => exact Hook.only_pure (each id rfl)

end Environment.ResolvesOnDisk

/-! ## Loads -/

namespace Loading

variable {P : ModuleId → Prop} {input : List InputItem} {session : Session σ} {l l' : Loading σ}

/-- The hooks under way resolve requests to modules of one kind, and only such modules are queued;
imports may lie outside the bundle, too. -/
structure Admits (P : ModuleId → Prop) (l : Loading σ) : Prop where
  lists : l.loader.Lists P l.begun
  opening : ∀ jobs, l.phase = .opening jobs → ∀ job ∈ jobs, job.2.Only P
  draining : ∀ m h rest, l.phase = .draining m h rest → h.Only P
  resolving : ∀ task code jobs, (task, .resolving code jobs) ∈ l.working →
    ∀ job ∈ jobs, job.2.Only fun id => id.isExternal = false → P id

/-- What the hooks that resolve requests answer is of the kind. -/
structure ResolvesTo (env : Environment σ) (P : ModuleId → Prop) : Prop where
  entry : ∀ specifier importer, (Loader.resolveEntry env specifier importer).Only P
  imports : ∀ importer specifier,
    (Loader.resolveImport env importer specifier).Only fun id => id.isExternal = false → P id

theorem draining_of_drain_only (resolves : ResolvesTo env P) {ms : List Emission} :
    ∀ m h rest, Phase.drain env ms = .draining m h rest → h.Only P := by
  intro m h rest phase
  cases ms with
  | nil => cases phase
  | cons first ms =>
    cases phase
    exact resolves.entry m.chunk.id m.chunk.importer

theorem Admits.takePending (admits : l.Admits P) (resolves : ResolvesTo env P) :
    (takePending env l).Admits P where
  lists := ⟨admits.lists.nodup, admits.lists.perm, admits.lists.each⟩
  opening := fun jobs phase => absurd phase (drain_ne_opening _ jobs)
  draining := draining_of_drain_only resolves
  resolving := admits.resolving

theorem Admits.opened (admits : l.Admits P)
    {results : List (InputItem × Except BuildError ModuleId)} {loader : Loader σ}
    (phase : l.phase = .opening (results.map fun r => (r.1, .answer r.2)))
    (added : l.loader.addEntries results = .ok loader) :
    Admits P { l with loader := loader, phase := .taking } := by
  obtain ⟨entries, rfl, each⟩ := Loader.addEntries_ok added
  have new : ∀ e ∈ entries, P e.module := by
    intro e mem
    obtain ⟨r, listed, -, answered⟩ := exists_of_forall₂_right each mem
    exact admits.opening _ phase _ (List.mem_map_of_mem listed) _ answered
  exact ⟨admits.lists.withEntries new, nofun, nofun, admits.resolving⟩

/-- Work that is taken up or goes on resolves imports by hooks of the kind. -/
theorem only_of_workStep (resolves : ResolvesTo env P) {id code : String} {w w' : Work σ}
    {s s' : Session σ} {jobs : List (Import × Hook σ ModuleId)} (step : Work.Step env id w s w' s')
    (before : ∀ code jobs, w = .resolving code jobs →
      ∀ job ∈ jobs, job.2.Only fun id => id.isExternal = false → P id)
    (same : w' = .resolving code jobs) :
    ∀ job ∈ jobs, job.2.Only fun id => id.isExternal = false → P id := by
  cases step with
  | coding ticks => cases same
  | scanned =>
    cases same
    intro job mem
    obtain ⟨site, -, rfl⟩ := List.mem_map.1 mem
    exact resolves.imports id site.specifier
  | resolving ticks =>
    cases same
    exact Hook.only_of_tickOne (before _ _ rfl) ticks

/-- A module that was loaded depends on modules of the kind. -/
theorem Admits.dependencies (admits : l.Admits P) {task : Task} {w : Work σ} {m : Module}
    (mem : (task, w) ∈ l.working) (ends : w.Ends task (.ok m)) : ∀ id ∈ m.dependencies, P id := by
  cases ends with
  | loaded records =>
    intro id listed
    obtain ⟨target, internal⟩ := List.mem_filter.1 listed
    obtain ⟨r, record, rfl⟩ := List.mem_map.1 target
    have only := admits.resolving _ _ _ mem _ (List.mem_map_of_mem record)
    exact only r.target rfl (by simpa using internal)

/-- **Every step queues modules of the kind only.** -/
theorem Admits.step (admits : l.Admits P) (resolves : ResolvesTo env P) (step : Step env l l') :
    l'.Admits P := by
  have lists := admits.lists
  cases step with
  | resolveEntry phase ticks =>
    refine ⟨⟨lists.nodup, lists.perm, lists.each⟩, ?_, nofun, admits.resolving⟩
    rintro jobs ⟨⟩
    exact Hook.only_of_tickOne (admits.opening _ phase) ticks
  | opened phase added => exact admits.opened phase added
  | take _ => exact admits.takePending resolves
  | begin queue =>
    refine ⟨lists.begin queue, admits.opening, admits.draining, ?_⟩
    intro task code jobs mem
    rcases List.mem_append.1 mem with old | new
    · exact admits.resolving task code jobs old
    · cases List.mem_singleton.1 new
  | @work _ _ task w w' s working steps =>
    refine ⟨⟨lists.nodup, lists.perm, lists.each⟩, admits.opening, admits.draining, ?_⟩
    intro task' code jobs mem
    rcases eq_or_mem_of_mem_replaced mem with here | old
    · obtain ⟨-, same⟩ := Prod.mk.inj here
      refine only_of_workStep resolves steps ?_ same.symm
      rintro code jobs rfl
      exact admits.resolving task code jobs
        (working ▸ List.mem_append_right _ List.mem_cons_self)
    · exact admits.resolving task' code jobs (working ▸ old)
  | @arrive before after task w result phase working ends =>
    refine ⟨lists.receive ?_, nofun, nofun, ?_⟩
    · rintro m rfl
      exact admits.dependencies (working ▸ List.mem_append_right _ List.mem_cons_self) ends
    · intro task' code jobs mem
      exact admits.resolving task' code jobs (working ▸ mem_of_mem_removed mem)
  | drain drains =>
    cases drains with
    | tick phase ticks =>
      refine ⟨⟨lists.nodup, lists.perm, lists.each⟩, nofun, ?_, admits.resolving⟩
      rintro m h rest ⟨⟩
      exact (admits.draining _ _ _ phase).tick ticks
    | takeIn phase =>
      refine ⟨lists.addResolved ?_, ?_, draining_of_drain_only resolves, admits.resolving⟩
      · rintro id rfl
        exact admits.draining _ _ _ phase id rfl
      · exact fun jobs open' => absurd open' (drain_ne_opening _ jobs)

/-- Whatever the order of the steps, a load queues modules of the kind only. -/
theorem admits_of_reach (resolves : ResolvesTo env P)
    (reach : Reach env (.start env input session) l) : l.Admits P := by
  induction reach with
  | refl =>
    refine ⟨⟨.nil, .nil, nofun⟩, ?_, nofun, nofun⟩
    rintro jobs ⟨⟩ job mem
    obtain ⟨item, -, rfl⟩ := List.mem_map.1 mem
    exact resolves.entry item.specifier none
  | tail _ step ih => exact ih.step resolves step

end Loading

/-! ## Files and modules -/

variable {input : List InputItem} {session : Session σ} {l : Loading σ}

/-- Modules of one file are the same. -/
theorem Environment.HasFile.inj {id id' : ModuleId} (rooted : env.disk.Rooted)
    (here : env.HasFile id) (there : env.HasFile id')
    (same : env.disk.placeOf id.id = env.disk.placeOf id'.id) : id = id' := by
  obtain ⟨internal, _, _, resolved⟩ := here
  obtain ⟨internal', _, _, resolved'⟩ := there
  obtain ⟨path, external⟩ := id
  obtain ⟨path', external'⟩ := id'
  cases internal
  cases internal'
  exact congrArg (ModuleId.mk · false) (Resolver.eq_of_placeOf_eq rooted resolved resolved' same)

theorem hasFile_of_mem_begun (onDisk : env.ResolvesOnDisk)
    (reach : Loading.Reach env (.start env input session) l) :
    l.begun.Nodup ∧ ∀ id ∈ l.begun, env.HasFile id := by
  have lists := (Loading.admits_of_reach ⟨onDisk.resolveEntry, onDisk.resolveImport⟩ reach).lists
  refine ⟨(lists.perm.nodup_iff.1 lists.nodup).of_append_right, fun id mem => ?_⟩
  exact lists.each id (lists.perm.mem_iff.2 (List.mem_append_right _ mem))

/-- **Resolved paths are canonical.** They are absolute paths of files, made of names, and resolve
to themselves; requests whose joined paths denote one place resolve alike, and so do all that lead
to one file. Hence no file is loaded as two modules where no plugin resolves a request. -/
theorem canonical_of_resolved (env : Environment σ) (rooted : env.disk.Rooted) :
    (∀ importer specifier path,
      Resolver.resolvePath env.disk env.cwd importer specifier = some path →
        DiskPath.isAbsolute path = true ∧ env.disk.isFile path = true ∧
        (∃ names, names ≠ [] ∧ (∀ name ∈ names, Path.IsName name) ∧
          path = DiskPath.ofSegments names) ∧
        ∀ importer', Resolver.resolvePath env.disk env.cwd importer' path = some path) ∧
    (∀ importer importer' specifier specifier',
      Resolver.joinedPlace env.disk env.cwd importer specifier =
          Resolver.joinedPlace env.disk env.cwd importer' specifier' →
        Resolver.resolvePath env.disk env.cwd importer specifier =
          Resolver.resolvePath env.disk env.cwd importer' specifier') ∧
    (∀ importer importer' specifier specifier' path path',
      Resolver.resolvePath env.disk env.cwd importer specifier = some path →
      Resolver.resolvePath env.disk env.cwd importer' specifier' = some path' →
        env.disk.placeOf path = env.disk.placeOf path' → path = path') ∧
    (env.ResolvesOnDisk → ∀ input session l,
      Loading.Reach env (.start env input session) l →
        (∀ id ∈ l.begun, id.isExternal = false ∧ env.disk.isFile id.id = true) ∧
        (l.begun.map fun id => env.disk.placeOf id.id).Nodup ∧
        (LoadsTo env input session l →
          (l.graph.modules.map fun m => env.disk.placeOf m.id.id).Nodup)) := by
  refine ⟨?_, ?_, ?_, ?_⟩
  · intro importer specifier path resolved
    obtain ⟨file, names, spells, -⟩ := Resolver.exists_names_of_resolvePath rooted resolved
    exact ⟨spells.isAbsolute, file, ⟨names, spells.nonempty, spells.each, spells.text⟩,
      Resolver.resolvePath_of_resolvePath rooted resolved env.cwd⟩
  · intro importer importer' specifier specifier' same
    rw [Resolver.resolvePath, Resolver.resolvePath, same]
  · intro importer importer' specifier specifier' path path' resolved resolved' same
    exact Resolver.eq_of_placeOf_eq rooted resolved resolved' same
  · intro onDisk input session l reach
    obtain ⟨nodup, each⟩ := hasFile_of_mem_begun onDisk reach
    have files : (l.begun.map fun id => env.disk.placeOf id.id).Nodup :=
      nodup.map_on fun id mem id' mem' same => (each id mem).inj rooted (each id' mem') same
    refine ⟨?_, files, ?_⟩
    · intro id mem
      obtain ⟨internal, importer, specifier, resolved⟩ := each id mem
      exact ⟨internal, (Resolver.exists_names_of_resolvePath rooted resolved).1⟩
    · intro loads
      have perm := (begun_of_loads loads).2.map fun id => env.disk.placeOf id.id
      rw [List.map_map] at perm
      exact perm.nodup_iff.1 files

/-- A module that imports another one under two spellings, one of them past the root. -/
def respelledEnvironment : Environment Unit where
  disk :=
    { entries := [
        (["main.js"], .file "import './dep'; import '../dep.js';".toUTF8),
        (["dep.js"], .file "dep();".toUTF8)]
      workingDirectory := [] }
  cwd := "/"
  plugins := [{ name := "plain" }]
  externalTest _ _ _ := .ok false

def respelledIds (g : Graph) (_ : Session Unit) : List String := g.modules.map fun m => m.id.id

theorem fetch_respelledEnvironment :
    ((Loader.fetch respelledEnvironment 2 [⟨"main", "./main"⟩] ⟨.empty, ()⟩).bind fun r =>
      r.1.toOption.map fun g => respelledIds g r.2) = some ["/main.js", "/dep.js"] := by
  decide +kernel

/-- Both spellings are one module. -/
theorem canonical_respelledEnvironment : respelledEnvironment.disk.Rooted ∧
    respelledEnvironment.ResolvesOnDisk ∧
    Resolver.resolvePath respelledEnvironment.disk respelledEnvironment.cwd (some "/main.js")
      "../dep.js" = some "/dep.js" ∧
    Resolver.resolvePath respelledEnvironment.disk respelledEnvironment.cwd none "/dep.js" =
      some "/dep.js" ∧
    ∃ l : Loading Unit, LoadsTo respelledEnvironment [⟨"main", "./main"⟩] ⟨.empty, ()⟩ l ∧
      (l.graph.modules.map fun m => m.id.id) = ["/main.js", "/dep.js"] ∧
      (l.graph.modules.map fun m => respelledEnvironment.disk.placeOf m.id.id).Nodup := by
  have rooted : respelledEnvironment.disk.Rooted := by decide
  have onDisk : respelledEnvironment.ResolvesOnDisk := by
    intro p mem request
    rw [List.mem_singleton.1 mem]
    exact Hook.only_pure rfl
  obtain ⟨canonical, -, -, once⟩ := canonical_of_resolved respelledEnvironment rooted
  have resolved : Resolver.resolvePath respelledEnvironment.disk respelledEnvironment.cwd
      (some "/main.js") "../dep.js" = some "/dep.js" := by
    decide
  have again := (canonical (some "/main.js") "../dep.js" "/dep.js" resolved).2.2.2 none
  obtain ⟨l, loads, modules⟩ := exists_loadsTo (f := respelledIds) fetch_respelledEnvironment
  obtain ⟨-, -, nodup⟩ := once onDisk _ _ l loads.reach
  exact ⟨rooted, onDisk, resolved, again, l, loads, modules, nodup loads⟩

end WorkerBundler
