import WorkerBundler.Proofs.Loading.Invariants

/-!
# Loads that leave the notes alone

The notes of the plugins are the one thing that a build leaves to the next, and plugins that write
none leave them as they were. `Hook.KeepsNotes` says that a hook writes no notes, whatever it is
answered; it may read them. If all hooks of the plugins are such (`Plugin.KeepsNotes`), then so is
whatever a load has under way, and the notes are the same at every moment of it, however the hooks
take turns and wherever they fail (`notes_of_reach`).
-/

namespace WorkerBundler

variable {σ α β κ : Type}

/-! ## Hooks that write no notes -/

namespace Hook

/-- The hook writes no notes. -/
def KeepsNotes : Hook σ α → Prop
  | .answer _ => True
  | .emit _ next => ∀ reference, (next reference).KeepsNotes
  | .readNames next => ∀ fileName, (next fileName).KeepsNotes
  | .readNotes next => ∀ notes, (next notes).KeepsNotes
  | .writeNotes _ _ => False

theorem KeepsNotes.bind {h : Hook σ α} {f : α → Hook σ β} (first : h.KeepsNotes)
    (second : ∀ a, (f a).KeepsNotes) : (h.bind f).KeepsNotes := by
  induction h with
  | answer result =>
    cases result with
    | ok a => exact second a
    | error e => trivial
  | emit chunk next ih => exact fun reference => ih reference (first reference)
  | readNames next ih => exact fun fileName => ih fileName (first fileName)
  | readNotes next ih => exact fun notes => ih notes (first notes)
  | writeNotes notes next ih => exact first.elim

theorem keepsNotes_ofExcept (result : Except BuildError α) :
    (ofExcept result : Hook σ α).KeepsNotes := trivial

/-- A request of such a hook leaves the notes alone. -/
theorem KeepsNotes.tick {h h' : Hook σ α} {s s' : Session σ} (keeps : h.KeepsNotes)
    (step : h.tick s = some (h', s')) : h'.KeepsNotes ∧ s'.notes = s.notes := by
  cases h with
  | answer result => cases step
  | emit chunk next =>
    rw [Hook.tick] at step
    split at step
    · cases step
      exact ⟨trivial, rfl⟩
    · cases step
      exact ⟨keeps _, rfl⟩
  | readNames next => cases step; exact ⟨keeps _, rfl⟩
  | readNotes next => cases step; exact ⟨keeps _, rfl⟩
  | writeNotes notes next => exact keeps.elim

theorem keepsNotes_of_tickOne {jobs jobs' : List (κ × Hook σ α)} {s s' : Session σ}
    (keep : ∀ job ∈ jobs, job.2.KeepsNotes) (step : TickOne jobs s jobs' s') :
    (∀ job ∈ jobs', job.2.KeepsNotes) ∧ s'.notes = s.notes := by
  cases step with
  | tick ticks =>
    obtain ⟨still, same⟩ := (keep _ (List.mem_append_right _ List.mem_cons_self)).tick ticks
    refine ⟨?_, same⟩
    intro job mem
    rcases eq_or_mem_of_mem_replaced mem with rfl | old
    · exact still
    · exact keep job old

end Hook

/-! ## What plugins that write no notes are asked -/

namespace Plugin

/-- No hook of the plugin writes notes. -/
structure KeepsNotes (p : Plugin σ) : Prop where
  resolveId : ∀ request, (p.resolveId request).KeepsNotes
  load : ∀ id, (p.load id).KeepsNotes
  transform : ∀ id code, (p.transform id code).KeepsNotes
  renderChunk : ∀ request, (p.renderChunk request).KeepsNotes

theorem keepsNotes_firstAnswer {ask : Plugin σ → Hook σ (Option α)} {plugins : List (Plugin σ)}
    (each : ∀ p ∈ plugins, (ask p).KeepsNotes) : (firstAnswer ask plugins).KeepsNotes := by
  induction plugins with
  | nil => trivial
  | cons p rest ih =>
    apply Hook.KeepsNotes.bind (each p List.mem_cons_self)
    intro answered
    cases answered with
    | none => exact ih fun q mem => each q (List.mem_cons_of_mem _ mem)
    | some a => trivial

theorem keepsNotes_transformAll {id : String} {plugins : List (Plugin σ)}
    (keep : ∀ p ∈ plugins, p.KeepsNotes) (code : String) :
    (transformAll id plugins code).KeepsNotes := by
  induction plugins generalizing code with
  | nil => trivial
  | cons p rest ih =>
    have others : ∀ q ∈ rest, q.KeepsNotes := fun q mem => keep q (List.mem_cons_of_mem _ mem)
    apply Hook.KeepsNotes.bind ((keep p List.mem_cons_self).transform id code)
    intro changed
    cases changed with
    | none => exact ih others code
    | some code => exact ih others code

end Plugin

variable {env : Environment σ}

namespace Loader

theorem keepsNotes_resolve (keep : ∀ p ∈ env.plugins, p.KeepsNotes) (request : ResolveRequest) :
    (Resolver.resolve env request).KeepsNotes := by
  apply Hook.KeepsNotes.bind
    (Plugin.keepsNotes_firstAnswer fun p mem => (keep p mem).resolveId request)
  intro answered
  cases answered with
  | none => exact Hook.keepsNotes_ofExcept _
  | some id => trivial

theorem keepsNotes_resolveEntry (keep : ∀ p ∈ env.plugins, p.KeepsNotes) (specifier : String)
    (importer : Option String) : (resolveEntry env specifier importer).KeepsNotes := by
  apply Hook.KeepsNotes.bind (keepsNotes_resolve keep _)
  intro resolved
  cases resolved with
  | none => cases importer <;> trivial
  | some id => cases external : id.isExternal <;> simp [external, Hook.fail, pure, Hook.KeepsNotes]

theorem keepsNotes_resolveImport (keep : ∀ p ∈ env.plugins, p.KeepsNotes)
    (importer specifier : String) : (resolveImport env importer specifier).KeepsNotes := by
  apply Hook.KeepsNotes.bind (keepsNotes_resolve keep _)
  intro resolved
  cases resolved with
  | none => trivial
  | some target => trivial

theorem keepsNotes_transformedCode (keep : ∀ p ∈ env.plugins, p.KeepsNotes) (id : String) :
    (transformedCode env id).KeepsNotes := by
  have read : (readCode env id).KeepsNotes := by
    apply Hook.KeepsNotes.bind (Plugin.keepsNotes_firstAnswer fun p mem => (keep p mem).load id)
    intro answered
    cases answered with
    | none =>
      cases env.disk.read? id with
      | none => trivial
      | some code => trivial
    | some code => trivial
  exact read.bind fun code => Plugin.keepsNotes_transformAll keep code

end Loader

/-! ## What is under way in a load -/

/-- No hook of the work on the module writes notes. -/
def Work.KeepsNotes : Work σ → Prop
  | .coding h => h.KeepsNotes
  | .resolving _ jobs => ∀ job ∈ jobs, job.2.KeepsNotes

/-- No hook that the loader itself waits for writes notes. -/
def Phase.KeepsNotes : Phase σ → Prop
  | .opening jobs => ∀ job ∈ jobs, job.2.KeepsNotes
  | .taking => True
  | .draining _ h _ => h.KeepsNotes
  | .waiting => True

theorem Work.KeepsNotes.step (keep : ∀ p ∈ env.plugins, p.KeepsNotes) {id : String}
    {w w' : Work σ} {s s' : Session σ} (keeps : w.KeepsNotes) (step : Work.Step env id w s w' s') :
    w'.KeepsNotes ∧ s'.notes = s.notes := by
  cases step with
  | coding ticks => exact Hook.KeepsNotes.tick keeps ticks
  | scanned =>
    refine ⟨?_, rfl⟩
    intro job mem
    obtain ⟨site, _, rfl⟩ := List.mem_map.1 mem
    exact Loader.keepsNotes_resolveImport keep id site.specifier
  | resolving ticks => exact Hook.keepsNotes_of_tickOne keeps ticks

theorem Phase.keepsNotes_drain (keep : ∀ p ∈ env.plugins, p.KeepsNotes) (ms : List Emission) :
    (Phase.drain env ms).KeepsNotes := by
  cases ms with
  | nil => trivial
  | cons m rest => exact Loader.keepsNotes_resolveEntry keep _ _

namespace Loading

variable {notes : σ} {input : List InputItem} {session : Session σ} {l l' : Loading σ}

/-- The load has these notes, and nothing that is under way writes others. -/
structure KeepsNotes (notes : σ) (l : Loading σ) : Prop where
  notes : l.loader.session.notes = notes
  phase : l.phase.KeepsNotes
  working : ∀ x ∈ l.working, x.2.KeepsNotes

theorem keepsNotes_start (keep : ∀ p ∈ env.plugins, p.KeepsNotes) :
    (start env input session).KeepsNotes session.notes := by
  refine ⟨rfl, ?_, nofun⟩
  intro job mem
  obtain ⟨item, _, rfl⟩ := List.mem_map.1 mem
  exact Loader.keepsNotes_resolveEntry keep _ _

/-- A step of a load leaves the notes alone. -/
theorem KeepsNotes.step (keep : ∀ p ∈ env.plugins, p.KeepsNotes) (h : l.KeepsNotes notes)
    (step : Step env l l') : l'.KeepsNotes notes := by
  obtain ⟨same, phase, working⟩ := h
  cases step with
  | resolveEntry opening ticks =>
    rw [opening] at phase
    obtain ⟨still, kept⟩ := Hook.keepsNotes_of_tickOne phase ticks
    exact ⟨kept.trans same, still, working⟩
  | opened _ added =>
    obtain ⟨entries, rfl, _⟩ := Loader.addEntries_ok added
    refine ⟨?_, trivial, working⟩
    exact (congrArg Session.notes (Loader.withEntries_session _ _)).trans same
  | take _ => exact ⟨same, Phase.keepsNotes_drain keep _, working⟩
  | begin _ =>
    refine ⟨same, phase, ?_⟩
    intro x mem
    rcases List.mem_append.1 mem with old | new
    · exact working x old
    · obtain rfl := List.mem_singleton.1 new
      exact Loader.keepsNotes_transformedCode keep _
  | work busy works =>
    rw [busy] at working
    obtain ⟨still, kept⟩ :=
      Work.KeepsNotes.step keep (working _ (List.mem_append_right _ List.mem_cons_self)) works
    refine ⟨kept.trans same, phase, ?_⟩
    intro x mem
    rcases eq_or_mem_of_mem_replaced mem with rfl | old
    · exact still
    · exact working x old
  | @arrive before after task w result _ busy _ =>
    rw [busy] at working
    refine ⟨?_, trivial, fun x mem => working x (mem_of_mem_removed mem)⟩
    exact (congrArg Session.notes (Loader.receive_session _ _)).trans same
  | drain drains =>
    cases drains with
    | tick draining ticks =>
      rw [draining] at phase
      obtain ⟨still, kept⟩ := Hook.KeepsNotes.tick phase ticks
      exact ⟨kept.trans same, still, working⟩
    | takeIn _ =>
      refine ⟨?_, Phase.keepsNotes_drain keep _, working⟩
      exact (congrArg Session.notes (Loader.addResolved_session _ _ _)).trans same

/-- At every moment of a load the notes are those it began with. -/
theorem notes_of_reach (keep : ∀ p ∈ env.plugins, p.KeepsNotes)
    (h : Reach env (start env input session) l) : l.loader.session.notes = session.notes := by
  have kept : l.KeepsNotes session.notes := by
    induction h with
    | refl => exact keepsNotes_start keep
    | tail _ step ih => exact ih.step keep step
  exact kept.notes

end Loading

end WorkerBundler
