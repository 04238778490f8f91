import WorkerBundler.Proofs.FreshReferences
import WorkerBundler.Proofs.HookAnswers

/-!
# Hooks with one outcome

`Hook.Yields look view h seen outcome` says that the hook `h` comes to the same outcome in every
run: whatever references, names and notes it is given, it emits the chunks that `look` sees as
`seen`, in some order, and ends with a result that `view` sees as `outcome`. The order of the chunks
and what `look` and `view` do not see may depend on the references.

Such a hook is carried out request by request without leaving its outcome, unless no reference is
left for a chunk (`Yields.tick`), and two of them in a row have one outcome together
(`Yields.bind`).
-/

namespace WorkerBundler

namespace Hook

variable {σ α α' β γ γ' κ : Type} {look : EmittedChunk → β} {view : Except BuildError α → γ}
  {view' : Except BuildError α' → γ'} {seen seen' : List β} {outcome : γ} {outcome' : γ'}

/-- In every run the hook emits what looks like `seen` and ends with what looks like `outcome`. -/
def Yields (look : EmittedChunk → β) (view : Except BuildError α → γ) :
    Hook σ α → List β → γ → Prop
  | .answer result, seen, outcome => seen = [] ∧ view result = outcome
  | .emit chunk next, seen, outcome =>
    ∃ rest, seen.Perm (look chunk :: rest) ∧
      ∀ seed, (next (Emitter.mint chunk seed)).Yields look view rest outcome
  | .readNames next, seen, outcome => ∀ fileName, (next fileName).Yields look view seen outcome
  | .readNotes next, seen, outcome => ∀ notes, (next notes).Yields look view seen outcome
  | .writeNotes _ next, seen, outcome => next.Yields look view seen outcome

/-- Two hooks in a row. If the first one may fail, the second one emits nothing, and its outcome is
that of the failure. -/
theorem Yields.bind {h : Hook σ α} {f : α → Hook σ α'} (first : h.Yields look view seen outcome)
    (second : ∀ a, view (.ok a) = outcome → (f a).Yields look view' seen' outcome')
    (failure : ∀ e, view (.error e) = outcome → seen' = [] ∧ view' (.error e) = outcome') :
    (h.bind f).Yields look view' (seen ++ seen') outcome' := by
  induction h generalizing seen with
  | answer result =>
    obtain ⟨rfl, same⟩ := first
    cases result with
    | ok a => exact second a same
    | error e => exact failure e same
  | emit chunk next ih =>
    obtain ⟨rest, seen_eq, others⟩ := first
    exact ⟨rest ++ seen', seen_eq.append_right seen', fun seed => ih _ (others seed)⟩
  | readNames next ih => exact fun fileName => ih fileName (first fileName)
  | readNotes next ih => exact fun notes => ih notes (first notes)
  | writeNotes notes next ih => exact ih first

/-- Two hooks in a row that emit nothing. -/
theorem Yields.bind_nil {h : Hook σ α} {f : α → Hook σ α'} (first : h.Yields look view [] outcome)
    (second : ∀ a, view (.ok a) = outcome → (f a).Yields look view' [] outcome')
    (failure : ∀ e, view (.error e) = outcome → view' (.error e) = outcome') :
    (h.bind f).Yields look view' [] outcome' :=
  first.bind second fun e same => ⟨rfl, failure e same⟩

/-- An answer that the hook may come to looks like its outcome. -/
theorem Yields.of_mayAnswer {h : Hook σ α} {given : List Emission} {a : α}
    (yields : h.Yields look view seen outcome)
    (minted : ∀ m ∈ given, ∃ seed, m.reference = Emitter.mint m.chunk seed)
    (answers : h.MayAnswer given a) : view (.ok a) = outcome := by
  induction answers generalizing seen with
  | answer => exact yields.2
  | @emit chunk reference _ _ mem _ ih =>
    obtain ⟨rest, _, others⟩ := yields
    obtain ⟨seed, same⟩ := minted _ mem
    have reference_eq : reference = Emitter.mint chunk seed := same
    exact ih (reference_eq ▸ others seed)
  | readNames fileName _ ih => exact ih (yields fileName)
  | readNotes notes _ ih => exact ih (yields notes)
  | writeNotes _ ih => exact ih yields

/-! ## Request by request -/

/-- What a request can be that owes what looks like `seen`: it emits nothing, or it emits one of
`seen`, and what is left `still` holds of the rest; or no reference is left for a chunk. -/
inductive Request (look : EmittedChunk → β) (s s' : Session σ) (seen : List β)
    (still : List β → Prop) (failed : Prop) : Prop
  | quiet : s'.emitter = s.emitter → still seen → Request look s s' seen still failed
  | emits {chunk : EmittedChunk} {reference : String} {rest : List β} :
    s.emitter.emit chunk = some (reference, s'.emitter) → seen.Perm (look chunk :: rest) →
    still rest → Request look s s' seen still failed
  | refused : Emitter.capacity ≤ s.emitter.size → s'.emitter = s.emitter → seen ≠ [] → failed →
    Request look s s' seen still failed

theorem Request.imp {s s' : Session σ} {still still' : List β → Prop} {failed failed' : Prop}
    (request : Request look s s' seen still failed) (next : ∀ rest, still rest → still' rest)
    (failure : failed → failed') : Request look s s' seen still' failed' := by
  cases request with
  | quiet same left => exact .quiet same (next _ left)
  | emits minted seen_eq left => exact .emits minted seen_eq (next _ left)
  | refused full same owing failing => exact .refused full same owing (failure failing)

theorem Yields.tick {h h' : Hook σ α} {s s' : Session σ}
    (yields : h.Yields look view seen outcome) (step : h.tick s = some (h', s')) :
    Request look s s' seen (fun rest => h'.Yields look view rest outcome)
      (∃ e, h' = .answer (.error e)) := by
  cases h with
  | answer result => cases step
  | emit chunk next =>
    obtain ⟨rest, seen_eq, others⟩ := yields
    rw [Hook.tick] at step
    split at step
    · rename_i none_left
      cases step
      have owing : seen ≠ [] := by
        rintro rfl
        exact List.not_perm_nil_cons _ _ seen_eq
      refine .refused (Nat.le_of_not_lt fun room => ?_) rfl owing ⟨_, rfl⟩
      obtain ⟨reference, after, minted⟩ := Emitter.exists_emit room chunk
      rw [minted] at none_left
      cases none_left
    · rename_i reference emitter minted
      cases step
      obtain ⟨seed, same⟩ := Emitter.minted_of_emit minted
      exact .emits minted seen_eq (same ▸ others seed)
  | readNames next =>
    cases step
    exact .quiet rfl (yields _)
  | readNotes next =>
    cases step
    exact .quiet rfl (yields _)
  | writeNotes notes next =>
    cases step
    exact .quiet rfl yields

/-- A hook that emits nothing stays one. -/
theorem Yields.tick_nil {h h' : Hook σ α} {s s' : Session σ}
    (yields : h.Yields look view [] outcome) (step : h.tick s = some (h', s')) :
    s'.emitter = s.emitter ∧ h'.Yields look view [] outcome := by
  cases yields.tick step with
  | quiet same still => exact ⟨same, still⟩
  | emits _ seen_eq _ => exact absurd seen_eq (List.not_perm_nil_cons _ _)
  | refused _ _ owing _ => exact absurd rfl owing

/-- Several hooks that take turns and emit nothing. -/
theorem yields_of_tickOne (target : κ → γ) {jobs jobs' : List (κ × Hook σ α)} {s s' : Session σ}
    (yields : ∀ job ∈ jobs, job.2.Yields look view [] (target job.1))
    (step : TickOne jobs s jobs' s') :
    jobs'.map Prod.fst = jobs.map Prod.fst ∧ s'.emitter = s.emitter ∧
      ∀ job ∈ jobs', job.2.Yields look view [] (target job.1) := by
  cases step with
  | tick ticks =>
    obtain ⟨same, still⟩ :=
      (yields _ (List.mem_append_right _ List.mem_cons_self)).tick_nil ticks
    refine ⟨by simp, same, ?_⟩
    intro job mem
    rcases eq_or_mem_of_mem_replaced mem with rfl | old
    · exact still
    · exact yields job old

end Hook

end WorkerBundler
