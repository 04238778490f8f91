import Mathlib.Logic.Function.Iterate

/-!
# Counted runs of a loop

`StopsAfter goesOn next start rounds last` says that a loop stops: it takes its state on by `next`
for as long as `goesOn` holds of it, and so comes from `start` to `last` in `rounds` rounds. Nothing
bounds the rounds beforehand, so a loop that runs for ever has no `rounds` and no `last`. Where
there are some they are the only ones (`StopsAfter.unique`), and they are told by the states that
follow from `start` (`stopsAfter_iff`).
-/

namespace WorkerBundler

variable {σ : Type} {goesOn : σ → Prop} {next : σ → σ} {start last last' : σ} {rounds rounds' : Nat}

/-- The loop stops in `last` after `rounds` rounds. -/
inductive StopsAfter (goesOn : σ → Prop) (next : σ → σ) :
    (start : σ) → (rounds : Nat) → (last : σ) → Prop
  | stop {s : σ} : ¬ goesOn s → StopsAfter goesOn next s 0 s
  | round {s last : σ} {rounds : Nat} :
    goesOn s → StopsAfter goesOn next (next s) rounds last →
    StopsAfter goesOn next s (rounds + 1) last

/-- The loop stops in one state only, after one number of rounds. -/
theorem StopsAfter.unique (h : StopsAfter goesOn next start rounds last)
    (h' : StopsAfter goesOn next start rounds' last') : rounds = rounds' ∧ last = last' := by
  induction h generalizing rounds' with
  | stop ends =>
    cases h' with
    | stop _ => exact ⟨rfl, rfl⟩
    | round goes _ => exact absurd goes ends
  | round goes _ ih =>
    cases h' with
    | stop ends => exact absurd goes ends
    | round _ rest =>
      obtain ⟨rfl, rfl⟩ := ih rest
      exact ⟨rfl, rfl⟩

/-- The loop passes through the states that follow from the first one, and stops at the first of
them that is not to be taken on. -/
theorem stopsAfter_iff : StopsAfter goesOn next start rounds last ↔
    last = next^[rounds] start ∧ ¬ goesOn last ∧ ∀ i < rounds, goesOn (next^[i] start) := by
  constructor
  · intro h
    induction h with
    | stop ends => exact ⟨rfl, ends, nofun⟩
    | round goes _ ih =>
      obtain ⟨reached, ends, passed⟩ := ih
      refine ⟨reached, ends, ?_⟩
      intro i before
      cases i with
      | zero => exact goes
      | succ i => exact passed i (Nat.lt_of_succ_lt_succ before)
  · rintro ⟨rfl, ends, passed⟩
    induction rounds generalizing start with
    | zero => exact .stop ends
    | succ rounds ih =>
      exact .round (passed 0 (Nat.succ_pos rounds))
        (ih ends fun i before => passed (i + 1) (Nat.succ_lt_succ before))

end WorkerBundler
