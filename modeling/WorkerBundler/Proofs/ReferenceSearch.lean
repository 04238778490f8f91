import Mathlib.Algebra.Order.BigOperators.Group.Finset
import WorkerBundler.Proofs.CountedLoops
import WorkerBundler.Proofs.EmitterCalls

/-!
# The search for a free reference stops

A chunk gets the first reference from the emitter's seed on that is not taken. That search is a loop
over seeds without a bound of its own: `Emitter.Searches` is its run, and emitting a chunk succeeds
exactly if it stops (`Emitter.emit_eq_some_iff`), so that trying each seed once is no limit.

It stops while fewer references are taken than there are (`Emitter.stops_of_room`). The last word of
a digest is the seed, and taking it in is a bijection (`Digest.bijective_add`); the digits of a word
are those of its remainder, and every reference is written with digits (`Emitter.minted_iff`). So
each reference comes from a fixed share of the seeds, and no more than that share is lost to one
that is taken (`Emitter.card_seeds_le`).
-/

namespace WorkerBundler

namespace Digest

/-! ## Written digits -/

/-- Every row of digits is written by a number that fits into them. -/
theorem exists_digits_eq {base : Nat} {ds : List Nat} (small : ∀ d ∈ ds, d < base) :
    ∃ n < base ^ ds.length, digits base ds.length n = ds := by
  induction ds using List.reverseRecOn with
  | nil => exact ⟨0, Nat.one_pos, rfl⟩
  | append_singleton ds d ih =>
    obtain ⟨n, fits, written⟩ := ih fun x mem => small x (List.mem_append_left _ mem)
    have last : d < base := small d (List.mem_append_right _ List.mem_cons_self)
    refine ⟨base * n + d, ?_, ?_⟩
    · calc base * n + d
        _ < base * (n + 1) := Nat.add_lt_add_left last _
        _ ≤ base * base ^ ds.length := Nat.mul_le_mul_left _ fits
        _ = base ^ (ds ++ [d]).length := by
          rw [List.length_append, List.length_singleton, Nat.pow_succ']
    · have quotient : (base * n + d) / base = n := by
        rw [Nat.mul_add_div (Nat.zero_lt_of_lt last), Nat.div_eq_of_lt last, Nat.add_zero]
      have remainder : (base * n + d) % base = d := by
        rw [Nat.mul_add_mod, Nat.mod_eq_of_lt last]
      rw [List.length_append, List.length_singleton, digits, quotient, remainder, written]

end Digest

namespace Emitter

variable {e after : Emitter} {chunk : EmittedChunk} {reference : String} {seed seed' last : UInt64}
  {rounds : Nat} {taken : String → Bool}

/-! ## All references are minted -/

theorem exists_digitChar_eq {c : Char} (h : isReferenceChar c = true) :
    ∃ d < 36, Digest.digitChar d = c := by
  rw [isReferenceChar, Bool.or_eq_true, Bool.and_eq_true, Bool.and_eq_true, decide_eq_true_iff,
    decide_eq_true_iff, decide_eq_true_iff, decide_eq_true_iff] at h
  rcases h with ⟨lower, upper⟩ | ⟨lower, upper⟩
  · have from_zero : 0x30 ≤ c.toNat := lower
    have to_nine : c.toNat ≤ 0x39 := upper
    refine ⟨c.toNat - 0x30, by omega, ?_⟩
    rw [Digest.digitChar, if_pos (by omega), Nat.add_sub_cancel' from_zero, Char.ofNat_toNat]
  · have from_a : 0x61 ≤ c.toNat := lower
    have to_z : c.toNat ≤ 0x7a := upper
    refine ⟨c.toNat - 0x57, by omega, ?_⟩
    rw [Digest.digitChar, if_neg (by omega), Nat.add_sub_cancel' (by omega), Char.ofNat_toNat]

/-- Every row of small letters and digits is a row of written digits. -/
theorem exists_map_digitChar_eq {cs : List Char} (each : ∀ c ∈ cs, isReferenceChar c = true) :
    ∃ ds : List Nat, (∀ d ∈ ds, d < 36) ∧ ds.map Digest.digitChar = cs := by
  induction cs with
  | nil => exact ⟨[], nofun, rfl⟩
  | cons c cs ih =>
    obtain ⟨d, small, first⟩ := exists_digitChar_eq (each c List.mem_cons_self)
    obtain ⟨ds, others, rest⟩ := ih fun x mem => each x (List.mem_cons_of_mem _ mem)
    exact ⟨d :: ds, List.forall_mem_cons.2 ⟨small, others⟩, by rw [List.map_cons, first, rest]⟩

/-- A chunk gets exactly the texts of eight small letters and digits as references. -/
theorem minted_iff : (∃ seed, mint chunk seed = reference) ↔
    reference.length = 8 ∧ ∀ c ∈ reference.toList, isReferenceChar c = true := by
  constructor
  · rintro ⟨seed, rfl⟩
    exact shape_mint chunk seed
  · rintro ⟨length, chars⟩
    obtain ⟨ds, small, written⟩ := exists_map_digitChar_eq chars
    obtain ⟨n, fits, digits⟩ := Digest.exists_digits_eq small
    have count : ds.length = referenceLength := by
      rw [← List.length_map Digest.digitChar, written]
      exact length
    rw [count] at fits digits
    obtain ⟨seed, minted⟩ := exists_mint_eq chunk fits
    exact ⟨seed, by rw [minted, numbered, digits, written, String.ofList_toList]⟩

/-! ## The share of the seeds behind a reference -/

/-- The most seeds that one reference is minted from. -/
def seedShare : Nat := UInt64.size / capacity + 1

/-- The reference is the remainder of the word, so the quotient tells the seeds behind it apart. -/
theorem eq_of_mint_eq (references : mint chunk seed = mint chunk seed')
    (quotients : (mintWord chunk seed).toNat / capacity = (mintWord chunk seed').toNat / capacity) :
    seed = seed' := by
  have remainders : (mintWord chunk seed).toNat % capacity =
      (mintWord chunk seed').toNat % capacity := by
    apply numbered_inj (Nat.mod_lt _ (by decide)) (Nat.mod_lt _ (by decide))
    rw [← mint_eq_numbered, ← mint_eq_numbered, references]
  have words : (mintWord chunk seed).toNat = (mintWord chunk seed').toNat := by
    rw [← Nat.div_add_mod (mintWord chunk seed).toNat capacity, quotients, remainders,
      Nat.div_add_mod]
  exact (bijective_mintWord chunk).1 (UInt64.toNat_inj.1 words)

/-- Of the seeds from one on, no two of which are equal, few give the same reference. -/
theorem card_seeds_le (chunk : EmittedChunk) (seed : UInt64) (reference : String) {n : Nat}
    (fits : n ≤ UInt64.size) :
    ((Finset.range n).filter fun i => mint chunk (seed + UInt64.ofNat i) = reference).card ≤
      seedShare := by
  calc ((Finset.range n).filter fun i => mint chunk (seed + UInt64.ofNat i) = reference).card
    _ ≤ (Finset.range seedShare).card := ?_
    _ = seedShare := Finset.card_range _
  refine Finset.card_le_card_of_injOn
    (fun i => (mintWord chunk (seed + UInt64.ofNat i)).toNat / capacity) ?_ ?_
  · intro i _
    exact Finset.mem_coe.2 (Finset.mem_range.2 (Nat.lt_succ_of_le
      (Nat.div_le_div_right (Nat.le_of_lt (UInt64.toNat_lt_size _)))))
  · intro i mem j mem' quotients
    obtain ⟨below, here⟩ := Finset.mem_filter.1 (Finset.mem_coe.1 mem)
    obtain ⟨below', here'⟩ := Finset.mem_filter.1 (Finset.mem_coe.1 mem')
    have seeds := eq_of_mint_eq (here.trans here'.symm) quotients
    have places := congrArg UInt64.toNat ((UInt64.add_right_inj seed).1 seeds)
    rwa [UInt64.toNat_ofNat_of_lt' (Nat.lt_of_lt_of_le (Finset.mem_range.1 below) fits),
      UInt64.toNat_ofNat_of_lt' (Nat.lt_of_lt_of_le (Finset.mem_range.1 below') fits)] at places

example : seedShare = 6538826 := by decide

/-! ## The loop -/

/-- The search from a seed stops at the last one, the first with a reference that is not taken. -/
abbrev Searches (taken : String → Bool) (chunk : EmittedChunk) :
    (seed : UInt64) → (rounds : Nat) → (last : UInt64) → Prop :=
  StopsAfter (fun seed => taken (mint chunk seed) = true) (· + 1)

theorem iterate_add_one (seed : UInt64) (n : Nat) :
    (· + 1)^[n] seed = seed + UInt64.ofNat n := by
  induction n generalizing seed with
  | zero => exact (UInt64.add_zero seed).symm
  | succ n ih =>
    rw [Function.iterate_succ_apply, ih, UInt64.ofNat_add, UInt64.add_assoc, UInt64.add_comm 1]
    rfl

/-- A search meets each seed once at most. -/
theorem lt_of_searches (h : Searches taken chunk seed rounds last) : rounds < UInt64.size := by
  obtain ⟨reached, free, passed⟩ := stopsAfter_iff.1 h
  by_contra long
  obtain ⟨more, rfl⟩ := Nat.exists_eq_add_of_le' (Nat.not_lt.1 long)
  -- the seeds come round, so the last one was met before
  have again : (· + 1)^[more] seed = last := by
    rw [reached, iterate_add_one, iterate_add_one, UInt64.ofNat_add]
    exact congrArg (seed + ·) (UInt64.add_zero _).symm
  exact free (again ▸ passed more (Nat.lt_add_of_pos_right (by decide)))

/-- Trying a number of seeds finds what the search does that stops within them. -/
theorem freshFrom_eq_some_iff {fuel : Nat} {next : UInt64} :
    freshFrom taken chunk fuel seed = some (reference, next) ↔
      ∃ rounds < fuel, ∃ last, Searches taken chunk seed rounds last ∧
        reference = mint chunk last ∧ next = last + 1 := by
  induction fuel generalizing seed with
  | zero => exact ⟨nofun, fun ⟨_, bound, _⟩ => absurd bound (Nat.not_lt_zero _)⟩
  | succ fuel ih =>
    rw [freshFrom]
    by_cases goes : taken (mint chunk seed) = true
    · rw [if_pos goes, ih]
      constructor
      · rintro ⟨rounds, bound, last, rest, found⟩
        exact ⟨rounds + 1, Nat.succ_lt_succ bound, last, .round goes rest, found⟩
      · rintro ⟨rounds, bound, last, search, found⟩
        cases search with
        | stop free => exact absurd goes free
        | round _ rest => exact ⟨_, Nat.lt_of_succ_lt_succ bound, last, rest, found⟩
    · rw [if_neg goes]
      constructor
      · intro here
        obtain ⟨rfl, rfl⟩ := Prod.mk.inj (Option.some.inj here)
        exact ⟨0, Nat.succ_pos fuel, seed, .stop goes, rfl, rfl⟩
      · rintro ⟨rounds, bound, last, search, rfl, rfl⟩
        cases search with
        | stop _ => rfl
        | round taken _ => exact absurd taken goes

/-- **A chunk is emitted exactly if the search stops**, under the reference that it stops at. -/
theorem emit_eq_some_iff : e.emit chunk = some (reference, after) ↔
    ∃ rounds last, Searches e.isTaken chunk e.seed rounds last ∧ reference = mint chunk last ∧
      after = ⟨e.emissions ++ [⟨reference, chunk, none⟩], e.drained, last + 1⟩ := by
  rw [emit, Option.map_eq_some_iff]
  constructor
  · rintro ⟨⟨fresh, next⟩, tried, same⟩
    obtain ⟨rfl, rfl⟩ := Prod.mk.inj same
    obtain ⟨rounds, _, last, search, rfl, rfl⟩ := freshFrom_eq_some_iff.1 tried
    exact ⟨rounds, last, search, rfl, rfl⟩
  · rintro ⟨rounds, last, search, rfl, rfl⟩
    exact ⟨(mint chunk last, last + 1),
      freshFrom_eq_some_iff.2 ⟨rounds, lt_of_searches search, last, search, rfl, rfl⟩, rfl⟩

/-- A search passes over the share of each taken reference at most. -/
theorem rounds_le_of_searches (h : Searches e.isTaken chunk e.seed rounds last) :
    rounds ≤ seedShare * e.size := by
  obtain ⟨_, _, passed⟩ := stopsAfter_iff.1 h
  let references := (e.emissions.map Emission.reference).toFinset
  have taken : ∀ i ∈ Finset.range rounds, mint chunk (e.seed + UInt64.ofNat i) ∈ references := by
    intro i mem
    have met := passed i (Finset.mem_range.1 mem)
    rw [iterate_add_one] at met
    exact List.mem_toFinset.2 (isTaken_iff.1 met)
  calc rounds
    _ = (Finset.range rounds).card := (Finset.card_range rounds).symm
    _ ≤ seedShare * references.card := Finset.card_le_mul_card_image_of_maps_to taken seedShare
        fun reference _ => card_seeds_le chunk e.seed reference (Nat.le_of_lt (lt_of_searches h))
    _ ≤ seedShare * e.size := by
        apply Nat.mul_le_mul_left
        exact (List.toFinset_card_le _).trans (List.length_map _).le

/-- **The search for a free reference stops while one is left**, whatever the seed: it passes over
the share of each taken reference at most, and the chunk is emitted under one that was not taken.
For the last step of a digest is a bijection of the seed, and the chunk can get every text of eight
small letters and digits. -/
theorem stops_of_room (room : e.size < 36 ^ 8) (chunk : EmittedChunk) :
    (∃ rounds last after,
      Searches e.isTaken chunk e.seed rounds last ∧ rounds ≤ seedShare * e.size ∧
        e.emit chunk = some (mint chunk last, after) ∧
        mint chunk last ∉ e.emissions.map Emission.reference) ∧
      Function.Bijective (mintWord chunk) ∧
      ∀ reference : String, (∃ seed, mint chunk seed = reference) ↔
        reference.length = 8 ∧ ∀ c ∈ reference.toList, isReferenceChar c = true := by
  refine ⟨?_, bijective_mintWord chunk, fun _ => minted_iff⟩
  obtain ⟨reference, after, minted⟩ := exists_emit room chunk
  obtain ⟨rounds, last, search, rfl, _⟩ := emit_eq_some_iff.1 minted
  refine ⟨rounds, last, after, search, rounds_le_of_searches search, minted, ?_⟩
  intro taken
  rw [← isTaken_iff, (emissions_of_emit minted).2] at taken
  cases taken

/-! ## A search that comes round -/

def taskChunk : EmittedChunk := ⟨"./task.js", some "/a.js", none⟩

/-- An emitter at the last seed, with the reference that this seed gives. -/
def fullTurn : Emitter := ⟨[⟨"w98tv9zq", taskChunk, none⟩], 1, 0xffffffffffffffff⟩

/-- The reference of the last seed is taken, so the search goes on with the first seed. -/
theorem stops_fullTurn : fullTurn.size < 36 ^ 8 ∧ ∃ rounds last after,
    Searches fullTurn.isTaken taskChunk fullTurn.seed rounds last ∧ rounds = 1 ∧ last = 0 ∧
      fullTurn.emit taskChunk = some ("ifj0fo5x", after) ∧
      "ifj0fo5x" ∉ fullTurn.emissions.map Emission.reference := by
  have room : fullTurn.size < 36 ^ 8 := by decide
  obtain ⟨⟨rounds, last, after, search, _, minted, free⟩, _⟩ := stops_of_room room taskChunk
  have round : Searches fullTurn.isTaken taskChunk fullTurn.seed 1 0 :=
    .round (by decide) (.stop (by decide))
  obtain ⟨rfl, rfl⟩ := search.unique round
  have reference : mint taskChunk 0 = "ifj0fo5x" := by decide
  rw [reference] at minted free
  exact ⟨room, 1, 0, after, search, rfl, rfl, minted, free⟩

end Emitter

end WorkerBundler
