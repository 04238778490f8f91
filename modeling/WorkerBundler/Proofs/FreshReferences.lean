import Mathlib.Algebra.Group.Nat.Defs
import Mathlib.Data.List.Perm.Subperm
import WorkerBundler.Proofs.EmittedNames

/-!
# References that are free

A reference is the lowest base-36 digits of a digest whose last word is the seed. Taking in a last
word is a bijection of the word (`Digest.bijective_add`), so every reference is minted from some
seed (`Emitter.exists_mint_eq`); and since the seeds come round, the search for a free one meets
them all. Hence a chunk can be emitted as long as fewer than `Emitter.capacity` references are taken
(`Emitter.exists_emit`), and no more than that many are ever taken (`Emitter.length_le_capacity`).
-/

namespace WorkerBundler

namespace Digest

/-! ## The last word of a digest -/

/-- The number that undoes the factor of a step. -/
def inverseFactor : UInt64 := 0x2040003d780970bd

theorem inverseFactor_mul_factor : inverseFactor * factor = 1 := by
  decide

/-- Every word is a digest's after the right last word. -/
theorem exists_add_eq (d : Digest) (w : UInt64) : ∃ last, (d.add last).word = w := by
  refine ⟨rotate d.word ^^^ (w * inverseFactor), ?_⟩
  calc (rotate d.word ^^^ (rotate d.word ^^^ w * inverseFactor)) * factor
      = w * inverseFactor * factor := by
        rw [← UInt64.xor_assoc, UInt64.xor_self, UInt64.zero_xor]
    _ = w := by rw [UInt64.mul_assoc, inverseFactor_mul_factor, UInt64.mul_one]

/-- A digest tells its last word, and can have every word. -/
theorem bijective_add (d : Digest) : Function.Bijective fun last => (d.add last).word := by
  refine ⟨?_, d.exists_add_eq⟩
  intro a b same
  have undone : ∀ x, (d.add x).word * inverseFactor = rotate d.word ^^^ x := by
    intro x
    show (rotate d.word ^^^ x) * factor * inverseFactor = _
    rw [UInt64.mul_assoc, UInt64.mul_comm factor, inverseFactor_mul_factor, UInt64.mul_one]
  have mixed : rotate d.word ^^^ a = rotate d.word ^^^ b := by
    rw [← undone, ← undone]
    exact congrArg (· * inverseFactor) same
  exact (UInt64.xor_right_inj _).1 mixed

/-! ## Digits -/

theorem digits_mod (base count n : Nat) : digits base count (n % base ^ count) =
    digits base count n := by
  induction count generalizing n with
  | zero => rfl
  | succ count ih =>
    have higher : n % base ^ (count + 1) / base = n / base % base ^ count := by
      rw [Nat.pow_succ', Nat.mod_mul_right_div_self]
    have lowest : n % base ^ (count + 1) % base = n % base :=
      Nat.mod_mod_of_dvd n ⟨base ^ count, Nat.pow_succ'⟩
    rw [digits, digits, higher, lowest, ih]

/-- Numbers that fit into their digits are told apart by them. -/
theorem digits_inj {base count n m : Nat} (fits : n < base ^ count) (fits' : m < base ^ count)
    (same : digits base count n = digits base count m) : n = m := by
  induction count generalizing n m with
  | zero =>
    rw [Nat.pow_zero, Nat.lt_one_iff] at fits fits'
    rw [fits, fits']
  | succ count ih =>
    obtain ⟨higher, lowest⟩ := List.append_inj' same rfl
    have quotients : n / base = m / base := by
      apply ih _ _ higher
      · exact Nat.div_lt_of_lt_mul (Nat.pow_succ' ▸ fits)
      · exact Nat.div_lt_of_lt_mul (Nat.pow_succ' ▸ fits')
    rw [← Nat.div_add_mod n base, ← Nat.div_add_mod m base, quotients,
      List.singleton_inj.1 lowest]

theorem digitChar_inj : ∀ a < 36, ∀ b < 36, digitChar a = digitChar b → a = b := by
  decide

theorem map_digitChar_inj {as bs : List Nat} (small : ∀ a ∈ as, a < 36) (small' : ∀ b ∈ bs, b < 36)
    (same : as.map digitChar = bs.map digitChar) : as = bs := by
  induction as generalizing bs with
  | nil => exact (List.map_eq_nil_iff.1 same.symm).symm
  | cons a as ih =>
    cases bs with
    | nil => cases same
    | cons b bs =>
      obtain ⟨first, others⟩ := List.cons.inj same
      rw [digitChar_inj a (small a List.mem_cons_self) b (small' b List.mem_cons_self) first,
        ih (fun x mem => small x (List.mem_cons_of_mem a mem))
          (fun x mem => small' x (List.mem_cons_of_mem b mem)) others]

end Digest

namespace Emitter

/-! ## All references -/

/-- The number of references. -/
def capacity : Nat := 36 ^ referenceLength

/-- The reference of a number below the capacity. -/
def numbered (n : Nat) : String :=
  String.ofList ((Digest.digits 36 referenceLength n).map Digest.digitChar)

theorem numbered_inj {n m : Nat} (fits : n < capacity) (fits' : m < capacity)
    (same : numbered n = numbered m) : n = m := by
  apply Digest.digits_inj fits fits'
  refine Digest.map_digitChar_inj ?_ ?_ (String.ofList_injective same)
  · exact fun _ => Digest.lt_of_mem_digits (by decide)
  · exact fun _ => Digest.lt_of_mem_digits (by decide)

/-- The word whose lowest digits are the reference of the chunk under the seed. -/
def mintWord (chunk : EmittedChunk) (seed : UInt64) : UInt64 :=
  (((Digest.empty.addText chunk.id).addText? chunk.importer).add seed).word

theorem mint_eq_numbered (chunk : EmittedChunk) (seed : UInt64) :
    mint chunk seed = numbered ((mintWord chunk seed).toNat % capacity) := by
  rw [numbered, capacity, Digest.digits_mod]
  rfl

/-- The word tells the seed, and every word has one. -/
theorem bijective_mintWord (chunk : EmittedChunk) : Function.Bijective (mintWord chunk) :=
  Digest.bijective_add _

/-- A chunk can get every reference. -/
theorem exists_mint_eq (chunk : EmittedChunk) {n : Nat} (fits : n < capacity) :
    ∃ seed, mint chunk seed = numbered n := by
  obtain ⟨seed, word⟩ := (bijective_mintWord chunk).2 (UInt64.ofNat n)
  have same : (mintWord chunk seed).toNat = n := by
    rw [word, UInt64.toNat_ofNat_of_lt' (Nat.lt_trans fits (by decide))]
  exact ⟨seed, by rw [mint_eq_numbered, same, Nat.mod_eq_of_lt fits]⟩

/-- All references, each of them once. -/
def references : List String := (List.range capacity).map numbered

theorem nodup_references : references.Nodup := by
  apply List.Nodup.map_on _ List.nodup_range
  intro n mem m mem' same
  exact numbered_inj (List.mem_range.1 mem) (List.mem_range.1 mem') same

theorem length_references : references.length = capacity := by
  rw [references, List.length_map, List.length_range]

theorem mint_mem_references (chunk : EmittedChunk) (seed : UInt64) :
    mint chunk seed ∈ references := by
  rw [mint_eq_numbered]
  exact List.mem_map_of_mem (List.mem_range.2 (Nat.mod_lt _ (by decide)))

/-! ## The search for a free one -/

variable {e : Emitter} {chunk : EmittedChunk}

theorem taken_of_freshFrom_none {taken : String → Bool} {fuel : Nat} {seed : UInt64}
    (h : freshFrom taken chunk fuel seed = none) :
    ∀ i < fuel, taken (mint chunk (seed + UInt64.ofNat i)) = true := by
  induction fuel generalizing seed with
  | zero => nofun
  | succ fuel ih =>
    rw [freshFrom] at h
    split at h
    · rename_i first
      intro i below
      cases i with
      | zero => simpa using first
      | succ i =>
        have later := ih h i (Nat.lt_of_succ_lt_succ below)
        have next : seed + 1 + UInt64.ofNat i = seed + UInt64.ofNat (i + 1) := by
          rw [UInt64.ofNat_add, UInt64.add_assoc, UInt64.add_comm 1]
          rfl
        rwa [next] at later
    · cases h

/-- Where no reference is found, every one that the chunk can get is taken. -/
theorem taken_of_emit_none (h : e.emit chunk = none) (seed : UInt64) :
    e.isTaken (mint chunk seed) = true := by
  have searched : freshFrom e.isTaken chunk UInt64.size e.seed = none := Option.map_eq_none_iff.1 h
  have met := taken_of_freshFrom_none searched (seed - e.seed).toNat (seed - e.seed).toNat_lt
  rwa [UInt64.ofNat_toNat, UInt64.add_comm, UInt64.sub_add_cancel] at met

/-- **A chunk can be emitted while a reference is left.** -/
theorem exists_emit (room : e.size < capacity) (chunk : EmittedChunk) :
    ∃ reference after, e.emit chunk = some (reference, after) := by
  rcases minted : e.emit chunk with _ | ⟨reference, after⟩
  · exfalso
    have taken : references ⊆ e.emissions.map Emission.reference := by
      intro reference mem
      obtain ⟨n, fits, rfl⟩ := List.mem_map.1 mem
      obtain ⟨seed, same⟩ := exists_mint_eq chunk (List.mem_range.1 fits)
      exact isTaken_iff.1 (same ▸ taken_of_emit_none minted seed)
    have bound := (List.subperm_of_subset nodup_references taken).length_le
    rw [length_references, List.length_map] at bound
    exact Nat.not_lt.2 bound room
  · exact ⟨reference, after, rfl⟩

/-- No more references are taken than there are. -/
theorem length_le_capacity (distinct : (e.emissions.map Emission.reference).Nodup)
    (minted : ∀ m ∈ e.emissions, ∃ seed, m.reference = mint m.chunk seed) :
    e.emissions.length ≤ capacity := by
  have known : e.emissions.map Emission.reference ⊆ references := by
    intro reference mem
    obtain ⟨m, emitted, rfl⟩ := List.mem_map.1 mem
    obtain ⟨seed, same⟩ := minted m emitted
    exact same ▸ mint_mem_references m.chunk seed
  have bound := (List.subperm_of_subset distinct known).length_le
  rwa [length_references, List.length_map] at bound

end Emitter

end WorkerBundler
