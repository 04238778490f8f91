import WorkerBundler.Text.Utf8

/-!
# Digests

A digest takes in one word at a time: it is rotated by five bits, combined with the word and
multiplied by an odd constant. Digests name chunks by their content and mint references; `digits`
writes a digest in a base with a fixed number of digits.
-/

namespace WorkerBundler

/-- The state after the words taken in so far. -/
structure Digest where
  word : UInt64
  deriving DecidableEq, Repr

namespace Digest

/-- The digest of nothing. -/
def empty : Digest := ⟨0⟩

/-- The odd factor of each step. -/
def factor : UInt64 := 0x517cc1b727220a95

/-- The word with its upper five bits moved to the lower end. -/
def rotate (w : UInt64) : UInt64 := (w <<< 5) ||| (w >>> 59)

/-- Takes in a word. -/
def add (d : Digest) (w : UInt64) : Digest :=
  ⟨(rotate d.word ^^^ w) * factor⟩

/-- The word of up to eight bytes, the first one lowest. -/
def wordOf (bs : List UInt8) : UInt64 :=
  bs.foldr (fun b w => (w <<< 8) ||| b.toUInt64) 0

/-- Takes in fewer than eight bytes: four, two and one of them as far as they go. -/
def addTail (d : Digest) (bs : List UInt8) : Digest :=
  let (d, bs) := if 4 ≤ bs.length then (d.add (wordOf (bs.take 4)), bs.drop 4) else (d, bs)
  let (d, bs) := if 2 ≤ bs.length then (d.add (wordOf (bs.take 2)), bs.drop 2) else (d, bs)
  if 1 ≤ bs.length then d.add (wordOf (bs.take 1)) else d

/-- Takes in bytes, eight at a time. -/
def addBytes : Digest → List UInt8 → Digest
  | d, a :: b :: c :: e :: f :: g :: h :: i :: rest =>
    addBytes (d.add (wordOf [a, b, c, e, f, g, h, i])) rest
  | d, bs => d.addTail bs

/-- Takes in a text and a mark for its end. -/
def addText (d : Digest) (s : String) : Digest :=
  (d.addBytes (Text.bytes s.toList)).add 0xff

/-- Takes in whether there is a text, and the text. -/
def addText? (d : Digest) : Option String → Digest
  | none => d.add 0
  | some s => (d.add 1).addText s

/-- The lowest `count` digits of `n` in the base, the lowest one last. -/
def digits (base : Nat) : (count n : Nat) → List Nat
  | 0, _ => []
  | count + 1, n => digits base count (n / base) ++ [n % base]

/-- The digit below 36 as `0` to `9` and `a` to `z`. -/
def digitChar (n : Nat) : Char :=
  Char.ofNat (if n < 10 then 0x30 + n else 0x57 + n)

@[simp] theorem length_digits (base count n : Nat) : (digits base count n).length = count := by
  induction count generalizing n with
  | zero => rfl
  | succ count ih => simp [digits, ih]

theorem lt_of_mem_digits {base count n d : Nat} (positive : 0 < base)
    (mem : d ∈ digits base count n) : d < base := by
  induction count generalizing n with
  | zero => cases mem
  | succ count ih =>
    rw [digits] at mem
    rcases List.mem_append.1 mem with higher | lowest
    · exact ih higher
    · rw [List.mem_singleton.1 lowest]
      exact Nat.mod_lt _ positive

/-- The upper half of the digest of a text in eight hexadecimal digits. -/
def ofContent (content : String) : String :=
  let d := empty.addText content
  String.ofList ((digits 16 8 ((d.word >>> 32).toNat)).map digitChar)

end Digest

end WorkerBundler
