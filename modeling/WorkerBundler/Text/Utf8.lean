/-!
# UTF-8 with replacement

`bytes` gives the UTF-8 form of a text. `decodeLossy` reads bytes back (`decodeLossy_bytes`): what
is no UTF-8 becomes U+FFFD, one for each longest broken start of a character.
-/

namespace WorkerBundler.Text

/-- The UTF-8 form of a text. -/
def bytes (cs : List Char) : List UInt8 :=
  cs.flatMap String.utf8EncodeChar

@[simp] theorem bytes_nil : bytes [] = [] := rfl

@[simp] theorem bytes_cons (c : Char) (cs : List Char) :
    bytes (c :: cs) = String.utf8EncodeChar c ++ bytes cs := by
  simp [bytes]

@[simp] theorem bytes_append (a b : List Char) : bytes (a ++ b) = bytes a ++ bytes b := by
  simp [bytes]

/-- The character that stands for bytes that are no UTF-8. -/
def replacement : Char := '\uFFFD'

/-- What the first byte of a character announces. `low` and `high` bound the second byte. -/
inductive LeadByte where
  | single
  | two
  | three (low high : Nat)
  | four (low high : Nat)
  | broken
  deriving DecidableEq, Repr

/-- The meaning of a byte that stands at the start of a character. -/
def leadByte (n : Nat) : LeadByte :=
  if n < 0x80 then .single
  else if n < 0xC2 then .broken
  else if n < 0xE0 then .two
  else if n = 0xE0 then .three 0xA0 0xBF
  else if n = 0xED then .three 0x80 0x9F
  else if n < 0xF0 then .three 0x80 0xBF
  else if n = 0xF0 then .four 0x90 0xBF
  else if n < 0xF4 then .four 0x80 0xBF
  else if n = 0xF4 then .four 0x80 0x8F
  else .broken

/-- Whether the byte lies between `low` and `high`. -/
def within (low high : Nat) (b : UInt8) : Bool :=
  low ≤ b.toNat && b.toNat ≤ high

/-- Whether the byte continues a character. -/
def isTail (b : UInt8) : Bool := within 0x80 0xBF b

/-- The character that starts with the byte `a`, and how many of the bytes after it belong to it. A
broken character takes the bytes that were still right. -/
def readChar (a : UInt8) (rest : List UInt8) : Char × Nat :=
  match leadByte a.toNat, rest with
  | .single, _ => (Char.ofNat a.toNat, 0)
  | .two, b :: _ =>
    if isTail b then (Char.ofNat (a.toNat % 0x20 * 0x40 + b.toNat % 0x40), 1)
    else (replacement, 0)
  | .three low high, b :: c :: _ =>
    if !within low high b then (replacement, 0)
    else if !isTail c then (replacement, 1)
    else
      (Char.ofNat (a.toNat % 0x10 * 0x1000 + b.toNat % 0x40 * 0x40 + c.toNat % 0x40), 2)
  | .four low high, b :: c :: d :: _ =>
    if !within low high b then (replacement, 0)
    else if !isTail c then (replacement, 1)
    else if !isTail d then (replacement, 2)
    else
      (Char.ofNat (a.toNat % 0x08 * 0x40000 + b.toNat % 0x40 * 0x1000 +
        c.toNat % 0x40 * 0x40 + d.toNat % 0x40), 3)
  | .three low high, [b] => (replacement, if within low high b then 1 else 0)
  | .four low high, [b] => (replacement, if within low high b then 1 else 0)
  | .four low high, [b, c] =>
    (replacement, if !within low high b then 0 else if isTail c then 2 else 1)
  | _, _ => (replacement, 0)

/-- Reads UTF-8 after `skip` more bytes of a character that has been read. -/
def decodeFrom : (skip : Nat) → List UInt8 → List Char
  | _, [] => []
  | skip + 1, _ :: rest => decodeFrom skip rest
  | 0, a :: rest =>
    let read := readChar a rest
    read.1 :: decodeFrom read.2 rest

/-- Reads UTF-8; each longest broken start of a character gives one U+FFFD. -/
def decodeLossy (bs : List UInt8) : List Char :=
  decodeFrom 0 bs

/-! ## Reading what was written -/

theorem decodeFrom_eq_drop (skip : Nat) (bs : List UInt8) :
    decodeFrom skip bs = decodeLossy (bs.drop skip) := by
  induction bs generalizing skip with
  | nil => cases skip <;> rfl
  | cons b bs ih =>
    cases skip with
    | zero => rfl
    | succ skip => rw [decodeFrom, ih, List.drop_succ_cons]

theorem decodeLossy_cons (a : UInt8) (rest : List UInt8) :
    decodeLossy (a :: rest) =
      (readChar a rest).1 :: decodeLossy (rest.drop (readChar a rest).2) := by
  rw [← decodeFrom_eq_drop]
  rfl

theorem leadByte_of_lt {n : Nat} (h : n < 0x80) : leadByte n = .single := by
  simp [leadByte, h]

theorem leadByte_two {n : Nat} (low : 0xC2 ≤ n) (high : n < 0xE0) : leadByte n = .two := by
  simp only [leadByte]
  rw [if_neg (by omega), if_neg (by omega), if_pos high]

/-- The second byte of a three-byte character lies in the range that the first one announces. -/
theorem leadByte_three {n b : Nat} (low : 0xE0 ≤ n) (high : n < 0xF0)
    (notShort : n = 0xE0 → 0xA0 ≤ b) (notHalf : n = 0xED → b ≤ 0x9F) (tail : 0x80 ≤ b ∧ b ≤ 0xBF) :
    ∃ lo hi, leadByte n = .three lo hi ∧ lo ≤ b ∧ b ≤ hi := by
  simp only [leadByte]
  rw [if_neg (by omega), if_neg (by omega), if_neg (by omega)]
  by_cases first : n = 0xE0
  · exact ⟨_, _, by rw [if_pos first], notShort first, tail.2⟩
  · rw [if_neg first]
    by_cases half : n = 0xED
    · exact ⟨_, _, by rw [if_pos half], tail.1, notHalf half⟩
    · exact ⟨_, _, by rw [if_neg half, if_pos high], tail⟩

theorem leadByte_four {n b : Nat} (low : 0xF0 ≤ n) (high : n ≤ 0xF4)
    (notShort : n = 0xF0 → 0x90 ≤ b) (notBeyond : n = 0xF4 → b ≤ 0x8F)
    (tail : 0x80 ≤ b ∧ b ≤ 0xBF) :
    ∃ lo hi, leadByte n = .four lo hi ∧ lo ≤ b ∧ b ≤ hi := by
  simp only [leadByte]
  rw [if_neg (by omega), if_neg (by omega), if_neg (by omega), if_neg (by omega),
    if_neg (by omega), if_neg (by omega)]
  by_cases first : n = 0xF0
  · exact ⟨_, _, by rw [if_pos first], notShort first, tail.2⟩
  · rw [if_neg first]
    by_cases last : n = 0xF4
    · exact ⟨_, _, by rw [if_neg (by omega), if_pos last], tail.1, notBeyond last⟩
    · exact ⟨_, _, by rw [if_pos (by omega)], tail⟩

theorem toNat_ofNat_of_lt {n : Nat} (h : n < 256) : (UInt8.ofNat n).toNat = n := by
  rw [UInt8.toNat_ofNat']
  exact Nat.mod_eq_of_lt h

theorem isTail_ofNat {n : Nat} (h : n < 0x40) : isTail (UInt8.ofNat (n + 0x80)) = true := by
  simp only [isTail, within, Bool.and_eq_true, decide_eq_true_eq]
  rw [toNat_ofNat_of_lt (by omega)]
  omega

theorem within_ofNat {low high n : Nat} (bound : n < 256) (above : low ≤ n) (below : n ≤ high) :
    within low high (UInt8.ofNat n) = true := by
  simp only [within, Bool.and_eq_true, decide_eq_true_eq]
  rw [toNat_ofNat_of_lt bound]
  exact ⟨above, below⟩

/-- Reading gives back a written character. -/
theorem decodeLossy_utf8EncodeChar (c : Char) (rest : List UInt8) :
    decodeLossy (String.utf8EncodeChar c ++ rest) = c :: decodeLossy rest := by
  have valid : c.toNat < 0xD800 ∨ 0xDFFF < c.toNat ∧ c.toNat < 0x110000 := c.valid
  have back {n : Nat} (h : n = c.toNat) : Char.ofNat n = c := by rw [h, Char.ofNat_toNat]
  have value : c.val.toNat = c.toNat := rfl
  have tail (n : Nat) : isTail (UInt8.ofNat (n % 64 + 128)) = true :=
    isTail_ofNat (Nat.mod_lt n (by decide))
  simp only [String.utf8EncodeChar, value]
  split
  · rename_i one
    rw [List.singleton_append, decodeLossy_cons, readChar.eq_def]
    rw [toNat_ofNat_of_lt (by omega), leadByte_of_lt (by omega)]
    simp [back rfl]
  · split
    · rename_i two
      rw [List.cons_append, List.singleton_append, decodeLossy_cons, readChar.eq_def]
      rw [toNat_ofNat_of_lt (by omega), leadByte_two (by omega) (by omega)]
      simp only [tail, if_true, List.drop_succ_cons, List.drop_zero]
      rw [toNat_ofNat_of_lt (by omega), back (by omega)]
    · split
      · rename_i three
        obtain ⟨lo, hi, lead, above, below⟩ :=
          @leadByte_three (c.toNat / 4096 % 16 + 224) (c.toNat / 64 % 64 + 128)
            (by omega) (by omega) (by omega) (by omega) (by omega)
        rw [List.cons_append, List.cons_append, List.singleton_append, decodeLossy_cons,
          readChar.eq_def]
        rw [toNat_ofNat_of_lt (by omega), lead]
        simp only [within_ofNat (by omega) above below, tail, Bool.not_true, Bool.false_eq_true,
          if_false, List.drop_succ_cons, List.drop_zero]
        rw [toNat_ofNat_of_lt (by omega), toNat_ofNat_of_lt (by omega), back (by omega)]
      · rename_i four
        obtain ⟨lo, hi, lead, above, below⟩ :=
          @leadByte_four (c.toNat / 262144 % 8 + 240) (c.toNat / 4096 % 64 + 128)
            (by omega) (by omega) (by omega) (by omega) (by omega)
        rw [List.cons_append, List.cons_append, List.cons_append, List.singleton_append,
          decodeLossy_cons, readChar.eq_def]
        rw [toNat_ofNat_of_lt (by omega), lead]
        simp only [within_ofNat (by omega) above below, tail, Bool.not_true, Bool.false_eq_true,
          if_false, List.drop_succ_cons, List.drop_zero]
        rw [toNat_ofNat_of_lt (by omega), toNat_ofNat_of_lt (by omega),
          toNat_ofNat_of_lt (by omega), back (by omega)]

/-- Reading gives back a written text. -/
theorem decodeLossy_bytes (cs : List Char) : decodeLossy (bytes cs) = cs := by
  induction cs with
  | nil => rfl
  | cons c cs ih => rw [bytes_cons, decodeLossy_utf8EncodeChar, ih]

end WorkerBundler.Text
