import WorkerBundler.Text.Split
import WorkerBundler.Text.Utf8

/-!
# Form-encoded text

The encoding of keys and values in a query: fields are separated by an ampersand, key and value by
the first equals sign, a plus stands for a space and `%XX` for a byte. `encode` writes one
component, `decode` reads one back (`decode_encode`), `parse` reads a whole query.
-/

namespace WorkerBundler.Text.FormEncoded

/-- The upper-case hexadecimal digit of a number below 16. -/
def hexDigit (n : Nat) : Char :=
  Char.ofNat (if n < 10 then 0x30 + n else 0x37 + n)

/-- The value of a byte that is a hexadecimal digit of either case. -/
def hexValue? (b : UInt8) : Option Nat :=
  let n := b.toNat
  if 0x30 ≤ n ∧ n ≤ 0x39 then some (n - 0x30)
  else if 0x41 ≤ n ∧ n ≤ 0x46 then some (n - 0x37)
  else if 0x61 ≤ n ∧ n ≤ 0x66 then some (n - 0x57)
  else none

/-- Whether a byte is written as itself: an ASCII letter or digit, or one of `*-._`. -/
def isPlain (b : UInt8) : Bool :=
  let n := b.toNat
  (0x30 ≤ n && n ≤ 0x39) || (0x41 ≤ n && n ≤ 0x5A) || (0x61 ≤ n && n ≤ 0x7A) ||
    n == 0x2A || n == 0x2D || n == 0x2E || n == 0x5F

/-- The written form of a byte. -/
def encodeByte (b : UInt8) : List Char :=
  if isPlain b then [Char.ofNat b.toNat]
  else if b = 0x20 then ['+']
  else ['%', hexDigit (b.toNat / 16), hexDigit (b.toNat % 16)]

/-- The written form of a key or value. -/
def encode (cs : List Char) : List Char :=
  (bytes cs).flatMap encodeByte

/-- Replaces every well-formed `%XX` by the byte it stands for and keeps everything else. -/
def percentDecode : List UInt8 → List UInt8
  | [] => []
  | [a] => [a]
  | [a, b] => [a, b]
  | a :: b :: c :: rest =>
    if a = 0x25 then
      match hexValue? b, hexValue? c with
      | some high, some low => UInt8.ofNat (high * 16 + low) :: percentDecode rest
      | _, _ => a :: percentDecode (b :: c :: rest)
    else a :: percentDecode (b :: c :: rest)

/-- A plus stands for a space. -/
def readPlus (b : UInt8) : UInt8 :=
  if b = 0x2B then 0x20 else b

/-- Reads a key or value. -/
def decode (cs : List Char) : List Char :=
  decodeLossy (percentDecode ((bytes cs).map readPlus))

/-- Reads one field; a field without an equals sign has the empty value. -/
def parseField (field : List Char) : String × String :=
  match cutFirst '=' field with
  | some (key, value) => (String.ofList (decode key), String.ofList (decode value))
  | none => (String.ofList (decode field), "")

/-- The fields of a query in order. Empty fields do not count. -/
def parse (query : List Char) : List (String × String) :=
  ((splitAll '&' query).filter (· ≠ [])).map parseField

/-! ## Reading what was written -/

/-- What stands between a byte and its written form: the form's bytes with spaces for pluses. -/
def carried (b : UInt8) : List UInt8 :=
  if isPlain b then [b]
  else if b = 0x20 then [b]
  else
    [0x25, UInt8.ofNat (hexDigit (b.toNat / 16)).toNat, UInt8.ofNat (hexDigit (b.toNat % 16)).toNat]

theorem forall_byte {P : UInt8 → Prop} (each : ∀ n < 256, P (UInt8.ofNat n)) (b : UInt8) : P b := by
  have := each b.toNat b.toNat_lt
  rwa [UInt8.ofNat_toNat] at this

theorem bytes_encodeByte (b : UInt8) : (bytes (encodeByte b)).map readPlus = carried b :=
  forall_byte (P := fun b => (bytes (encodeByte b)).map readPlus = carried b) (by decide +kernel) b

theorem hexValue?_hexDigit : ∀ n < 16, hexValue? (UInt8.ofNat (hexDigit n).toNat) = some n := by
  decide

theorem ne_percent_of_isPlain (b : UInt8) : isPlain b = true → b ≠ 0x25 :=
  forall_byte (P := fun b => isPlain b = true → b ≠ 0x25) (by decide +kernel) b

theorem percentDecode_cons_of_ne {a : UInt8} (h : a ≠ 0x25) (rest : List UInt8) :
    percentDecode (a :: rest) = a :: percentDecode rest := by
  match rest with
  | [] => rfl
  | [_] => rfl
  | _ :: _ :: _ => rw [percentDecode, if_neg h]

theorem percentDecode_carried (b : UInt8) (rest : List UInt8) :
    percentDecode (carried b ++ rest) = b :: percentDecode rest := by
  rw [carried]
  split
  · rename_i plain
    exact percentDecode_cons_of_ne (ne_percent_of_isPlain b plain) rest
  · split
    · rename_i space
      exact percentDecode_cons_of_ne (by rw [space]; decide) rest
    · have bound : b.toNat < 256 := b.toNat_lt
      rw [List.cons_append, List.cons_append, List.cons_append, List.nil_append, percentDecode,
        if_pos rfl, hexValue?_hexDigit _ (by omega),
        hexValue?_hexDigit _ (Nat.mod_lt _ (by decide))]
      simp only
      rw [show b.toNat / 16 * 16 + b.toNat % 16 = b.toNat by omega, UInt8.ofNat_toNat]

theorem bytes_encode (cs : List Char) :
    (bytes (encode cs)).map readPlus = (bytes cs).flatMap carried := by
  rw [encode]
  induction bytes cs with
  | nil => rfl
  | cons b bs ih =>
    simp only [List.flatMap_cons, bytes_append, List.map_append, bytes_encodeByte, ih]

/-- Reading gives back what was written, whatever characters it has. -/
theorem decode_encode (cs : List Char) : decode (encode cs) = cs := by
  rw [decode, bytes_encode]
  have read (bs : List UInt8) : percentDecode (bs.flatMap carried) = bs := by
    induction bs with
    | nil => rfl
    | cons b bs ih => rw [List.flatMap_cons, percentDecode_carried, ih]
  rw [read, decodeLossy_bytes]

theorem ampersand_not_mem_encodeByte (b : UInt8) : '&' ∉ encodeByte b :=
  forall_byte (P := fun b => '&' ∉ encodeByte b) (by decide +kernel) b

/-- What was written stays in its field. -/
theorem ampersand_not_mem_encode (cs : List Char) : '&' ∉ encode cs := by
  rw [encode, List.mem_flatMap]
  rintro ⟨b, _, mem⟩
  exact ampersand_not_mem_encodeByte b mem

/-- A field at the end of a query is read behind the others. -/
theorem parse_append {query field : List Char} (nonempty : field ≠ []) (one : '&' ∉ field) :
    parse (query ++ '&' :: field) = parse query ++ [parseField field] := by
  have last : ([field].filter (· ≠ [])).map parseField = [parseField field] := by
    simp [nonempty]
  rw [parse, splitAll_append, splitAll_of_not_mem one, List.filter_append, List.map_append, last]
  rfl

end WorkerBundler.Text.FormEncoded
