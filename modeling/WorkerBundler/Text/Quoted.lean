/-!
# Quoted strings

The form of a string in JSON. `quote` escapes the quotation mark, the backslash and the controls
below U+0020, those with a short form by it and the others by four lower-case hexadecimal digits;
everything else is written as it is. `unquote?` reads every form that JSON allows: all short forms,
and code points in UTF-16 units, two of which may make up one character. Reading gives back what was
quoted (`unquote?_quoteChars`).
-/

namespace WorkerBundler.Text

/-- The lower-case hexadecimal digit of a number below 16. -/
def lowerHexDigit (n : Nat) : Char :=
  Char.ofNat (if n < 10 then 0x30 + n else 0x57 + n)

/-- The written form of a character inside a quoted string. -/
def escapeChar (c : Char) : List Char :=
  if c = '"' then ['\\', '"']
  else if c = '\\' then ['\\', '\\']
  else if c = '\x08' then ['\\', 'b']
  else if c = '\x0C' then ['\\', 'f']
  else if c = '\n' then ['\\', 'n']
  else if c = '\r' then ['\\', 'r']
  else if c = '\t' then ['\\', 't']
  else if c.toNat < 0x20 then
    ['\\', 'u', '0', '0', lowerHexDigit (c.toNat / 16), lowerHexDigit (c.toNat % 16)]
  else [c]

/-- The quoted form of a text. -/
def quoteChars (cs : List Char) : List Char :=
  '"' :: (cs.flatMap escapeChar ++ ['"'])

/-- The quoted form of a string. -/
def quote (s : String) : String :=
  String.ofList (quoteChars s.toList)

/-! ## Reading -/

/-- The value of a hexadecimal digit of either case. -/
def hexDigitValue? (c : Char) : Option Nat :=
  let n := c.toNat
  if 0x30 ≤ n ∧ n ≤ 0x39 then some (n - 0x30)
  else if 0x41 ≤ n ∧ n ≤ 0x46 then some (n - 0x37)
  else if 0x61 ≤ n ∧ n ≤ 0x66 then some (n - 0x57)
  else none

/-- The UTF-16 unit in four hexadecimal digits at the start of the text, and the text after it. -/
def unit? : List Char → Option (Nat × List Char)
  | a :: b :: c :: d :: rest => do
    let a ← hexDigitValue? a
    let b ← hexDigitValue? b
    let c ← hexDigitValue? c
    let d ← hexDigitValue? d
    return (a * 0x1000 + b * 0x100 + c * 0x10 + d, rest)
  | _ => none

/-- The character of one or two UTF-16 units after `\\u`. Half a pair is no character. -/
def unitsChar? (cs : List Char) : Option (Char × List Char) := do
  let (high, rest) ← unit? cs
  if 0xD800 ≤ high ∧ high < 0xDC00 then
    match rest with
    | '\\' :: 'u' :: rest =>
      let (low, rest) ← unit? rest
      if 0xDC00 ≤ low ∧ low < 0xE000 then
        return (Char.ofNat (0x10000 + (high - 0xD800) * 0x400 + (low - 0xDC00)), rest)
      else none
    | _ => none
  else if 0xDC00 ≤ high ∧ high < 0xE000 then none
  else return (Char.ofNat high, rest)

/-- The character that stands after a backslash, and the text after it. -/
def escaped? : List Char → Option (Char × List Char)
  | [] => none
  | c :: rest =>
    if c = 'u' then unitsChar? rest
    else if c = 'b' then some ('\x08', rest)
    else if c = 'f' then some ('\x0C', rest)
    else if c = 'n' then some ('\n', rest)
    else if c = 'r' then some ('\r', rest)
    else if c = 't' then some ('\t', rest)
    else if c = '"' ∨ c = '\\' ∨ c = '/' then some (c, rest)
    else none

/-- Reads up to the closing quotation mark. Every step takes a character at least, so the length of
the text is fuel enough. -/
def unquoteWithin : (fuel : Nat) → List Char → Option (List Char × List Char)
  | 0, _ => none
  | _ + 1, [] => none
  | fuel + 1, c :: rest =>
    if c = '"' then some ([], rest)
    else if c.toNat < 0x20 then none
    else
      match if c = '\\' then escaped? rest else some (c, rest) with
      | none => none
      | some (x, rest) => (unquoteWithin fuel rest).map fun (xs, behind) => (x :: xs, behind)

/-- The quoted text at the start of a text, and the text after it. -/
def unquote? : List Char → Option (List Char × List Char)
  | [] => none
  | c :: rest => if c = '"' then unquoteWithin rest.length rest else none

/-! ## Reading what was written -/

theorem hexDigitValue?_lowerHexDigit : ∀ n < 16, hexDigitValue? (lowerHexDigit n) = some n := by
  decide

theorem unitsChar?_lowerHexDigits {c : Char} (h : c.toNat < 0x20) (rest : List Char) :
    unitsChar?
        ('0' :: '0' :: lowerHexDigit (c.toNat / 16) :: lowerHexDigit (c.toNat % 16) :: rest) =
      some (c, rest) := by
  have zero : hexDigitValue? '0' = some 0 := by decide
  have unit : unit? ('0' :: '0' :: lowerHexDigit (c.toNat / 16) :: lowerHexDigit (c.toNat % 16) ::
      rest) = some (c.toNat, rest) := by
    simp only [unit?, zero, hexDigitValue?_lowerHexDigit _ (show c.toNat / 16 < 16 by omega),
      hexDigitValue?_lowerHexDigit _ (Nat.mod_lt c.toNat (show 0 < 16 by decide)),
      Option.bind_eq_bind, Option.bind_some, Option.pure_def]
    congr 2
    omega
  rw [unitsChar?, unit]
  simp only [Option.bind_eq_bind, Option.bind_some]
  rw [if_neg (by omega), if_neg (by omega), Char.ofNat_toNat]
  rfl

/-- One step reads one written character. -/
theorem unquoteWithin_escapeChar (fuel : Nat) (c : Char) (rest : List Char) :
    unquoteWithin (fuel + 1) (escapeChar c ++ rest) =
      (unquoteWithin fuel rest).map fun (xs, behind) => (c :: xs, behind) := by
  have escaped {x : Char} {cs : List Char} (h : escaped? cs = some (x, rest)) :
      unquoteWithin (fuel + 1) ('\\' :: cs) =
        (unquoteWithin fuel rest).map fun (xs, behind) => (x :: xs, behind) := by
    rw [unquoteWithin, if_neg (by decide), if_neg (by decide), if_pos rfl, h]
  rw [escapeChar]
  split
  · rename_i h
    exact escaped (by rw [h]; rfl)
  split
  · rename_i h
    exact escaped (by rw [h]; rfl)
  split
  · rename_i h
    exact escaped (by rw [h]; rfl)
  split
  · rename_i h
    exact escaped (by rw [h]; rfl)
  split
  · rename_i h
    exact escaped (by rw [h]; rfl)
  split
  · rename_i h
    exact escaped (by rw [h]; rfl)
  split
  · rename_i h
    exact escaped (by rw [h]; rfl)
  split
  · rename_i control
    exact escaped (unitsChar?_lowerHexDigits control rest)
  · rename_i notQuote notBackslash _ _ _ _ _ notControl
    rw [List.singleton_append, unquoteWithin, if_neg notQuote, if_neg notControl,
      if_neg notBackslash]

theorem unquoteWithin_flatMap_escapeChar {fuel : Nat} {cs : List Char} (h : cs.length < fuel)
    (rest : List Char) :
    unquoteWithin fuel (cs.flatMap escapeChar ++ '"' :: rest) = some (cs, rest) := by
  induction cs generalizing fuel with
  | nil =>
    cases fuel with
    | zero => simp at h
    | succ fuel => simp [unquoteWithin]
  | cons c cs ih =>
    cases fuel with
    | zero => simp at h
    | succ fuel =>
      rw [List.flatMap_cons, List.append_assoc, unquoteWithin_escapeChar, ih (by simpa using h)]
      rfl

theorem length_le_length_flatMap_escapeChar (cs : List Char) :
    cs.length ≤ (cs.flatMap escapeChar).length := by
  induction cs with
  | nil => simp
  | cons c cs ih =>
    have one : 1 ≤ (escapeChar c).length := by
      unfold escapeChar
      repeat' split
      all_goals simp
    rw [List.flatMap_cons, List.length_append, List.length_cons]
    omega

/-- Reading gives back a quoted text and leaves what follows. -/
theorem unquote?_quoteChars (cs rest : List Char) :
    unquote? (quoteChars cs ++ rest) = some (cs, rest) := by
  have fits := length_le_length_flatMap_escapeChar cs
  rw [quoteChars, List.cons_append, List.append_assoc, unquote?, if_pos rfl]
  exact unquoteWithin_flatMap_escapeChar
    (by rw [List.length_append, List.length_append, List.length_singleton]; omega) rest

end WorkerBundler.Text
