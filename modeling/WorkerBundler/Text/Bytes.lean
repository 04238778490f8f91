/-!
# Byte positions in a text

Positions in source text are counted in UTF-8 bytes. `byteLength` measures a list of characters,
`takeBytes` and `dropBytes` cut it, and `IsBoundary n cs` says that a character of `cs` starts, or
the text ends, at byte `n`. Cutting loses nothing (`takeBytes_append_dropBytes`), and the boundaries
are the lengths of the starts of the text (`isBoundary_iff`).
-/

namespace WorkerBundler.Text

/-- The number of bytes that the characters take in UTF-8. -/
def byteLength : List Char → Nat
  | [] => 0
  | c :: rest => c.utf8Size + byteLength rest

/-- The longest start of the text that fits into `n` bytes. -/
def takeBytes : Nat → List Char → List Char
  | _, [] => []
  | n, c :: rest => if c.utf8Size ≤ n then c :: takeBytes (n - c.utf8Size) rest else []

/-- What remains of the text after `takeBytes n`. -/
def dropBytes : Nat → List Char → List Char
  | _, [] => []
  | n, c :: rest => if c.utf8Size ≤ n then dropBytes (n - c.utf8Size) rest else c :: rest

/-- Byte `n` is the start of a character of the text, or its end. -/
def IsBoundary (n : Nat) (cs : List Char) : Prop :=
  byteLength (takeBytes n cs) = n

instance (n : Nat) (cs : List Char) : Decidable (IsBoundary n cs) :=
  inferInstanceAs (Decidable (_ = _))

@[simp] theorem byteLength_nil : byteLength [] = 0 := rfl

@[simp] theorem byteLength_cons (c : Char) (cs : List Char) :
    byteLength (c :: cs) = c.utf8Size + byteLength cs := rfl

@[simp] theorem byteLength_append (a b : List Char) :
    byteLength (a ++ b) = byteLength a + byteLength b := by
  induction a with
  | nil => simp
  | cons c a ih => simp [ih, Nat.add_assoc]

theorem utf8ByteSize_ofList (cs : List Char) : (String.ofList cs).utf8ByteSize = byteLength cs := by
  induction cs with
  | nil => rfl
  | cons c cs ih =>
    have split : String.ofList (c :: cs) = String.singleton c ++ String.ofList cs := by
      rw [String.singleton_eq_ofList, ← String.ofList_append]
      rfl
    rw [split, String.utf8ByteSize_append, String.utf8ByteSize_singleton, ih, byteLength_cons]

theorem utf8ByteSize_eq (s : String) : s.utf8ByteSize = byteLength s.toList := by
  rw [← utf8ByteSize_ofList, String.ofList_toList]

/-- A cut loses nothing. -/
theorem takeBytes_append_dropBytes (n : Nat) (cs : List Char) :
    takeBytes n cs ++ dropBytes n cs = cs := by
  induction cs generalizing n with
  | nil => rfl
  | cons c cs ih => by_cases h : c.utf8Size ≤ n <;> simp [takeBytes, dropBytes, h, ih]

/-- A cut behind the characters of a start of the text takes just these. -/
theorem takeBytes_byteLength_append (before rest : List Char) :
    takeBytes (byteLength before) (before ++ rest) = before := by
  induction before with
  | nil =>
    cases rest with
    | nil => rfl
    | cons c rest => simp [takeBytes, Nat.ne_of_gt c.utf8Size_pos]
  | cons c before ih => simp [takeBytes, ih]

theorem dropBytes_byteLength_append (before rest : List Char) :
    dropBytes (byteLength before) (before ++ rest) = rest := by
  have whole := takeBytes_append_dropBytes (byteLength before) (before ++ rest)
  rw [takeBytes_byteLength_append] at whole
  exact List.append_cancel_left whole

/-- The boundaries are the lengths of the starts of the text. -/
theorem isBoundary_iff {n : Nat} {cs : List Char} :
    IsBoundary n cs ↔ ∃ before rest, cs = before ++ rest ∧ byteLength before = n := by
  constructor
  · intro h
    exact ⟨takeBytes n cs, dropBytes n cs, (takeBytes_append_dropBytes n cs).symm, h⟩
  · rintro ⟨before, rest, rfl, rfl⟩
    rw [IsBoundary, takeBytes_byteLength_append]

/-- A boundary lies within the text. -/
theorem IsBoundary.le_byteLength {n : Nat} {cs : List Char} (h : IsBoundary n cs) :
    n ≤ byteLength cs := by
  have whole := congrArg byteLength (takeBytes_append_dropBytes n cs)
  rw [byteLength_append] at whole
  have : byteLength (takeBytes n cs) = n := h
  omega

end WorkerBundler.Text
