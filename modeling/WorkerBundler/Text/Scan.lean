import WorkerBundler.Text.Bytes

/-!
# Leftmost matches in a text

`scan rule cs` goes through a text from the left and cuts out every place where `rule` applies. The
rule sees whether it stands at the start of the text, the character there and the characters after
it; it answers how many of the latter belong to the match. The next match is sought after the end of
the last one.
-/

namespace WorkerBundler.Text

/-- A piece of a scanned text: a character that no match covers, or a match. -/
inductive Piece (α : Type) where
  | plain (c : Char)
  | hit (text : List Char) (value : α)
  deriving DecidableEq, Repr

/-- A rule of matching: what a match captures and how many characters after the first it takes. -/
abbrev Rule (α : Type) := (atStart : Bool) → Char → List Char → Option (Nat × α)

/-- Scans after `skip` more characters of a match that has been cut out. -/
def scanFrom {α : Type} (rule : Rule α) (atStart : Bool) : Nat → List Char → List (Piece α)
  | _, [] => []
  | skip + 1, _ :: rest => scanFrom rule false skip rest
  | 0, c :: rest =>
    match rule atStart c rest with
    | some (n, a) => .hit (c :: rest.take n) a :: scanFrom rule false n rest
    | none => .plain c :: scanFrom rule false 0 rest

/-- The pieces of a text under a rule. -/
def scan {α : Type} (rule : Rule α) (cs : List Char) : List (Piece α) :=
  scanFrom rule true 0 cs

/-- The values of the matches, each with the byte at which its match starts. -/
def hitsFrom {α : Type} : Nat → List (Piece α) → List (Nat × α)
  | _, [] => []
  | start, .plain c :: rest => hitsFrom (start + c.utf8Size) rest
  | start, .hit t a :: rest => (start, a) :: hitsFrom (start + byteLength t) rest

/-- The matches of a rule in a text: the byte at which each starts, and what it captures. -/
def hits {α : Type} (rule : Rule α) (cs : List Char) : List (Nat × α) :=
  hitsFrom 0 (scan rule cs)

/-! ## Fixed texts -/

/-- What follows `lead` at the start of the text, if the text starts with it. -/
def after? : List Char → List Char → Option (List Char)
  | [], cs => some cs
  | _ :: _, [] => none
  | l :: lead, c :: cs => if l = c then after? lead cs else none

theorem after?_eq_some_iff {lead cs rest : List Char} :
    after? lead cs = some rest ↔ cs = lead ++ rest := by
  induction lead generalizing cs with
  | nil => simp [after?, eq_comm]
  | cons l lead ih =>
    cases cs with
    | nil => simp [after?]
    | cons c cs => by_cases h : l = c <;> simp [after?, h, ih, eq_comm]

theorem after?_append (lead rest : List Char) : after? lead (lead ++ rest) = some rest :=
  after?_eq_some_iff.2 rfl

/-- The rule that matches a fixed, non-empty text. -/
def fixed (text : List Char) : Rule Unit := fun _ c rest =>
  match text with
  | [] => none
  | t :: more => if t = c ∧ (after? more rest).isSome then some (more.length, ()) else none

/-- Replaces every match of `find` from the left. An empty `find` matches between all characters
and at both ends. -/
def replaceAll (find replace cs : List Char) : List Char :=
  match find with
  | [] => replace ++ cs.flatMap fun c => c :: replace
  | _ => (scan (fixed find) cs).flatMap fun
    | .plain c => [c]
    | .hit _ _ => replace

end WorkerBundler.Text
