/-!
# Refused edits

Why a range of a text cannot be overwritten.
-/

namespace WorkerBundler

/-- Why an edit is refused. -/
inductive EditFault where
  | emptyRange (start stop : Nat)
  | outOfBounds (start stop length : Nat)
  | splitsCharacter (start stop : Nat)
  | overlap (start stop : Nat)
  deriving DecidableEq, Repr

/-- The text of a refusal. -/
def EditFault.message : EditFault → String
  | .emptyRange start stop => s!"Cannot overwrite a zero-length range {start}..{stop}"
  | .outOfBounds start stop length =>
    s!"Range {start}..{stop} is out of bounds of a source with length {length}"
  | .splitsCharacter start stop => s!"Range {start}..{stop} doesn't lie on character boundaries"
  | .overlap start stop =>
    s!"Cannot overwrite {start}..{stop} because it overlaps an edited range"

end WorkerBundler
