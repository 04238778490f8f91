import WorkerBundler.Text.CodePoints

/-!
# Blanks

The characters with the property White_Space: the ASCII blanks and line ends, and the spaces and
separators of other scripts.
-/

namespace WorkerBundler.Text

/-- Ranges of the blanks, in ascending order. -/
def blankRanges : List (Nat × Nat) := [
  (0x9, 0xD), (0x20, 0x20), (0x85, 0x85), (0xA0, 0xA0), (0x1680, 0x1680), (0x2000, 0x200A),
  (0x2028, 0x2029), (0x202F, 0x202F), (0x205F, 0x205F), (0x3000, 0x3000)]

/-- Whether the character is white space. -/
def isBlank (c : Char) : Bool :=
  inRanges blankRanges c

end WorkerBundler.Text
