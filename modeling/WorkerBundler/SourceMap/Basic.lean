/-!
# Source maps

A source map relates positions of a generated text to positions of its sources. Lines count from 0,
columns in UTF-16 units. `lookup?` finds the token that governs a generated position: the first one
at exactly that position, else the last one before it. `ofTokens` lists the sources and names of a
list of tokens in the order of their first use.
-/

namespace WorkerBundler

/-- A line and a column in UTF-16 units. -/
structure Position where
  line : Nat
  column : Nat
  deriving DecidableEq, Repr

namespace Position

/-- The start of a text. -/
def zero : Position := ⟨0, 0⟩

/-- The number of UTF-16 units of a character. -/
def units (c : Char) : Nat := if c.toNat < 0x10000 then 1 else 2

/-- The position after a character. -/
def advance (p : Position) (c : Char) : Position :=
  if c = '\n' then ⟨p.line + 1, 0⟩ else ⟨p.line, p.column + units c⟩

/-- The position after a text. -/
def advanceText (p : Position) (cs : List Char) : Position := cs.foldl advance p

/-- Whether a position comes before another. -/
def before (p q : Position) : Bool :=
  p.line < q.line || (p.line == q.line && p.column < q.column)

theorem advanceText_append (p : Position) (a b : List Char) :
    p.advanceText (a ++ b) = (p.advanceText a).advanceText b := by
  simp [advanceText]

end Position

namespace SourceMap

/-- A generated position, the position it comes from, and in which source and under which name. -/
structure Token where
  generated : Position
  origin : Position
  source : Option String
  name : Option String
  deriving DecidableEq, Repr

/-- A source and its content, if the map carries it. -/
structure Source where
  name : String
  content : Option String
  deriving DecidableEq, Repr

end SourceMap

/-- The tokens of a generated file in the order they were recorded, with the sources and names that
they refer to. -/
structure SourceMap where
  file : Option String
  sources : List SourceMap.Source
  names : List String
  tokens : List SourceMap.Token
  deriving DecidableEq, Repr

namespace SourceMap

/-- The elements in the order of their first occurrence. -/
def firstUses (xs : List String) : List String :=
  xs.foldl (fun seen x => if x ∈ seen then seen else seen ++ [x]) []

/-- The map of the tokens; it carries no contents. -/
def ofTokens (file : Option String) (tokens : List Token) : SourceMap where
  file := file
  sources := (firstUses (tokens.filterMap Token.source)).map fun s => ⟨s, none⟩
  names := firstUses (tokens.filterMap Token.name)
  tokens := tokens

/-- The last of the tokens with the greatest position before `p`. -/
def lastBefore (p : Position) (tokens : List Token) : Option Token :=
  tokens.foldl
    (fun best t =>
      if t.generated.before p then
        match best with
        | none => some t
        | some b => if t.generated.before b.generated then best else some t
      else best)
    none

/-- The token that governs a generated position. -/
def lookup? (m : SourceMap) (p : Position) : Option Token :=
  match m.tokens.find? (·.generated = p) with
  | some t => some t
  | none => lastBefore p m.tokens

end SourceMap

end WorkerBundler
