import WorkerBundler.SourceMap.Basic
import WorkerBundler.Text.Base64
import WorkerBundler.Text.Quoted

/-!
# The text of a source map

Version 3 of the format. The tokens are written as differences to the values written last, each as
digits of five bits in base 64 with the lowest first and the sign in the lowest bit of all. A token
that repeats the one before it on its line is left out.
-/

namespace WorkerBundler.SourceMap

/-! ## Differences -/

/-- The digits of a number below 32 each, the lowest first; all but the last are marked. -/
def vlqDigits (n : Nat) : List Char :=
  if n < 32 then [Text.Base64.digit n]
  else Text.Base64.digit (n % 32 + 32) :: vlqDigits (n / 32)
termination_by n

/-- The written form of `value` after `previous`. -/
def vlqDifference (previous value : Nat) : List Char :=
  if previous ≤ value then vlqDigits (2 * (value - previous))
  else vlqDigits (2 * (previous - value) + 1)

/-! ## Mappings -/

/-- The values written last. The column starts afresh on every line. -/
structure Written where
  line : Nat
  column : Nat
  source : Nat
  origin : Position
  name : Nat

/-- The fields of a token after the values written last, and the values written then. -/
def writeToken (m : SourceMap) (w : Written) (t : Token) : List Char × Written :=
  let column := vlqDifference w.column t.generated.column
  let w := { w with line := t.generated.line, column := t.generated.column }
  match t.source with
  | none => (column, w)
  | some source =>
    let source := (m.sources.map Source.name).idxOf source
    let origin :=
      vlqDifference w.source source ++ vlqDifference w.origin.line t.origin.line ++
        vlqDifference w.origin.column t.origin.column
    let w := { w with source := source, origin := t.origin }
    match t.name with
    | none => (column ++ origin, w)
    | some name =>
      let name := m.names.idxOf name
      (column ++ origin ++ vlqDifference w.name name, { w with name := name })

/-- The written tokens after `previous`. -/
def writeTokens (m : SourceMap) (w : Written) (previous : Option Token) :
    List Token → List Char
  | [] => []
  | t :: rest =>
    if t.generated.line ≠ w.line then
      let (text, next) := writeToken m { w with column := 0 } t
      List.replicate (t.generated.line - w.line) ';' ++ text ++ writeTokens m next (some t) rest
    else if previous = some t then writeTokens m w (some t) rest
    else
      let (text, next) := writeToken m w t
      (if previous.isSome then [','] else []) ++ text ++ writeTokens m next (some t) rest

/-- The mappings field. -/
def mappings (m : SourceMap) : String :=
  String.ofList (writeTokens m ⟨0, 0, 0, .zero, 0⟩ none m.tokens)

/-! ## The whole map -/

/-- A list of quoted strings, or of `null` where there is none. -/
def quotedList (items : List (Option String)) : String :=
  "[" ++ ",".intercalate (items.map fun
    | some s => Text.quote s
    | none => "null") ++ "]"

/-- The fields of a map in their order. The file is left out if there is none, the contents if no
source has one. -/
def fields (m : SourceMap) : List (String × String) :=
  [("version", "3")] ++
    (match m.file with
      | some file => [("file", Text.quote file)]
      | none => []) ++
    [("sources", quotedList (m.sources.map fun s => some s.name))] ++
    (if m.sources.any (·.content.isSome) then
      [("sourcesContent", quotedList (m.sources.map Source.content))]
    else []) ++
    [("names", quotedList (m.names.map some)), ("mappings", Text.quote m.mappings)]

/-- The text of a map. -/
def text (m : SourceMap) : String :=
  "\x7b" ++ ",".intercalate (m.fields.map fun (key, value) => Text.quote key ++ ":" ++ value) ++
    "\x7d"

end WorkerBundler.SourceMap
