import WorkerBundler.Text.Digit
import WorkerBundler.Text.Scan

/-!
# Placeholders

A placeholder stands for the path of a worker chunk until file names are known. It is a marker, a
reference and two underscores, so it is an identifier. `references` finds the placeholders of a
text; `malformed?` finds the first marker that starts none.
-/

namespace WorkerBundler.Placeholder

/-- The start of every placeholder. -/
def marker : List Char := "__ROLLDOWN_NODE_WORKER__".toList

/-- The end of every placeholder. -/
def ending : List Char := "__".toList

/-- The number of characters between marker and ending. -/
def referenceLength : Nat := 8

/-- The placeholder of a reference. -/
def ofReference (reference : String) : String :=
  String.ofList (marker ++ reference.toList ++ ending)

/-- Whether a character can stand in the reference of a placeholder: a small ASCII letter or a
decimal digit of any script. -/
def isReferenceChar (c : Char) : Bool :=
  ('a' ≤ c && c ≤ 'z') || Text.isDecimalDigit c

/-- The reference of the placeholder at the start of the text. -/
def reference? (cs : List Char) : Option (List Char) :=
  match Text.after? marker cs with
  | none => none
  | some rest =>
    let reference := rest.take referenceLength
    if reference.length = referenceLength ∧ reference.all isReferenceChar ∧
        (Text.after? ending (rest.drop referenceLength)).isSome then
      some reference
    else none

/-- The rule that matches placeholders and captures their references. -/
def rule : Text.Rule (List Char) := fun _ c rest =>
  (reference? (c :: rest)).map fun reference =>
    (marker.length + reference.length + ending.length - 1, reference)

/-- The references in the placeholders of a text, each with the byte where its placeholder starts.
-/
def references (code : String) : List (Nat × List Char) :=
  Text.hits rule code.toList

/-- Whether a text has a placeholder. -/
def occursIn (code : String) : Bool :=
  !(references code).isEmpty

/-- Whether a character belongs to the identifier around a marker. -/
def isTokenChar (c : Char) : Bool :=
  c.isAlphanum || c = '_' || c = '$'

/-- The rule that matches markers and captures, where no placeholder starts, the identifier from
there on. -/
def markerRule : Text.Rule (Option (List Char)) := fun _ c rest =>
  (Text.after? marker (c :: rest)).map fun _ =>
    (marker.length - 1,
      if (reference? (c :: rest)).isSome then none
      else some ((c :: rest).takeWhile isTokenChar))

/-- The identifier from the first marker that starts no placeholder. -/
def malformed? (code : String) : Option String :=
  ((Text.hits markerRule code.toList).findSome? (·.2)).map String.ofList

end WorkerBundler.Placeholder
