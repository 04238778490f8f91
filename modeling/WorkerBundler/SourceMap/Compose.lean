import WorkerBundler.SourceMap.Basic

/-!
# Maps of successive edits

`compose first second` follows a text that was edited twice back to the sources of the first edit;
`collapse` does so for any number of edits. A position that the earlier map does not govern on its
own line is dropped.
-/

namespace WorkerBundler.SourceMap

/-- The token of the later map carried back through the earlier one. -/
def carryBack (first : SourceMap) (t : Token) : Option Token :=
  match first.lookup? t.origin with
  | none => none
  | some earlier =>
    if earlier.generated.line = t.origin.line then
      some ⟨t.generated, earlier.origin, earlier.source, earlier.name <|> t.name⟩
    else none

/-- The map from the text after the second edit to the sources of the first. -/
def compose (first second : SourceMap) : SourceMap :=
  ofTokens second.file (second.tokens.filterMap (carryBack first))

/-- The maps of successive edits, the earliest first, as one. -/
def collapse : List SourceMap → Option SourceMap
  | [] => none
  | [m] => some m
  | m :: rest => (collapse rest).map (compose m)

end WorkerBundler.SourceMap
