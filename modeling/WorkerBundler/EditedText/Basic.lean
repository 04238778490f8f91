import WorkerBundler.EditedText.Fault
import WorkerBundler.SourceMap.Basic
import WorkerBundler.Text.Bytes

/-!
# Edited text

A source text and the edits recorded against it. Positions always refer to the source, however many
edits there are, and are counted in bytes. `overwrite` records an edit or says why it is refused.
The edits cut the source into spans that are kept or replaced; the edited text and its source map
are read off the spans.
-/

namespace WorkerBundler

/-- The bytes from `start` to `stop` are replaced by the content. -/
structure Edit where
  start : Nat
  stop : Nat
  content : String
  deriving DecidableEq, Repr

/-- A source and its edits, in ascending order and apart from each other. -/
structure EditedText where
  source : String
  edits : List Edit
  deriving DecidableEq, Repr

/-- A part of the source that an edited text keeps or replaces. -/
inductive Span where
  | kept (text : List Char)
  | replaced (old new : List Char)
  deriving DecidableEq, Repr

namespace Span

/-- What the span is in the source. -/
def old : Span → List Char
  | .kept text => text
  | .replaced old _ => old

/-- What the span is in the edited text. -/
def new : Span → List Char
  | .kept text => text
  | .replaced _ new => new

end Span

namespace EditedText

/-- A text without edits. -/
def ofSource (source : String) : EditedText := ⟨source, []⟩

/-- Whether any edit was recorded. -/
def hasChanged (t : EditedText) : Bool := !t.edits.isEmpty

/-! ## Recording edits -/

/-- Puts an edit in its place among edits in ascending order, unless it meets one of its
neighbours there. -/
def insertEdit (e : Edit) : List Edit → Option (List Edit)
  | [] => some [e]
  | f :: rest =>
    if f.start < e.start then
      if e.start < f.stop then none
      else (insertEdit e rest).map (f :: ·)
    else if f.start < e.stop then none
    else some (e :: f :: rest)

/-- Replaces the bytes from `start` to `stop` by the content. -/
def overwrite (t : EditedText) (start stop : Nat) (content : String) :
    Except EditFault EditedText :=
  if stop ≤ start then .error (.emptyRange start stop)
  else if t.source.utf8ByteSize < stop then
    .error (.outOfBounds start stop t.source.utf8ByteSize)
  else if ¬(Text.IsBoundary start t.source.toList ∧ Text.IsBoundary stop t.source.toList) then
    .error (.splitsCharacter start stop)
  else
    match insertEdit ⟨start, stop, content⟩ t.edits with
    | none => .error (.overlap start stop)
    | some edits => .ok { t with edits := edits }

/-- Recording an edit adds it and loses none. -/
theorem perm_of_insertEdit {e : Edit} {edits recorded : List Edit}
    (h : insertEdit e edits = some recorded) : recorded.Perm (e :: edits) := by
  induction edits generalizing recorded with
  | nil =>
    rw [insertEdit, Option.some.injEq] at h
    rw [h]
  | cons f rest ih =>
    rw [insertEdit] at h
    split at h
    · split at h
      · exact absurd h (by simp)
      · obtain ⟨more, inserted, rfl⟩ := Option.map_eq_some_iff.1 h
        exact ((ih inserted).cons f).trans (.swap e f rest)
    · split at h
      · exact absurd h (by simp)
      · rw [Option.some.injEq] at h
        rw [h]

/-! ## Reading the edited text -/

/-- The spans of the rest of the source, which starts at byte `cursor`. -/
def spansFrom (cursor : Nat) (rest : List Char) : List Edit → List Span
  | [] => [.kept rest]
  | e :: edits =>
    let ahead := Text.dropBytes (e.start - cursor) rest
    .kept (Text.takeBytes (e.start - cursor) rest) ::
      .replaced (Text.takeBytes (e.stop - e.start) ahead) e.content.toList ::
        spansFrom e.stop (Text.dropBytes (e.stop - e.start) ahead) edits

/-- The spans of the source. -/
def spans (t : EditedText) : List Span :=
  spansFrom 0 t.source.toList t.edits

/-- The edited text. -/
def text (t : EditedText) : String :=
  String.ofList (t.spans.flatMap Span.new)

/-! ## The source map -/

/-- How a map of an edited text is made. -/
structure MapOptions where
  source : String
  file : Option String
  /-- Every character gets a token rather than only the starts of spans and lines. -/
  everyCharacter : Bool
  includeContent : Bool

/-- The tokens of a kept text. -/
def keptTokens (o : MapOptions) (isFirst : Bool) (generated origin : Position) :
    List Char → List SourceMap.Token
  | [] => []
  | c :: rest =>
    let more := keptTokens o false (generated.advance c) (origin.advance c) rest
    if c ≠ '\n' ∧ (o.everyCharacter ∨ isFirst ∨ origin.column = 0) then
      ⟨generated, origin, some o.source, none⟩ :: more
    else more

/-- The tokens of a span; a replacement that is not empty has one at its start. -/
def spanTokens (o : MapOptions) (generated origin : Position) : Span → List SourceMap.Token
  | .kept text => keptTokens o true generated origin text
  | .replaced _ [] => []
  | .replaced _ (_ :: _) => [⟨generated, origin, some o.source, none⟩]

/-- The tokens of the spans from a position in the edited text and in the source. -/
def tokensFrom (o : MapOptions) (generated origin : Position) :
    List Span → List SourceMap.Token
  | [] => []
  | s :: rest =>
    spanTokens o generated origin s ++
      tokensFrom o (generated.advanceText s.new) (origin.advanceText s.old) rest

/-- The map from the edited text to its source. -/
def sourceMap (t : EditedText) (o : MapOptions) : SourceMap where
  file := o.file
  sources := [⟨o.source, if o.includeContent then some t.source else none⟩]
  names := []
  tokens := tokensFrom o .zero .zero t.spans

end EditedText

end WorkerBundler
