import WorkerBundler.Ordered
import WorkerBundler.Text.Blank
import WorkerBundler.Text.Scan
import WorkerBundler.Text.Word

/-!
# Finding imports

Imports are found in the text of a module without parsing it. A static import is `import` or
`export`, perhaps a clause that ends in `from`, and a quoted specifier; a dynamic one is `import`
and a quoted specifier in parentheses. The keyword stands at the start of the text or after a
character that continues no name. `imports` lists both kinds in the order of their specifiers.
-/

namespace WorkerBundler

/-- The two forms of an import. -/
inductive ImportKind where
  | static
  | dynamic
  deriving DecidableEq, Repr

/-- A specifier in the text of a module. It takes the bytes from `start` to `stop`, without its
quotes. -/
structure Import where
  specifier : String
  start : Nat
  stop : Nat
  kind : ImportKind
  deriving DecidableEq, Repr

namespace ImportScan

/-- A matched import cut at its quotes. -/
structure Mention where
  before : List Char
  quote : Char
  specifier : List Char
  behind : List Char
  deriving DecidableEq, Repr

/-- The text that was matched. -/
def Mention.text (m : Mention) : List Char :=
  m.before ++ m.quote :: (m.specifier ++ m.quote :: m.behind)

/-- The mention with more text in front. -/
def Mention.after (m : Mention) (front : List Char) : Mention :=
  { m with before := front ++ m.before }

/-- A quoted specifier on one line at the start of the text, and the text after it. -/
def quoted? : List Char → Option (Mention × List Char)
  | [] => none
  | q :: rest =>
    if q = '\'' ∨ q = '"' then
      let specifier := rest.takeWhile fun c => c ≠ q ∧ c ≠ '\n'
      match rest.drop specifier.length with
      | [] => none
      | c :: behind => if c = q then some (⟨[], q, specifier, []⟩, behind) else none
    else none

/-- A fixed text, blanks and a quoted specifier. -/
def wordThenQuoted? (word cs : List Char) : Option (Mention × List Char) :=
  match Text.after? word cs with
  | none => none
  | some rest =>
    let blanks := rest.takeWhile Text.isBlank
    (quoted? (rest.drop blanks.length)).map fun (m, behind) =>
      (m.after (word ++ blanks), behind)

/-- Whether a character can stand in the clause between the keyword and `from`. -/
def isClauseChar (c : Char) : Bool :=
  Text.isWord c || c ∈ ['$', '*', '{', '}', ','] || Text.isBlank c

/-- The shortest clause that ends in `from` and a quoted specifier. The word `from` has to start
where no word goes on. -/
def clause? (inWord : Bool) : List Char → Option Mention
  | [] => none
  | c :: rest =>
    match if inWord then none else wordThenQuoted? "from".toList (c :: rest) with
    | some (m, _) => some m
    | none =>
      if isClauseChar c then (clause? (Text.isWord c) rest).map (·.after [c]) else none

/-- A static import after its keyword. -/
def staticTail? (cs : List Char) : Option Mention :=
  let blanks := cs.takeWhile Text.isBlank
  let rest := cs.drop blanks.length
  ((clause? blanks.isEmpty rest) <|> (quoted? rest).map (·.1)).map (·.after blanks)

/-- A static import at the start of the text. -/
def static? (cs : List Char) : Option Mention :=
  let keyword (word : List Char) : Option Mention :=
    (Text.after? word cs).bind fun rest => (staticTail? rest).map (·.after word)
  keyword "import".toList <|> keyword "export".toList

/-- A dynamic import at the start of the text. -/
def dynamic? (cs : List Char) : Option Mention :=
  match Text.after? "import".toList cs with
  | none => none
  | some rest =>
    let blanks := rest.takeWhile Text.isBlank
    match wordThenQuoted? ['('] (rest.drop blanks.length) with
    | none => none
    | some (m, behind) =>
      let more := behind.takeWhile Text.isBlank
      match behind.drop more.length with
      | ')' :: _ => some { m.after ("import".toList ++ blanks) with behind := more ++ [')'] }
      | _ => none

/-- Whether a keyword can stand after the character. -/
def endsNames (c : Char) : Bool :=
  !(Text.isWord c || c = '$' || c = '.')

/-- The rule of a kind of import: at the start of the text, or after a character that ends names. -/
def rule (mention? : List Char → Option Mention) : Text.Rule Mention := fun atStart c rest =>
  let here := if atStart then mention? (c :: rest) else none
  let behind := if endsNames c then (mention? rest).map (·.after [c]) else none
  (here <|> behind).map fun m => (m.text.length - 1, m)

/-- The place of a mention whose match starts at the byte `start`. -/
def toImport (kind : ImportKind) (start : Nat) (m : Mention) : Import :=
  let first := start + Text.byteLength m.before + m.quote.utf8Size
  ⟨String.ofList m.specifier, first, first + Text.byteLength m.specifier, kind⟩

/-- The imports of one kind in the order of the text. -/
def importsOf (kind : ImportKind) (mention? : List Char → Option Mention) (cs : List Char) :
    List Import :=
  (Text.hits (rule mention?) cs).map fun (start, m) => toImport kind start m

/-- The imports of a text with a specifier that is not empty. -/
def imports (code : String) : List Import :=
  Ordered.sort (fun a b => a.start ≤ b.start)
    ((importsOf .static static? code.toList ++ importsOf .dynamic dynamic? code.toList).filter
      (·.specifier ≠ ""))

end ImportScan

end WorkerBundler
