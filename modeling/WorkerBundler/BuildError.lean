import WorkerBundler.Disk.Fault
import WorkerBundler.EditedText.Fault
import WorkerBundler.Path.Disk

/-!
# Build errors

A build error has a cause and the contexts that were added to it on its way out. The cause decides
the code and the message; two errors are compared by their messages. A readable message shows
absolute paths relative to a directory.
-/

namespace WorkerBundler

/-- Failures from which no build recovers. -/
inductive Fatal where
  | noInput
  | unreadable (id : String)
  | externalTest (specifier : String)
  | unknownSourceMapKind (value : String)
  | unknownWrapperFormat (value : String)
  | edit (fault : EditFault)
  | missingModule (id : String)
  | unplacedModule (id : String)
  | unnamedChunk (id : String)
  | referencesExhausted
  | raised (text : String) (chain : List String)
  deriving DecidableEq, Repr

/-- The text of a fatal failure; of a chain of texts, the last one. -/
def Fatal.message : Fatal → String
  | .noInput => "You must supply options.input to rolldown"
  | .unreadable id => s!"Read file: {id}"
  | .externalTest specifier => s!"is_external failed for {specifier}"
  | .unknownSourceMapKind value => s!"Unknown sourcemap value \"{value}\""
  | .unknownWrapperFormat value => s!"Unknown worker wrapper format \"{value}\""
  | .edit fault => fault.message
  | .missingModule id => s!"Module {id} of chunk is missing"
  | .unplacedModule id => s!"Module {id} is not in any chunk"
  | .unnamedChunk id => s!"File name of chunk {id} is not generated"
  | .referencesExhausted => "No reference is left for an emitted chunk"
  | .raised text chain => chain.getLast?.getD text

/-- What went wrong. -/
inductive Cause where
  | unresolvedEntry (path : String)
  | externalEntry (path : String)
  | unresolvedImport (specifier importer : String)
  | unknownReference (reference : String)
  | fileNameNotGenerated (reference : String)
  | brokenSourceMap (plugin : String)
  | unresolvedPlaceholder (placeholder chunk : String)
  | disk (fault : DiskFault)
  | fatal (failure : Fatal)
  deriving DecidableEq, Repr

namespace Cause

/-- The code of the kind of error. An external entry counts as an unresolved one. -/
def code : Cause → String
  | .unresolvedEntry _ => "UNRESOLVED_ENTRY"
  | .externalEntry _ => "UNRESOLVED_ENTRY"
  | .unresolvedImport _ _ => "UNRESOLVED_IMPORT"
  | .unknownReference _ => "FILE_NOT_FOUND"
  | .fileNameNotGenerated _ => "FILE_NAME_NOT_GENERATED"
  | .brokenSourceMap _ => "SOURCEMAP_BROKEN"
  | .unresolvedPlaceholder _ _ => "UNRESOLVED_PLACEHOLDER"
  | .disk _ => "IO_ERROR"
  | .fatal _ => "PANIC"

/-- The message, with `showPath` deciding how paths of modules are shown. -/
def messageWith (showPath : String → String) : Cause → String
  | .unresolvedEntry path => s!"Could not resolve entry module \"{showPath path}\""
  | .externalEntry path => s!"Entry module \"{showPath path}\" cannot be external."
  | .unresolvedImport specifier importer =>
    s!"Could not resolve \"{specifier}\" from \"{showPath importer}\""
  | .unknownReference reference =>
    s!"Plugin error - Unable to get file name for unknown file \"{reference}\"."
  | .fileNameNotGenerated reference =>
    s!"Plugin error - Unable to get file name for emitted chunk \"{reference}\". " ++
      "You can only get file names once chunks have been generated after the \"renderStart\" hook."
  | .brokenSourceMap plugin =>
    s!"Sourcemap is likely to be incorrect: a plugin ({plugin}) was used to transform files, " ++
      "but didn't generate a sourcemap for the transformation."
  | .unresolvedPlaceholder placeholder chunk =>
    s!"Could not resolve placeholder \"{placeholder}\" in chunk \"{chunk}\"."
  | .disk fault => fault.message
  | .fatal failure => failure.message

/-- The message with paths as they are. -/
def message (c : Cause) : String := c.messageWith id

/-- The message with absolute paths shown relative to a directory. -/
def readable (base : String) (c : Cause) : String :=
  c.messageWith (DiskPath.relativeTo base)

end Cause

/-- A cause and the contexts added to it, the first one first. -/
structure BuildError where
  cause : Cause
  contexts : List String
  deriving DecidableEq, Repr

namespace BuildError

/-- The error of a cause without contexts. -/
def of (cause : Cause) : BuildError := ⟨cause, []⟩

/-- The error of a fatal failure. -/
def fatal (failure : Fatal) : BuildError := of (.fatal failure)

/-- The error with one more context. -/
def addContext (e : BuildError) (text : String) : BuildError :=
  { e with contexts := e.contexts ++ [text] }

/-- The code of the cause. -/
def code (e : BuildError) : String := e.cause.code

/-- The message of the cause. -/
def message (e : BuildError) : String := e.cause.message

/-- The message with absolute paths shown relative to a directory. -/
def readable (e : BuildError) (base : String) : String := e.cause.readable base

/-- The message below a line for each context, the last one on top, in the colours of a terminal. -/
def display (e : BuildError) : String :=
  String.join (e.contexts.reverse.map fun text => s!"\x1b[33mcontext\x1b[0m: {text}\n") ++ e.message

/-- The message of the underlying error of a disk fault or a fatal failure. -/
def source? (e : BuildError) : Option String :=
  match e.cause with
  | .disk fault => some fault.message
  | .fatal failure => some failure.message
  | _ => none

/-- Errors are ordered by their messages. -/
def order (a b : BuildError) : Ordering := compare a.message b.message

/-- Errors are alike if their messages are the same. -/
def alike (a b : BuildError) : Bool := a.message == b.message

end BuildError

/-! ## Computations that fail -/

section

variable {ε α β : Type} {x : Except ε α} {f : α → Except ε β}

/-- A computation in two parts succeeds if both parts do. -/
theorem exists_of_bind_ok {b : β} (h : x >>= f = .ok b) : ∃ a, x = .ok a ∧ f a = .ok b := by
  cases x with
  | error e => cases h
  | ok a => exact ⟨a, rfl, h⟩

theorem eq_ok_of_toOption {a : α} (h : x.toOption = some a) : x = .ok a := by
  cases x with
  | error e => cases h
  | ok made =>
    cases h
    rfl

/-- A computation in two parts fails where the first of them or the second one does. -/
theorem of_bind_error {e : ε} (h : x >>= f = .error e) :
    x = .error e ∨ ∃ a, x = .ok a ∧ f a = .error e := by
  cases x with
  | error e' =>
    cases h
    exact Or.inl rfl
  | ok a => exact Or.inr ⟨a, rfl, h⟩

/-- Of computations that come to the same after maps, both fail, with the same error, or both
succeed. -/
theorem of_map_eq {γ δ : Type} {y : Except ε γ} {p : α → δ} {q : γ → δ} (h : x.map p = y.map q) :
    (∃ e, x = .error e ∧ y = .error e) ∨ ∃ a c, x = .ok a ∧ y = .ok c ∧ p a = q c := by
  cases x with
  | error e =>
    cases y with
    | error e' =>
      cases h
      exact Or.inl ⟨e, rfl, rfl⟩
    | ok c => cases h
  | ok a =>
    cases y with
    | error e' => cases h
    | ok c => exact Or.inr ⟨a, c, rfl, rfl, Except.ok.inj h⟩

end

end WorkerBundler
