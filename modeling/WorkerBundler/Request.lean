import WorkerBundler.Text.FormEncoded

/-!
# Module requests

A request may carry a query after a question mark and a fragment after a hash. `query?` reads the
query, `clean` strips both.
-/

namespace WorkerBundler.Request

/-- The fields of a query, in the order they are written. -/
abbrev Query := List (String × String)

/-- The value of a key; of several, the last one counts. -/
def Query.get? (q : Query) (key : String) : Option String :=
  (q.reverse.find? (·.1 = key)).map (·.2)

/-- Whether the query has the key. -/
def Query.has (q : Query) (key : String) : Bool :=
  q.any (·.1 = key)

/-- The query of a request. A question mark with nothing after it starts no query. -/
def query? (id : String) : Option Query :=
  match Text.cutFirst '?' id.toList with
  | none => none
  | some (_, []) => none
  | some (_, search) => some (Text.FormEncoded.parse search)

/-- The request without its query and its fragment. -/
def clean (id : String) : String :=
  String.ofList (id.toList.takeWhile fun c => c ≠ '?' ∧ c ≠ '#')

end WorkerBundler.Request
