import WorkerBundler.Proofs.HookAnswers
import WorkerBundler.Worker.Plugin

/-!
# What becomes of a worker request

A worker request from a module resolves to the id of a wrapper. From this id the request without
its query and the importer are read back, whatever characters they have (`workerOf?_wrapperId`). So
loading the wrapper emits the worker that was asked for, and its code holds the placeholder of that
emission (`mayAnswer_of_transformedCode`). No other request is claimed, least of all that of the
worker itself (`isWorkerRequest_clean`), and resolving emits nothing (`resolve_silent`).
-/

namespace WorkerBundler

/-! ## Reading the id of a wrapper -/

namespace Request

theorem cut_of_query? {id : String} {query : Query} (h : query? id = some query) :
    ∃ before search, Text.cutFirst '?' id.toList = some (before, search) ∧ search ≠ [] ∧
      query = Text.FormEncoded.parse search := by
  unfold query? at h
  split at h
  · cases h
  · cases h
  · rename_i before search some_ne found
    cases h
    exact ⟨before, search, found, some_ne, rfl⟩

/-- A field added to a request with a query is the last field of its query. -/
theorem query?_append {id : String} {query : Query} (h : query? id = some query)
    {field : List Char} (nonempty : field ≠ []) (one : '&' ∉ field) :
    query? (id ++ String.ofList ('&' :: field)) =
      some (query ++ [Text.FormEncoded.parseField field]) := by
  obtain ⟨before, search, cut, nonempty', rfl⟩ := cut_of_query? h
  have cut' : Text.cutFirst '?' (id ++ String.ofList ('&' :: field)).toList =
      some (before, search ++ '&' :: field) := by
    rw [String.toList_append, String.toList_ofList]
    exact Text.cutFirst_append cut _
  rw [query?, cut']
  cases search with
  | nil => exact absurd rfl nonempty'
  | cons c search =>
    simp only [List.cons_append]
    rw [← List.cons_append, Text.FormEncoded.parse_append nonempty one]

/-- Text behind the question mark is no part of the request proper. -/
theorem clean_append {id : String} {query : Query} (h : query? id = some query) (more : String) :
    clean (id ++ more) = clean id := by
  obtain ⟨before, search, cut, _, _⟩ := cut_of_query? h
  have stops : ∀ rest : List Char,
      (before ++ '?' :: rest).takeWhile (fun c => c ≠ '?' ∧ c ≠ '#') =
        before.takeWhile fun c => c ≠ '?' ∧ c ≠ '#' := by
    intro rest
    rw [List.takeWhile_append]
    split
    · rename_i whole
      rw [List.takeWhile_cons_of_neg (by simp), List.append_nil]
      exact ((List.takeWhile_prefix _).eq_of_length whole).symm
    · rfl
  rw [clean, clean, String.toList_append, (Text.cutFirst_eq_some cut).1, List.append_assoc,
    List.cons_append, stops, stops]

theorem question_not_mem_clean (id : String) : '?' ∉ (clean id).toList := by
  rw [clean, String.toList_ofList]
  intro mem
  have kept := List.all_eq_true.1 List.all_takeWhile _ mem
  simp at kept

end Request

namespace Worker

variable {σ : Type} {env : Environment σ} {w : Options} {given : List Emission}

theorem of_isWorkerRequest {specifier : String} (asks : isWorkerRequest specifier = true) :
    ∃ query, Request.query? specifier = some query ∧ query.has workerKey = true := by
  unfold isWorkerRequest at asks
  split at asks
  · cases asks
  · rename_i query found
    exact ⟨query, found, asks⟩

/-- The field that the id of a wrapper adds to the request, as it is written. -/
def importerField (importer : String) : List Char :=
  "importer=".toList ++ Text.FormEncoded.encode importer.toList

theorem ampersand_not_mem_importerField (importer : String) : '&' ∉ importerField importer := by
  unfold importerField
  rw [List.mem_append, not_or]
  exact ⟨by decide, Text.FormEncoded.ampersand_not_mem_encode _⟩

theorem parseField_importerField (importer : String) :
    Text.FormEncoded.parseField (importerField importer) = (importerKey, importer) := by
  have sign : Text.cutFirst '=' "importer=".toList = some ("importer".toList, []) := by
    decide
  have cut := Text.cutFirst_append sign (Text.FormEncoded.encode importer.toList)
  have key : String.ofList (Text.FormEncoded.decode "importer".toList) = importerKey := by
    decide
  unfold importerField
  rw [Text.FormEncoded.parseField, cut]
  simp only [key, List.nil_append, Text.FormEncoded.decode_encode, String.ofList_toList]

theorem wrapperId_eq (specifier importer : String) :
    wrapperId specifier importer = specifier ++ String.ofList ('&' :: importerField importer) := by
  rw [wrapperId, importerKey, String.append_assoc, String.append_assoc, String.append_assoc]
  congr 1
  rw [← String.toList_inj]
  unfold importerField
  simp [String.toList_append]

/-- The query of a wrapper is that of the request and one more field with the importer. -/
theorem query?_wrapperId {specifier : String} {query : Request.Query}
    (found : Request.query? specifier = some query) (importer : String) :
    Request.query? (wrapperId specifier importer) = some (query ++ [(importerKey, importer)]) := by
  have nonempty : importerField importer ≠ [] := List.append_ne_nil_of_left_ne_nil (by decide) _
  have parsed := Request.query?_append found nonempty (ampersand_not_mem_importerField importer)
  rw [wrapperId_eq, parsed, parseField_importerField]

/-- The id of a wrapper keeps the request and its importer. -/
theorem workerOf?_wrapperId {specifier : String} (asks : isWorkerRequest specifier = true)
    (importer : String) :
    workerOf? (wrapperId specifier importer) =
      some ⟨Request.clean specifier, some importer, none⟩ := by
  obtain ⟨query, found, has⟩ := of_isWorkerRequest asks
  rw [workerOf?, query?_wrapperId found, wrapperId_eq, Request.clean_append found]
  have has' : Request.Query.has (query ++ [(importerKey, importer)]) workerKey = true := by
    rw [Request.Query.has, List.any_append]
    rw [Request.Query.has] at has
    rw [has]
    rfl
  have last : Request.Query.get? (query ++ [(importerKey, importer)]) importerKey =
      some importer := by
    simp [Request.Query.get?]
  simp only [has', last, ↓reduceIte, Option.map_some]

/-- A worker is asked for without its query, so it is not taken for a worker request again. -/
theorem isWorkerRequest_clean (specifier : String) :
    isWorkerRequest (Request.clean specifier) = false := by
  rw [isWorkerRequest, Request.query?,
    Text.cutFirst_eq_none (Request.question_not_mem_clean specifier)]

/-! ## Resolving and loading where no other plugin is -/

/-- A request resolves to the wrapper if it is claimed, and else to what the disk has. -/
theorem resolve_alone (alone : env.plugins = [plugin w]) (request : ResolveRequest) :
    Resolver.resolve env request =
      .answer (match claim? request with
        | some id => .ok (some id)
        | none => Resolver.resolveOnDisk env request) := by
  rw [Resolver.resolve, alone]
  cases claimed : claim? request with
  | none => simp [Plugin.firstAnswer, plugin, claimed, bind, Hook.bind, pure, Hook.ofExcept]
  | some id => simp [Plugin.firstAnswer, plugin, claimed, bind, Hook.bind, pure]

/-- A worker request of a module resolves to the wrapper. -/
theorem resolve_claimed (alone : env.plugins = [plugin w]) {specifier : String}
    (asks : isWorkerRequest specifier = true) (importer : String) :
    Resolver.resolve env ⟨specifier, some importer⟩ =
      .answer (.ok (some ⟨wrapperId specifier importer, false⟩)) := by
  have claimed : claim? ⟨specifier, some importer⟩ =
      some ⟨wrapperId specifier importer, false⟩ := by
    rw [claim?]
    simp only [asks, ↓reduceIte]
  rw [resolve_alone alone, claimed]

/-- Another request resolves to what the disk has. -/
theorem resolve_unclaimed (alone : env.plugins = [plugin w]) {specifier : String}
    (plain : isWorkerRequest specifier = false) (importer : String) :
    Resolver.resolve env ⟨specifier, some importer⟩ =
      .answer (Resolver.resolveOnDisk env ⟨specifier, some importer⟩) := by
  have unclaimed : claim? ⟨specifier, some importer⟩ = none := by
    rw [claim?]
    simp only [plain, Bool.false_eq_true, ↓reduceIte]
  rw [resolve_alone alone, unclaimed]

theorem resolve_silent (alone : env.plugins = [plugin w]) (request : ResolveRequest) :
    (Resolver.resolve env request).Silent := by
  rw [resolve_alone alone]
  trivial

/-- The code of a wrapper holds the placeholder of its emission. -/
theorem mayAnswer_of_transformedCode (alone : env.plugins = [plugin w]) {id code : String}
    {chunk : EmittedChunk} (worker : workerOf? id = some chunk)
    (answers : (Loader.transformedCode env id).MayAnswer given code) :
    ∃ reference, ⟨reference, chunk, none⟩ ∈ given ∧
      code = wrapper w.format (Placeholder.ofReference reference) := by
  have emits : (plugin w : Plugin σ).load id = .emit chunk fun reference =>
      .answer (.ok (some (wrapper w.format (Placeholder.ofReference reference)))) := by
    simp only [plugin, worker]
    rfl
  obtain ⟨read, first, second⟩ := answers.of_bind
  obtain ⟨answer, asked, rest⟩ := first.of_bind
  rw [alone, Plugin.firstAnswer] at asked
  obtain ⟨loaded, load, found⟩ := asked.of_bind
  rw [emits] at load
  cases load with
  | @emit _ reference _ _ mem answered =>
    cases answered
    cases found
    cases rest
    rw [alone] at second
    cases second
    exact ⟨reference, mem, rfl⟩

end Worker

end WorkerBundler
