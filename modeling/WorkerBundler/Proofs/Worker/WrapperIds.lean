import WorkerBundler.Proofs.FreshReferences
import WorkerBundler.Proofs.Worker.Requests

/-!
# The ids of wrappers

The id of a wrapper is the worker request with one more field at the end of its query, which holds
the importer. Written form-encoded, the importer has no ampersand, so the last ampersand of an id is
where that field starts, and request and importer are told from the id whatever characters they have
(`wrapperId_inj`). A key that the request already had does not count any more, since of several
fields with one key the last one does. `exists_claimed` collects what the plugin makes of a worker
request and of the id it answers.
-/

namespace WorkerBundler

/-! ## Keys of a query -/

namespace Request

variable {query : Query} {key : String}

theorem Query.has_append (more : Query) (has : query.has key = true) :
    Query.has (query ++ more) key = true := by
  rw [Query.has, List.any_append]
  exact Bool.or_eq_true_iff.2 (.inl has)

/-- The last field with a key counts. -/
theorem Query.get?_append (query : Query) (key value : String) :
    Query.get? (query ++ [(key, value)]) key = some value := by
  simp [Query.get?]

theorem Query.get?_eq_none (lacks : query.has key = false) : query.get? key = none := by
  rw [Query.get?, Option.map_eq_none_iff, List.find?_eq_none]
  intro field mem
  exact List.any_eq_false.1 lacks field (List.mem_reverse.1 mem)

end Request

namespace Worker

variable {σ : Type} {w : Options} {specifier importer : String}

/-! ## Telling ids apart -/

theorem importerField_inj {importer importer' : String}
    (same : importerField importer = importerField importer') : importer = importer' := by
  have encoded : Text.FormEncoded.encode importer.toList =
      Text.FormEncoded.encode importer'.toList := List.append_cancel_left same
  have decoded := congrArg Text.FormEncoded.decode encoded
  rw [Text.FormEncoded.decode_encode, Text.FormEncoded.decode_encode] at decoded
  exact String.toList_inj.1 decoded

/-- Different requests and different importers have different wrappers. -/
theorem wrapperId_inj {specifier' importer' : String}
    (same : wrapperId specifier importer = wrapperId specifier' importer') :
    specifier = specifier' ∧ importer = importer' := by
  have cut (s p : String) :
      Text.cutLast '&' (wrapperId s p).toList = some (s.toList, importerField p) := by
    rw [wrapperId_eq, String.toList_append, String.toList_ofList]
    exact Text.cutLast_append (ampersand_not_mem_importerField p) s.toList
  have parts := cut specifier importer
  rw [same, cut] at parts
  obtain ⟨requests, fields⟩ := Prod.mk.inj (Option.some.inj parts)
  exact ⟨(String.toList_inj.1 requests).symm, (importerField_inj fields).symm⟩

/-! ## Claiming -/

theorem isWorkerRequest_of_has {query : Request.Query}
    (found : Request.query? specifier = some query) (asks : query.has workerKey = true) :
    isWorkerRequest specifier = true := by
  rw [isWorkerRequest, found]
  exact asks

theorem claim?_eq_some {specifier importer : String} {id : ModuleId}
    (claimed : claim? ⟨specifier, some importer⟩ = some id) :
    isWorkerRequest specifier = true ∧ id = ⟨wrapperId specifier importer, false⟩ := by
  rw [claim?] at claimed
  split at claimed
  · cases claimed
  · rename_i p given
    cases given
    split at claimed
    · rename_i asks
      exact ⟨asks, (Option.some.inj claimed).symm⟩
    · cases claimed

theorem load_of_workerOf? {id : String} {chunk : EmittedChunk}
    (worker : workerOf? id = some chunk) :
    (plugin w : Plugin σ).load id = .emit chunk fun reference =>
      .answer (.ok (some (wrapper w.format (Placeholder.ofReference reference)))) := by
  simp only [plugin, worker]
  rfl

/-- An id without a query, without the key of a worker or without an importer is no wrapper. -/
theorem workerOf?_eq_none {id : String}
    (lacks : ∀ query, Request.query? id = some query →
      query.has workerKey = false ∨ query.has importerKey = false) : workerOf? id = none := by
  rw [workerOf?]
  split
  · rfl
  · rename_i query found
    rcases lacks query found with no_worker | no_importer
    · rw [no_worker]
      rfl
    · rw [Request.Query.get?_eq_none no_importer]
      exact ite_self none

/-- What the plugin makes of the request for `specifier` from `importer` and of the id `id` that it
answers. -/
structure Claimed (σ : Type) (w : Options) (specifier importer id : String) : Prop where
  resolved : (plugin w : Plugin σ).resolveId ⟨specifier, some importer⟩ =
    .answer (.ok (some ⟨id, false⟩))
  query : ∃ query, Request.query? id = some query ∧ query.has workerKey = true ∧
    query.get? importerKey = some importer
  clean : Request.clean id = Request.clean specifier
  own : ∀ specifier' importer',
    (plugin w : Plugin σ).resolveId ⟨specifier', some importer'⟩ =
      .answer (.ok (some ⟨id, false⟩)) → specifier' = specifier ∧ importer' = importer
  load : (plugin w : Plugin σ).load id =
    .emit ⟨Request.clean specifier, some importer, none⟩ fun reference =>
      .answer (.ok (some (wrapper w.format (Placeholder.ofReference reference))))
  loaded : ∀ session : Session σ, session.emitter.size < 36 ^ 8 → ∃ reference after,
    ((plugin w : Plugin σ).load id).run session =
      (.ok (some (wrapper w.format (Placeholder.ofReference reference))),
        { session with emitter := after }) ∧
    after.emissions = session.emitter.emissions ++
      [⟨reference, ⟨Request.clean specifier, some importer, none⟩, none⟩] ∧
    after.drained = session.emitter.drained

/-- **Every worker request is claimed with an id of its own**, from which the request without its
query and the importer are read back. Loading this id emits the worker once and answers a wrapper
with its placeholder, and loading an id that lacks one of the two keys emits nothing. -/
theorem exists_claimed (w : Options) {query : Request.Query}
    (found : Request.query? specifier = some query) (asks : query.has workerKey = true)
    (importer : String) :
    (∃ id, Claimed σ w specifier importer id) ∧
      ∀ other, (∀ query, Request.query? other = some query →
          query.has workerKey = false ∨ query.has importerKey = false) →
        ∀ session : Session σ,
          ((plugin w : Plugin σ).load other).run session = (.ok none, session) := by
  have worker_request := isWorkerRequest_of_has found asks
  have load := load_of_workerOf? (σ := σ) (w := w) (workerOf?_wrapperId worker_request importer)
  refine ⟨⟨wrapperId specifier importer, ?_, ?_, ?_, ?_, load, ?_⟩, ?_⟩
  · have claimed : claim? ⟨specifier, some importer⟩ =
        some ⟨wrapperId specifier importer, false⟩ := if_pos worker_request
    exact congrArg (fun id => Hook.answer (.ok id)) claimed
  · exact ⟨_, query?_wrapperId found importer, Request.Query.has_append _ asks,
      Request.Query.get?_append query importerKey importer⟩
  · rw [wrapperId_eq]
    exact Request.clean_append found _
  · intro specifier' importer' same
    have claimed : claim? ⟨specifier', some importer'⟩ =
        some ⟨wrapperId specifier importer, false⟩ := Except.ok.inj (Hook.answer.inj same)
    have ids := ModuleId.mk.inj (claim?_eq_some claimed).2
    obtain ⟨rfl, rfl⟩ := wrapperId_inj ids.1
    exact ⟨rfl, rfl⟩
  · intro session room
    obtain ⟨reference, after, minted⟩ :=
      Emitter.exists_emit room ⟨Request.clean specifier, some importer, none⟩
    refine ⟨reference, after, ?_, (Emitter.emissions_of_emit minted).1,
      Emitter.drained_of_emit minted⟩
    rw [load, Hook.run, minted]
    rfl
  · intro other lacks session
    simp only [plugin, workerOf?_eq_none lacks]
    rfl

/-- A request with a fragment and importers of its own, from a module whose path has the separators
of a query. -/
theorem claimed_fragmentRequest :
    ∃ id, Claimed Unit .default "./task.js#top?importer=old&nodeWorker=1&importer=%26"
      "/src/a&importer=b+c%20d#e?ü.js" id := by
  have query : Request.query? "./task.js#top?importer=old&nodeWorker=1&importer=%26" =
      some [("importer", "old"), ("nodeWorker", "1"), ("importer", "&")] := by decide
  exact (exists_claimed .default query (by decide) "/src/a&importer=b+c%20d#e?ü.js").1

end Worker

end WorkerBundler
