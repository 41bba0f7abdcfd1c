import Cyanotype.Document.Reading

/-!
# The document as an account of the recording

Without declarations the document says which operations and statuses were
completed, how often, and infers its schemas from exactly the JSON bodies seen
there. Exchanges that never completed leave no trace.
-/

namespace Cyanotype

/-! ## Reading the request side -/

/-- The sample count of a request body. -/
theorem requestBodyObject_get_samples (acc : OperationAcc) :
    (requestBodyObject acc).get "x-cyanotype-samples" =
      some (.ofNat acc.requestSamples.length) := by
  unfold requestBodyObject
  split_ifs with h
  · rw [Value.get_setField (by simp), Value.get_ofFields (by simp)]
    simp [SortedMap.get_cons]
  · rw [Value.get_ofFields (by simp)]
    simp [SortedMap.get_cons]

/-- The schema of a request body is inferred from all request samples. -/
theorem contentSchema_requestBodyObject (acc : OperationAcc) :
    contentSchema (requestBodyObject acc) = some (inferSchema acc.requestSamples) := by
  have hcontent : (requestBodyObject acc).get "content" =
      some (jsonContent (inferSchema acc.requestSamples)) := by
    unfold requestBodyObject
    split_ifs with h
    · rw [Value.get_setField (by simp), Value.get_ofFields (by simp)]
      simp
    · rw [Value.get_ofFields (by simp)]
      simp
  unfold contentSchema
  rw [hcontent]
  rfl

/-- A request body is required when enough requests were seen and all were JSON. -/
theorem requestBodyObject_get_required (acc : OperationAcc) :
    (requestBodyObject acc).get "required" =
      if acc.requestsObserved ≥ minSamplesForRequired ∧
        acc.requestSamples.length = acc.requestsObserved
      then some (.bool true) else none := by
  unfold requestBodyObject
  by_cases h : acc.requestsObserved ≥ minSamplesForRequired ∧
      acc.requestSamples.length = acc.requestsObserved
  · rw [if_pos h, if_pos h, Value.get_setField (by simp), if_pos rfl]
  · rw [if_neg h, if_neg h, Value.get_ofFields (by simp)]
    simp [SortedMap.get_cons]

/-- Every exchange carried a JSON request body when there are as many bodies as exchanges. -/
theorem length_requestBodies_eq_iff (exchanges : List Exchange) :
    (requestBodies exchanges).length = exchanges.length ↔
      ∀ e ∈ exchanges, e.request.body.json? ≠ none := by
  unfold requestBodies
  rw [List.filterMap_length_eq_length]
  simp only [Option.isSome_iff_ne_none]

/-! ## The account -/

/-- A document is an exact account of the exchanges it was built from. -/
structure Accounts (doc : Value) (exchanges : List Exchange) : Prop where
  /-- A route is listed exactly when a completed exchange has it. -/
  route_iff : ∀ route, (doc.get "paths").bind (·.get route) ≠ none ↔
    ∃ e ∈ exchanges, e.response.status ≠ none ∧ e.routeTemplate = route
  /-- A method is listed under a route exactly when a completed exchange has both. -/
  operation_iff : ∀ route method, operationAt doc route method ≠ none ↔
    ∃ e ∈ exchanges, e.response.status ≠ none ∧ e.routeTemplate = route ∧
      toAsciiLowercase e.method.asStr = method
  /-- A code is listed under an operation exactly when an exchange was answered with it. -/
  response_iff : ∀ route method code, responseAt doc route method code ≠ none ↔
    ∃ e ∈ exchanges, ∃ status, e.response.status = some status ∧ code = toString status ∧
      e.routeTemplate = route ∧ toAsciiLowercase e.method.asStr = method
  /-- A response counts every exchange answered so. -/
  samples : ∀ route method status response,
    responseAt doc route method (toString status) = some response →
      response.get "x-cyanotype-samples" =
        some (.ofNat (observedWith ⟨route, method⟩ status exchanges).length)
  /-- A response's schema is inferred from exactly their JSON bodies, in order. -/
  content : ∀ route method status response,
    responseAt doc route method (toString status) = some response →
      response.get "content" =
        if responseBodies (observedWith ⟨route, method⟩ status exchanges) = [] then none
        else some (jsonContent (inferSchema
          (responseBodies (observedWith ⟨route, method⟩ status exchanges))))
  /-- An operation has a request body exactly when some request carried JSON. -/
  requestBody_iff : ∀ route method operation, operationAt doc route method = some operation →
    (operation.get "requestBody" ≠ none ↔
      ∃ e ∈ observedAt ⟨route, method⟩ exchanges, e.request.body.json? ≠ none)
  /-- It counts those bodies, infers its schema from them, and is required when
  there are at least two requests and every one carried JSON. -/
  requestBody : ∀ route method operation body, operationAt doc route method = some operation →
    operation.get "requestBody" = some body →
      body.get "x-cyanotype-samples" =
        some (.ofNat (requestBodies (observedAt ⟨route, method⟩ exchanges)).length) ∧
      contentSchema body =
        some (inferSchema (requestBodies (observedAt ⟨route, method⟩ exchanges))) ∧
      (body.get "required" = some (.bool true) ∨ body.get "required" = none) ∧
      (body.get "required" = some (.bool true) ↔
        2 ≤ (observedAt ⟨route, method⟩ exchanges).length ∧
          ∀ e ∈ observedAt ⟨route, method⟩ exchanges, e.request.body.json? ≠ none)

/-- An operation was observed when a completed exchange has its route and method. -/
theorem observedAt_ne_nil_iff {route method : String} {exchanges : List Exchange} :
    observedAt ⟨route, method⟩ exchanges ≠ [] ↔
      ∃ e ∈ exchanges, e.response.status ≠ none ∧ e.routeTemplate = route ∧
        toAsciiLowercase e.method.asStr = method := by
  rw [ne_eq, List.eq_nil_iff_forall_not_mem]
  push Not
  simp only [mem_observedAt_iff, Exchange.operationKey, OperationKey.mk.injEq]

/-- A pair was observed when an exchange was answered so at its route and method. -/
theorem observedWith_ne_nil_iff {route method : String} {status : Nat}
    {exchanges : List Exchange} :
    observedWith ⟨route, method⟩ status exchanges ≠ [] ↔
      ∃ e ∈ exchanges, e.response.status = some status ∧ e.routeTemplate = route ∧
        toAsciiLowercase e.method.asStr = method := by
  rw [ne_eq, List.eq_nil_iff_forall_not_mem]
  push Not
  simp only [mem_observedWith_iff, Exchange.operationKey, OperationKey.mk.injEq]

private theorem firstDeclaration_eq_none {exchanges : List Exchange} {key : OperationKey}
    {status : Nat} (h : ∀ e ∈ exchanges, e.declaredResponseSchema = none) :
    firstDeclaration (observedWith key status exchanges) = none := by
  unfold firstDeclaration
  rw [List.findSome?_eq_none_iff]
  exact fun e he => h e (mem_observedWith_iff.mp he).1

/-- A method is listed under a route exactly when a completed exchange has both. -/
theorem operationAt_ne_none_iff (exchanges : List Exchange) (warnings : List String)
    (route method : String) :
    operationAt (buildDocument exchanges warnings).1 route method ≠ none ↔
      ∃ e ∈ exchanges, e.response.status ≠ none ∧ e.routeTemplate = route ∧
        toAsciiLowercase e.method.asStr = method := by
  rw [operationAt_buildDocument, ← observedAt_ne_nil_iff]
  split_ifs with h <;> simp [h]

/-- A code is listed under an operation exactly when an exchange was answered with it. -/
theorem responseAt_ne_none_iff (exchanges : List Exchange) (warnings : List String)
    (route method code : String) :
    responseAt (buildDocument exchanges warnings).1 route method code ≠ none ↔
      ∃ e ∈ exchanges, ∃ status, e.response.status = some status ∧ code = toString status ∧
        e.routeTemplate = route ∧ toAsciiLowercase e.method.asStr = method := by
  constructor
  · intro h
    obtain ⟨status, rfl⟩ := eq_toString_of_responseAt h
    rw [responseAt_buildDocument] at h
    have hne : observedWith ⟨route, method⟩ status exchanges ≠ [] := by
      intro hnil
      rw [if_pos hnil] at h
      exact h rfl
    obtain ⟨e, he, hstatus, hkey⟩ := observedWith_ne_nil_iff.mp hne
    exact ⟨e, he, status, hstatus, rfl, hkey⟩
  · rintro ⟨e, he, status, hstatus, rfl, hkey⟩
    rw [responseAt_buildDocument, if_neg (observedWith_ne_nil_iff.mpr ⟨e, he, hstatus, hkey⟩)]
    exact Option.some_ne_none _

/-- A response in the document is the one written for the exchanges behind it. -/
theorem eq_responseObject_of_responseAt {exchanges : List Exchange} {warnings : List String}
    {route method : String} {status : Nat} {response : Value}
    (h : responseAt (buildDocument exchanges warnings).1 route method (toString status) =
      some response) :
    response =
      responseObject status (StatusAcc.of (observedWith ⟨route, method⟩ status exchanges)) := by
  rw [responseAt_buildDocument] at h
  split_ifs at h
  exact (Option.some.inj h).symm

/-- An operation in the document is the one written for the exchanges behind it. -/
theorem eq_operationOf_of_operationAt {exchanges : List Exchange} {warnings : List String}
    {route method : String} {operation : Value}
    (h : operationAt (buildDocument exchanges warnings).1 route method = some operation) :
    operation = operationOf ⟨route, method⟩ (operationAcc ⟨route, method⟩ exchanges) := by
  rw [operationAt_buildDocument] at h
  split_ifs at h
  exact (Option.some.inj h).symm

/-- The request body of an operation is written when some request carried JSON. -/
theorem operationOf_get_requestBody (route method : String) (exchanges : List Exchange) :
    (operationOf ⟨route, method⟩ (operationAcc ⟨route, method⟩ exchanges)).get "requestBody" =
      if (requestBodies (observedAt ⟨route, method⟩ exchanges)).isEmpty then none
      else some (requestBodyObject (operationAcc ⟨route, method⟩ exchanges)) := by
  rw [operationOf_get, operationAcc_requestSamples]
  rfl

/-- Exchanges that never completed contribute nothing. -/
theorem groupExchanges_filter_completed (exchanges : List Exchange) :
    groupExchanges (exchanges.filter (·.response.status.isSome)) = groupExchanges exchanges := by
  unfold groupExchanges
  rw [List.foldl_filter]
  congr 1
  funext acc e
  cases hs : e.response.status with
  | none => simp [DocumentAcc.record, hs]
  | some s => simp

/-- The document is an exact account of a recording without declarations, and
is unchanged when the exchanges that never completed are left out. -/
theorem buildDocument_accounts (exchanges : List Exchange) (warnings : List String)
    (hdeclared : ∀ e ∈ exchanges, e.declaredResponseSchema = none) :
    Accounts (buildDocument exchanges warnings).1 exchanges ∧
      buildDocument (exchanges.filter (·.response.status.isSome)) warnings =
        buildDocument exchanges warnings := by
  refine ⟨?_, ?_⟩
  · constructor
    case route_iff =>
      intro route
      rw [buildDocument_route_iff]
      simp only [observedAt_ne_nil_iff]
      constructor
      · rintro ⟨method, e, he, hstatus, hroute, _⟩
        exact ⟨e, he, hstatus, hroute⟩
      · rintro ⟨e, he, hstatus, hroute⟩
        exact ⟨_, e, he, hstatus, hroute, rfl⟩
    case operation_iff => exact operationAt_ne_none_iff exchanges warnings
    case response_iff => exact responseAt_ne_none_iff exchanges warnings
    case samples =>
      intro route method status response h
      rw [eq_responseObject_of_responseAt h, responseObject_get_samples]
      rfl
    case content =>
      intro route method status response h
      rw [eq_responseObject_of_responseAt h, responseObject_get_content]
      unfold StatusAcc.schema StatusAcc.of
      simp only [firstDeclaration_eq_none hdeclared, Option.map_none, Option.orElse_none,
        List.isEmpty_iff]
      split_ifs <;> rfl
    case requestBody_iff =>
      intro route method operation h
      rw [eq_operationOf_of_operationAt h, operationOf_get_requestBody]
      unfold requestBodies
      rw [ne_eq, ite_eq_left_iff, List.isEmpty_iff, List.filterMap_eq_nil_iff]
      simp
    case requestBody =>
      intro route method operation body h hget
      rw [eq_operationOf_of_operationAt h, operationOf_get_requestBody] at hget
      split_ifs at hget with hempty
      obtain rfl := Option.some.inj hget
      rw [requestBodyObject_get_samples, contentSchema_requestBodyObject,
        requestBodyObject_get_required, operationAcc_requestSamples,
        operationAcc_requestsObserved, ← length_requestBodies_eq_iff]
      refine ⟨rfl, rfl, ?_, ?_⟩
      · split_ifs <;> simp
      · split_ifs with hrequired
        · exact ⟨fun _ => hrequired, fun _ => rfl⟩
        · exact ⟨False.elim, fun hr => absurd hr hrequired⟩
  · unfold buildDocument
    rw [groupExchanges_filter_completed]

/-- Two answered requests, one without a JSON body, and one that never completed. -/
theorem buildDocument_accounts_example :
    Accounts (buildDocument
      [exchangeWithJsonResponse "/users/{id}" Method.get 200 (.ofFields [("id", .ofNat 1)]),
        exchangeWithJsonResponse "/users/{id}" Method.get 404 .null,
        Exchange.new Method.post "/users" none] []).1
      [exchangeWithJsonResponse "/users/{id}" Method.get 200 (.ofFields [("id", .ofNat 1)]),
        exchangeWithJsonResponse "/users/{id}" Method.get 404 .null,
        Exchange.new Method.post "/users" none] :=
  (buildDocument_accounts _ _ (by simp [exchangeWithJsonResponse, Exchange.new])).1

end Cyanotype
