import Cyanotype.Core.Nested
import Cyanotype.Document.Account

/-!
# Every exchange is counted once

The sample counts of a document, read off all its responses, add up to the number of
exchanges with a status, and those of its request bodies to the number of JSON request
bodies among them: no exchange is lost between two operations, and none is counted twice.
-/

namespace Cyanotype

/-! ## Reading a whole document -/

/-- The members of an object, none for a value that is not an object. -/
def Value.members (v : Value) : List (String × Value) := v.asObject.getD []

/-- The operations of a document, under route and method. -/
def operationsIn (doc : Value) : List ((String × String) × Value) :=
  nest ((doc.get "paths").getD .null).members Value.members

/-- The responses of a document, under operation and code. -/
def responsesIn (doc : Value) : List (((String × String) × String) × Value) :=
  nest (operationsIn doc) fun operation => ((operation.get "responses").getD .null).members

/-- The count that a response or a request body carries. -/
def sampleCount (v : Value) : Nat :=
  match v.get "x-cyanotype-samples" with
  | some (.number (.posInt n)) => n
  | _ => 0

/-- The count of the request bodies of an operation. -/
def requestCount (operation : Value) : Nat := ((operation.get "requestBody").map sampleCount).getD 0

/-- The members of an object whose keys are distinct are those that can be read. -/
theorem Value.mem_members_iff {v : Value} (h : v.keys.Nodup) {k : String} {x : Value} :
    (k, x) ∈ v.members ↔ v.get k = some x := by
  cases v with
  | object m => exact (SortedMap.get_eq_some_iff_of_nodup h).symm
  | _ => simp [members, asObject, Value.get]

/-! ## A document built from exchanges -/

variable {exchanges : List Exchange} {warnings : List String}

/-- The paths of a built document are those assembled from the operations. -/
theorem getD_paths_eq (exchanges : List Exchange) (warnings : List String) :
    ((buildDocument exchanges warnings).1.get "paths").getD .null =
      .object (pathsOf (groupExchanges exchanges).operations).entries := by
  rw [buildDocument_eq, documentOf_get_paths, Option.getD_some]

/-- A path item has no two members of one name. -/
theorem nodup_keys_pathItem {operations : BTreeMap OperationKey OperationAcc} {route : String}
    {item : Value} (h : (pathsOf operations).get route = some item) : item.keys.Nodup := by
  rw [pathsOf_get] at h
  split_ifs at h
  obtain rfl := Option.some.inj h
  exact BTreeMap.nodup_keys _

/-- The operations are listed once each. -/
theorem nodup_operationsIn :
    ((operationsIn (buildDocument exchanges warnings).1).map Prod.fst).Nodup := by
  refine nodup_nest ?_ fun e he => ?_
  · rw [getD_paths_eq]
    exact BTreeMap.nodup_keys _
  · rw [getD_paths_eq] at he
    exact nodup_keys_pathItem ((BTreeMap.mem_entries_iff _).mp he)

/-- The operations counted in a document are those that can be looked up. -/
theorem mem_operationsIn_iff {route method : String} {operation : Value} :
    ((route, method), operation) ∈ operationsIn (buildDocument exchanges warnings).1 ↔
      operationAt (buildDocument exchanges warnings).1 route method = some operation := by
  have hpaths := getD_paths_eq exchanges warnings
  have hkeys : (((buildDocument exchanges warnings).1.get "paths").getD .null).keys.Nodup := by
    rw [hpaths]
    exact BTreeMap.nodup_keys _
  have hget : (buildDocument exchanges warnings).1.get "paths" =
      some (((buildDocument exchanges warnings).1.get "paths").getD .null) := by
    rw [hpaths, buildDocument_eq, documentOf_get_paths]
  rw [operationsIn, mem_nest_iff, operationAt, hget, Option.bind_some, Option.bind_eq_some_iff]
  refine exists_congr fun item => ?_
  rw [Option.getD_some, Value.mem_members_iff hkeys]
  refine and_congr_right fun hitem => Value.mem_members_iff ?_
  rw [hpaths] at hitem
  exact nodup_keys_pathItem hitem

/-- The responses of an operation are those of its accumulator. -/
theorem get_responses_eq {route method : String} {operation : Value}
    (h : operationAt (buildDocument exchanges warnings).1 route method = some operation) :
    operation.get "responses" =
      some (.object (responsesOf (operationAcc ⟨route, method⟩ exchanges)).entries) := by
  rw [eq_operationOf_of_operationAt h, operationOf_get, if_pos rfl]

/-- The responses are listed once each. -/
theorem nodup_responsesIn :
    ((responsesIn (buildDocument exchanges warnings).1).map Prod.fst).Nodup := by
  refine nodup_nest nodup_operationsIn ?_
  rintro ⟨⟨route, method⟩, operation⟩ hmem
  rw [get_responses_eq (mem_operationsIn_iff.mp hmem), Option.getD_some]
  exact BTreeMap.nodup_keys _

/-- The responses counted in a document are those that can be looked up. -/
theorem mem_responsesIn_iff {route method code : String} {response : Value} :
    (((route, method), code), response) ∈ responsesIn (buildDocument exchanges warnings).1 ↔
      responseAt (buildDocument exchanges warnings).1 route method code = some response := by
  rw [responsesIn, mem_nest_iff, responseAt, Option.bind_eq_some_iff]
  simp only [mem_operationsIn_iff, Option.bind_eq_some_iff]
  constructor
  · rintro ⟨operation, hoperation, hmem⟩
    have hresponses := get_responses_eq hoperation
    rw [hresponses, Option.getD_some] at hmem
    exact ⟨_, ⟨operation, hoperation, hresponses⟩, (BTreeMap.mem_entries_iff _).mp hmem⟩
  · rintro ⟨responses, ⟨operation, hoperation, hget⟩, hresponse⟩
    obtain rfl := Option.some.inj (hget.symm.trans (get_responses_eq hoperation))
    refine ⟨operation, hoperation, ?_⟩
    rw [hget, Option.getD_some]
    exact (BTreeMap.mem_entries_iff _).mpr hresponse

/-! ## Counting -/

/-- Where a completed exchange is counted. -/
def countedAt (c : Exchange × Nat) : (String × String) × String :=
  ((c.1.routeTemplate, toAsciiLowercase c.1.method.asStr), toString c.2)

/-- There are as many completed exchanges as exchanges with a status. -/
theorem length_completed (exchanges : List Exchange) :
    (completed exchanges).length = (exchanges.filter (·.response.status.isSome)).length := by
  rw [completed, List.length_filterMap_eq_countP, List.countP_eq_length_filter]
  simp only [Option.isSome_map]

/-- A response counts the exchanges that are counted there. -/
theorem sampleCount_of_responseAt {route method code : String} {response : Value}
    (h : responseAt (buildDocument exchanges warnings).1 route method code = some response) :
    sampleCount response =
      ((completed exchanges).filter (countedAt · = ((route, method), code))).length := by
  obtain ⟨status, rfl⟩ := eq_toString_of_responseAt (h ▸ Option.some_ne_none response)
  have hcount : sampleCount response =
      (observedWith ⟨route, method⟩ status exchanges).length := by
    rw [eq_responseObject_of_responseAt h, sampleCount, responseObject_get_samples]
    rfl
  rw [hcount, ← map_fst_completed_filter_filter, List.length_map, List.filter_filter]
  refine congrArg List.length (List.filter_congr fun c _ => ?_)
  simp only [countedAt, Prod.mk.injEq, toString_injective.eq_iff, Exchange.operationKey,
    OperationKey.mk.injEq, Bool.decide_and, Bool.and_comm]

/-- The request body of an operation counts the JSON request bodies there. -/
theorem requestCount_of_operationAt {route method : String} {operation : Value}
    (h : operationAt (buildDocument exchanges warnings).1 route method = some operation) :
    requestCount operation = (requestBodies (observedAt ⟨route, method⟩ exchanges)).length := by
  rw [eq_operationOf_of_operationAt h, requestCount, operationOf_get_requestBody]
  split_ifs with hempty
  · rw [List.isEmpty_iff.mp hempty]
    rfl
  · rw [Option.map_some, Option.getD_some, sampleCount, requestBodyObject_get_samples,
      operationAcc_requestSamples]
    rfl

/-- The sample counts of all responses add up to the number of exchanges with a status, and
those of all request bodies to the number of JSON request bodies among them. -/
theorem samples_conserved (exchanges : List Exchange) (warnings : List String) :
    ((responsesIn (buildDocument exchanges warnings).1).map (sampleCount ·.2)).sum =
        (exchanges.filter (·.response.status.isSome)).length ∧
      ((operationsIn (buildDocument exchanges warnings).1).map (requestCount ·.2)).sum =
        (requestBodies (exchanges.filter (·.response.status.isSome))).length := by
  constructor
  · have hall : ∀ c ∈ completed exchanges,
        countedAt c ∈ (responsesIn (buildDocument exchanges warnings).1).map Prod.fst := by
      rintro ⟨e, status⟩ hc
      obtain ⟨he, hstatus⟩ := mem_completed_iff.mp hc
      obtain ⟨response, hresponse⟩ := Option.ne_none_iff_exists'.mp
        ((responseAt_ne_none_iff exchanges warnings _ _ _).mpr
          ⟨e, he, status, hstatus, rfl, rfl, rfl⟩)
      exact List.mem_map.mpr ⟨_, mem_responsesIn_iff.mpr hresponse, rfl⟩
    rw [← length_completed, ← sum_length_filter countedAt nodup_responsesIn hall, List.map_map]
    refine congrArg List.sum (List.map_congr_left ?_)
    rintro ⟨⟨⟨route, method⟩, code⟩, response⟩ hmem
    exact sampleCount_of_responseAt (mem_responsesIn_iff.mp hmem)
  · let sent := exchanges.filter fun e => e.response.status.isSome && e.request.body.json?.isSome
    let operation (e : Exchange) := (e.routeTemplate, toAsciiLowercase e.method.asStr)
    have hsent : (requestBodies (exchanges.filter (·.response.status.isSome))).length =
        sent.length := by
      rw [requestBodies, List.length_filterMap_eq_countP, List.countP_eq_length_filter,
        List.filter_filter]
      simp only [sent, Bool.and_comm]
    have hall : ∀ e ∈ sent,
        operation e ∈ (operationsIn (buildDocument exchanges warnings).1).map Prod.fst := by
      intro e he
      obtain ⟨hmem, hcounted⟩ := List.mem_filter.mp he
      rw [Bool.and_eq_true, Option.isSome_iff_ne_none] at hcounted
      obtain ⟨object, hobject⟩ := Option.ne_none_iff_exists'.mp
        ((operationAt_ne_none_iff exchanges warnings _ _).mpr ⟨e, hmem, hcounted.1, rfl, rfl⟩)
      exact List.mem_map.mpr ⟨_, mem_operationsIn_iff.mpr hobject, rfl⟩
    rw [hsent, ← sum_length_filter operation nodup_operationsIn hall, List.map_map]
    refine congrArg List.sum (List.map_congr_left ?_)
    rintro ⟨⟨route, method⟩, object⟩ hmem
    have hcount := requestCount_of_operationAt (mem_operationsIn_iff.mp hmem)
    rw [requestBodies, List.length_filterMap_eq_countP, List.countP_eq_length_filter, observedAt,
      List.filter_filter] at hcount
    refine hcount.trans ?_
    simp only [Function.comp_apply, sent, List.filter_filter]
    refine congrArg List.length (List.filter_congr fun e _ => ?_)
    simp only [operation, Exchange.operationKey, Prod.mk.injEq, OperationKey.mk.injEq]
    cases e.response.status.isSome <;> cases e.request.body.json?.isSome <;> simp

/-- Two answered requests and one that was not: two samples. -/
example : ((responsesIn (buildDocument
    [exchangeWithJsonResponse "/users" Method.get 200 .null,
      exchangeWithJsonResponse "/users" Method.post 200 .null,
      Exchange.new Method.get "/users" none] []).1).map (sampleCount ·.2)).sum = 2 := by
  decide

end Cyanotype
