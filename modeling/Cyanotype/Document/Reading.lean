import Cyanotype.Document.Accumulate

/-!
# Reading the built document

What a lookup in the document of `buildDocument` finds, for every operation,
response and definition, and which pairs its notice names.
-/

namespace Cyanotype

/-- Status codes are written without collision. -/
theorem toString_injective : Function.Injective (toString : Nat → String) := by
  intro a b h
  have hdigits := congrArg String.toList h
  rw [Nat.toString_eq_ofList_toDigits, Nat.toString_eq_ofList_toDigits, String.toList_ofList,
    String.toList_ofList] at hdigits
  rw [← Nat.ofDigitChars_ten_toDigits (n := a), hdigits, Nat.ofDigitChars_ten_toDigits]

/-! ## One operation -/

/-- The pairs of an operation below the threshold, as the notice names them. -/
def belowEntries (key : OperationKey) (acc : OperationAcc) : List String :=
  (acc.byStatus.entries.filter fun e => e.2.sampleCount < minSamplesForRequired).map fun e =>
    noticeEntry key e.1

/-- The responses of an operation under their status codes. -/
def responsesOf (acc : OperationAcc) : BTreeMap String Value :=
  acc.byStatus.entries.foldl (fun m e => m.insert (toString e.1) (responseObject e.1 e.2)) .empty

/-- The operation object by itself. -/
def operationOf (key : OperationKey) (acc : OperationAcc) : Value := (operationObject key acc []).1

private theorem foldl_recordStatus (key : OperationKey) (entries : List (Nat × StatusAcc))
    (acc : BTreeMap String Value × List String) :
    entries.foldl (recordStatus key) acc =
      (entries.foldl (fun m e => m.insert (toString e.1) (responseObject e.1 e.2)) acc.1,
        acc.2 ++ (entries.filter fun e => e.2.sampleCount < minSamplesForRequired).map fun e =>
          noticeEntry key e.1) := by
  induction entries generalizing acc with
  | nil => simp
  | cons e entries ih =>
    rw [List.foldl_cons, ih]
    by_cases hbelow : e.2.sampleCount < minSamplesForRequired <;> simp [recordStatus, hbelow]

/-- The notice entries of an operation do not depend on those before it. -/
theorem operationObject_eq (key : OperationKey) (acc : OperationAcc) (below : List String) :
    operationObject key acc below = (operationOf key acc, below ++ belowEntries key acc) := by
  simp only [operationOf, operationObject, foldl_recordStatus, belowEntries]

private theorem responsesOf_get_eq (acc : OperationAcc) (code : String) :
    (responsesOf acc).get code = SortedMap.get (acc.byStatus.entries.map fun e =>
      (toString e.1, responseObject e.1 e.2)) code := by
  have hkeys : ((acc.byStatus.entries.map fun e =>
      (toString e.1, responseObject e.1 e.2)).map Prod.fst).Nodup := by
    have hmap := acc.byStatus.nodup_keys.map toString_injective
    rwa [List.map_map] at hmap ⊢
  have hfold : responsesOf acc =
      (acc.byStatus.entries.map fun e => (toString e.1, responseObject e.1 e.2)).foldl
        (fun m e => m.insert e.1 e.2) .empty := by
    rw [List.foldl_map]
    rfl
  rw [hfold, BTreeMap.get_foldl_insert_of_nodup hkeys, BTreeMap.get_empty, Option.or_none]

/-- Each status has its response under its code. -/
theorem responsesOf_get (acc : OperationAcc) (status : Nat) :
    (responsesOf acc).get (toString status) =
      (acc.byStatus.get status).map (responseObject status) := by
  rw [responsesOf_get_eq, SortedMap.get_map_of_injective toString_injective]
  rfl

/-- Only status codes occur among the responses. -/
theorem eq_toString_of_responsesOf_get {acc : OperationAcc} {code : String}
    (h : (responsesOf acc).get code ≠ none) : ∃ status : Nat, code = toString status := by
  rw [responsesOf_get_eq, SortedMap.get_ne_none_iff, List.map_map] at h
  obtain ⟨e, _, rfl⟩ := List.mem_map.mp h
  exact ⟨e.1, rfl⟩

private theorem get_operation_fields (responses : Value) (k : String) :
    (Value.ofFields [("responses", responses)]).get k =
      if k = "responses" then some responses else none := by
  rw [Value.get_ofFields (by simp), SortedMap.get_cons, SortedMap.get_nil]

/-- The operation object, member by member. -/
theorem operationOf_eq (key : OperationKey) (acc : OperationAcc) :
    operationOf key acc =
      let operation := Value.ofFields [("responses", .object (responsesOf acc).entries)]
      let operation :=
        if acc.requestSamples.isEmpty then operation
        else operation.setField "requestBody" (requestBodyObject acc)
      let operation :=
        if (pathParameters key.route).isEmpty then operation
        else operation.setField "parameters" (.array (pathParameters key.route))
      if acc.securitySchemes.isEmpty then operation
      else operation.setField "security" (.array
        (acc.securitySchemes.entries.map fun e => Value.ofFields [(e.1, .array [])])) := by
  unfold operationOf operationObject
  rw [foldl_recordStatus]
  rfl

/-- Reading a member of an operation object. -/
theorem operationOf_get (key : OperationKey) (acc : OperationAcc) (k : String) :
    (operationOf key acc).get k =
      if k = "responses" then some (.object (responsesOf acc).entries)
      else if k = "requestBody" then
        if acc.requestSamples.isEmpty then none else some (requestBodyObject acc)
      else if k = "parameters" then
        if (pathParameters key.route).isEmpty then none
        else some (.array (pathParameters key.route))
      else if k = "security" then
        if acc.securitySchemes.isEmpty then none
        else some (.array (acc.securitySchemes.entries.map fun e =>
          Value.ofFields [(e.1, .array [])]))
      else none := by
  have hresponses : ∀ r : Value, (Value.ofFields [("responses", r)]).isObject = true :=
    fun _ => rfl
  rw [operationOf_eq]
  simp only
  rw [Value.get_unless_setField (Value.isObject_unless_setField
      (Value.isObject_unless_setField (hresponses _) _ _ _) _ _ _),
    Value.get_unless_setField (Value.isObject_unless_setField (hresponses _) _ _ _),
    Value.get_unless_setField (hresponses _), get_operation_fields]
  by_cases hsecurity : k = "security"
  · simp [hsecurity]
  · by_cases hparameters : k = "parameters"
    · simp [hparameters]
    · by_cases hbody : k = "requestBody"
      · simp [hbody]
      · simp [hsecurity, hparameters, hbody]

/-- The members of a response object that depend on the exchanges. -/
theorem responseObject_get_samples (status : Nat) (acc : StatusAcc) :
    (responseObject status acc).get "x-cyanotype-samples" = some (.ofNat acc.sampleCount) := by
  unfold responseObject
  cases acc.schema with
  | none => rw [Value.get_ofFields (by simp)]; simp [SortedMap.get_cons]
  | some schema =>
    rw [Value.get_setField (by simp), Value.get_ofFields (by simp)]
    simp [SortedMap.get_cons]

/-- A response has content exactly when there is a schema for it. -/
theorem responseObject_get_content (status : Nat) (acc : StatusAcc) :
    (responseObject status acc).get "content" = acc.schema.map jsonContent := by
  unfold responseObject
  cases acc.schema with
  | none => rw [Value.get_ofFields (by simp)]; simp [SortedMap.get_cons]
  | some schema => rw [Value.get_setField (by simp)]; simp

/-- Reading the schema of a response. -/
theorem contentSchema_responseObject (status : Nat) (acc : StatusAcc) :
    contentSchema (responseObject status acc) = acc.schema := by
  unfold contentSchema
  rw [responseObject_get_content]
  cases acc.schema <;> rfl

/-! ## The paths -/

/-- The path items of all operations. -/
def pathsOf (operations : BTreeMap OperationKey OperationAcc) : BTreeMap String Value :=
  operations.entries.foldl (fun m e => m.upsert e.1.route (Value.ofFields [])
    (·.setField e.1.method (operationOf e.1 e.2))) .empty

/-- The pairs of all operations that the notice names. -/
def noticeEntries (operations : BTreeMap OperationKey OperationAcc) : List String :=
  operations.entries.flatMap fun e => belowEntries e.1 e.2

private theorem foldl_addOperation (entries : List (OperationKey × OperationAcc))
    (acc : BTreeMap String Value × List String) :
    entries.foldl addOperation acc =
      (entries.foldl (fun m e => m.upsert e.1.route (Value.ofFields [])
          (·.setField e.1.method (operationOf e.1 e.2))) acc.1,
        acc.2 ++ entries.flatMap fun e => belowEntries e.1 e.2) := by
  induction entries generalizing acc with
  | nil => simp
  | cons e entries ih =>
    rw [List.foldl_cons, ih]
    simp [addOperation, operationObject_eq]

/-- The two results of the loop over the operations. -/
theorem assemblePaths_eq (acc : DocumentAcc) :
    assemblePaths acc = (pathsOf acc.operations, noticeEntries acc.operations) := by
  rw [assemblePaths, foldl_addOperation, List.nil_append, pathsOf, noticeEntries]

/-- The operations of a route under their methods. -/
def methodsOf (operations : BTreeMap OperationKey OperationAcc) (route : String) :
    BTreeMap String Value :=
  (operations.entries.filter (·.1.route = route)).foldl
    (fun m e => m.insert e.1.method (operationOf e.1 e.2)) .empty

/-- A path item holds the operations of its route. -/
theorem pathsOf_get (operations : BTreeMap OperationKey OperationAcc) (route : String) :
    (pathsOf operations).get route =
      if operations.entries.filter (·.1.route = route) = [] then none
      else some (.object (methodsOf operations route).entries) := by
  have hfold := Value.foldl_setField (fun e : OperationKey × OperationAcc => e.1.method)
    (fun e => operationOf e.1 e.2) (operations.entries.filter (·.1.route = route)) .empty
  unfold pathsOf methodsOf
  rw [BTreeMap.get_foldl_upsert_empty, ← hfold]
  rfl

private theorem mem_routeEntries_iff {operations : BTreeMap OperationKey OperationAcc}
    {route : String} {e : OperationKey × OperationAcc} :
    e ∈ operations.entries.filter (·.1.route = route) ↔
      e.1 = ⟨route, e.1.method⟩ ∧ operations.get ⟨route, e.1.method⟩ = some e.2 := by
  obtain ⟨⟨r, m⟩, acc⟩ := e
  simp only [List.mem_filter, decide_eq_true_eq, BTreeMap.mem_entries_iff, OperationKey.mk.injEq,
    and_true]
  constructor
  · rintro ⟨hget, rfl⟩
    exact ⟨rfl, hget⟩
  · rintro ⟨rfl, hget⟩
    exact ⟨hget, rfl⟩

/-- A route has a path item exactly when some operation has the route. -/
theorem pathsOf_get_ne_none_iff (operations : BTreeMap OperationKey OperationAcc)
    (route : String) :
    (pathsOf operations).get route ≠ none ↔
      ∃ method, operations.get ⟨route, method⟩ ≠ none := by
  rw [pathsOf_get]
  constructor
  · intro h
    split_ifs at h with hnil
    · exact absurd rfl h
    · obtain ⟨e, he⟩ := List.exists_mem_of_ne_nil _ hnil
      exact ⟨e.1.method, by simp [(mem_routeEntries_iff.mp he).2]⟩
  · rintro ⟨method, hget⟩
    obtain ⟨acc, hacc⟩ := Option.ne_none_iff_exists'.mp hget
    have hmem := mem_routeEntries_iff (e := (⟨route, method⟩, acc)) |>.mpr ⟨rfl, hacc⟩
    rw [if_neg (List.ne_nil_of_mem hmem)]
    exact Option.some_ne_none _

private theorem nodup_routeEntries (operations : BTreeMap OperationKey OperationAcc)
    (route : String) :
    (((operations.entries.filter (·.1.route = route)).map fun e =>
      (e.1.method, operationOf e.1 e.2)).map Prod.fst).Nodup := by
  rw [List.map_map]
  refine List.Nodup.map_on ?_ (operations.nodup_keys.of_map.filter _)
  intro a ha b hb hmethod
  obtain ⟨hkeya, hgeta⟩ := mem_routeEntries_iff.mp ha
  obtain ⟨hkeyb, hgetb⟩ := mem_routeEntries_iff.mp hb
  have hm : a.1.method = b.1.method := hmethod
  rw [hm] at hkeya hgeta
  exact Prod.ext (hkeya.trans hkeyb.symm) (Option.some.inj (hgeta.symm.trans hgetb))

/-- No operation of a path item hides another: each method has its own operation. -/
theorem methodsOf_get (operations : BTreeMap OperationKey OperationAcc) (route method : String) :
    (methodsOf operations route).get method =
      (operations.get ⟨route, method⟩).map (operationOf ⟨route, method⟩) := by
  have hkeys := nodup_routeEntries operations route
  have hfold : methodsOf operations route =
      ((operations.entries.filter (·.1.route = route)).map fun e =>
        (e.1.method, operationOf e.1 e.2)).foldl (fun m e => m.insert e.1 e.2) .empty := by
    rw [List.foldl_map]
    rfl
  rw [hfold, BTreeMap.get_foldl_insert_of_nodup hkeys, BTreeMap.get_empty, Option.or_none]
  cases hget : operations.get ⟨route, method⟩ with
  | none =>
    rw [Option.map_none]
    by_contra hne
    obtain ⟨e, he, rfl⟩ := List.mem_map.mp (SortedMap.get_ne_none_iff.mp hne)
    obtain ⟨a, ha, rfl⟩ := List.mem_map.mp he
    exact Option.some_ne_none _ ((mem_routeEntries_iff.mp ha).2.symm.trans hget)
  | some acc =>
    have hmem : ((⟨route, method⟩, acc) : OperationKey × OperationAcc) ∈
        operations.entries.filter (·.1.route = route) := mem_routeEntries_iff.mpr ⟨rfl, hget⟩
    rw [Option.map_some,
      (SortedMap.get_eq_some_iff_of_nodup hkeys).mpr (List.mem_map.mpr ⟨_, hmem, rfl⟩)]

/-- Reading the operation of a route and method. -/
theorem pathsOf_get_method (operations : BTreeMap OperationKey OperationAcc)
    (route method : String) :
    ((pathsOf operations).get route).bind (·.get method) =
      (operations.get ⟨route, method⟩).map (operationOf ⟨route, method⟩) := by
  rw [← methodsOf_get, pathsOf_get]
  split_ifs with hnil
  · rw [methodsOf, hnil]
    rfl
  · rfl

/-! ## The document -/

/-- A document with given paths, components and warnings. -/
def documentOf (paths : Value) (components : Option Value) (warnings : List String) : Value :=
  let doc := Value.ofFields
    [("openapi", .string "3.1.0"),
      ("info", Value.ofFields
        [("title", .string "Recorded API"), ("version", .string "0.0.0"),
          ("x-cyanotype-generator", .string ("cyanotype/" ++ generatorVersion))]),
      ("paths", paths)]
  let doc :=
    if warnings.isEmpty then doc
    else doc.updateField "info"
      (·.setField "x-cyanotype-warnings" (.array (warnings.map .string)))
  match components with
  | some components => doc.setField "components" components
  | none => doc

/-- The warnings a document carries: those given, then the notice. -/
def allWarnings (exchanges : List Exchange) (warnings : List String) : List String :=
  if (noticeEntries (groupExchanges exchanges).operations).isEmpty then warnings
  else warnings ++ [belowThresholdNotice (noticeEntries (groupExchanges exchanges).operations)]

/-- The built document, in terms of what the grouping pass accumulates. -/
theorem buildDocument_eq (exchanges : List Exchange) (warnings : List String) :
    buildDocument exchanges warnings =
      (documentOf (.object (pathsOf (groupExchanges exchanges).operations).entries)
        (components (groupExchanges exchanges)) (allWarnings exchanges warnings),
        allWarnings exchanges warnings) := by
  simp only [buildDocument, assemblePaths_eq, allWarnings, documentOf]
  rfl

/-- The version of a document. -/
theorem documentOf_get_openapi (paths : Value) (components : Option Value)
    (warnings : List String) :
    (documentOf paths components warnings).get "openapi" = some (.string "3.1.0") := by
  unfold documentOf Value.updateField
  cases components <;> by_cases hw : warnings.isEmpty = true <;>
    simp [hw, Value.get_setField, Value.get_ofFields, SortedMap.get_cons]

/-- The paths of a document. -/
theorem documentOf_get_paths (paths : Value) (components : Option Value)
    (warnings : List String) : (documentOf paths components warnings).get "paths" = some paths := by
  unfold documentOf Value.updateField
  cases components <;> by_cases hw : warnings.isEmpty = true <;>
    simp [hw, Value.get_setField, Value.get_ofFields, SortedMap.get_cons]

/-- The components of a document. -/
theorem documentOf_get_components (paths : Value) (components : Option Value)
    (warnings : List String) :
    (documentOf paths components warnings).get "components" = components := by
  unfold documentOf Value.updateField
  cases components <;> by_cases hw : warnings.isEmpty = true <;>
    simp [hw, Value.get_setField, Value.get_ofFields, SortedMap.get_cons]

/-- A route has a path item exactly when some completed exchange has the route. -/
theorem buildDocument_route_iff (exchanges : List Exchange) (warnings : List String)
    (route : String) :
    ((buildDocument exchanges warnings).1.get "paths").bind (·.get route) ≠ none ↔
      ∃ method, observedAt ⟨route, method⟩ exchanges ≠ [] := by
  rw [buildDocument_eq, documentOf_get_paths, Option.bind_some, Value.get_object,
    BTreeMap.get_entries, pathsOf_get_ne_none_iff]
  simp only [groupExchanges_operations_get]
  refine exists_congr fun method => ?_
  split_ifs with h <;> simp [h]

/-- The operation of a route and method is the one accumulated for them. -/
theorem operationAt_buildDocument (exchanges : List Exchange) (warnings : List String)
    (route method : String) :
    operationAt (buildDocument exchanges warnings).1 route method =
      if observedAt ⟨route, method⟩ exchanges = [] then none
      else some (operationOf ⟨route, method⟩ (operationAcc ⟨route, method⟩ exchanges)) := by
  unfold operationAt
  rw [buildDocument_eq, documentOf_get_paths, Option.bind_some, Value.get_object,
    BTreeMap.get_entries, pathsOf_get_method, groupExchanges_operations_get]
  split_ifs <;> rfl

/-- The response of a pair is built from exactly the exchanges answered so. -/
theorem responseAt_buildDocument (exchanges : List Exchange) (warnings : List String)
    (route method : String) (status : Nat) :
    responseAt (buildDocument exchanges warnings).1 route method (toString status) =
      if observedWith ⟨route, method⟩ status exchanges = [] then none
      else some (responseObject status
        (StatusAcc.of (observedWith ⟨route, method⟩ status exchanges))) := by
  unfold responseAt
  rw [operationAt_buildDocument]
  by_cases hat : observedAt ⟨route, method⟩ exchanges = []
  · rw [if_pos hat, if_pos (observedWith_eq_nil hat status)]
    rfl
  · rw [if_neg hat, Option.bind_some, operationOf_get, if_pos rfl, Option.bind_some,
      Value.get_object, BTreeMap.get_entries, responsesOf_get, operationAcc_byStatus_get]
    split_ifs <;> rfl

/-- The schema inferred from some bodies, if there are any. -/
def inferredSchema (bodies : List Value) : Option Value :=
  if bodies.isEmpty then none else some (inferSchema bodies)

/-- The schema of a pair is the one declared first among its exchanges, or else inferred. -/
theorem contentSchema_buildDocument (exchanges : List Exchange) (warnings : List String)
    (route method : String) (status : Nat) :
    (responseAt (buildDocument exchanges warnings).1 route method (toString status)).bind
        contentSchema =
      ((firstDeclaration (observedWith ⟨route, method⟩ status exchanges)).map (·.schema)).or
        (inferredSchema (responseBodies (observedWith ⟨route, method⟩ status exchanges))) := by
  rw [responseAt_buildDocument]
  split_ifs with hnil
  · rw [hnil]
    rfl
  · rw [Option.bind_some, contentSchema_responseObject]
    unfold StatusAcc.schema StatusAcc.of inferredSchema
    cases firstDeclaration (observedWith ⟨route, method⟩ status exchanges) <;> rfl

/-- Responses are only found under status codes. -/
theorem eq_toString_of_responseAt {exchanges : List Exchange} {warnings : List String}
    {route method code : String}
    (h : responseAt (buildDocument exchanges warnings).1 route method code ≠ none) :
    ∃ status : Nat, code = toString status := by
  unfold responseAt at h
  rw [operationAt_buildDocument] at h
  split_ifs at h with hat
  · exact absurd rfl h
  · rw [Option.bind_some, operationOf_get, if_pos rfl, Option.bind_some, Value.get_object] at h
    exact eq_toString_of_responsesOf_get h

/-- The components hold the entries of either map under its field, unless it is empty. -/
theorem components_get (acc : DocumentAcc) (field : String) :
    (components acc).bind (·.get field) =
      if field = "schemas" then
        if acc.componentSchemas.isEmpty then none else some (.object acc.componentSchemas.entries)
      else if field = "securitySchemes" then
        if acc.securitySchemeDefs.isEmpty then none
        else some (.object acc.securitySchemeDefs.entries)
      else none := by
  unfold components
  have hne : ∀ {field : String}, field = "schemas" → field ≠ "securitySchemes" := by
    rintro _ rfl
    decide
  by_cases hschemas : acc.componentSchemas.isEmpty = true
  · by_cases hsecurity : acc.securitySchemeDefs.isEmpty = true
    · simp [hschemas, hsecurity]
    · simpa [hschemas, hsecurity, Value.get_setField, Value.get_ofFields] using hne
  · by_cases hsecurity : acc.securitySchemeDefs.isEmpty = true
    · simp [hschemas, hsecurity, Value.get_setField, Value.get_ofFields]
    · simp [hschemas, hsecurity, Value.get_setField, Value.get_ofFields]

/-- Leaving out an empty map loses no entry. -/
theorem get_object_unless_isEmpty (m : BTreeMap String Value) (name : String) :
    (if m.isEmpty then none else some (Value.object m.entries)).bind (·.get name) = m.get name := by
  by_cases hempty : m.isEmpty = true
  · rw [if_pos hempty, (BTreeMap.isEmpty_iff _).mp hempty name]
    rfl
  · rw [if_neg hempty]
    rfl

/-- A definition of the document is the one the grouping pass kept. -/
theorem componentSchema_buildDocument (exchanges : List Exchange) (warnings : List String)
    (name : String) :
    componentSchema (buildDocument exchanges warnings).1 name =
      (groupExchanges exchanges).componentSchemas.get name := by
  rw [componentSchema, buildDocument_eq, documentOf_get_components, components_get, if_pos rfl,
    get_object_unless_isEmpty]

end Cyanotype
