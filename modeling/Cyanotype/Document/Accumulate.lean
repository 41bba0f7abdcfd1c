import Cyanotype.Document.Openapi

/-!
# What the grouping pass accumulates

The accumulator of an operation, of a status and of the components is given
directly in terms of the exchanges behind it.
-/

namespace Cyanotype

/-! ## The exchanges behind a group -/

/-- The exchanges whose response has a status, with that status. -/
def completed (exchanges : List Exchange) : List (Exchange × Nat) :=
  exchanges.filterMap fun e => e.response.status.map (e, ·)

/-- The completed exchanges of an operation. -/
def observedAt (key : OperationKey) (exchanges : List Exchange) : List Exchange :=
  exchanges.filter fun e => e.response.status.isSome && decide (e.operationKey = key)

/-- The exchanges of an operation that were answered with a status. -/
def observedWith (key : OperationKey) (status : Nat) (exchanges : List Exchange) : List Exchange :=
  exchanges.filter fun e =>
    decide (e.response.status = some status) && decide (e.operationKey = key)

/-- The JSON request bodies of some exchanges. -/
def requestBodies (exchanges : List Exchange) : List Value :=
  exchanges.filterMap (·.request.body.json?)

/-- The JSON response bodies of some exchanges. -/
def responseBodies (exchanges : List Exchange) : List Value :=
  exchanges.filterMap (·.response.body.json?)

/-- The declaration that comes first among some exchanges. -/
def firstDeclaration (exchanges : List Exchange) : Option Declaration :=
  exchanges.findSome? (·.declaredResponseSchema)

/-- Completed exchanges are listed with their statuses. -/
theorem mem_completed_iff {exchanges : List Exchange} {e : Exchange} {status : Nat} :
    (e, status) ∈ completed exchanges ↔ e ∈ exchanges ∧ e.response.status = some status := by
  unfold completed
  simp only [List.mem_filterMap, Option.map_eq_some_iff, Prod.mk.injEq]
  constructor
  · rintro ⟨e, he, s, hs, rfl, rfl⟩
    exact ⟨he, hs⟩
  · rintro ⟨he, hs⟩
    exact ⟨e, he, status, hs, rfl, rfl⟩

/-- An exchange belongs to an operation when it is completed there. -/
theorem mem_observedAt_iff {key : OperationKey} {exchanges : List Exchange} {e : Exchange} :
    e ∈ observedAt key exchanges ↔
      e ∈ exchanges ∧ e.response.status ≠ none ∧ e.operationKey = key := by
  unfold observedAt
  rw [List.mem_filter, Bool.and_eq_true, decide_eq_true_iff, Option.isSome_iff_ne_none]

/-- An exchange belongs to a pair when it was answered with its status at its operation. -/
theorem mem_observedWith_iff {key : OperationKey} {status : Nat} {exchanges : List Exchange}
    {e : Exchange} :
    e ∈ observedWith key status exchanges ↔
      e ∈ exchanges ∧ e.response.status = some status ∧ e.operationKey = key := by
  unfold observedWith
  rw [List.mem_filter, Bool.and_eq_true, decide_eq_true_iff, decide_eq_true_iff]

/-- An operation that was not observed has no responses. -/
theorem observedWith_eq_nil {key : OperationKey} {exchanges : List Exchange}
    (h : observedAt key exchanges = []) (status : Nat) :
    observedWith key status exchanges = [] := by
  refine List.eq_nil_iff_forall_not_mem.mpr fun e he => ?_
  obtain ⟨hmem, hstatus, hkey⟩ := mem_observedWith_iff.mp he
  have hat : e ∈ observedAt key exchanges :=
    mem_observedAt_iff.mpr ⟨hmem, by simp [hstatus], hkey⟩
  rw [h] at hat
  exact List.not_mem_nil hat

/-- The completed exchanges of an operation, read off the completed ones. -/
theorem map_fst_completed_filter (key : OperationKey) (exchanges : List Exchange) :
    ((completed exchanges).filter (·.1.operationKey = key)).map Prod.fst =
      observedAt key exchanges := by
  induction exchanges with
  | nil => rfl
  | cons e exchanges ih =>
    unfold completed observedAt at ih ⊢
    cases hs : e.response.status with
    | none => simpa [hs] using ih
    | some s =>
      by_cases hk : e.operationKey = key
      · simpa [hs, hk] using ih
      · simpa [hs, hk] using ih

/-- The exchanges of a pair, read off the completed ones of its operation. -/
theorem map_fst_completed_filter_filter (key : OperationKey) (status : Nat)
    (exchanges : List Exchange) :
    (((completed exchanges).filter (·.1.operationKey = key)).filter (·.2 = status)).map Prod.fst =
      observedWith key status exchanges := by
  induction exchanges with
  | nil => rfl
  | cons e exchanges ih =>
    unfold completed observedWith at ih ⊢
    cases hs : e.response.status with
    | none => simpa [hs] using ih
    | some s =>
      by_cases hk : e.operationKey = key
      · by_cases hstatus : s = status
        · simpa [hs, hk, hstatus] using ih
        · simpa [hs, hk, hstatus] using ih
      · simpa [hs, hk] using ih

/-! ## One status -/

/-- The accumulator of a status, from the exchanges answered with it. -/
def StatusAcc.of (exchanges : List Exchange) : StatusAcc where
  sampleCount := exchanges.length
  jsonSamples := responseBodies exchanges
  declaredSchema := (firstDeclaration exchanges).map (·.schema)

private theorem StatusAcc.foldl_observe_from (exchanges : List Exchange) (acc : StatusAcc) :
    exchanges.foldl (fun acc e => acc.observe e) acc =
      { sampleCount := acc.sampleCount + exchanges.length
        jsonSamples := acc.jsonSamples ++ responseBodies exchanges
        declaredSchema :=
          acc.declaredSchema.or ((firstDeclaration exchanges).map (·.schema)) } := by
  induction exchanges generalizing acc with
  | nil => simp [responseBodies, firstDeclaration]
  | cons e exchanges ih =>
    obtain ⟨count, samples, declared⟩ := acc
    rw [List.foldl_cons, ih]
    cases hb : e.response.body <;> cases hd : e.declaredResponseSchema <;> cases declared <;>
      simp [StatusAcc.observe, responseBodies, firstDeclaration, BodyCapture.json?, hb, hd,
        Nat.add_comm, Nat.add_left_comm]

/-- Counting the responses of a status one by one. -/
theorem StatusAcc.foldl_observe (exchanges : List Exchange) :
    exchanges.foldl (fun acc e => acc.observe e) {} = StatusAcc.of exchanges := by
  rw [foldl_observe_from]
  simp [StatusAcc.of]

/-! ## One operation -/

/-- The accumulator of an operation, from all exchanges of a recording. -/
def operationAcc (key : OperationKey) (exchanges : List Exchange) : OperationAcc :=
  ((completed exchanges).filter (·.1.operationKey = key)).foldl (fun acc c => acc.observe c) {}

private theorem OperationAcc.foldl_observe (xs : List (Exchange × Nat)) (acc : OperationAcc) :
    xs.foldl (fun acc c => acc.observe c) acc =
      { byStatus := xs.foldl (fun m c => m.upsert c.2 {} (StatusAcc.observe c.1)) acc.byStatus
        securitySchemes := (xs.filterMap (·.1.security)).foldl
          (fun m scheme => m.insert scheme.componentName ()) acc.securitySchemes
        requestsObserved := acc.requestsObserved + xs.length
        requestSamples := acc.requestSamples ++ xs.filterMap (·.1.request.body.json?) } := by
  induction xs generalizing acc with
  | nil => simp
  | cons c xs ih =>
    obtain ⟨e, s⟩ := c
    rw [List.foldl_cons, ih]
    cases hb : e.request.body <;> cases hs : e.security <;>
      simp [OperationAcc.observe, BodyCapture.json?, hb, hs, Nat.add_comm, Nat.add_left_comm]

private theorem filterMap_fst {β : Type} (xs : List (Exchange × Nat)) (f : Exchange → Option β) :
    xs.filterMap (fun c => f c.1) = (xs.map Prod.fst).filterMap f := by
  rw [List.filterMap_map]
  rfl

/-- Every completed exchange of the operation is counted. -/
theorem operationAcc_requestsObserved (key : OperationKey) (exchanges : List Exchange) :
    (operationAcc key exchanges).requestsObserved = (observedAt key exchanges).length := by
  unfold operationAcc
  rw [OperationAcc.foldl_observe, ← map_fst_completed_filter, List.length_map]
  exact Nat.zero_add _

/-- The request samples are the JSON request bodies at every status. -/
theorem operationAcc_requestSamples (key : OperationKey) (exchanges : List Exchange) :
    (operationAcc key exchanges).requestSamples = requestBodies (observedAt key exchanges) := by
  unfold operationAcc requestBodies
  rw [OperationAcc.foldl_observe, ← map_fst_completed_filter, ← filterMap_fst]
  exact List.nil_append _

/-- Each status accumulates the exchanges answered with it. -/
theorem operationAcc_byStatus_get (key : OperationKey) (exchanges : List Exchange) (status : Nat) :
    (operationAcc key exchanges).byStatus.get status =
      if observedWith key status exchanges = [] then none
      else some (StatusAcc.of (observedWith key status exchanges)) := by
  unfold operationAcc
  rw [OperationAcc.foldl_observe]
  simp only
  rw [BTreeMap.get_foldl_upsert_empty, ← map_fst_completed_filter_filter]
  simp only [List.map_eq_nil_iff, ← StatusAcc.foldl_observe, List.foldl_map]

private theorem get_foldl_insert_unit {α : Type} (name : α → String) (xs : List α)
    (m : BTreeMap String Unit) (k : String) :
    (xs.foldl (fun m x => m.insert (name x) ()) m).get k =
      if k ∈ xs.map name then some () else m.get k := by
  induction xs generalizing m with
  | nil => simp
  | cons x xs ih =>
    rw [List.foldl_cons, ih, BTreeMap.get_insert]
    by_cases h : k = name x <;> simp [h]

/-- The scheme names of an operation are those of its exchanges. -/
theorem operationAcc_securitySchemes_get (key : OperationKey) (exchanges : List Exchange)
    (name : String) :
    (operationAcc key exchanges).securitySchemes.get name =
      if name ∈ ((observedAt key exchanges).filterMap (·.security)).map (·.componentName)
      then some () else none := by
  unfold operationAcc
  rw [OperationAcc.foldl_observe]
  simp only
  rw [get_foldl_insert_unit, filterMap_fst, map_fst_completed_filter]
  rfl

/-! ## The whole pass -/

/-- The named definitions of all declarations, in recording order. -/
def definitionEntries (exchanges : List Exchange) : List (String × Value) :=
  (completed exchanges).flatMap fun c =>
    (c.1.declaredResponseSchema.map (·.definitions.entries)).getD []

private theorem foldl_record (exchanges : List Exchange) (acc : DocumentAcc) :
    exchanges.foldl DocumentAcc.record acc =
      { operations := (completed exchanges).foldl
          (fun m c => m.upsert c.1.operationKey {} (OperationAcc.observe c)) acc.operations
        securitySchemeDefs := ((completed exchanges).filterMap (·.1.security)).foldl
          (fun m scheme => m.orInsert scheme.componentName scheme.toJson) acc.securitySchemeDefs
        componentSchemas := (definitionEntries exchanges).foldl
          (fun m e => m.orInsert e.1 e.2) acc.componentSchemas } := by
  induction exchanges generalizing acc with
  | nil => rfl
  | cons e exchanges ih =>
    rw [List.foldl_cons, ih]
    cases hs : e.response.status with
    | none => simp [DocumentAcc.record, completed, definitionEntries, hs]
    | some s =>
      cases hd : e.declaredResponseSchema <;> cases hsec : e.security <;>
        simp [DocumentAcc.record, completed, definitionEntries, hs, hd, hsec]

/-- An operation is present exactly when it was observed, with its own accumulator. -/
theorem groupExchanges_operations_get (exchanges : List Exchange) (key : OperationKey) :
    (groupExchanges exchanges).operations.get key =
      if observedAt key exchanges = [] then none else some (operationAcc key exchanges) := by
  unfold groupExchanges operationAcc
  rw [foldl_record]
  simp only
  rw [BTreeMap.get_foldl_upsert_empty, ← map_fst_completed_filter]
  simp only [List.map_eq_nil_iff]

/-- The definition of a name is the first one recorded under it. -/
theorem groupExchanges_componentSchemas_get (exchanges : List Exchange) (name : String) :
    (groupExchanges exchanges).componentSchemas.get name =
      ((definitionEntries exchanges).find? (·.1 = name)).map Prod.snd := by
  unfold groupExchanges
  rw [foldl_record]
  simp only
  rw [BTreeMap.get_foldl_orInsert, BTreeMap.get_empty, Option.none_or]

/-- The scheme of a component name is the first one recorded under it. -/
theorem groupExchanges_securitySchemeDefs_get (exchanges : List Exchange) (name : String) :
    (groupExchanges exchanges).securitySchemeDefs.get name =
      (((completed exchanges).filterMap (·.1.security)).find? (·.componentName = name)).map
        (·.toJson) := by
  unfold groupExchanges
  rw [foldl_record]
  simp only
  have hmap : ((completed exchanges).filterMap (·.1.security)).foldl
      (fun m scheme => m.orInsert scheme.componentName scheme.toJson)
        (BTreeMap.empty : BTreeMap String Value) =
      (((completed exchanges).filterMap (·.1.security)).map
        fun scheme => (scheme.componentName, scheme.toJson)).foldl
          (fun m e => m.orInsert e.1 e.2) .empty := by
    rw [List.foldl_map]
  rw [hmap, BTreeMap.get_foldl_orInsert, BTreeMap.get_empty, Option.none_or, List.find?_map,
    Option.map_map]
  rfl

end Cyanotype
