import Cyanotype.Document.References
import Cyanotype.Document.Soundness

/-!
# Recording order

Permuting the recorded exchanges changes the order inside `required`, the
choice of `examples`, and nothing else: the evidence at every place and the
accumulators of every group are unordered collections.
-/

namespace Cyanotype

open JsonSchema (Fragment)

/-! ## Inference -/

/-- Inferred schemas that differ in the order of `required` and in which
`examples` were kept, here and in the schemas below. -/
inductive SchemaAgrees : Value → Value → Prop
  | render (f g : Fragment) (type : f.type = g.type)
      (keys : f.properties.map (·.map Prod.fst) = g.properties.map (·.map Prod.fst))
      (properties : ∀ ps qs k s t, f.properties = some ps → g.properties = some qs →
        SortedMap.get ps k = some s → SortedMap.get qs k = some t → SchemaAgrees s t)
      (required : f.required.Perm g.required)
      (hasItems : f.items.isSome = g.items.isSome)
      (items : ∀ s t, f.items = some s → g.items = some t → SchemaAgrees s t)
      (examples : f.examples.isEmpty = g.examples.isEmpty) :
      SchemaAgrees f.render g.render

theorem nonNulls_perm {vs ws : List Value} (h : vs.Perm ws) : (nonNulls vs).Perm (nonNulls ws) :=
  h.filter _

/-- The common primitive type depends on which values occur, not on their order. -/
theorem commonPrimitiveType_perm {vs ws : List Value} (h : vs.Perm ws) :
    commonPrimitiveType vs = commonPrimitiveType ws := by
  apply Option.ext
  intro k
  rw [commonPrimitiveType_some_iff, commonPrimitiveType_some_iff]
  simp only [h.mem_iff]

theorem shapeOf_perm {vs ws : List Value} (h : vs.Perm ws) : shapeOf vs = shapeOf ws := by
  have hn := nonNulls_perm h
  unfold shapeOf
  rw [commonPrimitiveType_perm hn, hn.all_eq, hn.all_eq, hn.isEmpty_eq]

theorem typeValue_perm {vs ws : List Value} (h : vs.Perm ws) (name : String) :
    typeValue vs name = typeValue ws name := by
  unfold typeValue
  rw [h.any_eq]

theorem childValues_perm (st : Step) {vs ws : List Value} (h : vs.Perm ws) :
    (childValues st vs).Perm (childValues st ws) := by
  cases st with
  | key k => exact h.filterMap _
  | items => exact h.flatMap_right _

/-- The same keys are required, in whatever order they were first seen. -/
theorem requiredKeys_perm {vs ws : List Value} (h : vs.Perm ws) :
    (requiredKeys vs).Perm (requiredKeys ws) := by
  have hn := nonNulls_perm h
  refine (List.perm_ext_iff_of_nodup ((nodup_collectKeys _).filter _)
    ((nodup_collectKeys _).filter _)).mpr fun k => ?_
  simp only [List.mem_filter, mem_collectKeys, decide_eq_true_eq]
  simp only [isRequiredKey, hn.mem_iff, hn.length_eq, (hn.filterMap _).length_eq]

private theorem collectExamples_ne_nil {examples : List Value} (h : examples ≠ [])
    (vs : List Value) : collectExamples examples vs ≠ [] := by
  induction vs generalizing examples with
  | nil => exact h
  | cons v vs ih =>
    have hnext : (if examples.any (·.beq v) then examples else examples ++ [v]) ≠ [] := by
      split_ifs
      · exact h
      · exact List.append_ne_nil_of_left_ne_nil h _
    unfold collectExamples
    simp only
    split_ifs with _ hlength <;> simp_all

/-- Examples are present exactly when there are values. -/
theorem collectExamples_isEmpty (vs : List Value) :
    (collectExamples [] vs).isEmpty = vs.isEmpty := by
  cases vs with
  | nil => rfl
  | cons v vs =>
    have hne : collectExamples [] (v :: vs) ≠ [] := by
      unfold collectExamples
      simp only [List.any_nil, Bool.false_eq_true, if_false, List.nil_append]
      split_ifs
      · exact List.cons_ne_nil _ _
      · exact collectExamples_ne_nil (List.cons_ne_nil _ _) vs
    simp [hne]

/-- The same properties are listed, in key order. -/
theorem inferProperties_keys_perm {vs ws : List Value} (h : vs.Perm ws) :
    (inferProperties inferSchema (nonNulls vs)).entries.map Prod.fst =
      (inferProperties inferSchema (nonNulls ws)).entries.map Prod.fst := by
  have hn := nonNulls_perm h
  have hrel : SortedMap.Related (fun _ _ _ => True)
      (inferProperties inferSchema (nonNulls vs)).entries
      (inferProperties inferSchema (nonNulls ws)).entries := by
    refine (BTreeMap.sorted _).related_of_get (BTreeMap.sorted _) fun k => ?_
    rw [BTreeMap.get_entries, BTreeMap.get_entries, get_inferProperties, get_inferProperties]
    simp only [mem_collectKeys, hn.mem_iff]
    split_ifs
    · exact .some trivial
    · exact .none
  exact hrel.keys_eq

/-- Permuted samples give agreeing schemas. -/
theorem inferSchema_perm {vs ws : List Value} (h : vs.Perm ws) :
    SchemaAgrees (inferSchema vs) (inferSchema ws) := by
  induction vs using evidence_induction generalizing ws with
  | h vs ih =>
    rw [inferSchema_eq, inferSchema_eq]
    have hn := nonNulls_perm h
    have hshape := shapeOf_perm h
    have hexamples : (collectExamples [] (nonNulls vs)).isEmpty =
        (collectExamples [] (nonNulls ws)).isEmpty := by
      rw [collectExamples_isEmpty, collectExamples_isEmpty, hn.isEmpty_eq]
    apply SchemaAgrees.render
    case type =>
      unfold fragmentOf
      rw [hshape]
      cases shapeOf ws <;> simp only [typeValue_perm h, h.any_eq]
    case required =>
      unfold fragmentOf
      rw [hshape]
      cases shapeOf ws <;> first | exact requiredKeys_perm h | exact .nil
    case examples =>
      unfold fragmentOf
      rw [hshape]
      cases shapeOf ws <;> first | exact hexamples | rfl
    case hasItems =>
      unfold fragmentOf
      rw [hshape]
      cases shapeOf ws <;> rfl
    case items =>
      intro s t hs ht
      unfold fragmentOf at hs ht
      rw [hshape] at hs
      cases hw : shapeOf ws <;> rw [hw] at hs ht
      case arrays =>
        obtain rfl := Option.some.inj hs
        obtain rfl := Option.some.inj ht
        exact ih .items (hshape.trans hw) (childValues_perm .items h)
      all_goals cases hs
    case keys =>
      unfold fragmentOf
      rw [hshape]
      cases shapeOf ws
      case objects => exact congrArg some (inferProperties_keys_perm h)
      all_goals rfl
    case properties =>
      intro ps qs k s t hps hqs hs ht
      unfold fragmentOf at hps hqs
      rw [hshape] at hps
      cases hw : shapeOf ws <;> rw [hw] at hps hqs
      case objects =>
        obtain rfl := Option.some.inj hps
        obtain rfl := Option.some.inj hqs
        obtain ⟨hopen, rfl⟩ := (get_properties_iff (hshape.trans hw)).mp hs
        obtain ⟨-, rfl⟩ := (get_properties_iff hw).mp ht
        exact ih (.key k) hopen (childValues_perm (.key k) h)
      all_goals cases hps

/-! ## Accumulators -/

/-- The declarations of a recording do not contradict each other. -/
structure ConsistentDeclarations (exchanges : List Exchange) : Prop where
  /-- All declarations of a pair carry the same schema. -/
  schema : ∀ key status, ∀ e ∈ observedWith key status exchanges,
    ∀ e' ∈ observedWith key status exchanges, ∀ d d', e.declaredResponseSchema = some d →
      e'.declaredResponseSchema = some d' → d.schema = d'.schema
  /-- All definitions of a name are equal. -/
  definitions : ∀ e ∈ exchanges, ∀ e' ∈ exchanges, ∀ d d', e.declaredResponseSchema = some d →
    e'.declaredResponseSchema = some d' → ∀ name x x', d.definitions.get name = some x →
      d'.definitions.get name = some x' → x = x'

/-- Without declarations there is nothing to contradict. -/
theorem ConsistentDeclarations.of_undeclared {exchanges : List Exchange}
    (h : ∀ e ∈ exchanges, e.declaredResponseSchema = none) : ConsistentDeclarations exchanges where
  schema := by
    intro key status e he e' _ d d' hd
    rw [h e (mem_observedWith_iff.mp he).1] at hd
    cases hd
  definitions := by
    intro e he e' _ d d' hd
    rw [h e he] at hd
    cases hd

/-- The first value found is the same in every order when all values found agree. -/
private theorem findSome?_perm {α β : Type*} {f : α → Option β} {xs ys : List α}
    (h : xs.Perm ys)
    (hf : ∀ a ∈ xs, ∀ b ∈ xs, ∀ x y, f a = some x → f b = some y → x = y) :
    xs.findSome? f = ys.findSome? f := by
  cases hx : xs.findSome? f with
  | none =>
    rw [List.findSome?_eq_none_iff] at hx
    exact (List.findSome?_eq_none_iff.mpr fun y hy => hx y (h.mem_iff.mpr hy)).symm
  | some x =>
    obtain ⟨a, ha, hfa⟩ := List.exists_of_findSome?_eq_some hx
    cases hy : ys.findSome? f with
    | none =>
      have hnone := List.findSome?_eq_none_iff.mp hy a (h.mem_iff.mp ha)
      rw [hfa] at hnone
      cases hnone
    | some y =>
      obtain ⟨b, hb, hfb⟩ := List.exists_of_findSome?_eq_some hy
      rw [hf a ha b (h.mem_iff.mpr hb) x y hfa hfb]

/-- Accumulators of a status that differ in the order of the samples. -/
structure StatusAcc.Agrees (a b : StatusAcc) : Prop where
  sampleCount : a.sampleCount = b.sampleCount
  jsonSamples : a.jsonSamples.Perm b.jsonSamples
  declaredSchema : a.declaredSchema = b.declaredSchema

/-- Accumulators of an operation that differ in the order of the samples. -/
structure OperationAcc.Agrees (a b : OperationAcc) : Prop where
  byStatus : ∀ status, Option.Rel StatusAcc.Agrees (a.byStatus.get status) (b.byStatus.get status)
  securitySchemes : a.securitySchemes = b.securitySchemes
  requestsObserved : a.requestsObserved = b.requestsObserved
  requestSamples : a.requestSamples.Perm b.requestSamples

private theorem statusAcc_perm {es es' : List Exchange} (h : es.Perm es')
    (hc : ConsistentDeclarations es) (key : OperationKey) (status : Nat) :
    (StatusAcc.of (observedWith key status es)).Agrees
      (StatusAcc.of (observedWith key status es')) := by
  have hobserved : (observedWith key status es).Perm (observedWith key status es') := h.filter _
  refine ⟨hobserved.length_eq, hobserved.filterMap _, ?_⟩
  unfold StatusAcc.of firstDeclaration
  simp only [List.map_findSome?]
  refine findSome?_perm hobserved fun e he e' he' x y hx hy => ?_
  obtain ⟨d, hd, rfl⟩ := Option.map_eq_some_iff.mp hx
  obtain ⟨d', hd', rfl⟩ := Option.map_eq_some_iff.mp hy
  exact hc.schema key status e he e' he' d d' hd hd'

/-- Every operation accumulates the same evidence in every order. -/
theorem operationAcc_perm {es es' : List Exchange} (h : es.Perm es')
    (hc : ConsistentDeclarations es) (key : OperationKey) :
    (operationAcc key es).Agrees (operationAcc key es') := by
  have hat : (observedAt key es).Perm (observedAt key es') := h.filter _
  refine ⟨fun status => ?_, BTreeMap.ext fun name => ?_, ?_, ?_⟩
  · have hwith : (observedWith key status es).Perm (observedWith key status es') := h.filter _
    rw [operationAcc_byStatus_get, operationAcc_byStatus_get]
    by_cases hnil : observedWith key status es = []
    · rw [if_pos hnil, if_pos (List.nil_perm.mp (hnil ▸ hwith))]
      exact .none
    · rw [if_neg hnil, if_neg fun (hnil' : observedWith key status es' = []) =>
        hnil (List.perm_nil.mp (hnil' ▸ hwith))]
      exact .some (statusAcc_perm h hc key status)
  · rw [operationAcc_securitySchemes_get, operationAcc_securitySchemes_get]
    simp only [((hat.filterMap _).map _).mem_iff]
  · rw [operationAcc_requestsObserved, operationAcc_requestsObserved, hat.length_eq]
  · rw [operationAcc_requestSamples, operationAcc_requestSamples]
    exact hat.filterMap _

private theorem operations_perm {es es' : List Exchange} (h : es.Perm es')
    (hc : ConsistentDeclarations es) (key : OperationKey) :
    Option.Rel OperationAcc.Agrees ((groupExchanges es).operations.get key)
      ((groupExchanges es').operations.get key) := by
  have hat : (observedAt key es).Perm (observedAt key es') := h.filter _
  rw [groupExchanges_operations_get, groupExchanges_operations_get]
  by_cases hnil : observedAt key es = []
  · rw [if_pos hnil, if_pos (List.nil_perm.mp (hnil ▸ hat))]
    exact .none
  · rw [if_neg hnil, if_neg fun (hnil' : observedAt key es' = []) =>
      hnil (List.perm_nil.mp (hnil' ▸ hat))]
    exact .some (operationAcc_perm h hc key)

/-- The components do not depend on the order. -/
theorem components_perm {es es' : List Exchange} (h : es.Perm es')
    (hc : ConsistentDeclarations es) :
    components (groupExchanges es) = components (groupExchanges es') := by
  have hcompleted : (completed es).Perm (completed es') := h.filterMap _
  have hschemas : (groupExchanges es).componentSchemas =
      (groupExchanges es').componentSchemas := by
    refine BTreeMap.ext fun name => ?_
    rw [componentSchemas_get_eq_firstDefinition, componentSchemas_get_eq_firstDefinition]
    refine findSome?_perm hcompleted fun c hcm c' hcm' x y hx hy => ?_
    obtain ⟨d, hd, hx⟩ := Option.bind_eq_some_iff.mp hx
    obtain ⟨d', hd', hy⟩ := Option.bind_eq_some_iff.mp hy
    exact hc.definitions c.1 (mem_completed_iff.mp hcm).1 c'.1 (mem_completed_iff.mp hcm').1
      d d' hd hd' name x y hx hy
  have hsecurity : (groupExchanges es).securitySchemeDefs =
      (groupExchanges es').securitySchemeDefs := by
    refine BTreeMap.ext fun name => ?_
    rw [groupExchanges_securitySchemeDefs_get, groupExchanges_securitySchemeDefs_get]
    refine congrArg _ ?_
    rw [List.find?_eq_findSome?_guard, List.find?_eq_findSome?_guard]
    refine findSome?_perm (hcompleted.filterMap _) fun a _ b _ x y hx hy => ?_
    obtain ⟨rfl, hnamex⟩ := Option.guard_eq_some_iff.mp hx
    obtain ⟨rfl, hnamey⟩ := Option.guard_eq_some_iff.mp hy
    exact SecurityScheme.eq_of_componentName_eq
      ((of_decide_eq_true hnamex).trans (of_decide_eq_true hnamey).symm)
  unfold components
  rw [hschemas, hsecurity]

private theorem belowEntries_agrees (key : OperationKey) {a b : OperationAcc} (h : a.Agrees b) :
    belowEntries key a = belowEntries key b := by
  have hentries := a.byStatus.sorted.related_of_get b.byStatus.sorted h.byStatus
  unfold belowEntries
  revert hentries
  generalize a.byStatus.entries = m, b.byStatus.entries = n
  intro hentries
  induction hentries with
  | nil => rfl
  | @cons x y _ _ hxy _ ih =>
    rw [List.filter_cons, List.filter_cons, hxy.2.sampleCount]
    split_ifs
    · rw [List.map_cons, List.map_cons, ih, hxy.1]
    · exact ih

/-- The notice names the same pairs in the same order. -/
theorem noticeEntries_perm {es es' : List Exchange} (h : es.Perm es')
    (hc : ConsistentDeclarations es) :
    noticeEntries (groupExchanges es).operations =
      noticeEntries (groupExchanges es').operations := by
  have hentries := (groupExchanges es).operations.sorted.related_of_get
    (groupExchanges es').operations.sorted (operations_perm h hc)
  unfold noticeEntries
  revert hentries
  generalize (groupExchanges es).operations.entries = m,
    (groupExchanges es').operations.entries = n
  intro hentries
  induction hentries with
  | nil => rfl
  | cons hxy _ ih =>
    rw [List.flatMap_cons, List.flatMap_cons, ih, hxy.1, belowEntries_agrees _ hxy.2]

/-! ## Documents -/

/-- A declared schema is the same, an inferred one agrees. -/
def SchemaAgreesUnless (declared : Prop) (a b : Value) : Prop :=
  (declared → a = b) ∧ (¬ declared → SchemaAgrees a b)

/-- Contents that are the same but for the schema. -/
def ContentAgrees (declared : Prop) : Value → Value → Prop :=
  Value.ObjectRel fun _ => Value.ObjectRel fun k a b =>
    if k = "schema" then SchemaAgreesUnless declared a b else a = b

/-- Responses or request bodies that are the same but for the schema of their content. -/
def MessageAgrees (declared : Prop) : Value → Value → Prop :=
  Value.ObjectRel fun k a b => if k = "content" then ContentAgrees declared a b else a = b

/-- Operations that are the same but for the schemas of responses and request body. -/
def OperationAgrees (declared : String → Prop) : Value → Value → Prop :=
  Value.ObjectRel fun k a b =>
    if k = "responses" then Value.ObjectRel (fun code => MessageAgrees (declared code)) a b
    else if k = "requestBody" then MessageAgrees False a b
    else a = b

/-- Documents that are the same but for the inferred schemas of their operations,
which agree. -/
def DocumentAgrees (declared : String → String → String → Prop) : Value → Value → Prop :=
  Value.ObjectRel fun k a b =>
    if k = "paths" then
      Value.ObjectRel (fun route => Value.ObjectRel fun method =>
        OperationAgrees (declared route method)) a b
    else a = b

/-- The schema of a response was declared. -/
def DeclaredAt (exchanges : List Exchange) (route method code : String) : Prop :=
  ∃ status : Nat, code = toString status ∧
    firstDeclaration (observedWith ⟨route, method⟩ status exchanges) ≠ none

private theorem jsonContent_agrees {declared : Prop} {s t : Value}
    (h : SchemaAgreesUnless declared s t) :
    ContentAgrees declared (jsonContent s) (jsonContent t) :=
  Value.objectRel_ofFields (.cons ⟨rfl, Value.objectRel_ofFields (.cons ⟨rfl, h⟩ .nil)⟩ .nil)

private theorem schema_agrees {declared : Prop} {a b : StatusAcc} (h : a.Agrees b)
    (hdeclared : declared ↔ a.declaredSchema ≠ none) :
    Option.Rel (SchemaAgreesUnless declared) a.schema b.schema := by
  unfold StatusAcc.schema
  rw [← h.declaredSchema, ← h.jsonSamples.isEmpty_eq]
  cases hs : a.declaredSchema with
  | some schema =>
    have hd : declared := hdeclared.mpr (by simp [hs])
    exact .some ⟨fun _ => rfl, fun hn => absurd hd hn⟩
  | none =>
    have hd : ¬ declared := fun hd => hdeclared.mp hd hs
    simp only [Option.orElse_none]
    split_ifs
    · exact .none
    · exact .some ⟨fun hd' => absurd hd' hd, fun _ => inferSchema_perm h.jsonSamples⟩

/-- Responses of agreeing accumulators agree. -/
theorem responseObject_agrees {declared : Prop} (status : Nat) {a b : StatusAcc}
    (h : a.Agrees b) (hdeclared : declared ↔ a.declaredSchema ≠ none) :
    MessageAgrees declared (responseObject status a) (responseObject status b) := by
  have hbase : MessageAgrees declared
      (Value.ofFields [("description", .string ("Observed " ++ toString status ++ " response.")),
        ("x-cyanotype-samples", .ofNat a.sampleCount)])
      (Value.ofFields [("description", .string ("Observed " ++ toString status ++ " response.")),
        ("x-cyanotype-samples", .ofNat b.sampleCount)]) := by
    rw [h.sampleCount]
    exact Value.objectRel_ofFields (.cons ⟨rfl, rfl⟩ (.cons ⟨rfl, rfl⟩ .nil))
  have hschema := schema_agrees h hdeclared
  unfold responseObject
  revert hschema
  cases a.schema <;> cases b.schema <;> intro hschema <;> cases hschema
  · exact hbase
  · exact hbase.setField (jsonContent_agrees ‹_›)

/-- Request bodies of agreeing accumulators agree. -/
theorem requestBodyObject_agrees {a b : OperationAcc} (h : a.Agrees b) :
    MessageAgrees False (requestBodyObject a) (requestBodyObject b) := by
  have hschema : SchemaAgreesUnless False (inferSchema a.requestSamples)
      (inferSchema b.requestSamples) :=
    ⟨False.elim, fun _ => inferSchema_perm h.requestSamples⟩
  unfold requestBodyObject
  rw [h.requestsObserved, h.requestSamples.length_eq]
  have hbase : MessageAgrees False
      (Value.ofFields [("content", jsonContent (inferSchema a.requestSamples)),
        ("x-cyanotype-samples", .ofNat b.requestSamples.length)])
      (Value.ofFields [("content", jsonContent (inferSchema b.requestSamples)),
        ("x-cyanotype-samples", .ofNat b.requestSamples.length)]) :=
    Value.objectRel_ofFields (.cons ⟨rfl, jsonContent_agrees hschema⟩ (.cons ⟨rfl, rfl⟩ .nil))
  simp only
  split_ifs
  · exact hbase.setField rfl
  · exact hbase

private theorem responsesOf_agrees {declared : String → Prop} {a b : OperationAcc}
    (h : a.Agrees b)
    (hdeclared : ∀ status acc, a.byStatus.get status = some acc →
      (declared (toString status) ↔ acc.declaredSchema ≠ none)) :
    Value.ObjectRel (fun code => MessageAgrees (declared code))
      (.object (responsesOf a).entries) (.object (responsesOf b).entries) := by
  refine Value.objectRel_of_get fun code => ?_
  by_cases hcode : ∃ status : Nat, code = toString status
  · obtain ⟨status, rfl⟩ := hcode
    have hrel := h.byStatus status
    have hd := hdeclared status
    rw [responsesOf_get, responsesOf_get]
    revert hrel hd
    cases a.byStatus.get status <;> cases b.byStatus.get status <;> intro hrel hd <;> cases hrel
    · exact .none
    · exact .some (responseObject_agrees status ‹_› (hd _ rfl))
  · rw [not_not.mp (mt eq_toString_of_responsesOf_get hcode),
      not_not.mp (mt eq_toString_of_responsesOf_get hcode)]
    exact .none

/-- Operations of agreeing accumulators agree. -/
theorem operationOf_agrees {declared : String → Prop} (key : OperationKey) {a b : OperationAcc}
    (h : a.Agrees b)
    (hdeclared : ∀ status acc, a.byStatus.get status = some acc →
      (declared (toString status) ↔ acc.declaredSchema ≠ none)) :
    OperationAgrees declared (operationOf key a) (operationOf key b) := by
  have hbase : OperationAgrees declared
      (Value.ofFields [("responses", .object (responsesOf a).entries)])
      (Value.ofFields [("responses", .object (responsesOf b).entries)]) :=
    Value.objectRel_ofFields (.cons ⟨rfl, responsesOf_agrees h hdeclared⟩ .nil)
  rw [operationOf_eq, operationOf_eq, h.requestSamples.isEmpty_eq, h.securitySchemes]
  have hbody := hbase.unless_setField (k := "requestBody") (b.requestSamples.isEmpty = true)
    fun _ => requestBodyObject_agrees h
  have hparameters := hbody.unless_setField (k := "parameters")
    ((pathParameters key.route).isEmpty = true)
    fun _ => Eq.refl (Value.array (pathParameters key.route))
  exact hparameters.unless_setField (k := "security") _ fun _ => rfl

private theorem declaredAt_iff (es : List Exchange) (key : OperationKey) (status : Nat)
    (acc : StatusAcc) (h : (operationAcc key es).byStatus.get status = some acc) :
    DeclaredAt es key.route key.method (toString status) ↔ acc.declaredSchema ≠ none := by
  rw [operationAcc_byStatus_get] at h
  split_ifs at h
  obtain rfl := Option.some.inj h
  unfold DeclaredAt StatusAcc.of
  constructor
  · rintro ⟨status', hstatus, hd⟩
    obtain rfl := toString_injective hstatus
    simpa using hd
  · exact fun hd => ⟨status, rfl, by simpa using hd⟩

private theorem pathsOf_perm {es es' : List Exchange} (h : es.Perm es')
    (hc : ConsistentDeclarations es) :
    Value.ObjectRel (fun route => Value.ObjectRel fun method =>
        OperationAgrees (DeclaredAt es route method))
      (.object (pathsOf (groupExchanges es).operations).entries)
      (.object (pathsOf (groupExchanges es').operations).entries) := by
  have hmethods : ∀ route, Value.ObjectRel
      (fun method => OperationAgrees (DeclaredAt es route method))
      (.object (methodsOf (groupExchanges es).operations route).entries)
      (.object (methodsOf (groupExchanges es').operations route).entries) := by
    intro route
    refine Value.objectRel_of_get fun method => ?_
    have hat : (observedAt ⟨route, method⟩ es).Perm (observedAt ⟨route, method⟩ es') := h.filter _
    rw [methodsOf_get, methodsOf_get, groupExchanges_operations_get, groupExchanges_operations_get]
    by_cases hnil : observedAt ⟨route, method⟩ es = []
    · rw [if_pos hnil, if_pos (List.nil_perm.mp (hnil ▸ hat))]
      exact .none
    · rw [if_neg hnil, if_neg fun (hnil' : observedAt ⟨route, method⟩ es' = []) =>
        hnil (List.perm_nil.mp (hnil' ▸ hat))]
      exact .some (operationOf_agrees _ (operationAcc_perm h hc _) (declaredAt_iff es _))
  refine Value.objectRel_of_get fun route => ?_
  have hroute : (pathsOf (groupExchanges es).operations).get route ≠ none ↔
      (pathsOf (groupExchanges es').operations).get route ≠ none := by
    rw [pathsOf_get_ne_none_iff, pathsOf_get_ne_none_iff]
    refine exists_congr fun method => ?_
    have hrel := operations_perm h hc ⟨route, method⟩
    revert hrel
    cases (groupExchanges es).operations.get ⟨route, method⟩ <;>
      cases (groupExchanges es').operations.get ⟨route, method⟩ <;> intro hrel <;>
      first | cases hrel; done | simp
  revert hroute
  rw [pathsOf_get, pathsOf_get]
  split_ifs <;> intro hroute
  · exact .none
  · exact absurd rfl (hroute.mpr (Option.some_ne_none _))
  · exact absurd rfl (hroute.mp (Option.some_ne_none _))
  · exact .some (hmethods route)

/-- Documents with agreeing paths and the same components and warnings agree. -/
theorem documentOf_agrees {declared : String → String → String → Prop} {paths paths' : Value}
    (h : Value.ObjectRel (fun route => Value.ObjectRel fun method =>
      OperationAgrees (declared route method)) paths paths')
    (components : Option Value) (warnings : List String) :
    DocumentAgrees declared (documentOf paths components warnings)
      (documentOf paths' components warnings) := by
  have hbase : ∀ info, DocumentAgrees declared
      (Value.ofFields [("openapi", .string "3.1.0"), ("info", info), ("paths", paths)])
      (Value.ofFields [("openapi", .string "3.1.0"), ("info", info), ("paths", paths')]) :=
    fun info => Value.objectRel_ofFields (.cons ⟨rfl, rfl⟩ (.cons ⟨rfl, rfl⟩ (.cons ⟨rfl, h⟩ .nil)))
  unfold documentOf Value.updateField
  simp only
  rw [Value.get_ofFields (by simp), Value.get_ofFields (by simp)]
  have hwarned := fun info => (hbase (.ofFields
    [("title", .string "Recorded API"), ("version", .string "0.0.0"),
      ("x-cyanotype-generator", .string ("cyanotype/" ++ generatorVersion))])).unless_setField
    (k := "info") (warnings.isEmpty = true) fun _ => Eq.refl (info : Value)
  cases components with
  | none => exact hwarned _
  | some components => exact (hwarned _).setField (k := "components") rfl

/-- The document does not depend on the order of the recorded exchanges: the
warnings are the same, and the documents differ at most in the order of
`required` and the content of `examples` of inferred schemas. -/
theorem buildDocument_perm {es es' : List Exchange} (h : es.Perm es')
    (hc : ConsistentDeclarations es) (warnings : List String) :
    DocumentAgrees (DeclaredAt es) (buildDocument es warnings).1 (buildDocument es' warnings).1 ∧
      (buildDocument es warnings).2 = (buildDocument es' warnings).2 := by
  have hwarnings : allWarnings es warnings = allWarnings es' warnings := by
    unfold allWarnings
    rw [noticeEntries_perm h hc]
  rw [buildDocument_eq, buildDocument_eq, components_perm h hc, hwarnings]
  exact ⟨documentOf_agrees (pathsOf_perm h hc) _ _, rfl⟩

/-- Two samples of different shape, recorded in either order. -/
theorem buildDocument_perm_example :
    DocumentAgrees (DeclaredAt
        [exchangeWithJsonResponse "/users" .get 200 (.ofFields [("id", .ofNat 1)]),
          exchangeWithJsonResponse "/users" .get 200 (.ofFields [("name", .null)])])
      (buildDocument [exchangeWithJsonResponse "/users" .get 200 (.ofFields [("id", .ofNat 1)]),
        exchangeWithJsonResponse "/users" .get 200 (.ofFields [("name", .null)])] []).1
      (buildDocument [exchangeWithJsonResponse "/users" .get 200 (.ofFields [("name", .null)]),
        exchangeWithJsonResponse "/users" .get 200 (.ofFields [("id", .ofNat 1)])] []).1 :=
  (buildDocument_perm (.swap _ _ _)
    (.of_undeclared (by simp [exchangeWithJsonResponse, Exchange.new])) []).1

end Cyanotype
