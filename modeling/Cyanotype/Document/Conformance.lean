import Cyanotype.Document.Admission
import Cyanotype.Document.Growth
import Cyanotype.Document.References
import Cyanotype.Document.Security

/-!
# Recorded traffic under the document

An OpenAPI document is a contract: it says which requests and responses are expected. An
exchange that was recorded conforms to the document written about it, but for three things
that can go wrong: null was observed beside values without a common type, the declared
schema rejects the body, or only other requests of the operation carried a credential.
-/

namespace Cyanotype

open JsonSchema

/-! ## Traffic under a contract -/

/-- A request and its response, as a document speaks of them. Of bodies it describes JSON. -/
structure Traffic where
  route : String
  method : String
  /-- The schemes that a credential was sent for. -/
  credentials : List String
  requestBody : Option Value
  status : Nat
  responseBody : Option Value

/-- The response object for a status: of its code, else of its class, else the default. -/
def responseFor (doc : Value) (route method : String) (status : Nat) : Option Value :=
  ((responseAt doc route method (toString status)).or
    (responseAt doc route method (toString (status / 100) ++ "XX"))).or
    (responseAt doc route method "default")

/-- If there are security requirements, those of the operation or else of the document,
the credentials meet all parts of one of them. -/
def Authorized (doc operation : Value) (credentials : List String) : Prop :=
  ∀ requirements, (operation.get "security").or (doc.get "security") = some (.array requirements) →
    requirements ≠ [] →
      ∃ requirement ∈ requirements, ∀ name, requirement.get name ≠ none → name ∈ credentials

/-- A body is described, and its schema admits it. -/
def BodyConforms (doc : Value) (message body : Option Value) : Prop :=
  ∀ v, body = some v → ∃ schema, message.bind contentSchema = some schema ∧
    Validates (documentRef doc) schema v

/-- Traffic that is as the document says. -/
structure Conforms (doc : Value) (traffic : Traffic) : Prop where
  operation : ∃ operation, operationAt doc traffic.route traffic.method = some operation ∧
    Authorized doc operation traffic.credentials
  mandatory : (requestBodyAt doc traffic.route traffic.method).bind (·.get "required") =
    some (.bool true) → traffic.requestBody ≠ none
  request : BodyConforms doc (requestBodyAt doc traffic.route traffic.method) traffic.requestBody
  response : ∃ response, responseFor doc traffic.route traffic.method traffic.status =
    some response ∧ BodyConforms doc (some response) traffic.responseBody

/-- What was recorded of an exchange that was answered with a status. -/
def Exchange.traffic (exchange : Exchange) (status : Nat) : Traffic where
  route := exchange.routeTemplate
  method := toAsciiLowercase exchange.method.asStr
  credentials := (exchange.security.map SecurityScheme.componentName).toList
  requestBody := exchange.request.body.json?
  status := status
  responseBody := exchange.response.body.json?

/-! ## Observed values -/

/-- Where null was observed beside values without a common type, the value has only nulls. -/
def NullWhereClashing (samples : List Value) (v : Value) : Prop :=
  ∀ p, Observed samples p → Clash (valuesAt samples p) → ∀ x ∈ valuesAt [v] p, x = .null

section

variable {vs : List Value} {v : Value}

/-- An observed value has the common type, or is an observed null. -/
theorem hasType_of_mem (hv : v ∈ vs) {name : String} (hname : (shapeOf vs).typeName = some name) :
    hasType name v = true ∨ v = .null ∧ .null ∈ vs := by
  refine or_iff_not_imp_right.mpr fun hnull => ?_
  have hne : v ≠ .null := fun h => hnull ⟨h, h ▸ hv⟩
  have hmem : v ∈ nonNulls vs := mem_nonNulls.mpr ⟨hv, hne⟩
  cases hs : shapeOf vs with
  | nulls =>
    rw [shapeOf_eq_nulls_iff.mp hs] at hmem
    exact absurd hmem List.not_mem_nil
  | objects =>
    obtain rfl : "object" = name := by simpa [hs, Shape.typeName] using hname
    obtain ⟨m, rfl⟩ := Value.isObject_iff.mp ((shapeOf_eq_objects_iff.mp hs).2 v hmem)
    rfl
  | arrays =>
    obtain rfl : "array" = name := by simpa [hs, Shape.typeName] using hname
    obtain ⟨xs, rfl⟩ := Value.isArray_iff.mp ((shapeOf_eq_arrays_iff.mp hs).2 v hmem)
    rfl
  | primitive kind =>
    obtain rfl : kind.typeName = name := by simpa [hs, Shape.typeName] using hname
    exact ((commonPrimitiveType_some_iff.mp (commonPrimitiveType_of_shapeOf hs)).1 v hmem).hasType
  | mixed => simp [hs, Shape.typeName] at hname

/-- An observed value is like the observed ones, unless these clash. -/
theorem resembles_of_mem_iff (hv : v ∈ vs) : Resembles vs v ↔ (Clash vs → v = .null) := by
  refine ⟨Resembles.mixed, fun hmixed => ⟨fun name => hasType_of_mem hv, hmixed, ?_⟩⟩
  intro _ k hall hobject
  refine hall v (mem_nonNulls.mpr ⟨hv, ?_⟩)
  rintro rfl
  cases hobject

/-- An observed value is admitted exactly when it has only nulls where values clash. -/
theorem validates_of_mem_iff (resolve : String → Option Value) (hv : v ∈ vs) :
    Validates resolve (inferSchema vs) v ↔ NullWhereClashing vs v := by
  induction vs using evidence_induction generalizing v with
  | h vs ih =>
    have hbelow : ∀ st, ∀ x ∈ childValues st [v], x ∈ childValues st vs := by
      intro st x hx
      exact (mem_valuesAt_iff vs [st]).mpr ⟨v, hv, hx⟩
    rw [validates_inferSchema_iff, resembles_of_mem_iff hv]
    constructor
    · rintro ⟨hhere, hvalid⟩ p (_ | ⟨hopen, hobserved⟩) hclash x hx
      · obtain rfl : x = v := by simpa [valuesAt] using hx
        exact hhere hclash
      · obtain ⟨y, hy, hxy⟩ := (mem_valuesAt_iff (childValues _ [v]) _).mp hx
        exact (ih _ hopen (hbelow _ y hy)).mp (hvalid _ hopen y hy) _ hobserved hclash x hxy
    · intro h
      refine ⟨fun hclash => h [] (.here vs) hclash v (List.mem_singleton_self v),
        fun st hopen y hy => (ih st hopen (hbelow st y hy)).mpr fun p hobserved hclash x hx => ?_⟩
      exact h (st :: p) (.under hopen hobserved) hclash x
        ((mem_valuesAt_iff (childValues st [v]) p).mpr ⟨y, hy, hx⟩)

end

/-! ## What a document says of recorded traffic -/

section

variable {exchanges : List Exchange} {e : Exchange} {status : Nat}

/-- A document has no security requirements of its own. -/
theorem documentOf_get_security (paths : Value) (components : Option Value)
    (warnings : List String) : (documentOf paths components warnings).get "security" = none := by
  unfold documentOf Value.updateField
  cases components <;> by_cases hw : warnings.isEmpty = true <;>
    simp [hw, Value.get_setField, Value.get_ofFields, SortedMap.get_cons]

/-- Some credential is for a scheme of the operation, if the operation has any. -/
theorem authorized_operationOf_iff (warnings : List String) {key : OperationKey}
    {credentials : List String} :
    Authorized (buildDocument exchanges warnings).1 (operationOf key (operationAcc key exchanges))
      credentials ↔
    ((∃ scheme, ObservedScheme exchanges key scheme) →
      ∃ scheme, ObservedScheme exchanges key scheme ∧ scheme.componentName ∈ credentials) := by
  have hrequirement : ∀ name', (∀ name, (Value.ofFields [(name', .array [])]).get name ≠ none →
      name ∈ credentials) ↔ name' ∈ credentials := by
    intro name'
    simp [Value.get_ofFields, SortedMap.get_cons]
  unfold Authorized
  rw [buildDocument_eq, documentOf_get_security, Option.or_none, operationOf_get_security]
  constructor
  · rintro h ⟨scheme, hobserved⟩
    have hname := mem_schemeNames_iff.mpr ⟨scheme, hobserved, rfl⟩
    have hnot : ¬ (operationAcc key exchanges).schemeNames.isEmpty = true :=
      fun hempty => List.ne_nil_of_mem hname (List.isEmpty_iff.mp hempty)
    obtain ⟨requirement, hmem, hmet⟩ := h _ (if_neg hnot) (by simpa using hnot)
    obtain ⟨name, hlisted, rfl⟩ := List.mem_map.mp hmem
    obtain ⟨scheme', hobserved', rfl⟩ := mem_schemeNames_iff.mp hlisted
    exact ⟨scheme', hobserved', (hrequirement _).mp hmet⟩
  · intro h requirements hget hne
    split_ifs at hget
    obtain rfl := Value.array.inj (Option.some.inj hget)
    obtain ⟨name, hname⟩ := List.exists_mem_of_ne_nil _ (mt List.map_eq_nil_iff.mpr hne)
    obtain ⟨scheme, hobserved, -⟩ := mem_schemeNames_iff.mp hname
    obtain ⟨scheme', hobserved', hmem⟩ := h ⟨scheme, hobserved⟩
    exact ⟨_, List.mem_map.mpr ⟨_, mem_schemeNames_iff.mpr ⟨scheme', hobserved', rfl⟩, rfl⟩,
      (hrequirement _).mpr hmem⟩

/-- An exchange is authorized when it carried a credential or no other one of its operation did. -/
theorem authorized_traffic_iff (warnings : List String) (status : Nat)
    (he : e ∈ observedAt e.operationKey exchanges) :
    Authorized (buildDocument exchanges warnings).1
      (operationOf e.operationKey (operationAcc e.operationKey exchanges))
      (e.traffic status).credentials ↔
    (e.security = none → ∀ e' ∈ observedAt e.operationKey exchanges, e'.security = none) := by
  rw [authorized_operationOf_iff]
  cases hsecurity : e.security with
  | some scheme =>
    obtain ⟨hmem, hstatus, hkey⟩ := mem_observedAt_iff.mp he
    have hobserved : ObservedScheme exchanges e.operationKey scheme :=
      ⟨e, hmem, hstatus, hkey, hsecurity⟩
    refine iff_of_true (fun _ => ⟨scheme, hobserved, ?_⟩) (by simp)
    simp [Exchange.traffic, hsecurity]
  | none =>
    have hcredentials : (e.traffic status).credentials = [] := by
      simp [Exchange.traffic, hsecurity]
    rw [hcredentials]
    constructor
    · intro h _ e' he'
      by_contra hsome
      obtain ⟨scheme, hscheme⟩ := Option.ne_none_iff_exists'.mp hsome
      obtain ⟨hmem, hstatus, hkey⟩ := mem_observedAt_iff.mp he'
      obtain ⟨_, -, hnil⟩ := h ⟨scheme, e', hmem, hstatus, hkey, hscheme⟩
      exact List.not_mem_nil hnil
    · rintro h ⟨scheme, e', hmem, hstatus, hkey, hscheme⟩
      have hnone := h rfl e' (mem_observedAt_iff.mpr ⟨hmem, hstatus, hkey⟩)
      rw [hscheme] at hnone
      cases hnone

/-- A body that was observed conforms where the schema is inferred, unless values clash. -/
theorem bodyConforms_inferred_iff {doc : Value} {message body : Option Value}
    {samples : List Value} (hschema : message.bind contentSchema = inferredSchema samples)
    (hbody : ∀ v, body = some v → v ∈ samples) :
    BodyConforms doc message body ↔ ∀ v, body = some v → NullWhereClashing samples v := by
  refine forall₂_congr fun v hv => ?_
  have hmem := hbody v hv
  have hsome : inferredSchema samples = some (inferSchema samples) :=
    if_neg (by simpa using List.ne_nil_of_mem hmem)
  rw [hschema, hsome, ← validates_of_mem_iff (documentRef doc) hmem]
  simp

/-- A request body is only mandatory where every observed request had one. -/
theorem mandatory_traffic {warnings : List String}
    (he : e ∈ observedAt e.operationKey exchanges)
    (hrequired : (requestBodyAt (buildDocument exchanges warnings).1 (e.traffic status).route
      (e.traffic status).method).bind (·.get "required") = some (.bool true)) :
    (e.traffic status).requestBody ≠ none := by
  have hread := requestBodyAt_buildDocument exchanges warnings e.operationKey.route
    e.operationKey.method
  have hroute : (e.traffic status).route = e.operationKey.route := rfl
  have hmethod : (e.traffic status).method = e.operationKey.method := rfl
  rw [hroute, hmethod, hread] at hrequired
  split_ifs at hrequired
  · cases hrequired
  · rw [Option.bind_some, requestBodyObject_get_required, Option.ite_none_right_eq_some,
      operationAcc_requestSamples, operationAcc_requestsObserved] at hrequired
    exact (length_requestBodies_eq_iff _).mp hrequired.1.2 e he

/-- A response body is admitted by the schema declared first, or else if it has only nulls
where the observed bodies clash. -/
theorem response_traffic_iff (warnings : List String)
    (he : e ∈ observedWith e.operationKey status exchanges) :
    (∃ response, responseFor (buildDocument exchanges warnings).1 (e.traffic status).route
        (e.traffic status).method (e.traffic status).status = some response ∧
      BodyConforms (buildDocument exchanges warnings).1 (some response)
        (e.traffic status).responseBody) ↔
      ∀ v, e.response.body.json? = some v →
        (∀ declaration,
          firstDeclaration (observedWith e.operationKey status exchanges) = some declaration →
            Validates (documentRef (buildDocument exchanges warnings).1) declaration.schema v) ∧
        (firstDeclaration (observedWith e.operationKey status exchanges) = none →
          NullWhereClashing (responseBodies (observedWith e.operationKey status exchanges)) v) := by
  have hresponse := (responseAt_buildDocument exchanges warnings e.operationKey.route
    e.operationKey.method status).trans (if_neg (List.ne_nil_of_mem he))
  have hfor : responseFor (buildDocument exchanges warnings).1 (e.traffic status).route
      (e.traffic status).method (e.traffic status).status = some (responseObject status
        (StatusAcc.of (observedWith e.operationKey status exchanges))) := by
    refine (congrArg (Option.or · _) (congrArg (Option.or · _) hresponse)).trans ?_
    rw [Option.some_or, Option.some_or]
  have hcontent : (some (responseObject status
      (StatusAcc.of (observedWith e.operationKey status exchanges)))).bind contentSchema =
        ((firstDeclaration (observedWith e.operationKey status exchanges)).map (·.schema)).or
          (inferredSchema (responseBodies (observedWith e.operationKey status exchanges))) :=
    hresponse ▸ contentSchema_buildDocument exchanges warnings _ _ status
  simp only [hfor, Option.some.injEq, exists_eq_left']
  cases hfirst : firstDeclaration (observedWith e.operationKey status exchanges) with
  | some declaration =>
    rw [hfirst, Option.map_some, Option.some_or] at hcontent
    simp only [BodyConforms, hcontent]
    simp [Exchange.traffic]
  | none =>
    rw [hfirst, Option.map_none, Option.none_or] at hcontent
    refine (bodyConforms_inferred_iff hcontent fun v hv => ?_).trans ?_
    · exact List.mem_filterMap.mpr ⟨e, he, hv⟩
    · simp [Exchange.traffic]

/-- A list of users that was asked for with a token. -/
def withToken : Exchange :=
  { Exchange.new .get "/users" (some ⟨"Authorization", .bearer, rfl⟩) with
    response := { status := some 200 } }

/-- A list of users that was asked for without one. -/
def withoutToken : Exchange :=
  { Exchange.new .get "/users" none with response := { status := some 200 } }

end

end Cyanotype
