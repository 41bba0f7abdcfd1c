import Cyanotype.Core.Metaschema
import Cyanotype.Document.Positions
import Cyanotype.Document.Routes
import Cyanotype.Document.Security

/-!
# The document as OpenAPI

The part of OpenAPI 3.1 that describes recorded traffic, object by object. Everything
the generator writes by itself is of this form. What it takes over unchanged is so exactly
when the methods, statuses and routes of the completed exchanges are, except for those
whose route or method falls among the extensions, which may be anything.
-/

namespace Cyanotype

open JsonSchema (IsSchema IsType typeNames isSchema_render)

/-! ## Inferred schemas -/

/-- A single type name is a type. -/
theorem isType_name {name : String} (h : name ∈ typeNames) : IsType (.string name) :=
  .inl ⟨name, h, rfl⟩

/-- Widening by null keeps the names distinct. -/
theorem isType_typeValue {vs : List Value} {name : String} (h : name ∈ typeNames)
    (hnull : name ≠ "null") : IsType (typeValue vs name) := by
  unfold typeValue
  split_ifs
  · refine .inr ⟨[name, "null"], rfl, List.cons_ne_nil _ _, by simpa using hnull, ?_⟩
    exact List.cons_subset.mpr ⟨h, by decide⟩
  · exact isType_name h

/-- The `type` of a fragment is one, whatever the shape. -/
theorem isType_fragmentOf {infer : List Value → Value} {vs : List Value} {t : Value}
    (h : (fragmentOf infer vs).type = some t) : IsType t := by
  unfold fragmentOf at h
  cases hshape : shapeOf vs with
  | nulls =>
    rw [hshape] at h
    obtain rfl := Option.some.inj h
    exact isType_name (by decide)
  | objects =>
    rw [hshape] at h
    obtain rfl := Option.some.inj h
    exact isType_typeValue (by decide) (by decide)
  | arrays =>
    rw [hshape] at h
    obtain rfl := Option.some.inj h
    exact isType_typeValue (by decide) (by decide)
  | primitive kind =>
    rw [hshape] at h
    obtain rfl := Option.some.inj h
    cases kind <;> exact isType_typeValue (by decide) (by decide)
  | mixed =>
    rw [hshape] at h
    obtain ⟨-, hnull⟩ := Option.ite_none_right_eq_some.mp h
    obtain rfl := Option.some.inj hnull
    exact .inr ⟨["null"], rfl, by decide, by decide, by decide⟩

/-- No key is required twice. -/
theorem nodup_requiredKeys (vs : List Value) : (requiredKeys vs).Nodup :=
  (nodup_collectKeys _).filter _

/-- Whatever was observed, the inferred schema is one, at every depth. -/
theorem isSchema_inferSchema (samples : List Value) : IsSchema (inferSchema samples) := by
  induction samples using evidence_induction with
  | h vs ih =>
    rw [inferSchema_eq]
    refine isSchema_render (fun t ht => isType_fragmentOf ht) ?_ (fun ps hps k s hs => ?_)
      (fun s hs => ?_)
    · unfold fragmentOf
      cases shapeOf vs <;> simp [nodup_requiredKeys]
    · have hproperty : childSchema (inferSchema vs) (.key k) = some s := by
        rw [childSchema, inferSchema_get_properties, Option.mem_def.mp hps]
        exact hs
      obtain ⟨hopen, rfl⟩ := childSchema_inferSchema_iff.mp hproperty
      exact ih _ hopen
    · have hitem : childSchema (inferSchema vs) .items = some s := by
        rw [childSchema, inferSchema_get_items]
        exact hs
      obtain ⟨hopen, rfl⟩ := childSchema_inferSchema_iff.mp hitem
      exact ih _ hopen

/-! ## The objects of OpenAPI -/

/-- The name is one of a specification extension. -/
def IsExtension (name : String) : Prop := "x-".toList <+: name.toList

instance (name : String) : Decidable (IsExtension name) := inferInstanceAs (Decidable (_ <+: _))

/-- A field of the specification with a value for it, or an extension. -/
def Extended (fields : List (String × (Value → Prop))) (k : String) (x : Value) : Prop :=
  IsExtension k ∨ FieldOf fields k x

/-- Content by media type. -/
def IsContent : Value → Prop :=
  ObjectOf [] fun _ => ObjectOf [] (Extended [("schema", IsSchema)])

/-- A description, and content if there is any. -/
def IsResponse : Value → Prop :=
  ObjectOf ["description"] (Extended [("description", IsString), ("content", IsContent)])

/-- Responses by code, one of them at least. -/
def IsResponses (v : Value) : Prop :=
  ObjectOf [] (fun code response =>
    IsExtension code ∨ IsResponseCode code ∧ IsResponse response) v ∧
    ∃ code, ¬ IsExtension code ∧ v.get code ≠ none

/-- Content, and whether a body must be sent. -/
def IsRequestBody : Value → Prop :=
  ObjectOf ["content"] (Extended [("content", IsContent), ("required", IsBool)])

/-- A parameter in the path, which is always required. -/
def IsPathParameter : Value → Prop :=
  ObjectOf ["name", "in", "required", "schema"] (Extended [("name", IsString),
    ("in", fun v => v = .string "path"), ("required", fun v => v = .bool true),
    ("schema", IsSchema)])

/-- Scopes by scheme name. -/
def IsSecurityRequirement : Value → Prop := ObjectOf [] fun _ => ArrayOf IsString

/-- Responses, and what may be sent to get them. -/
def IsOperation : Value → Prop :=
  ObjectOf ["responses"] (Extended [("responses", IsResponses), ("requestBody", IsRequestBody),
    ("parameters", ArrayOf IsPathParameter), ("security", ArrayOf IsSecurityRequirement)])

/-- Operations by method. -/
def IsPathItem : Value → Prop :=
  ObjectOf [] fun field operation =>
    IsExtension field ∨ field ∈ operationFields ∧ IsOperation operation

/-- Path items by route. -/
def IsPaths : Value → Prop :=
  ObjectOf [] fun route item => IsExtension route ∨ ['/'] <+: route.toList ∧ IsPathItem item

/-- A title and a version. -/
def IsInfo : Value → Prop :=
  ObjectOf ["title", "version"] (Extended [("title", IsString), ("version", IsString)])

/-- A scheme of the kind `http` or of the kind `apiKey`. -/
def IsSecurityScheme (v : Value) : Prop :=
  ObjectOf ["type", "scheme"] (Extended [("type", fun v => v = .string "http"),
    ("scheme", IsString)]) v ∨
  ObjectOf ["type", "in", "name"] (Extended [("type", fun v => v = .string "apiKey"),
    ("in", fun v => ∃ place ∈ ["query", "header", "cookie"], v = .string place),
    ("name", IsString)]) v

/-- Letters, digits, `.`, `-` and `_`. -/
def IsComponentName (name : String) : Prop :=
  name.toList ≠ [] ∧ ∀ c ∈ name.toList, c.isAlphanum = true ∨ c ∈ ['.', '-', '_']

/-- Schemas and security schemes by name. -/
def IsComponents : Value → Prop :=
  ObjectOf [] (Extended
    [("schemas", ObjectOf [] fun name schema => IsComponentName name ∧ IsSchema schema),
      ("securitySchemes", ObjectOf [] fun name scheme =>
        IsComponentName name ∧ IsSecurityScheme scheme)])

/-- The document, by its form alone. -/
def IsOpenapi : Value → Prop :=
  ObjectOf ["openapi", "info", "paths"] (Extended [("openapi", fun v => v = .string "3.1.0"),
    ("info", IsInfo), ("paths", IsPaths), ("components", IsComponents)])

/-- The document describes the operation; what stands under an extension is none. -/
structure DescribesOperation (doc : Value) (route method : String) (operation : Value) : Prop where
  slash : ['/'] <+: route.toList
  field : method ∈ operationFields
  operationAt : operationAt doc route method = some operation

/-- Paths that are equal up to the names of their expressions. -/
inductive SameHierarchy : List Char → List Char → Prop
  | nil : SameHierarchy [] []
  | char (c : Char) {path path' : List Char} (h : SameHierarchy path path') :
      SameHierarchy (c :: path) (c :: path')
  | expression {name name' path path' : List Char} (hname : BraceFree name)
      (hname' : BraceFree name') (h : SameHierarchy path path') :
      SameHierarchy (braced name ++ path) (braced name' ++ path')

/-- What OpenAPI asks across the objects of a document. -/
structure OpenapiValid (doc : Value) : Prop where
  form : IsOpenapi doc
  /-- The parameters of an operation are the expressions of its path. -/
  parameters : ∀ route method operation name, DescribesOperation doc route method operation →
    (HasExpression route name ↔ HasPathParameter operation name)
  /-- No parameter is listed twice. -/
  unique : ∀ route method operation parameters, DescribesOperation doc route method operation →
    operation.get "parameters" = some (.array parameters) →
      (parameters.map (·.get "name")).Nodup
  /-- The schemes that an operation names are defined. -/
  schemes : ∀ route method operation name, DescribesOperation doc route method operation →
    NamesScheme operation name → schemeDefinition doc name ≠ none
  /-- No two paths differ in the names of their parameters only. -/
  hierarchies : ∀ route route', ['/'] <+: route.toList →
    (doc.get "paths").bind (·.get route) ≠ none →
      (doc.get "paths").bind (·.get route') ≠ none →
        SameHierarchy route.toList route'.toList → route = route'

/-! ## What is taken over -/

/-- A generated schema whose definitions have names of components. -/
structure Declaration.WellFormed (declaration : Declaration) : Prop where
  schema : IsSchema declaration.schema
  definitions : ∀ name schema, declaration.definitions.get name = some schema →
    IsComponentName name ∧ IsSchema schema

/-- What the exchanges with a status may bring into a document. -/
structure Writable (exchanges : List Exchange) : Prop where
  /-- A route is an extension or a path. -/
  routes : ∀ e ∈ exchanges, e.response.status ≠ none →
    IsExtension e.routeTemplate ∨ ['/'] <+: e.routeTemplate.toList
  /-- A method under a path is an extension or an operation that can be documented. -/
  operations : ∀ e ∈ exchanges, ∀ status, e.response.status = some status →
    ['/'] <+: e.routeTemplate.toList → IsExtension (toAsciiLowercase e.method.asStr) ∨
      Documentable e status ∧ WellTemplated e.routeTemplate
  /-- Paths differ in more than the names of their parameters. -/
  hierarchies : ∀ e ∈ exchanges, ∀ e' ∈ exchanges, e.response.status ≠ none →
    e'.response.status ≠ none → ['/'] <+: e.routeTemplate.toList →
      SameHierarchy e.routeTemplate.toList e'.routeTemplate.toList →
        e.routeTemplate = e'.routeTemplate

/-! ## What is written -/

section

variable {fields : List (String × (Value → Prop))} {k : String} {x : Value} {P : Value → Prop}

/-- A field of the specification may stand there. -/
theorem extended_field (h : SortedMap.get fields k = some P) (hx : P x) : Extended fields k x :=
  .inr ((fieldOf_iff h).mpr hx)

/-- A member that is no extension is the value of a field. -/
theorem Extended.field (h : Extended fields k x) (hk : ¬ IsExtension k)
    (hP : SortedMap.get fields k = some P) : P x :=
  (fieldOf_iff hP).mp (h.resolve_left hk)

/-- The sample count may stand anywhere as an extension. -/
theorem extended_samples (x : Value) : Extended fields "x-cyanotype-samples" x :=
  .inl (by decide)

/-- A path is no extension. -/
theorem not_isExtension_of_slash {route : String} (h : ['/'] <+: route.toList) :
    ¬ IsExtension route := by
  intro hextension
  obtain ⟨rest, hroute⟩ := h
  rw [IsExtension, ← hroute] at hextension
  exact absurd (List.cons_prefix_cons.mp hextension).1 (by decide)

/-- A method of OpenAPI is none. -/
theorem not_isExtension_of_mem_operationFields {method : String} (h : method ∈ operationFields) :
    ¬ IsExtension method := by
  revert method
  decide

/-- A number is none. -/
theorem not_isExtension_toString (n : Nat) : ¬ IsExtension (toString n) := by
  intro h
  have hdigit := isDigit_of_mem_toString (h.subset (List.mem_cons_self (a := 'x')))
  revert hdigit
  decide

end

/-- A schema is written as JSON content. -/
theorem isContent_jsonContent {schema : Value} (h : IsSchema schema) :
    IsContent (jsonContent schema) := by
  refine ObjectOf.ofFields (by simp) ?_ (List.nil_subset _)
  refine List.forall_mem_singleton.mpr (ObjectOf.ofFields (by simp) ?_ (List.nil_subset _))
  exact List.forall_mem_singleton.mpr (extended_field rfl h)

/-- A response is written in its form when its schema is one. -/
theorem isResponse_responseObject (status : Nat) {acc : StatusAcc}
    (h : ∀ schema, acc.schema = some schema → IsSchema schema) :
    IsResponse (responseObject status acc) := by
  have hresponse : IsResponse (.ofFields
      [("description", .string ("Observed " ++ toString status ++ " response.")),
        ("x-cyanotype-samples", .ofNat acc.sampleCount)]) := by
    refine ObjectOf.ofFields (by simp) ?_ (by simp)
    refine List.forall_mem_cons.mpr ⟨extended_field rfl ⟨_, rfl⟩, ?_⟩
    exact List.forall_mem_singleton.mpr (extended_samples _)
  unfold responseObject
  cases hschema : acc.schema with
  | none => exact hresponse
  | some schema =>
    exact hresponse.setField (extended_field rfl (isContent_jsonContent (h schema hschema)))

/-- A request body is written in its form. -/
theorem isRequestBody_requestBodyObject (acc : OperationAcc) :
    IsRequestBody (requestBodyObject acc) := by
  have hbody : IsRequestBody (.ofFields
      [("content", jsonContent (inferSchema acc.requestSamples)),
        ("x-cyanotype-samples", .ofNat acc.requestSamples.length)]) := by
    refine ObjectOf.ofFields (by simp) ?_ (by simp)
    refine List.forall_mem_cons.mpr
      ⟨extended_field rfl (isContent_jsonContent (isSchema_inferSchema _)), ?_⟩
    exact List.forall_mem_singleton.mpr (extended_samples _)
  unfold requestBodyObject
  split_ifs
  · exact hbody.setField (extended_field rfl ⟨true, rfl⟩)
  · exact hbody

/-- A parameter is written in its form. -/
theorem isPathParameter_pathParameter (name : List Char) :
    IsPathParameter (pathParameter name) := by
  have hschema : IsSchema (.ofFields [("type", .string "string")]) :=
    isSchema_render (f := { type := some (.string "string") })
      (fun t ht => by obtain rfl := Option.some.inj ht; exact isType_name (by decide))
      List.nodup_nil nofun nofun
  refine ObjectOf.ofFields (by simp) ?_ (by simp)
  simp only [List.forall_mem_cons, List.not_mem_nil, false_implies, implies_true, and_true]
  exact ⟨extended_field rfl ⟨_, rfl⟩, extended_field rfl rfl, extended_field rfl rfl,
    extended_field rfl hschema⟩

/-- A scheme without scopes is a requirement. -/
theorem isSecurityRequirement_ofFields (name : String) :
    IsSecurityRequirement (.ofFields [(name, .array [])]) :=
  ObjectOf.ofFields (by simp) (List.forall_mem_singleton.mpr ⟨[], rfl, nofun⟩) (List.nil_subset _)

/-- The responses of an operation have their form when the codes have theirs. -/
theorem isResponses_responsesOf {acc : OperationAcc}
    (hne : ∃ status, acc.byStatus.get status ≠ none)
    (hall : ∀ status statusAcc, acc.byStatus.get status = some statusAcc →
      IsResponseCode (toString status) ∧
        ∀ schema, statusAcc.schema = some schema → IsSchema schema) :
    IsResponses (.object (responsesOf acc).entries) := by
  refine ⟨.of_map fun code response hresponse => ?_, ?_⟩
  · obtain ⟨status, rfl⟩ := eq_toString_of_responsesOf_get (hresponse ▸ Option.some_ne_none _)
    rw [responsesOf_get] at hresponse
    obtain ⟨statusAcc, hget, rfl⟩ := Option.map_eq_some_iff.mp hresponse
    obtain ⟨hcode, hschema⟩ := hall status statusAcc hget
    exact .inr ⟨hcode, isResponse_responseObject status hschema⟩
  · obtain ⟨status, hstatus⟩ := hne
    refine ⟨toString status, not_isExtension_toString status, ?_⟩
    rw [Value.get_object, BTreeMap.get_entries, responsesOf_get]
    simpa using hstatus

/-- So has the operation. -/
theorem isOperation_operationOf (key : OperationKey) {acc : OperationAcc}
    (h : IsResponses (.object (responsesOf acc).entries)) : IsOperation (operationOf key acc) := by
  have hoperation : IsOperation (.ofFields [("responses", .object (responsesOf acc).entries)]) :=
    ObjectOf.ofFields (by simp) (List.forall_mem_singleton.mpr (extended_field rfl h)) (by simp)
  rw [operationOf_eq]
  refine ObjectOf.unless_setField (ObjectOf.unless_setField
    (ObjectOf.unless_setField hoperation _ fun _ => ?_) _ fun _ => ?_) _ fun _ => ?_
  · exact extended_field rfl (isRequestBody_requestBodyObject acc)
  · refine extended_field rfl ⟨_, rfl, fun parameter hparameter => ?_⟩
    obtain ⟨name, -, rfl⟩ := mem_pathParameters_iff.mp hparameter
    exact isPathParameter_pathParameter name
  · refine extended_field rfl ⟨_, rfl, List.forall_mem_map.mpr fun e _ => ?_⟩
    exact isSecurityRequirement_ofFields e.1

/-- A security scheme is written in its form, whatever its kind. -/
theorem isSecurityScheme_toJson (scheme : SecurityScheme) : IsSecurityScheme scheme.toJson := by
  unfold SecurityScheme.toJson
  cases scheme.kind with
  | bearer =>
    refine .inl (ObjectOf.ofFields (by simp) ?_ (by simp))
    simp only [List.forall_mem_cons, List.not_mem_nil, false_implies, implies_true, and_true]
    exact ⟨extended_field rfl rfl, extended_field rfl ⟨_, rfl⟩⟩
  | apiKey =>
    refine .inr (ObjectOf.ofFields (by simp) ?_ (by simp))
    simp only [List.forall_mem_cons, List.not_mem_nil, false_implies, implies_true, and_true]
    exact ⟨extended_field rfl rfl, extended_field rfl ⟨"header", by decide, rfl⟩,
      extended_field rfl ⟨_, rfl⟩⟩

/-- The names of security schemes are component names. -/
theorem isComponentName_componentName (scheme : SecurityScheme) :
    IsComponentName scheme.componentName := by
  have hletters : ∀ name ∈ ["bearerAuth", "apiKeyAuth"],
      name.toList ≠ [] ∧ name.toList.all Char.isAlphanum = true := by decide
  have hname : scheme.componentName ∈ ["bearerAuth", "apiKeyAuth"] := by
    unfold SecurityScheme.componentName
    cases scheme.kind <;> simp
  obtain ⟨hne, hall⟩ := hletters _ hname
  exact ⟨hne, fun c hc => .inl (List.all_eq_true.mp hall c hc)⟩

/-- The components have their form when the definitions of the declarations do. -/
theorem isComponents_components {exchanges : List Exchange}
    (h : ∀ e ∈ exchanges, ∀ declaration, e.declaredResponseSchema = some declaration →
      declaration.WellFormed) {json : Value}
    (hjson : components (groupExchanges exchanges) = some json) : IsComponents json := by
  have hschemas : ObjectOf [] (fun name schema => IsComponentName name ∧ IsSchema schema)
      (.object (groupExchanges exchanges).componentSchemas.entries) := by
    refine .of_map fun name schema hget => ?_
    rw [groupExchanges_componentSchemas_get, Option.map_eq_some_iff] at hget
    obtain ⟨entry, hfind, rfl⟩ := hget
    obtain rfl : entry.1 = name := by simpa using List.find?_some hfind
    obtain ⟨⟨e, status⟩, he, hentry⟩ :=
      List.mem_flatMap.mp (List.mem_of_find?_eq_some hfind)
    cases hdeclared : e.declaredResponseSchema with
    | none => simp [hdeclared] at hentry
    | some declaration =>
      refine (h e (mem_completed_iff.mp he).1 declaration hdeclared).definitions _ _ ?_
      exact (BTreeMap.mem_entries_iff _).mp (by simpa [hdeclared] using hentry)
  have hschemes : ObjectOf [] (fun name scheme => IsComponentName name ∧ IsSecurityScheme scheme)
      (.object (groupExchanges exchanges).securitySchemeDefs.entries) := by
    refine .of_map fun name scheme hget => ?_
    obtain ⟨-, scheme, -, rfl, rfl⟩ := schemeDefs_get_eq_some_iff.mp hget
    exact ⟨isComponentName_componentName scheme, isSecurityScheme_toJson scheme⟩
  unfold components at hjson
  obtain ⟨-, hjson⟩ := Option.ite_none_left_eq_some.mp hjson
  obtain rfl := Option.some.inj hjson
  have hempty : IsComponents (.ofFields []) :=
    ObjectOf.ofFields (by simp) nofun (List.nil_subset _)
  refine ObjectOf.unless_setField (ObjectOf.unless_setField hempty _ fun _ => ?_) _ fun _ => ?_
  · exact extended_field rfl hschemes
  · exact extended_field rfl hschemas

/-- The whole document has its form when the paths and the components do. -/
theorem isOpenapi_documentOf {paths : Value} {components : Option Value} {warnings : List String}
    (hpaths : IsPaths paths) (hcomponents : ∀ json, components = some json → IsComponents json) :
    IsOpenapi (documentOf paths components warnings) := by
  have hinfo : IsInfo (.ofFields
      [("title", .string "Recorded API"), ("version", .string "0.0.0"),
        ("x-cyanotype-generator", .string ("cyanotype/" ++ generatorVersion))]) := by
    refine ObjectOf.ofFields (by simp) ?_ (by simp)
    simp only [List.forall_mem_cons, List.not_mem_nil, false_implies, implies_true, and_true]
    exact ⟨extended_field rfl ⟨_, rfl⟩, extended_field rfl ⟨_, rfl⟩, .inl (by decide)⟩
  have hdoc : ∀ info, IsInfo info → IsOpenapi (.ofFields
      [("openapi", .string "3.1.0"), ("info", info), ("paths", paths)]) := by
    intro info hinfo
    refine ObjectOf.ofFields (by simp) ?_ (by simp)
    simp only [List.forall_mem_cons, List.not_mem_nil, false_implies, implies_true, and_true]
    exact ⟨extended_field rfl rfl, extended_field rfl hinfo, extended_field rfl hpaths⟩
  have hwarned : ∀ info, IsInfo info → IsOpenapi (if warnings.isEmpty then .ofFields
        [("openapi", .string "3.1.0"), ("info", info), ("paths", paths)]
      else (Value.ofFields [("openapi", .string "3.1.0"), ("info", info),
        ("paths", paths)]).updateField "info"
          (·.setField "x-cyanotype-warnings" (.array (warnings.map .string)))) := by
    intro info hinfo
    have hget : (Value.ofFields [("openapi", .string "3.1.0"), ("info", info),
        ("paths", paths)]).get "info" = some info := by
      rw [Value.get_ofFields (by simp)]
      simp [SortedMap.get_cons]
    unfold Value.updateField
    rw [hget]
    exact (hdoc info hinfo).unless_setField _ fun _ =>
      extended_field rfl (hinfo.setField (.inl (by decide)))
  unfold documentOf
  cases components with
  | none => exact hwarned _ hinfo
  | some json => exact (hwarned _ hinfo).setField (extended_field rfl (hcomponents json rfl))

/-! ## Operations and paths -/

/-- The listed names are distinct when the segments in braces are. -/
theorem nodup_parameterNames_iff (route : String) :
    (parameterNames route).Nodup ↔ ((route.toList.splitOn '/').filterMap stripBraces).Nodup := by
  rw [parameterNames, pathParameters_eq_map, List.map_map]
  refine List.nodup_map_iff fun name name' hname => ?_
  simp only [Function.comp_apply, pathParameter_get_name, Option.some.injEq, Value.string.injEq,
    String.ofList_inj] at hname
  exact hname

section

variable {exchanges : List Exchange}

/-- The schema of a status is a declared one or inferred. -/
theorem isSchema_statusAcc (h : ∀ e ∈ exchanges, ∀ declaration,
    e.declaredResponseSchema = some declaration → declaration.WellFormed) {key : OperationKey}
    {status : Nat} {schema : Value}
    (hschema : (StatusAcc.of (observedWith key status exchanges)).schema = some schema) :
    IsSchema schema := by
  unfold StatusAcc.schema StatusAcc.of at hschema
  cases hfirst : firstDeclaration (observedWith key status exchanges) with
  | some declaration =>
    obtain ⟨e, he, hdeclared⟩ := List.exists_of_findSome?_eq_some hfirst
    rw [hfirst] at hschema
    obtain rfl := Option.some.inj hschema
    exact (h e (mem_observedWith_iff.mp he).1 declaration hdeclared).schema
  | none =>
    rw [hfirst] at hschema
    obtain ⟨-, hinferred⟩ := Option.ite_none_left_eq_some.mp hschema
    obtain rfl := Option.some.inj hinferred
    exact isSchema_inferSchema _

/-- An operation that was observed has the form of one when its statuses are codes. -/
theorem isOperation_of_observedAt (h : ∀ e ∈ exchanges, ∀ declaration,
    e.declaredResponseSchema = some declaration → declaration.WellFormed) {key : OperationKey}
    (hcodes : ∀ e ∈ observedAt key exchanges, ∀ status, e.response.status = some status →
      100 ≤ status ∧ status ≤ 599) (hne : observedAt key exchanges ≠ []) :
    IsOperation (operationOf key (operationAcc key exchanges)) := by
  refine isOperation_operationOf key (isResponses_responsesOf ?_ fun status acc hget => ?_)
  · obtain ⟨e, hmem⟩ := List.exists_mem_of_ne_nil _ hne
    obtain ⟨he, hcompleted, hkey⟩ := mem_observedAt_iff.mp hmem
    obtain ⟨status, hstatus⟩ := Option.ne_none_iff_exists'.mp hcompleted
    refine ⟨status, ?_⟩
    have hwith : e ∈ observedWith key status exchanges :=
      mem_observedWith_iff.mpr ⟨he, hstatus, hkey⟩
    rw [operationAcc_byStatus_get, if_neg (List.ne_nil_of_mem hwith)]
    exact Option.some_ne_none _
  · rw [operationAcc_byStatus_get] at hget
    obtain ⟨hobserved, hacc⟩ := Option.ite_none_left_eq_some.mp hget
    obtain rfl := Option.some.inj hacc
    obtain ⟨e, hmem⟩ := List.exists_mem_of_ne_nil _ hobserved
    obtain ⟨he, hstatus, hkey⟩ := mem_observedWith_iff.mp hmem
    have hat : e ∈ observedAt key exchanges :=
      mem_observedAt_iff.mpr ⟨he, hstatus ▸ Option.some_ne_none _, hkey⟩
    exact ⟨(isResponseCode_toString_iff status).mpr (hcodes e hat status hstatus),
      fun schema => isSchema_statusAcc h⟩

/-- What is found under a key was observed. -/
theorem observed_of_operations_get {key : OperationKey} {acc : OperationAcc}
    (hget : (groupExchanges exchanges).operations.get key = some acc) :
    acc = operationAcc key exchanges ∧ observedAt key exchanges ≠ [] := by
  rw [groupExchanges_operations_get] at hget
  obtain ⟨hne, hacc⟩ := Option.ite_none_left_eq_some.mp hget
  exact ⟨(Option.some.inj hacc).symm, hne⟩

/-- What was observed at an operation under a path can be documented. -/
theorem Writable.documentable (h : Writable exchanges) {key : OperationKey}
    (hslash : ['/'] <+: key.route.toList) (hmethod : ¬ IsExtension key.method) {e : Exchange}
    (hmem : e ∈ observedAt key exchanges) {status : Nat}
    (hstatus : e.response.status = some status) :
    Documentable e status ∧ WellTemplated e.routeTemplate := by
  obtain ⟨he, -, rfl⟩ := mem_observedAt_iff.mp hmem
  exact (h.operations e he status hstatus hslash).resolve_left hmethod

/-- A path item has its form when the methods and statuses under the path do. -/
theorem isPathItem_methodsOf (h : ∀ e ∈ exchanges, ∀ declaration,
    e.declaredResponseSchema = some declaration → declaration.WellFormed)
    (hwritable : Writable exchanges) {route : String} (hslash : ['/'] <+: route.toList) :
    IsPathItem (.object (methodsOf (groupExchanges exchanges).operations route).entries) := by
  refine .of_map fun method operation hoperation => ?_
  by_cases hmethod : IsExtension method
  · exact .inl hmethod
  rw [methodsOf_get] at hoperation
  obtain ⟨acc, hget, rfl⟩ := Option.map_eq_some_iff.mp hoperation
  obtain ⟨rfl, hne⟩ := observed_of_operations_get hget
  have hdocumentable : ∀ e ∈ observedAt ⟨route, method⟩ exchanges, ∀ status,
      e.response.status = some status → Documentable e status :=
    fun e hmem status hstatus => (hwritable.documentable hslash hmethod hmem hstatus).1
  right
  constructor
  · obtain ⟨e, hmem⟩ := List.exists_mem_of_ne_nil _ hne
    obtain ⟨-, hcompleted, hkey⟩ := mem_observedAt_iff.mp hmem
    obtain ⟨status, hstatus⟩ := Option.ne_none_iff_exists'.mp hcompleted
    obtain ⟨-, rfl⟩ := OperationKey.mk.inj hkey
    exact (hdocumentable e hmem status hstatus).method
  · apply isOperation_of_observedAt h _ hne
    intro e hmem status hstatus
    exact (hdocumentable e hmem status hstatus).status_range

/-- The paths have their form when the routes, methods and statuses do. -/
theorem isPaths_pathsOf (h : ∀ e ∈ exchanges, ∀ declaration,
    e.declaredResponseSchema = some declaration → declaration.WellFormed)
    (hwritable : Writable exchanges) :
    IsPaths (.object (pathsOf (groupExchanges exchanges).operations).entries) := by
  refine .of_map fun route item hitem => ?_
  by_cases hroute : IsExtension route
  · exact .inl hroute
  have hpresent : (pathsOf (groupExchanges exchanges).operations).get route ≠ none :=
    hitem ▸ Option.some_ne_none _
  obtain ⟨method, hmethod⟩ := (pathsOf_get_ne_none_iff _ route).mp hpresent
  obtain ⟨acc, hacc⟩ := Option.ne_none_iff_exists'.mp hmethod
  obtain ⟨e, hmem⟩ := List.exists_mem_of_ne_nil _ (observed_of_operations_get hacc).2
  obtain ⟨he, hcompleted, hkey⟩ := mem_observedAt_iff.mp hmem
  obtain rfl : e.routeTemplate = route := congrArg OperationKey.route hkey
  have hslash := (hwritable.routes e he hcompleted).resolve_left hroute
  rw [pathsOf_get] at hitem
  obtain ⟨-, hitem⟩ := Option.ite_none_left_eq_some.mp hitem
  obtain rfl := Option.some.inj hitem
  exact .inr ⟨hslash, isPathItem_methodsOf h hwritable hslash⟩

end

/-! ## The document -/

/-- What the form of a document says about a path item in it. -/
theorem IsOpenapi.pathItem {doc item : Value} (h : IsOpenapi doc) {route : String}
    (hitem : (doc.get "paths").bind (·.get route) = some item) :
    IsExtension route ∨ ['/'] <+: route.toList ∧ IsPathItem item := by
  obtain ⟨paths, hpaths, hroute⟩ := Option.bind_eq_some_iff.mp hitem
  have hform : IsPaths paths := (h.members _ _ hpaths).field (by decide) rfl
  exact hform.members _ _ hroute

/-- What it says about an operation under a path. -/
theorem IsOpenapi.operation {doc operation : Value} (h : IsOpenapi doc) {route method : String}
    (hslash : ['/'] <+: route.toList) (hoperation : operationAt doc route method = some operation) :
    IsExtension method ∨ method ∈ operationFields ∧ IsOperation operation := by
  obtain ⟨item, hitem, hmethod⟩ := Option.bind_eq_some_iff.mp hoperation
  obtain ⟨-, hform⟩ := (h.pathItem hitem).resolve_left (not_isExtension_of_slash hslash)
  exact hform.members _ _ hmethod

/-- What it says about the status of a response. -/
theorem IsOperation.code {operation responses : Value} (h : IsOperation operation)
    (hget : operation.get "responses" = some responses) {status : Nat}
    (hcode : responses.get (toString status) ≠ none) : 100 ≤ status ∧ status ≤ 599 := by
  obtain ⟨response, hresponse⟩ := Option.ne_none_iff_exists'.mp hcode
  have hlisted : IsResponses responses := (h.members _ _ hget).field (by decide) rfl
  obtain ⟨hform, -⟩ := (hlisted.1.members _ _ hresponse).resolve_left
    (not_isExtension_toString status)
  exact (isResponseCode_toString_iff status).mp hform

/-- In a valid document every completed exchange of an operation could be documented. -/
theorem OpenapiValid.documentable {exchanges : List Exchange} {warnings : List String}
    (hvalid : OpenapiValid (buildDocument exchanges warnings).1) {e : Exchange}
    (he : e ∈ exchanges) {status : Nat} (hstatus : e.response.status = some status)
    (hslash : ['/'] <+: e.routeTemplate.toList)
    (hmethod : ¬ IsExtension (toAsciiLowercase e.method.asStr)) :
    Documentable e status ∧ WellTemplated e.routeTemplate := by
  have hcompleted : e.response.status ≠ none := by simp [hstatus]
  obtain ⟨response, hresponse⟩ := Option.ne_none_iff_exists'.mp
    ((responseAt_ne_none_iff exchanges warnings _ _ _).mpr ⟨e, he, status, hstatus, rfl, rfl, rfl⟩)
  obtain ⟨responses, hresponses, hcode⟩ := Option.bind_eq_some_iff.mp hresponse
  obtain ⟨operation, hoperation, hget⟩ := Option.bind_eq_some_iff.mp hresponses
  obtain ⟨hfield, hform⟩ := (hvalid.form.operation hslash hoperation).resolve_left hmethod
  have hdescribes : DescribesOperation (buildDocument exchanges warnings).1 e.routeTemplate
      (toAsciiLowercase e.method.asStr) operation := ⟨hslash, hfield, hoperation⟩
  have hrange := hform.code hget (hcode ▸ Option.some_ne_none response)
  have hparameters : ∀ name, HasExpression e.routeTemplate name ↔
      braced name ∈ e.routeTemplate.toList.splitOn '/' := by
    intro name
    rw [hvalid.parameters _ _ _ name hdescribes, eq_operationOf_of_operationAt hoperation,
      hasPathParameter_operationOf_iff]
  refine ⟨⟨hfield, hrange, fun name => (hparameters name).mp⟩, hslash, fun name hname => ?_, ?_⟩
  · obtain ⟨hopening, hclosing, -⟩ := (hparameters name).mpr hname
    exact ⟨hopening, hclosing⟩
  · rw [← nodup_parameterNames_iff, parameterNames]
    by_cases hempty : pathParameters e.routeTemplate = []
    · rw [hempty]
      exact List.nodup_nil
    · refine hvalid.unique _ _ _ _ hdescribes ?_
      rw [eq_operationOf_of_operationAt hoperation, operationOf_get]
      simp [hempty]

/-- A route has a path item exactly when a completed exchange has the route. -/
theorem pathItem_ne_none_iff (exchanges : List Exchange) (warnings : List String)
    (route : String) :
    ((buildDocument exchanges warnings).1.get "paths").bind (·.get route) ≠ none ↔
      ∃ e ∈ exchanges, e.response.status ≠ none ∧ e.routeTemplate = route := by
  rw [buildDocument_route_iff]
  simp only [observedAt_ne_nil_iff]
  constructor
  · rintro ⟨method, e, he, hcompleted, hroute, -⟩
    exact ⟨e, he, hcompleted, hroute⟩
  · rintro ⟨e, he, hcompleted, hroute⟩
    exact ⟨_, e, he, hcompleted, hroute, rfl⟩

/-- What a valid document was written about could be written. -/
theorem OpenapiValid.writable {exchanges : List Exchange} {warnings : List String}
    (hvalid : OpenapiValid (buildDocument exchanges warnings).1) : Writable exchanges := by
  have hlisted : ∀ e ∈ exchanges, e.response.status ≠ none →
      ((buildDocument exchanges warnings).1.get "paths").bind (·.get e.routeTemplate) ≠ none :=
    fun e he hcompleted =>
      (pathItem_ne_none_iff exchanges warnings _).mpr ⟨e, he, hcompleted, rfl⟩
  constructor
  case routes =>
    intro e he hcompleted
    obtain ⟨item, hitem⟩ := Option.ne_none_iff_exists'.mp (hlisted e he hcompleted)
    exact (hvalid.form.pathItem hitem).imp_right And.left
  case operations =>
    intro e he status hstatus hslash
    exact or_iff_not_imp_left.mpr (hvalid.documentable he hstatus hslash)
  case hierarchies =>
    intro e he e' he' hcompleted hcompleted' hslash
    exact hvalid.hierarchies _ _ hslash (hlisted e he hcompleted) (hlisted e' he' hcompleted')

/-- The document of exchanges that can be written is valid. -/
theorem Writable.openapiValid {exchanges : List Exchange} (hwritable : Writable exchanges)
    (h : ∀ e ∈ exchanges, ∀ declaration, e.declaredResponseSchema = some declaration →
      declaration.WellFormed) (warnings : List String) :
    OpenapiValid (buildDocument exchanges warnings).1 := by
  -- An operation of the document is one of a completed exchange.
  have hroute : ∀ {route method operation},
      DescribesOperation (buildDocument exchanges warnings).1 route method operation →
        (∀ name, HasExpression route name ↔ braced name ∈ route.toList.splitOn '/') ∧
          WellTemplated route := by
    rintro route method operation ⟨hslash, hfield, hoperation⟩
    obtain ⟨e, he, hcompleted, rfl, rfl⟩ := (operationAt_ne_none_iff exchanges warnings _ _).mp
      (hoperation ▸ Option.some_ne_none _)
    obtain ⟨status, hstatus⟩ := Option.ne_none_iff_exists'.mp hcompleted
    obtain ⟨hdocumentable, htemplated⟩ := hwritable.documentable hslash
      (not_isExtension_of_mem_operationFields hfield)
      (mem_observedAt_iff.mpr ⟨he, hcompleted, rfl⟩) hstatus
    exact ⟨htemplated.hasExpression_iff hdocumentable.expressions, htemplated⟩
  constructor
  case form =>
    rw [buildDocument_eq]
    exact isOpenapi_documentOf (isPaths_pathsOf h hwritable) fun json => isComponents_components h
  case parameters =>
    intro route method operation name hdescribes
    rw [(hroute hdescribes).1, eq_operationOf_of_operationAt hdescribes.operationAt,
      hasPathParameter_operationOf_iff]
  case unique =>
    intro route method operation parameters hdescribes hget
    rw [eq_operationOf_of_operationAt hdescribes.operationAt, operationOf_get] at hget
    obtain ⟨-, rfl⟩ : ¬ pathParameters route = [] ∧ pathParameters route = parameters := by
      simpa using hget
    exact (nodup_parameterNames_iff route).mpr (hroute hdescribes).2.distinct
  case schemes =>
    intro route method operation name hdescribes hnames
    rw [eq_operationOf_of_operationAt hdescribes.operationAt,
      namesScheme_operationOf_iff] at hnames
    obtain ⟨scheme, hobserved, hname⟩ := hnames
    rw [schemeDefinition_buildDocument,
      schemeDefs_get_eq_some_iff.mpr ⟨_, scheme, hobserved, hname, rfl⟩]
    exact Option.some_ne_none _
  case hierarchies =>
    intro route route' hslash hitem hitem'
    obtain ⟨e, he, hcompleted, rfl⟩ := (pathItem_ne_none_iff exchanges warnings _).mp hitem
    obtain ⟨e', he', hcompleted', rfl⟩ := (pathItem_ne_none_iff exchanges warnings _).mp hitem'
    exact hwritable.hierarchies e he e' he' hcompleted hcompleted' hslash

/-- The route `/users/:id`. -/
def userRoute : RouteTemplate where
  segments := [⟨"users".toList, none, by decide, RouteTemplate.plain_of_no_capture⟩,
    ⟨[], some "id".toList, RouteTemplate.isPlain_nil, by rintro _ ⟨⟩; decide⟩]
  wildcard := none
  nonempty := .inl (List.cons_ne_nil _ _)
  plain_wildcard := RouteTemplate.plain_of_no_capture

/-- `X-PURGE`, which falls among the extensions. -/
def Method.purge : Method := ⟨"X-PURGE", by decide, by decide⟩

/-- A user of a declared type, one that was not found, and one that was purged. -/
def userExchanges : List Exchange :=
  [{ exchangeWithJsonResponse (toOpenapiTemplate userRoute.text) .get 200
        (.object [("id", .ofNat 7)]) with
      declaredResponseSchema := some ⟨.object [("type", .string "object")], .empty⟩ },
    exchangeWithJsonResponse (toOpenapiTemplate userRoute.text) .get 404 .null,
    exchangeWithJsonResponse (toOpenapiTemplate userRoute.text) Method.purge 600 .null]

/-- The texts of the route have no braces. -/
theorem userRoute_clean : userRoute.Clean where
  parts := by
    have hparts : userRoute.parts = [("users".toList, none), ([], some "id".toList)] := rfl
    rw [hparts]
    intro p hp
    rcases List.mem_pair.mp hp with rfl | rfl
    · exact ⟨by unfold BraceFree; decide, nofun⟩
    · refine ⟨by unfold BraceFree; decide, ?_⟩
      rintro _ ⟨⟩
      unfold BraceFree
      decide
  distinct := by decide

end Cyanotype
