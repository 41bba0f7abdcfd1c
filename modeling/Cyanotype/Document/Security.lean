import Cyanotype.Document.Account
import Mathlib.Data.Set.List

/-!
# Security schemes in the document

Uses and definitions of schemes are accumulated in two maps and written in two
places. Both hold exactly the schemes of completed exchanges, so no use dangles and
no definition is idle.
-/

namespace Cyanotype

/-- A completed exchange of the operation carries the scheme. -/
def ObservedScheme (exchanges : List Exchange) (key : OperationKey) (scheme : SecurityScheme) :
    Prop :=
  ∃ e ∈ exchanges, e.response.status ≠ none ∧ e.operationKey = key ∧ e.security = some scheme

/-- The entry of a `security` list for a scheme; no scopes are recorded. -/
def securityRequirement (scheme : SecurityScheme) : Value :=
  .ofFields [(scheme.componentName, .array [])]

/-- The `security` of an operation names a scheme. -/
def NamesScheme (operation : Value) (name : String) : Prop :=
  ∃ requirements, operation.get "security" = some (.array requirements) ∧
    ∃ requirement ∈ requirements, requirement.get name ≠ none

/-- The definition of a scheme name in the document's components. -/
def schemeDefinition (doc : Value) (name : String) : Option Value :=
  ((doc.get "components").bind (·.get "securitySchemes")).bind (·.get name)

/-- The members that OpenAPI gives a scheme of each kind. -/
def SchemeKind.members : SchemeKind → List (String × Value)
  | .bearer => [("type", .string "http"), ("scheme", .string "bearer")]
  | .apiKey => [("type", .string "apiKey"), ("in", .string "header"),
      ("name", .string "Authorization")]

/-- The value is the object with the members of the kind and no others. -/
def DescribesKind (kind : SchemeKind) (json : Value) : Prop :=
  json.isObject = true ∧ ∀ k, json.get k = SortedMap.get kind.members k

/-- An exchange that was never answered, without its scheme; any other one as it is. -/
def Exchange.forgetUnanswered (exchange : Exchange) : Exchange :=
  if exchange.response.status = none then { exchange with security := none } else exchange

/-! ## Uses -/

/-- The scheme names of an operation, in the order of the document. -/
def OperationAcc.schemeNames (acc : OperationAcc) : List String :=
  acc.securitySchemes.entries.map Prod.fst

/-- The scheme names of an operation are those of its observed schemes. -/
theorem mem_schemeNames_iff {exchanges : List Exchange} {key : OperationKey} {name : String} :
    name ∈ (operationAcc key exchanges).schemeNames ↔
      ∃ scheme, ObservedScheme exchanges key scheme ∧ scheme.componentName = name := by
  rw [OperationAcc.schemeNames, ← SortedMap.get_ne_none_iff, BTreeMap.get_entries,
    operationAcc_securitySchemes_get, ne_eq, ite_eq_right_iff, not_forall]
  simp only [reduceCtorEq, not_false_eq_true, exists_prop, and_true, List.mem_map,
    List.mem_filterMap, mem_observedAt_iff, ObservedScheme]
  constructor
  · rintro ⟨scheme, ⟨e, ⟨he, hstatus, hkey⟩, hscheme⟩, hname⟩
    exact ⟨scheme, ⟨e, he, hstatus, hkey, hscheme⟩, hname⟩
  · rintro ⟨scheme, ⟨e, he, hstatus, hkey, hscheme⟩, hname⟩
    exact ⟨scheme, ⟨e, ⟨he, hstatus, hkey⟩, hscheme⟩, hname⟩

/-- The `security` of an operation, by the names it lists. -/
theorem operationOf_get_security (key : OperationKey) (acc : OperationAcc) :
    (operationOf key acc).get "security" =
      if acc.schemeNames.isEmpty then none
      else some (.array (acc.schemeNames.map fun name => .ofFields [(name, .array [])])) := by
  rw [operationOf_get, OperationAcc.schemeNames, List.isEmpty_map, List.map_map]
  rfl

/-- An operation has `security` exactly when a scheme is observed there. -/
theorem operationOf_get_security_ne_none_iff {key : OperationKey} {exchanges : List Exchange} :
    (operationOf key (operationAcc key exchanges)).get "security" ≠ none ↔
      ∃ scheme, ObservedScheme exchanges key scheme := by
  rw [operationOf_get_security]
  split_ifs with hempty
  · refine iff_of_false (fun hne => hne rfl) ?_
    rintro ⟨scheme, hobserved⟩
    have hmem := mem_schemeNames_iff.mpr ⟨scheme, hobserved, rfl⟩
    exact List.ne_nil_of_mem hmem (List.isEmpty_iff.mp hempty)
  · refine iff_of_true (Option.some_ne_none _) ?_
    obtain ⟨name, hname⟩ := List.exists_mem_of_ne_nil _ (mt List.isEmpty_iff.mpr hempty)
    obtain ⟨scheme, hobserved, -⟩ := mem_schemeNames_iff.mp hname
    exact ⟨scheme, hobserved⟩

/-- Names of schemes, each listed once, are the names of schemes listed once. -/
theorem exists_schemes_of_names {names : List String} (hnodup : names.Nodup)
    {P : SecurityScheme → Prop}
    (h : ∀ name, name ∈ names ↔ ∃ scheme, P scheme ∧ scheme.componentName = name) :
    ∃ schemes : List SecurityScheme, schemes.Nodup ∧ (∀ scheme, scheme ∈ schemes ↔ P scheme) ∧
      schemes.map SecurityScheme.componentName = names := by
  have hinjective : Function.Injective SecurityScheme.componentName :=
    fun _ _ heq => SecurityScheme.eq_of_componentName_eq heq
  have hrange : names ∈ Set.range (List.map SecurityScheme.componentName) := by
    rw [Set.range_list_map]
    intro name hname
    obtain ⟨scheme, -, heq⟩ := (h name).mp hname
    exact ⟨scheme, heq⟩
  obtain ⟨schemes, rfl⟩ := hrange
  refine ⟨schemes, hnodup.of_map, fun scheme => ?_, rfl⟩
  rw [← List.mem_map_of_injective hinjective, h]
  constructor
  · rintro ⟨scheme', hP, heq⟩
    rwa [← hinjective heq]
  · exact fun hP => ⟨scheme, hP, rfl⟩

/-- An operation names exactly its observed schemes. -/
theorem namesScheme_operationOf_iff {key : OperationKey} {exchanges : List Exchange}
    {name : String} :
    NamesScheme (operationOf key (operationAcc key exchanges)) name ↔
      ∃ scheme, ObservedScheme exchanges key scheme ∧ scheme.componentName = name := by
  have hentry : ∀ name', (Value.ofFields [(name', .array [])]).get name ≠ none ↔ name' = name := by
    intro name'
    rw [Value.get_ofFields (by simp), SortedMap.get_ne_none_iff]
    simp [eq_comm]
  rw [← mem_schemeNames_iff, NamesScheme, operationOf_get_security]
  constructor
  · rintro ⟨requirements, hget, requirement, hmem, hname⟩
    split_ifs at hget
    obtain rfl := Value.array.inj (Option.some.inj hget)
    obtain ⟨name', hname', rfl⟩ := List.mem_map.mp hmem
    rwa [← (hentry name').mp hname]
  · intro hname
    rw [if_neg fun hempty => List.ne_nil_of_mem hname (List.isEmpty_iff.mp hempty)]
    exact ⟨_, rfl, _, List.mem_map.mpr ⟨name, hname, rfl⟩, (hentry name).mpr rfl⟩

/-! ## Definitions -/

/-- A scheme is defined exactly when some completed exchange carries it. -/
theorem schemeDefs_get_eq_some_iff {exchanges : List Exchange} {name : String} {json : Value} :
    (groupExchanges exchanges).securitySchemeDefs.get name = some json ↔
      ∃ key scheme, ObservedScheme exchanges key scheme ∧ scheme.componentName = name ∧
        scheme.toJson = json := by
  have hmem : ∀ scheme, scheme ∈ (completed exchanges).filterMap (·.1.security) ↔
      ∃ key, ObservedScheme exchanges key scheme := by
    intro scheme
    simp only [List.mem_filterMap, Prod.exists, mem_completed_iff, ObservedScheme]
    constructor
    · rintro ⟨e, status, ⟨he, hstatus⟩, hscheme⟩
      exact ⟨e.operationKey, e, he, by simp [hstatus], rfl, hscheme⟩
    · rintro ⟨key, e, he, hstatus, -, hscheme⟩
      obtain ⟨status, hsome⟩ := Option.ne_none_iff_exists'.mp hstatus
      exact ⟨e, status, ⟨he, hsome⟩, hscheme⟩
  have hname_of : ∀ {scheme}, ((completed exchanges).filterMap (·.1.security)).find?
      (·.componentName = name) = some scheme → scheme.componentName = name :=
    fun hfind => by simpa using List.find?_some hfind
  rw [groupExchanges_securitySchemeDefs_get, Option.map_eq_some_iff]
  constructor
  · rintro ⟨scheme, hfind, hjson⟩
    obtain ⟨key, hobserved⟩ := (hmem scheme).mp (List.mem_of_find?_eq_some hfind)
    exact ⟨key, scheme, hobserved, hname_of hfind, hjson⟩
  · rintro ⟨key, scheme, hobserved, hname, hjson⟩
    have hsome : (((completed exchanges).filterMap (·.1.security)).find?
        (·.componentName = name)).isSome = true :=
      List.find?_isSome.mpr ⟨scheme, (hmem scheme).mpr ⟨key, hobserved⟩, decide_eq_true hname⟩
    obtain ⟨scheme', hfind⟩ := Option.isSome_iff_exists.mp hsome
    -- Schemes under one name are one scheme, whichever came first.
    obtain rfl : scheme' = scheme :=
      SecurityScheme.eq_of_componentName_eq ((hname_of hfind).trans hname.symm)
    exact ⟨scheme', hfind, hjson⟩

/-- A scheme is written with exactly the members of its kind. -/
theorem describesKind_toJson (scheme : SecurityScheme) :
    DescribesKind scheme.kind scheme.toJson := by
  obtain ⟨headerName, kind, rfl⟩ := scheme
  cases kind with
  | bearer => exact ⟨Value.isObject_ofFields _, fun k => Value.get_ofFields (by simp) k⟩
  | apiKey => exact ⟨Value.isObject_ofFields _, fun k => Value.get_ofFields (by simp) k⟩

/-- A definition of the document is one that the grouping pass kept. -/
theorem schemeDefinition_buildDocument (exchanges : List Exchange) (warnings : List String)
    (name : String) :
    schemeDefinition (buildDocument exchanges warnings).1 name =
      (groupExchanges exchanges).securitySchemeDefs.get name := by
  rw [schemeDefinition, buildDocument_eq, documentOf_get_components, components_get,
    if_neg (by decide), if_pos rfl, get_object_unless_isEmpty]

/-! ## The document as a whole -/

/-- Uses and definitions of schemes in a document are those of the exchanges. -/
structure SecurityExact (doc : Value) (exchanges : List Exchange) : Prop where
  /-- An operation has `security` exactly when a completed exchange there has a scheme. -/
  present_iff : ∀ route method operation, operationAt doc route method = some operation →
    (operation.get "security" ≠ none ↔
      ∃ scheme, ObservedScheme exchanges ⟨route, method⟩ scheme)
  /-- It has one entry for each scheme observed there. -/
  entries : ∀ route method operation security, operationAt doc route method = some operation →
    operation.get "security" = some security →
      ∃ schemes : List SecurityScheme, schemes.Nodup ∧
        (∀ scheme, scheme ∈ schemes ↔ ObservedScheme exchanges ⟨route, method⟩ scheme) ∧
        security = .array (schemes.map securityRequirement)
  /-- A name that an operation uses is that of a scheme observed there, and is defined with
  the members of that scheme's kind. -/
  defined : ∀ route method operation name, operationAt doc route method = some operation →
    NamesScheme operation name →
      ∃ scheme, ObservedScheme exchanges ⟨route, method⟩ scheme ∧ scheme.componentName = name ∧
        schemeDefinition doc name = some scheme.toJson ∧ DescribesKind scheme.kind scheme.toJson
  /-- A defined name is used by an operation. -/
  used : ∀ name, schemeDefinition doc name ≠ none →
    ∃ route method operation, operationAt doc route method = some operation ∧
      NamesScheme operation name
  /-- A scheme of exchanges without a status only is neither defined nor used. -/
  unanswered : ∀ scheme : SecurityScheme,
    (∀ e ∈ exchanges, e.security = some scheme → e.response.status = none) →
      schemeDefinition doc scheme.componentName = none ∧
        ∀ route method operation, operationAt doc route method = some operation →
          ¬ NamesScheme operation scheme.componentName

/-- The grouping pass does not read the scheme of an unanswered exchange. -/
theorem DocumentAcc.record_forgetUnanswered (acc : DocumentAcc) (e : Exchange) :
    acc.record e.forgetUnanswered = acc.record e := by
  unfold Exchange.forgetUnanswered
  split_ifs with hstatus
  · simp only [record, hstatus]
  · rfl

/-- The grouping pass never reads the scheme of an unanswered exchange. -/
theorem groupExchanges_map_forgetUnanswered (exchanges : List Exchange) :
    groupExchanges (exchanges.map Exchange.forgetUnanswered) = groupExchanges exchanges := by
  unfold groupExchanges
  rw [List.foldl_map]
  simp only [DocumentAcc.record_forgetUnanswered]

/-- The name of a scheme that only unanswered exchanges carry is not that of an observed one. -/
theorem ObservedScheme.componentName_ne {exchanges : List Exchange} {key : OperationKey}
    {scheme scheme' : SecurityScheme} (h : ObservedScheme exchanges key scheme')
    (hnone : ∀ e ∈ exchanges, e.security = some scheme → e.response.status = none) :
    scheme'.componentName ≠ scheme.componentName := by
  intro hname
  obtain ⟨e, he, hstatus, -, hscheme⟩ := h
  rw [SecurityScheme.eq_of_componentName_eq hname] at hscheme
  exact hstatus (hnone e he hscheme)

/-- An operation that was observed is in the document. -/
theorem ObservedScheme.operationAt {exchanges : List Exchange} {key : OperationKey}
    {scheme : SecurityScheme} (h : ObservedScheme exchanges key scheme)
    (warnings : List String) :
    operationAt (buildDocument exchanges warnings).1 key.route key.method =
      some (operationOf key (operationAcc key exchanges)) := by
  obtain ⟨e, he, hstatus, hkey, -⟩ := h
  have hmem : e ∈ observedAt key exchanges := mem_observedAt_iff.mpr ⟨he, hstatus, hkey⟩
  rw [operationAt_buildDocument, if_neg (List.ne_nil_of_mem hmem)]

/-- Every document's uses and definitions of schemes are exactly those of its completed
exchanges, and the schemes of other exchanges do not change it. -/
theorem security_exact (exchanges : List Exchange) (warnings : List String) :
    SecurityExact (buildDocument exchanges warnings).1 exchanges ∧
      buildDocument (exchanges.map Exchange.forgetUnanswered) warnings =
        buildDocument exchanges warnings := by
  refine ⟨?_, ?_⟩
  · constructor
    case present_iff =>
      intro route method operation h
      rw [eq_operationOf_of_operationAt h]
      exact operationOf_get_security_ne_none_iff
    case entries =>
      intro route method operation security h hget
      rw [eq_operationOf_of_operationAt h, operationOf_get_security] at hget
      split_ifs at hget
      obtain rfl := Option.some.inj hget
      obtain ⟨schemes, hnodup, hmem, hnames⟩ :=
        exists_schemes_of_names (BTreeMap.nodup_keys _) fun name => mem_schemeNames_iff
      refine ⟨schemes, hnodup, hmem, congrArg Value.array ?_⟩
      rw [OperationAcc.schemeNames, ← hnames, List.map_map]
      rfl
    case defined =>
      intro route method operation name h hnames
      rw [eq_operationOf_of_operationAt h, namesScheme_operationOf_iff] at hnames
      obtain ⟨scheme, hobserved, hname⟩ := hnames
      refine ⟨scheme, hobserved, hname, ?_, describesKind_toJson scheme⟩
      rw [schemeDefinition_buildDocument, schemeDefs_get_eq_some_iff]
      exact ⟨_, scheme, hobserved, hname, rfl⟩
    case used =>
      intro name hne
      obtain ⟨json, hjson⟩ := Option.ne_none_iff_exists'.mp hne
      rw [schemeDefinition_buildDocument, schemeDefs_get_eq_some_iff] at hjson
      obtain ⟨key, scheme, hobserved, hname, -⟩ := hjson
      exact ⟨key.route, key.method, _, hobserved.operationAt warnings,
        namesScheme_operationOf_iff.mpr ⟨scheme, hobserved, hname⟩⟩
    case unanswered =>
      intro scheme hnone
      constructor
      · rw [schemeDefinition_buildDocument, Option.eq_none_iff_forall_ne_some]
        intro json hjson
        obtain ⟨key, scheme', hobserved, hname, -⟩ := schemeDefs_get_eq_some_iff.mp hjson
        exact hobserved.componentName_ne hnone hname
      · intro route method operation h hnames
        rw [eq_operationOf_of_operationAt h, namesScheme_operationOf_iff] at hnames
        obtain ⟨scheme', hobserved, hname⟩ := hnames
        exact hobserved.componentName_ne hnone hname
  · unfold buildDocument
    rw [groupExchanges_map_forgetUnanswered]

end Cyanotype
