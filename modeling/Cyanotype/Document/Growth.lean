import Cyanotype.Document.Completion
import Cyanotype.Document.Order
import Cyanotype.Document.Security
import Cyanotype.Recorder.Growth

/-!
# Documents only grow

A document written from a later snapshot accounts for everything that an earlier one
accounts for: operations, statuses, contents, request bodies and security schemes stay,
sample counts do not fall, and inferred schemas have the evidence they had and more.
Only a declaration may take the place of a schema.
-/

namespace Cyanotype

/-- The request body of an operation. -/
def requestBodyAt (doc : Value) (route method : String) : Option Value :=
  (operationAt doc route method).bind (·.get "requestBody")

/-- The sample count of a message. -/
def samplesOf (message : Value) : Option Value := message.get "x-cyanotype-samples"

/-- A count that is there, and does not fall. -/
def CountGrows (before after : Option Value) : Prop :=
  ∀ n, before = some (.ofNat n) → ∃ n', n ≤ n' ∧ after = some (.ofNat n')

/-- A schema inferred from the bodies `vs`, and later from the bodies `ws`, which are these and
more. -/
def EvidenceGrows (vs ws : List Value) (before after : Option Value) : Prop :=
  vs.Sublist ws ∧ before = some (inferSchema vs) ∧ after = some (inferSchema ws)

/-- The document of some exchanges, and that of the same exchanges and others later on. -/
structure DocumentGrows (es es' : List Exchange) (doc doc' : Value) : Prop where
  operations : ∀ route method, operationAt doc route method ≠ none →
    operationAt doc' route method ≠ none
  responses : ∀ route method code, responseAt doc route method code ≠ none →
    responseAt doc' route method code ≠ none
  samples : ∀ route method code, CountGrows ((responseAt doc route method code).bind samplesOf)
    ((responseAt doc' route method code).bind samplesOf)
  contents : ∀ route method code, (responseAt doc route method code).bind contentSchema ≠ none →
    (responseAt doc' route method code).bind contentSchema ≠ none
  inferred : ∀ route method code, ¬ DeclaredAt es' route method code →
    (responseAt doc route method code).bind contentSchema ≠ none →
      ∃ status : Nat, code = toString status ∧ EvidenceGrows
        (responseBodies (observedWith ⟨route, method⟩ status es))
        (responseBodies (observedWith ⟨route, method⟩ status es'))
        ((responseAt doc route method code).bind contentSchema)
        ((responseAt doc' route method code).bind contentSchema)
  requestSamples : ∀ route method, CountGrows ((requestBodyAt doc route method).bind samplesOf)
    ((requestBodyAt doc' route method).bind samplesOf)
  requestSchemas : ∀ route method, (requestBodyAt doc route method).bind contentSchema ≠ none →
    EvidenceGrows (requestBodies (observedAt ⟨route, method⟩ es))
      (requestBodies (observedAt ⟨route, method⟩ es'))
      ((requestBodyAt doc route method).bind contentSchema)
      ((requestBodyAt doc' route method).bind contentSchema)
  security : ∀ route method operation name, operationAt doc route method = some operation →
    NamesScheme operation name → ∃ operation',
      operationAt doc' route method = some operation' ∧ NamesScheme operation' name
  schemes : ∀ name json, schemeDefinition doc name = some json →
    schemeDefinition doc' name = some json

/-! ## What a later view selects -/

/-- A later view of a store that is not empty. -/
theorem Below.cons_left {e : Exchange} {es es' : List Exchange} (h : Below (e :: es) es') :
    ∃ e' tail, es' = e' :: tail ∧ e.Grows e' ∧ Below es tail := by
  cases es' with
  | nil =>
    obtain ⟨e', he', -⟩ := h 0 e rfl
    cases he'
  | cons e' tail =>
    obtain ⟨e'', he'', hgrows⟩ := h 0 e rfl
    obtain rfl := Option.some.inj he''
    exact ⟨e', tail, rfl, hgrows, fun n a ha => h (n + 1) a ha⟩

/-- What is read off each exchange, and stays once it is there, is read off a later view
in the same order, with more between and after. -/
theorem Below.sublist_filterMap {β : Type*} {f : Exchange → Option β}
    (hf : ∀ e e', Exchange.Grows e e' → FilledOnce none (f e) (f e')) {es es' : List Exchange}
    (h : Below es es') : (es.filterMap f).Sublist (es'.filterMap f) := by
  induction es generalizing es' with
  | nil => exact List.nil_sublist _
  | cons e es ih =>
    obtain ⟨e', tail, rfl, hgrows, htail⟩ := h.cons_left
    rcases hf e e' hgrows with hnone | hsame
    · rw [List.filterMap_cons_none hnone]
      exact (ih htail).trans ((List.sublist_cons_self ..).filterMap f)
    · rw [List.filterMap_cons, List.filterMap_cons, hsame]
      cases f e with
      | none => exact ih htail
      | some b => exact (ih htail).cons_cons b

/-- Whatever is read off an earlier view is found in a later one. -/
theorem Below.exists_grows {es es' : List Exchange} (h : Below es es') {e : Exchange}
    (he : e ∈ es) : ∃ e' ∈ es', e.Grows e' := by
  obtain ⟨n, hn⟩ := List.mem_iff_getElem?.mp he
  obtain ⟨e', he', hgrows⟩ := h n e hn
  exact ⟨e', List.mem_of_getElem? he', hgrows⟩

namespace Exchange.Grows

variable {e e' : Exchange}

/-- An exchange that grows stays at its operation. -/
theorem operationKey (h : e.Grows e') : e'.operationKey = e.operationKey := by
  rw [Exchange.operationKey, Exchange.operationKey, h.method, h.routeTemplate]

/-- A status stays. -/
theorem status {status : Nat} (h : e.Grows e') (hstatus : e.response.status = some status) :
    e'.response.status = some status := by
  rcases h.response.status with hnone | hsame
  · rw [hstatus] at hnone
    cases hnone
  · exact hsame.trans hstatus

/-- An answered exchange stays answered. -/
theorem answered (h : e.Grows e') (hstatus : e.response.status ≠ none) :
    e'.response.status ≠ none := by
  obtain ⟨status, hs⟩ := Option.ne_none_iff_exists'.mp hstatus
  rw [h.status hs]
  exact Option.some_ne_none status

end Exchange.Grows

/-- A JSON body stays once it is there. -/
theorem MessageCapture.Grows.json {m m' : MessageCapture} (h : m.Grows m') :
    FilledOnce none m.body.json? m'.body.json? := by
  rcases h.body with hempty | hsame
  · exact .inl (by rw [hempty]; rfl)
  · exact .inr (by rw [hsame])

/-- What a grown exchange contributes to a selection that it stays in. -/
theorem FilledOnce.ite {β : Type*} {p q : Prop} [Decidable p] [Decidable q] (hpq : p → q)
    {a b : Option β} (h : FilledOnce none a b) :
    FilledOnce none (if p then a else none) (if q then b else none) := by
  by_cases hp : p
  · rwa [if_pos hp, if_pos (hpq hp)]
  · exact .inl (if_neg hp)

/-- A later view has at least as many of the exchanges that stay in a selection. -/
theorem Below.length_filter_le {p : Exchange → Bool}
    (hp : ∀ e e', Exchange.Grows e e' → p e = true → p e' = true) {es es' : List Exchange}
    (h : Below es es') : (es.filter p).length ≤ (es'.filter p).length := by
  have hcount : ∀ es : List Exchange,
      (es.filter p).length =
        (es.filterMap fun e => if p e = true then some () else none).length := by
    intro es
    rw [← List.filterMap_eq_filter, List.length_filterMap_eq_countP,
      List.length_filterMap_eq_countP]
    congr 1
    funext e
    cases hpe : p e <;> simp [hpe, Option.guard]
  rw [hcount, hcount]
  exact (h.sublist_filterMap fun e e' hgrows => .ite (hp e e' hgrows) (.refl ..)).length_le

section

variable {es es' : List Exchange}

/-- An exchange answered so stays answered so. -/
theorem Exchange.Grows.observedWith {e e' : Exchange} (h : e.Grows e') {key : OperationKey}
    {status : Nat}
    (he : (decide (e.response.status = some status) && decide (e.operationKey = key)) = true) :
    (decide (e'.response.status = some status) && decide (e'.operationKey = key)) = true := by
  rw [Bool.and_eq_true, decide_eq_true_iff, decide_eq_true_iff] at he ⊢
  exact ⟨h.status he.1, h.operationKey.trans he.2⟩

/-- An exchange observed at an operation stays observed there. -/
theorem Exchange.Grows.observedAt {e e' : Exchange} (h : e.Grows e') {key : OperationKey}
    (he : (e.response.status.isSome && decide (e.operationKey = key)) = true) :
    (e'.response.status.isSome && decide (e'.operationKey = key)) = true := by
  rw [Bool.and_eq_true, Option.isSome_iff_ne_none, decide_eq_true_iff] at he ⊢
  exact ⟨h.answered he.1, h.operationKey.trans he.2⟩

/-- No response of a pair is lost. -/
theorem Below.length_observedWith_le (h : Below es es') (key : OperationKey) (status : Nat) :
    (observedWith key status es).length ≤ (observedWith key status es').length :=
  h.length_filter_le fun _ _ hgrows => hgrows.observedWith

/-- No request of an operation is lost. -/
theorem Below.length_observedAt_le (h : Below es es') (key : OperationKey) :
    (observedAt key es).length ≤ (observedAt key es').length :=
  h.length_filter_le fun _ _ hgrows => hgrows.observedAt

/-- The JSON bodies of a pair stay, in their order. -/
theorem Below.sublist_responseBodies (h : Below es es') (key : OperationKey) (status : Nat) :
    (responseBodies (observedWith key status es)).Sublist
      (responseBodies (observedWith key status es')) := by
  unfold responseBodies observedWith
  rw [List.filterMap_filter, List.filterMap_filter]
  exact h.sublist_filterMap fun e e' hgrows => .ite hgrows.observedWith hgrows.response.json

/-- The JSON request bodies of an operation stay, in their order. -/
theorem Below.sublist_requestBodies (h : Below es es') (key : OperationKey) :
    (requestBodies (observedAt key es)).Sublist (requestBodies (observedAt key es')) := by
  unfold requestBodies observedAt
  rw [List.filterMap_filter, List.filterMap_filter]
  exact h.sublist_filterMap fun e e' hgrows => .ite hgrows.observedAt hgrows.request.json

/-- A declared response stays declared. -/
theorem Below.declaredAt (h : Below es es') {route method code : String}
    (hdeclared : DeclaredAt es route method code) : DeclaredAt es' route method code := by
  obtain ⟨status, rfl, hfirst⟩ := hdeclared
  refine ⟨status, rfl, fun hnone => hfirst ?_⟩
  unfold firstDeclaration at hnone ⊢
  rw [List.findSome?_eq_none_iff] at hnone ⊢
  intro e he
  obtain ⟨hmem, hstatus, hkey⟩ := mem_observedWith_iff.mp he
  obtain ⟨e', he', hgrows⟩ := h.exists_grows hmem
  have hnone' := hnone e' (mem_observedWith_iff.mpr
    ⟨he', hgrows.status hstatus, hgrows.operationKey.trans hkey⟩)
  by_contra hsome
  exact hgrows.declared hsome hnone'

/-- A scheme that was observed stays observed. -/
theorem Below.observedScheme (h : Below es es') {key : OperationKey} {scheme : SecurityScheme}
    (hscheme : ObservedScheme es key scheme) : ObservedScheme es' key scheme := by
  obtain ⟨e, he, hstatus, hkey, hsecurity⟩ := hscheme
  obtain ⟨e', he', hgrows⟩ := h.exists_grows he
  exact ⟨e', he', hgrows.answered hstatus, hgrows.operationKey.trans hkey,
    hgrows.security.trans hsecurity⟩

/-! ## The document -/

/-- The schema inferred from some bodies, when more come in. -/
theorem evidenceGrows_inferredSchema {vs ws : List Value} (h : vs.Sublist ws)
    (hne : inferredSchema vs ≠ none) :
    EvidenceGrows vs ws (inferredSchema vs) (inferredSchema ws) := by
  have hvs : vs ≠ [] := by
    rintro rfl
    exact hne rfl
  have hws : ws ≠ [] := fun hnil => hvs (List.sublist_nil.mp (hnil ▸ h))
  exact ⟨h, if_neg (by simpa using hvs), if_neg (by simpa using hws)⟩

/-- The request body of an operation, read off the exchanges behind it. -/
theorem requestBodyAt_buildDocument (exchanges : List Exchange) (warnings : List String)
    (route method : String) :
    requestBodyAt (buildDocument exchanges warnings).1 route method =
      if requestBodies (observedAt ⟨route, method⟩ exchanges) = [] then none
      else some (requestBodyObject (operationAcc ⟨route, method⟩ exchanges)) := by
  unfold requestBodyAt
  rw [operationAt_buildDocument]
  by_cases hnil : observedAt ⟨route, method⟩ exchanges = []
  · rw [if_pos hnil, hnil]
    rfl
  · rw [if_neg hnil, Option.bind_some, operationOf_get_requestBody]
    simp only [List.isEmpty_iff]

/-- The sample count of a request body. -/
theorem requestSamples_buildDocument (exchanges : List Exchange) (warnings : List String)
    (route method : String) :
    (requestBodyAt (buildDocument exchanges warnings).1 route method).bind samplesOf =
      if requestBodies (observedAt ⟨route, method⟩ exchanges) = [] then none
      else some (.ofNat (requestBodies (observedAt ⟨route, method⟩ exchanges)).length) := by
  rw [requestBodyAt_buildDocument]
  split_ifs
  · rfl
  · rw [Option.bind_some, samplesOf, requestBodyObject_get_samples, operationAcc_requestSamples]

/-- The schema of a request body is always inferred. -/
theorem requestSchema_buildDocument (exchanges : List Exchange) (warnings : List String)
    (route method : String) :
    (requestBodyAt (buildDocument exchanges warnings).1 route method).bind contentSchema =
      inferredSchema (requestBodies (observedAt ⟨route, method⟩ exchanges)) := by
  rw [requestBodyAt_buildDocument, inferredSchema]
  by_cases hnil : requestBodies (observedAt ⟨route, method⟩ exchanges) = []
  · rw [if_pos hnil, hnil]
    rfl
  · rw [if_neg hnil, if_neg (by simpa using hnil), Option.bind_some,
      contentSchema_requestBodyObject, operationAcc_requestSamples]

/-- What is read off a response is read off a status code. -/
theorem eq_toString_of_bind_responseAt {exchanges : List Exchange} {warnings : List String}
    {route method code : String} {f : Value → Option Value}
    (h : (responseAt (buildDocument exchanges warnings).1 route method code).bind f ≠ none) :
    ∃ status : Nat, code = toString status := by
  have hne : responseAt (buildDocument exchanges warnings).1 route method code ≠ none := by
    intro hnone
    rw [hnone] at h
    exact h rfl
  exact eq_toString_of_responseAt hne

/-- The schema of a response without a declaration is inferred from its JSON bodies. -/
theorem contentSchema_of_not_declaredAt {exchanges : List Exchange} {route method : String}
    {status : Nat} (h : ¬ DeclaredAt exchanges route method (toString status))
    (warnings : List String) :
    (responseAt (buildDocument exchanges warnings).1 route method (toString status)).bind
        contentSchema =
      inferredSchema (responseBodies (observedWith ⟨route, method⟩ status exchanges)) := by
  have hfirst : firstDeclaration (observedWith ⟨route, method⟩ status exchanges) = none := by
    by_contra hne
    exact h ⟨status, rfl, hne⟩
  rw [contentSchema_buildDocument, hfirst, Option.map_none, Option.none_or]

/-- A count that is read off exchanges which stay does not fall. -/
theorem countGrows_of_le {p q : Prop} [Decidable p] [Decidable q] {m n : Nat} (hqp : q → p)
    (hle : m ≤ n) :
    CountGrows (if p then none else some (.ofNat m)) (if q then none else some (.ofNat n)) := by
  intro k hk
  split_ifs at hk with hp
  rw [if_neg fun hq => hp (hqp hq)]
  have hmk : m = k := by simpa [Value.ofNat] using hk
  exact ⟨n, hmk ▸ hle, rfl⟩

/-- A response schema that is still inferred has the evidence it had and more. -/
theorem Below.evidenceGrows_response (h : Below es es') (warnings warnings' : List String)
    {route method : String} {status : Nat}
    (hdeclared : ¬ DeclaredAt es' route method (toString status))
    (hne : (responseAt (buildDocument es warnings).1 route method (toString status)).bind
      contentSchema ≠ none) :
    EvidenceGrows (responseBodies (observedWith ⟨route, method⟩ status es))
      (responseBodies (observedWith ⟨route, method⟩ status es'))
      ((responseAt (buildDocument es warnings).1 route method (toString status)).bind
        contentSchema)
      ((responseAt (buildDocument es' warnings').1 route method (toString status)).bind
        contentSchema) := by
  rw [contentSchema_of_not_declaredAt (mt h.declaredAt hdeclared)] at hne ⊢
  rw [contentSchema_of_not_declaredAt hdeclared]
  exact evidenceGrows_inferredSchema (h.sublist_responseBodies _ _) hne

/-- The document of a later view accounts for all that the document of an earlier one
accounts for. -/
theorem Below.documentGrows (h : Below es es') (warnings warnings' : List String) :
    DocumentGrows es es' (buildDocument es warnings).1 (buildDocument es' warnings').1 := by
  have hwith : ∀ key status, observedWith key status es' = [] → observedWith key status es = [] :=
    fun key status hnil => List.eq_nil_of_length_eq_zero
      (Nat.le_zero.mp ((h.length_observedWith_le key status).trans_eq (by rw [hnil]; rfl)))
  have hat : ∀ key, observedAt key es' = [] → observedAt key es = [] :=
    fun key hnil => List.eq_nil_of_length_eq_zero
      (Nat.le_zero.mp ((h.length_observedAt_le key).trans_eq (by rw [hnil]; rfl)))
  have hrequests : ∀ key, requestBodies (observedAt key es') = [] →
      requestBodies (observedAt key es) = [] :=
    fun key hnil => List.sublist_nil.mp (hnil ▸ h.sublist_requestBodies key)
  constructor
  case operations =>
    intro route method hne
    rw [operationAt_buildDocument] at hne ⊢
    rw [if_neg fun hnil => hne (if_pos (hat _ hnil))]
    exact Option.some_ne_none _
  case responses =>
    intro route method code hne
    obtain ⟨status, rfl⟩ := eq_toString_of_responseAt hne
    rw [responseAt_buildDocument] at hne ⊢
    rw [if_neg fun hnil => hne (if_pos (hwith _ _ hnil))]
    exact Option.some_ne_none _
  case samples =>
    intro route method code n hn
    have hne := hn.trans_ne (Option.some_ne_none _)
    obtain ⟨status, rfl⟩ := eq_toString_of_bind_responseAt hne
    revert n
    unfold samplesOf
    rw [samples_buildDocument, samples_buildDocument]
    exact countGrows_of_le (hwith _ _) (h.length_observedWith_le _ _)
  case contents =>
    intro route method code hne
    obtain ⟨status, rfl⟩ := eq_toString_of_bind_responseAt hne
    by_cases hdeclared : DeclaredAt es' route method (toString status)
    · obtain ⟨status', hstatus, hfirst⟩ := hdeclared
      obtain rfl := toString_injective hstatus
      obtain ⟨declaration, hd⟩ := Option.ne_none_iff_exists'.mp hfirst
      rw [contentSchema_buildDocument, hd]
      exact Option.some_ne_none _
    · obtain ⟨-, -, hafter⟩ := h.evidenceGrows_response warnings warnings' hdeclared hne
      rw [hafter]
      exact Option.some_ne_none _
  case inferred =>
    intro route method code hdeclared hne
    obtain ⟨status, rfl⟩ := eq_toString_of_bind_responseAt hne
    exact ⟨status, rfl, h.evidenceGrows_response warnings warnings' hdeclared hne⟩
  case requestSamples =>
    intro route method
    rw [requestSamples_buildDocument, requestSamples_buildDocument]
    exact countGrows_of_le (hrequests _) (h.sublist_requestBodies _).length_le
  case requestSchemas =>
    intro route method
    rw [requestSchema_buildDocument, requestSchema_buildDocument]
    exact evidenceGrows_inferredSchema (h.sublist_requestBodies _)
  case security =>
    intro route method operation name hoperation hnames
    rw [eq_operationOf_of_operationAt hoperation, namesScheme_operationOf_iff] at hnames
    obtain ⟨scheme, hscheme, rfl⟩ := hnames
    have hscheme' := h.observedScheme hscheme
    exact ⟨_, hscheme'.operationAt warnings',
      namesScheme_operationOf_iff.mpr ⟨scheme, hscheme', rfl⟩⟩
  case schemes =>
    intro name json hdefined
    rw [schemeDefinition_buildDocument, schemeDefs_get_eq_some_iff] at hdefined ⊢
    obtain ⟨key, scheme, hscheme, hname, hjson⟩ := hdefined
    exact ⟨key, scheme, h.observedScheme hscheme, hname, hjson⟩

end

/-! ## Runs -/

namespace Recorder

variable {H : Type*} [DecidableEq H] {s : Recorder H}

/-- Whatever happens between two snapshots of a run, the document written from the later
one accounts for everything that the document written from the earlier one accounts for,
and so does a document of the exchanges as they are now. -/
theorem documents_grow (env : Externals) (redactions : Redactions) {actions : List (Action H)}
    (hrun : run (step env) (init redactions) actions = some s) :
    (s.collected.Pairwise fun earlier later => ∀ warnings warnings',
      DocumentGrows earlier later (buildDocument earlier warnings).1
        (buildDocument later warnings').1) ∧
    ∀ result ∈ s.collected, ∀ warnings warnings',
      DocumentGrows result s.recorded (buildDocument result warnings).1
        (buildDocument s.recorded warnings').1 := by
  obtain ⟨hordered, hrecorded⟩ := snapshots_grow hrun
  exact ⟨hordered.imp fun hbelow => hbelow.documentGrows,
    fun result hresult => (hrecorded result hresult).documentGrows⟩

/-- A snapshot before a request body comes in, and one after. -/
def twoSnapshots : List (Action Nat) :=
  [.push 0 .post "/users" none, .access 0 (.setStatus 201), .beginSnapshot, .readExchange,
    .endSnapshot, .access 0 (.side .request (.finish none [] ⟨[0x31], false⟩)),
    .push 1 .get "/users" none, .access 0 (.side .request .store), .beginSnapshot,
    .readExchange, .readExchange, .endSnapshot]

/-- The second document has the request body, and all the first one had. -/
theorem documents_grow_example : ∃ s, run (step parseDigits) (init .new) twoSnapshots = some s ∧
    s.collected.length = 2 ∧
    s.collected.Pairwise fun earlier later => ∀ warnings warnings',
      DocumentGrows earlier later (buildDocument earlier warnings).1
        (buildDocument later warnings').1 := by
  have hlength : (run (step parseDigits) (init .new) twoSnapshots).map
      (·.collected.length) = some 2 := rfl
  obtain ⟨s, hs, hcollected⟩ := Option.map_eq_some_iff.mp hlength
  exact ⟨s, hs, hcollected, (documents_grow parseDigits .new hs).1⟩

end Recorder

end Cyanotype
