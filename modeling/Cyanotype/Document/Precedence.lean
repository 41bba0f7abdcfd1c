import Cyanotype.Document.Reading
import Cyanotype.Recorder.History

/-!
# Which declaration is emitted

A declaration that fails changes nothing, and one that succeeds replaces what the
exchange had before. Of the exchanges at one operation and status the document takes
the first one in the order of the calls that has a declaration, and it infers a schema
from their bodies when none has.
-/

namespace Cyanotype

/-- The last successful declaration for the response to a call. -/
def lastDeclaration {H β : Type*} [DecidableEq H] (h : H) (events : List (Event H β)) :
    Option Declaration :=
  (events.filterMap (Event.declarationOf h)).getLast?

/-- The clones of a snapshot that were answered with a status at an operation. -/
def clonesWith {H β : Type*} (key : OperationKey) (status : Nat) (result : List (Clone H β)) :
    List (Clone H β) :=
  result.filter fun c => decide (c.exchange.response.status = some status) &&
    decide (c.exchange.operationKey = key)

namespace Service

variable {H β ε : Type*} [DecidableEq H] {env : Externals} {body : Body β ε}
  {config : Redactions} {events : List (Event H β)} {s s' : Service H β}

/-! ## One declaration -/

/-- A declaration that fails leaves everything as it was; one that succeeds changes the
declaration of its exchange and nothing else. -/
theorem declareResponse_atomic {h : H} {T : WireType} {bytes : List UInt8}
    (hstep : s.step env body (.declareResponse h T bytes) = some s') :
    ∃ shared, s.recorder.heap h = some shared ∧ shared.exchange.response.status ≠ none ∧
      match T.declareResponse bytes shared.exchange with
      | .error _ => s' = s
      | .ok exchange =>
        exchange = { shared.exchange with declaredResponseSchema := some T.rootSchema } ∧
          s' = { s with recorder := s.recorder.put h { shared with exchange := exchange } } := by
  obtain ⟨hact, htees⟩ := act_eq_some_iff.mp hstep
  obtain ⟨shared, shared', hshared, haccess, hs'⟩ := Recorder.step_access_iff.mp hact
  obtain ⟨hstatus, hshared'⟩ := SharedExchange.access_declareResponse_eq_some_iff.mp haccess
  have hrecorder : s'.recorder = s.recorder.put h shared' := by
    have hraises : shared.raises (.declareResponse T bytes) = [] := rfl
    rw [hs', hraises, List.append_nil]
    rfl
  have hs : s' = { s with recorder := s.recorder.put h shared' } := by
    rw [← hrecorder, ← htees]
  refine ⟨shared, hshared, hstatus, ?_⟩
  cases haccepts : T.accepts bytes with
  | true =>
    rw [WireType.declareResponse_of_accepts haccepts]
    refine ⟨rfl, ?_⟩
    rw [hs, hshared', haccepts, if_pos rfl]
  | false =>
    obtain ⟨source, herror⟩ := WireType.declareResponse_of_not_accepts haccepts shared.exchange
    rw [herror]
    have hput : s.recorder.put h shared = s.recorder := by
      rw [Recorder.put, ← hshared, Function.update_eq_self]
    simpa [hshared', haccepts, hput] using hs

/-- A declaration can be made once the status is stored. -/
theorem declareResponse_isSome (h : H) (T : WireType) (bytes : List UInt8) :
    (s.step env body (.declareResponse h T bytes)).isSome = (s.recorder.statusAt h).isSome := by
  rw [Bool.eq_iff_iff, Recorder.statusAt_isSome_iff, Option.isSome_iff_exists]
  constructor
  · rintro ⟨s', hstep⟩
    obtain ⟨shared, hshared, hstatus, -⟩ := declareResponse_atomic hstep
    exact ⟨shared, hshared, hstatus⟩
  · rintro ⟨shared, hshared, hstatus⟩
    have haccess : shared.access env s.recorder.config (.declareResponse T bytes) = some _ :=
      SharedExchange.access_declareResponse_eq_some_iff.mpr ⟨hstatus, rfl⟩
    have hact := Recorder.step_access_iff.mpr ⟨shared, _, hshared, haccess, rfl⟩
    exact ⟨{ s with recorder := _ }, act_eq_some_iff.mpr ⟨hact, rfl⟩⟩

/-- Only a declaration for a call declares something for it. -/
theorem eq_declareResponse_of_declarationOf {h : H} {e : Event H β} {declaration : Declaration}
    (hof : e.declarationOf h = some declaration) :
    ∃ T bytes, e = .declareResponse h T bytes := by
  cases e with
  | declareResponse i T bytes =>
    obtain ⟨⟨rfl, -⟩, -⟩ := Option.ite_none_right_eq_some.mp hof
    exact ⟨T, bytes, rfl⟩
  | _ => cases hof

/-! ## Every run -/

/-- What an exchange declares is what was declared last for it. -/
theorem declaredAt_of_run (hrun : run (step env body) (init config) events = some s) (h : H) :
    s.recorder.declaredAt h = lastDeclaration h events :=
  run_invariant (P := fun as t => t.recorder.declaredAt h = lastDeclaration h as) rfl
    (fun as _ e _ _ ih hstep => by
      rw [step_declaredAt hstep, ih, lastDeclaration, lastDeclaration,
        getLast?_filterMap_concat]) hrun

/-- Only what has a status has a declaration. -/
theorem status_of_declared (hrun : run (step env body) (init config) events = some s) {h : H} :
    s.recorder.declaredAt h ≠ none → s.recorder.statusAt h ≠ none := by
  refine run_invariant (P := fun _ t => t.recorder.declaredAt h ≠ none →
    t.recorder.statusAt h ≠ none) (fun hne => absurd rfl hne) ?_ hrun
  intro as t e t' _ ih hstep hdeclared
  rw [step_declaredAt hstep] at hdeclared
  rw [step_statusAt hstep]
  have hstatus : t.recorder.statusAt h ≠ none := by
    cases hof : e.declarationOf h with
    | none =>
      rw [hof, Option.none_or] at hdeclared
      exact ih hdeclared
    | some declaration =>
      obtain ⟨T, bytes, rfl⟩ := eq_declareResponse_of_declarationOf hof
      rw [← Option.isSome_iff_ne_none, ← declareResponse_isSome h T bytes, hstep]
      rfl
  obtain ⟨status, hsome⟩ := Option.ne_none_iff_exists'.mp hstatus
  simp [hsome]

/-! ## Every snapshot of a run -/

omit [DecidableEq H] in
/-- The exchanges of a pair are those of its clones. -/
theorem observedWith_map_exchange (key : OperationKey) (status : Nat) (result : List (Clone H β)) :
    observedWith key status (result.map (·.exchange)) =
      (clonesWith key status result).map (·.exchange) := List.filter_map

/-- What a snapshot shows of the declarations made until then. -/
structure ShowsDeclarations (env : Externals) (body : Body β ε) (s₀ : Service H β)
    (events : List (Event H β)) (result : List (Clone H β)) : Prop where
  /-- Its exchanges are listed in the order of the calls. -/
  listed : Listed events result
  shows : ∀ c ∈ result, Shows env body s₀ events c
  /-- On one exchange the last declaration counts. -/
  declared : ∀ c ∈ result,
    c.exchange.declaredResponseSchema = lastDeclaration c.handle c.past
  completed : ∀ c ∈ result,
    c.exchange.declaredResponseSchema ≠ none → c.exchange.response.status ≠ none
  /-- Of the exchanges at a pair the first that has a declaration counts, whatever the
  bodies; they count when none has. -/
  schema : ∀ warnings route method status,
    (responseAt (buildDocument (result.map (·.exchange)) warnings).1 route method
        (toString status)).bind contentSchema =
      (((clonesWith ⟨route, method⟩ status result).findSome? fun c =>
          lastDeclaration c.handle c.past).map (·.schema)).or
        (inferredSchema
          (responseBodies ((clonesWith ⟨route, method⟩ status result).map (·.exchange))))

/-- What the history of a run says of a snapshot is what it shows of the declarations. -/
theorem showsDeclarations {result : List (Clone H β)} (hlisted : Listed events result)
    (hshows : ∀ c ∈ result, Shows env body (init config) events c) :
    ShowsDeclarations env body (init config) events result := by
  have hdeclared : ∀ c ∈ result,
      c.exchange.declaredResponseSchema = lastDeclaration c.handle c.past := by
    intro c hc
    obtain ⟨t, ht, hexchange⟩ := (hshows c hc).read
    rw [← Recorder.declaredAt_of_exchangeAt hexchange, declaredAt_of_run ht]
  refine ⟨hlisted, hshows, hdeclared, ?_, ?_⟩
  · intro c hc
    obtain ⟨t, ht, hexchange⟩ := (hshows c hc).read
    rw [← Recorder.declaredAt_of_exchangeAt hexchange, ← Recorder.statusAt_of_exchangeAt hexchange]
    exact status_of_declared ht
  · intro warnings route method status
    have hfirst : firstDeclaration ((clonesWith ⟨route, method⟩ status result).map
        (·.exchange)) = (clonesWith ⟨route, method⟩ status result).findSome? fun c =>
          lastDeclaration c.handle c.past := by
      rw [firstDeclaration, List.findSome?_map, ← List.head?_filterMap, ← List.head?_filterMap]
      exact congrArg _ (List.filterMap_congr fun c hc => hdeclared c (List.mem_filter.mp hc).1)
    rw [contentSchema_buildDocument, observedWith_map_exchange, hfirst]

/-- In every run, a declaration can be made exactly when the response, which carries the
receipt, was returned. A failing one changes nothing, a succeeding one the declaration of
its exchange only; every exchange with a declaration has a status. In the document of a
snapshot the schema of a pair is the last one declared on the first of its exchanges, in
the order of the calls, that has a declaration, and is inferred when none has. -/
theorem declarations_take_precedence (env : Externals) (body : Body β ε) (config : Redactions)
    {s : Service H β} (hrun : run (step env body) (init config) events = some s) :
    (∀ h T bytes, (s.step env body (.declareResponse h T bytes)).isSome =
      (s.tees h .response).isSome) ∧
    (∀ h T bytes s', s.step env body (.declareResponse h T bytes) = some s' →
      ∃ shared, s.recorder.heap h = some shared ∧ shared.exchange.response.status ≠ none ∧
        match T.declareResponse bytes shared.exchange with
        | .error _ => s' = s
        | .ok exchange =>
          exchange = { shared.exchange with declaredResponseSchema := some T.rootSchema } ∧
            s' = { s with recorder := s.recorder.put h { shared with exchange := exchange } }) ∧
    (∀ h, s.recorder.declaredAt h = lastDeclaration h events) ∧
    (∀ h, s.recorder.declaredAt h ≠ none → s.recorder.statusAt h ≠ none) ∧
    ∃ clones : Clones H β,
      run (withHistory (step env body) Clones.note) (init config, {}) events =
        some (s, clones) ∧
      s.recorder.collected = clones.collected.map (fun result => result.map (·.exchange)) ∧
      ∀ result ∈ clones.collected, ShowsDeclarations env body (init config) events result := by
  refine ⟨fun h T bytes => ?_, fun h T bytes s' => declareResponse_atomic,
    declaredAt_of_run hrun, fun h => status_of_declared hrun, ?_⟩
  · rw [declareResponse_isSome, response_isSome hrun]
  · obtain ⟨clones, hclones⟩ := exists_run_withHistory Clones.note hrun {}
    have hnoted := noted_of_run hclones
    exact ⟨clones, hclones, hnoted.collected, fun result hr =>
      showsDeclarations (hnoted.listed result hr) (hnoted.shows result hr)⟩

/-- A type of which `null` is the only text. -/
def nullType (typeName : String) : WireType where
  typeName := typeName
  fromSlice := fun bytes => if bytes = [0x6e, 0x75, 0x6c, 0x6c] then .ok () else .error "no null"
  rootSchema := ⟨.object [("title", .string typeName)], .empty⟩

/-- Two calls at one operation. Of the declarations for the second the last one fails. -/
def declaredTwice : List (Event Nat Bool) :=
  [.call 0 .get none "/users" [] false, .call 1 .get none "/users" [] false,
    .respond 0 200 [] false, .respond 1 200 [] false,
    .declareResponse 1 (nullType "A") [0x6e, 0x75, 0x6c, 0x6c],
    .declareResponse 1 (nullType "B") [0x6e, 0x75, 0x6c, 0x6c],
    .declareResponse 1 (nullType "C") [0x31],
    .beginSnapshot, .readExchange, .readExchange, .endSnapshot]

/-- The clone of the first call. -/
def undeclaredClone : Clone Nat Bool where
  handle := 0
  exchange := { Exchange.new .get "/users" none with response := { status := some 200 } }
  past := declaredTwice.take 8

/-- The clone of the second call. -/
def declaredClone : Clone Nat Bool where
  handle := 1
  exchange := { Exchange.new .get "/users" none with
    response := { status := some 200 }
    declaredResponseSchema := some (nullType "B").rootSchema }
  past := declaredTwice.take 9

/-- The document has the second of the three schemas. -/
theorem declarations_take_precedence_example :
    (responseAt (buildDocument [undeclaredClone.exchange, declaredClone.exchange] []).1 "/users"
      "get" (toString 200)).bind contentSchema = some (.object [("title", .string "B")]) := by
  have henabled : (run (withHistory (step parseDigits (oneFrame false)) Clones.note)
      (init .new, {}) declaredTwice).map (·.2.collected) =
        some [[undeclaredClone, declaredClone]] := rfl
  obtain ⟨⟨s, clones⟩, hrun, hcollected⟩ := Option.map_eq_some_iff.mp henabled
  obtain ⟨-, -, -, -, clones', hrun', -, hshows⟩ := declarations_take_precedence parseDigits
    (oneFrame false) .new (run_of_run_withHistory hrun)
  obtain rfl : clones = clones' := (Prod.mk.inj (Option.some.inj (hrun.symm.trans hrun'))).2
  have hclones : clones.collected = [[undeclaredClone, declaredClone]] := hcollected
  have hresult := hshows [undeclaredClone, declaredClone] (by simp [hclones])
  exact (hresult.schema [] "/users" "get" 200).trans rfl

end Service

end Cyanotype
