import Cyanotype.Document.Account
import Cyanotype.Recorder.History
import Cyanotype.Recorder.Transparency

/-!
# Responses that never completed

An exchange counts in the document as soon as its status is stored, which is before the
first poll of its response. So among the exchanges that a snapshot reads while their
response is neither ended nor failed, those the inner service has not answered yet leave
no trace, and the others are counted.
-/

namespace Cyanotype

/-! ## How far a response is -/

/-- How far the response to a call is. -/
inductive Stage where
  /-- The inner service has not answered. -/
  | waiting
  /-- It has, and the body has neither ended nor failed. -/
  | streaming
  | over
  deriving DecidableEq

namespace Service

variable {H β ε : Type*} {body : Body β ε} {s : Service H β} {h : H}

/-- The stage of the response to a call. A body is over when its tee has called back, or
when the inner body is at end of stream and was not polled to it. -/
def stageOf (body : Body β ε) (s : Service H β) (h : H) : Stage :=
  match s.tees h .response with
  | none => .waiting
  | some tee =>
    if tee.body.onFinish.isNone || body.isEndStream tee.body.inner then .over else .streaming

/-- A response is waited for until its tee exists. -/
theorem stageOf_eq_waiting_iff : s.stageOf body h = .waiting ↔ s.tees h .response = none := by
  unfold stageOf
  cases s.tees h .response with
  | none => simp
  | some tee => by_cases hover : (tee.body.onFinish.isNone || body.isEndStream tee.body.inner) <;>
      simp [hover]

variable [DecidableEq H] {env : Externals} {s' : Service H β}

/-- A poll ends the streaming of a response when it finds the end or an error, or leaves
the inner body at end of stream. -/
theorem stageOf_poll_eq_over_iff {tee : Tee β} (htee : s.tees h .response = some tee)
    (hstage : s.stageOf body h = .streaming)
    (hstep : s.step env body (.poll h .response) = some s') :
    s'.stageOf body h = .over ↔
      body.Finishes (body.pollFrame tee.body.inner).1 (body.pollFrame tee.body.inner).2 ∨
        body.isEndStream (body.pollFrame tee.body.inner).2 = true := by
  have hpolled : s'.tees h .response = some (tee.poll body).1 := by
    obtain ⟨tee', htee', ⟨-, rfl⟩ | ⟨captured, t, -, -, rfl⟩⟩ := step_poll_iff.mp hstep
    all_goals
      obtain rfl := Option.some.inj (htee'.symm.trans htee)
      rw [setTee_tees, if_pos ⟨rfl, rfl⟩]
  have harmed : ({ tee.body with inner := (body.pollFrame tee.body.inner).2 } :
      TeeBody β (Option CapturedBody)).onFinish ≠ none := by
    intro hdone
    simp only at hdone
    simp [stageOf, htee, hdone] at hstage
  have hinner : (tee.poll body).1.body.inner = (body.pollFrame tee.body.inner).2 :=
    TeeBody.onResult_inner body _ _ none
  have hfinish : (tee.poll body).1.body.onFinish = none ↔
      body.Finishes (body.pollFrame tee.body.inner).1 (body.pollFrame tee.body.inner).2 :=
    TeeBody.onResult_onFinish_eq_none_iff body _ harmed none
  rw [stageOf, hpolled, ← hfinish, ← hinner, ← Option.isNone_iff_eq_none, ← Bool.or_eq_true]
  simp only
  split_ifs with hover <;> simp [hover]

/-- The inner service has not answered a call as long as the exchange has no status. -/
theorem stageOf_eq_waiting_iff_status {config : Redactions} {events : List (Event H β)}
    (hrun : run (step env body) (init config) events = some s) {exchange : Exchange}
    (hexchange : s.recorder.exchangeAt h = some exchange) :
    s.stageOf body h = .waiting ↔ exchange.response.status = none := by
  have hstatus := Recorder.statusAt_of_exchangeAt hexchange
  rw [stageOf_eq_waiting_iff, ← hstatus, ← Option.isNone_iff_eq_none, ← Option.isNone_iff_eq_none,
    ← Option.not_isSome, ← Option.not_isSome, response_isSome hrun]

end Service

/-! ## What an exchange adds to a document -/

/-- Two documents with the same evidence: the same paths and operations, the same sample
counts and request bodies, the same security. -/
structure SameEvidence (doc doc' : Value) : Prop where
  path_iff : ∀ route, (doc.get "paths").bind (·.get route) = none ↔
    (doc'.get "paths").bind (·.get route) = none
  operation_iff : ∀ route method, operationAt doc route method = none ↔
    operationAt doc' route method = none
  samples : ∀ route method code,
    (responseAt doc route method code).bind (·.get "x-cyanotype-samples") =
      (responseAt doc' route method code).bind (·.get "x-cyanotype-samples")
  requestBody : ∀ route method, (operationAt doc route method).bind (·.get "requestBody") =
    (operationAt doc' route method).bind (·.get "requestBody")
  security : ∀ route method, (operationAt doc route method).bind (·.get "security") =
    (operationAt doc' route method).bind (·.get "security")
  schemes : (doc.get "components").bind (·.get "securitySchemes") =
    (doc'.get "components").bind (·.get "securitySchemes")

theorem SameEvidence.refl (doc : Value) : SameEvidence doc doc :=
  ⟨fun _ => Iff.rfl, fun _ _ => Iff.rfl, fun _ _ _ => rfl, fun _ _ => rfl, fun _ _ => rfl, rfl⟩

/-- The sample count of a pair is the number of its exchanges. -/
theorem samples_buildDocument (exchanges : List Exchange) (warnings : List String)
    (route method : String) (status : Nat) :
    (responseAt (buildDocument exchanges warnings).1 route method (toString status)).bind
        (·.get "x-cyanotype-samples") =
      if observedWith ⟨route, method⟩ status exchanges = [] then none
      else some (.ofNat (observedWith ⟨route, method⟩ status exchanges).length) := by
  rw [responseAt_buildDocument]
  split_ifs
  · rfl
  · exact responseObject_get_samples status _

/-- An exchange without a status changes nothing about the document. -/
theorem buildDocument_of_status_eq_none {e : Exchange} (h : e.response.status = none)
    (xs ys : List Exchange) (warnings : List String) :
    buildDocument (xs ++ e :: ys) warnings = buildDocument (xs ++ ys) warnings := by
  have hgroup : groupExchanges (xs ++ e :: ys) = groupExchanges (xs ++ ys) := by
    rw [← groupExchanges_filter_completed, ← groupExchanges_filter_completed (xs ++ ys)]
    simp [h]
  rw [buildDocument, buildDocument, hgroup]

/-- An exchange with a status is one more sample. -/
theorem not_sameEvidence_of_status {e : Exchange} {status : Nat}
    (h : e.response.status = some status) (xs ys : List Exchange) (warnings : List String) :
    ¬ SameEvidence (buildDocument (xs ++ e :: ys) warnings).1
      (buildDocument (xs ++ ys) warnings).1 := by
  intro hsame
  have hsamples := hsame.samples e.operationKey.route e.operationKey.method (toString status)
  have hlength : (observedWith e.operationKey status (xs ++ e :: ys)).length =
      (observedWith e.operationKey status (xs ++ ys)).length + 1 := by
    simp [observedWith, h, Nat.add_assoc]
  have hne : observedWith e.operationKey status (xs ++ e :: ys) ≠ [] :=
    List.ne_nil_of_length_pos (by omega)
  rw [samples_buildDocument, samples_buildDocument, if_neg hne, hlength] at hsamples
  split_ifs at hsamples
  have hcount := Option.some.inj hsamples
  simp [Value.ofNat] at hcount

/-- An exchange leaves no trace exactly when it has no status. -/
theorem sameEvidence_iff (e : Exchange) (xs ys : List Exchange) :
    (∀ warnings, SameEvidence (buildDocument (xs ++ e :: ys) warnings).1
      (buildDocument (xs ++ ys) warnings).1) ↔ e.response.status = none := by
  constructor
  · intro h
    by_contra hne
    obtain ⟨status, hstatus⟩ := Option.ne_none_iff_exists'.mp hne
    exact not_sameEvidence_of_status hstatus xs ys [] (h [])
  · intro h warnings
    rw [buildDocument_of_status_eq_none h]
    exact .refl _

/-! ## Every snapshot of a run -/

namespace Service

variable {H β ε : Type*} [DecidableEq H]

/-- In every run, an exchange that a snapshot reads while its response is not over leaves
no trace in the document exactly when the inner service has not answered it by then. -/
theorem unfinished_leaves_no_trace_iff (env : Externals) (body : Body β ε) (config : Redactions)
    {events : List (Event H β)} {s : Service H β}
    (hrun : run (step env body) (init config) events = some s) :
    ∃ clones : Clones H β,
      run (withHistory (step env body) Clones.note) (init config, {}) events =
        some (s, clones) ∧
      s.recorder.collected = clones.collected.map (fun result => result.map (·.exchange)) ∧
      ∀ before c after, before ++ c :: after ∈ clones.collected → ∃ t,
        run (step env body) (init config) c.past = some t ∧
        t.recorder.exchangeAt c.handle = some c.exchange ∧
        (t.stageOf body c.handle ≠ .over →
          ((∀ warnings, SameEvidence
              (buildDocument ((before ++ c :: after).map (·.exchange)) warnings).1
              (buildDocument ((before ++ after).map (·.exchange)) warnings).1) ↔
            t.stageOf body c.handle = .waiting)) := by
  obtain ⟨clones, hclones⟩ := exists_run_withHistory Clones.note hrun {}
  have hnoted := noted_of_run hclones
  refine ⟨clones, hclones, hnoted.collected, fun before c after hmem => ?_⟩
  obtain ⟨t, ht, hexchange⟩ := (hnoted.shows _ hmem c (by simp)).read
  refine ⟨t, ht, hexchange, fun _ => ?_⟩
  rw [stageOf_eq_waiting_iff_status ht hexchange, List.map_append, List.map_cons,
    List.map_append]
  exact sameEvidence_iff c.exchange _ _

/-- Two calls: the first is answered and its response is never polled, the second is
not answered. A snapshot reads both. -/
def droppedResponse : List (Event Nat Bool) :=
  [.call 0 .get none "/users" [] false, .call 1 .post none "/users" [] false,
    .respond 0 200 [] false, .beginSnapshot, .readExchange, .readExchange, .endSnapshot]

/-- The clone of the second call. -/
def unansweredClone : Clone Nat Bool where
  handle := 1
  exchange := .new .post "/users" none
  past := droppedResponse.take 5

/-- The clone of the first call. -/
def droppedClone : Clone Nat Bool where
  handle := 0
  exchange := { Exchange.new .get "/users" none with response := { status := some 200 } }
  past := droppedResponse.take 4

/-- What a snapshot of these calls sees. -/
theorem run_droppedResponse : ∃ (s : Service Nat Bool) (clones : Clones Nat Bool),
    run (withHistory (step parseDigits (oneFrame false)) Clones.note) (init .new, {})
      droppedResponse = some (s, clones) ∧
    clones.collected = [[droppedClone, unansweredClone]] := by
  have henabled : (run (withHistory (step parseDigits (oneFrame false)) Clones.note)
      (init .new, {}) droppedResponse).map (·.2.collected) =
        some [[droppedClone, unansweredClone]] := rfl
  obtain ⟨⟨s, clones⟩, hrun, hcollected⟩ := Option.map_eq_some_iff.mp henabled
  exact ⟨s, clones, hrun, hcollected⟩

/-- The stages of the two responses when the snapshot reads them. -/
theorem stages_droppedResponse :
    (run (step parseDigits (oneFrame false)) (init .new) droppedClone.past).map
      (·.stageOf (oneFrame false) droppedClone.handle) = some .streaming ∧
    (run (step parseDigits (oneFrame false)) (init .new) unansweredClone.past).map
      (·.stageOf (oneFrame false) unansweredClone.handle) = some .waiting :=
  ⟨rfl, rfl⟩

/-- The call that was not answered leaves no trace. -/
theorem unfinished_leaves_no_trace_example : SameEvidence
    (buildDocument [droppedClone.exchange, unansweredClone.exchange] []).1
    (buildDocument [droppedClone.exchange] []).1 := by
  obtain ⟨s, clones, hrun, hcollected⟩ := run_droppedResponse
  obtain ⟨clones', hrun', -, hsilent⟩ := unfinished_leaves_no_trace_iff parseDigits
    (oneFrame false) .new (run_of_run_withHistory hrun)
  obtain rfl : clones = clones' := (Prod.mk.inj (Option.some.inj (hrun.symm.trans hrun'))).2
  obtain ⟨t, ht, -, hiff⟩ := hsilent [droppedClone] unansweredClone [] (by simp [hcollected])
  have hstage := stages_droppedResponse.2
  rw [ht] at hstage
  have hwaiting : t.stageOf (oneFrame false) unansweredClone.handle = .waiting :=
    Option.some.inj hstage
  exact (hiff (by rw [hwaiting]; decide)).mpr hwaiting []

/-- The response that nobody polled is streaming when the snapshot reads its exchange,
and yet counts: without it the document has neither its path nor its sample. -/
theorem dropped_response_counts : ∃ (s : Service Nat Bool) (clones : Clones Nat Bool),
    run (withHistory (step parseDigits (oneFrame false)) Clones.note) (init .new, {})
      droppedResponse = some (s, clones) ∧
    [droppedClone, unansweredClone] ∈ clones.collected ∧
    (run (step parseDigits (oneFrame false)) (init .new) droppedClone.past).map
      (·.stageOf (oneFrame false) droppedClone.handle) = some .streaming ∧
    (responseAt (buildDocument [droppedClone.exchange, unansweredClone.exchange] []).1
      "/users" "get" (toString 200)).bind (·.get "x-cyanotype-samples") = some (.ofNat 1) ∧
    ((buildDocument [unansweredClone.exchange] []).1.get "paths").bind (·.get "/users") = none ∧
    ¬ SameEvidence (buildDocument [droppedClone.exchange, unansweredClone.exchange] []).1
      (buildDocument [unansweredClone.exchange] []).1 := by
  obtain ⟨s, clones, hrun, hcollected⟩ := run_droppedResponse
  refine ⟨s, clones, hrun, by simp [hcollected], stages_droppedResponse.1, ?_, ?_, ?_⟩
  · rw [samples_buildDocument]
    rfl
  · by_contra hpath
    obtain ⟨method, hmethod⟩ := (buildDocument_route_iff _ _ _).mp hpath
    exact hmethod rfl
  · exact not_sameEvidence_of_status rfl [] [unansweredClone.exchange] []

end Service

end Cyanotype
