import Cyanotype.Recorder.Duties
import Cyanotype.Recorder.Tally

/-!
# Other threads' steps

What a thread knows of an exchange while it is in a call, and what the steps of the other
threads leave of it. Whatever the call is to do once, the others do not.
-/

namespace Cyanotype

variable {H : Type} {env : Externals}

/-! ## What an access leaves alone -/

namespace SharedExchange

variable {config : Redactions} {shared shared' : SharedExchange} {a : Access}

/-- No access changes the method or the route. -/
theorem access_origin (hstep : shared.access env config a = some shared') :
    shared'.exchange.method = shared.exchange.method ∧
      shared'.exchange.routeTemplate = shared.exchange.routeTemplate := by
  cases a with
  | side side x =>
    obtain ⟨-, r, -, rfl⟩ := access_side_eq_some_iff.mp hstep
    cases side <;> exact ⟨rfl, rfl⟩
  | setStatus status =>
    obtain ⟨-, rfl⟩ := access_setStatus_eq_some_iff.mp hstep
    exact ⟨rfl, rfl⟩
  | declareResponse T bytes =>
    obtain ⟨-, rfl⟩ := access_declareResponse_eq_some_iff.mp hstep
    split_ifs <;> exact ⟨rfl, rfl⟩

/-- Only a side's tee moves its phase. -/
theorem access_phase (hstep : shared.access env config a = some shared') {side : Side}
    (ha : ∀ x, a ≠ .side side x) : shared'.phase side = shared.phase side := by
  cases a with
  | side side' x =>
    obtain ⟨-, r, -, rfl⟩ := access_side_eq_some_iff.mp hstep
    cases side <;> cases side' <;> first | rfl | exact absurd rfl (ha x)
  | setStatus status =>
    obtain ⟨-, rfl⟩ := access_setStatus_eq_some_iff.mp hstep
    cases side <;> rfl
  | declareResponse T bytes =>
    obtain ⟨-, rfl⟩ := access_declareResponse_eq_some_iff.mp hstep
    cases side <;> split_ifs <;> rfl

/-- A status stays. -/
theorem access_status_ne_none (hstep : shared.access env config a = some shared')
    (hstatus : shared.exchange.response.status ≠ none) :
    shared'.exchange.response.status ≠ none := by
  obtain ⟨status, hs⟩ := Option.ne_none_iff_exists'.mp hstatus
  rw [access_status hstep, hs]
  exact Option.some_ne_none status

/-- A status is stored by one access only. -/
theorem access_status_eq_none (hstep : shared.access env config a = some shared')
    (ha : ∀ status, a ≠ .setStatus status) (hstatus : shared.exchange.response.status = none) :
    shared'.exchange.response.status = none := by
  rw [access_status hstep, hstatus, Option.none_or]
  cases a with
  | setStatus status => exact absurd rfl (ha status)
  | _ => rfl

/-- Nothing has been done about the exchange yet. -/
structure Untouched (shared : SharedExchange) : Prop where
  phase : ∀ side, shared.phase side = .streaming
  status : shared.exchange.response.status = none

/-- A side's tee is in a phase. -/
structure SideAt (side : Side) (method : Method) (route : String) (phase : Phase)
    (shared : SharedExchange) : Prop where
  method : shared.exchange.method = method
  route : shared.exchange.routeTemplate = route
  phase : shared.phase side = phase
  status : side = .response → shared.exchange.response.status ≠ none

/-- The status is to be stored, or has just been. -/
structure AnswerAt (answered : Bool) (shared : SharedExchange) : Prop where
  status : shared.exchange.response.status.isSome = answered
  phase : shared.phase .response = .streaming

end SharedExchange

/-! ## Other threads' steps -/

namespace Recorder

variable {r r' : Recorder H} {duties : List (H × Duty)} {i : H}

/-- What is known of the exchange behind a handle. -/
def At (r : Recorder H) (h : H) (P : SharedExchange → Prop) : Prop :=
  ∃ shared, r.heap h = some shared ∧ P shared

variable [DecidableEq H]

/-- At most one step, which does none of the duties. -/
def Elsewhere (env : Externals) (duties : List (H × Duty)) (r r' : Recorder H) : Prop :=
  r' = r ∨ ∃ a, r.step env a = some r' ∧ ∀ k, a.duty = some k → k ∉ duties

namespace Elsewhere

/-- What no access but those of the duties changes stays known. -/
theorem at_of (h : Elsewhere env duties r r') {P : SharedExchange → Prop} (hat : r.At i P)
    (hP : ∀ a shared shared', (∀ k, (Action.access i a).duty = some k → k ∉ duties) →
      shared.access env r.config a = some shared' → P shared → P shared') : r'.At i P := by
  obtain ⟨shared, hshared, hknown⟩ := hat
  obtain rfl | ⟨a, hstep, hduty⟩ := h
  · exact ⟨shared, hshared, hknown⟩
  · obtain ⟨-, -, hheap⟩ | ⟨_, _, _, -, hfresh, -⟩ |
      ⟨access, shared₀, shared', rfl, hshared₀, haccess, hheap⟩ := step_heap_cases hstep i
    · exact ⟨shared, hheap.trans hshared, hknown⟩
    · cases hfresh.symm.trans hshared
    · obtain rfl := Option.some.inj (hshared₀.symm.trans hshared)
      exact ⟨shared', hheap, hP access _ _ hduty haccess hknown⟩

/-- An exchange is pushed by its own call. -/
theorem heap_eq_none (h : Elsewhere env duties r r') (hduty : (i, Duty.answer) ∈ duties)
    (hnone : r.heap i = none) : r'.heap i = none := by
  obtain rfl | ⟨a, hstep, hother⟩ := h
  · exact hnone
  · obtain ⟨-, -, hheap⟩ | ⟨_, _, _, rfl, -, -⟩ | ⟨_, _, _, -, hshared, -, -⟩ :=
      step_heap_cases hstep i
    · exact hheap.trans hnone
    · exact absurd hduty (hother _ rfl)
    · cases hshared.symm.trans hnone

/-- An exchange stays. -/
theorem heap_ne_none (h : Elsewhere env duties r r') (hsome : r.heap i ≠ none) :
    r'.heap i ≠ none := by
  obtain ⟨shared, hshared⟩ := Option.ne_none_iff_exists'.mp hsome
  obtain ⟨shared', hshared', -⟩ := h.at_of (P := fun _ => True) ⟨shared, hshared, trivial⟩
    fun _ _ _ _ _ => id
  exact hshared' ▸ Option.some_ne_none shared'

/-- Results stay, and warnings. -/
theorem results (h : Elsewhere env duties r r') :
    (∀ result ∈ r.collected, result ∈ r'.collected) ∧ r.warnings <+: r'.warnings := by
  obtain rfl | ⟨a, hstep, -⟩ := h
  · exact ⟨fun _ => id, List.prefix_refl _⟩
  · cases a with
    | configure redactions =>
      obtain rfl := Option.some.inj hstep
      exact ⟨fun _ => id, List.prefix_refl _⟩
    | push j method route security =>
      obtain ⟨-, -, rfl⟩ := step_push_iff.mp hstep
      exact ⟨fun _ => id, List.prefix_refl _⟩
    | access j a =>
      obtain ⟨shared, shared', -, -, rfl⟩ := step_access_iff.mp hstep
      exact ⟨fun _ => id, List.prefix_append ..⟩
    | beginSnapshot =>
      obtain ⟨-, rfl⟩ := step_beginSnapshot_iff.mp hstep
      exact ⟨fun _ => id, List.prefix_refl _⟩
    | readExchange =>
      obtain ⟨taken, j, rest, exchange, -, -, rfl⟩ := step_readExchange_iff.mp hstep
      exact ⟨fun _ => id, List.prefix_refl _⟩
    | endSnapshot =>
      obtain ⟨taken, -, rfl⟩ := step_endSnapshot_iff.mp hstep
      exact ⟨fun _ => List.mem_append_left _, List.prefix_refl _⟩

/-- A new exchange stays untouched while its push has not returned. -/
theorem untouched (h : Elsewhere env duties r r') (hat : r.At i SharedExchange.Untouched)
    (hside : ∀ side, (i, Duty.tee side) ∈ duties) (hanswer : (i, Duty.answer) ∈ duties) :
    r'.At i SharedExchange.Untouched := by
  refine h.at_of hat fun a shared shared' hduty haccess huntouched => ⟨fun side => ?_, ?_⟩
  · rw [SharedExchange.access_phase haccess]
    · exact huntouched.phase side
    · rintro x rfl
      exact hduty _ rfl (hside side)
  · refine SharedExchange.access_status_eq_none haccess ?_ huntouched.status
    rintro status rfl
    exact hduty _ rfl hanswer

/-- Other threads leave a side's tee where it is. -/
theorem sideAt (h : Elsewhere env duties r r') {side : Side} {method : Method} {route : String}
    {phase : Phase} (hat : r.At i (SharedExchange.SideAt side method route phase))
    (hside : (i, Duty.tee side) ∈ duties) :
    r'.At i (SharedExchange.SideAt side method route phase) := by
  refine h.at_of hat fun a shared shared' hduty haccess hknown => ?_
  obtain ⟨hmethod, hroute⟩ := SharedExchange.access_origin haccess
  refine ⟨hmethod.trans hknown.method, hroute.trans hknown.route, ?_, fun hresponse => ?_⟩
  · rw [SharedExchange.access_phase haccess]
    · exact hknown.phase
    · rintro x rfl
      exact hduty _ rfl hside
  · exact SharedExchange.access_status_ne_none haccess (hknown.status hresponse)

/-- Other threads do not store the status. -/
theorem answerAt (h : Elsewhere env duties r r') {answered : Bool}
    (hat : r.At i (SharedExchange.AnswerAt answered)) (hanswer : (i, Duty.answer) ∈ duties)
    (hside : (i, Duty.tee .response) ∈ duties) :
    r'.At i (SharedExchange.AnswerAt answered) := by
  refine h.at_of hat fun a shared shared' hduty haccess hknown => ⟨?_, ?_⟩
  · rw [SharedExchange.access_status haccess, ← hknown.status]
    cases a with
    | setStatus status => exact absurd hanswer (hduty _ rfl)
    | _ => simp [Access.status]
  · rw [SharedExchange.access_phase haccess]
    · exact hknown.phase
    · rintro x rfl
      exact hduty _ rfl hside

/-- A status stays. -/
theorem statusAt (h : Elsewhere env duties r r')
    (hat : r.At i fun shared => shared.exchange.response.status ≠ none) :
    r'.At i fun shared => shared.exchange.response.status ≠ none :=
  h.at_of hat fun _ _ _ _ haccess => SharedExchange.access_status_ne_none haccess

end Elsewhere

end Recorder

end Cyanotype
