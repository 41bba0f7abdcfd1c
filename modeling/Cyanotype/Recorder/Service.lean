import Cyanotype.Recorder.Body
import Cyanotype.Recorder.Headers
import Cyanotype.Recorder.Store
import Cyanotype.Recorder.Template

/-!
# The recording service

A call pushes its exchange and wraps the body of the request; when the inner
service has answered it stores the status and wraps the body of the response.
A poll that finds a body finished starts recording it. Every step of the service
is at most one step of the store.
-/

namespace Cyanotype

/-- A body behind its tee, with what the callback holds: it is called with the
captured body and records that under this content type and these headers. -/
structure Tee (β : Type*) where
  body : TeeBody β (Option CapturedBody)
  contentType : Option String
  headers : List (String × String)

namespace Tee

variable {β ε : Type*}

/-- The tee around a body that comes with some headers. -/
def new (b : β) (headers : HeaderMap) : Tee β where
  body := .new b captureCapBytes fun captured _ => some captured
  contentType := contentTypeOf headers
  headers := (captureHeaders headers).1

/-- Poll the body: the tee afterwards, and what the callback was called with if it was. -/
def poll (body : Body β ε) (tee : Tee β) : Tee β × Option CapturedBody :=
  let (_, polled, called) := tee.body.pollFrame body none
  ({ tee with body := polled }, called)

end Tee

/-- The store and the bodies of the calls in progress. -/
structure Service (H β : Type*) where
  recorder : Recorder H
  tees : H → Side → Option (Tee β)

/-- The route of a request: the matched template, or else the path itself. -/
def routeOf (matched : Option String) (path : String) : String :=
  matched.elim path toOpenapiTemplate

/-- What happens at the service or at the store. -/
inductive Event (H β : Type*) where
  /-- `RecordService::call`, up to the call of the inner service. -/
  | call (h : H) (method : Method) (matched : Option String) (path : String)
      (headers : HeaderMap) (body : β)
  /-- The inner service has answered. -/
  | respond (h : H) (status : Nat) (headers : HeaderMap) (body : β)
  /-- Someone polls a body. -/
  | poll (h : H) (side : Side)
  /-- A side that is being recorded raises its next warning. -/
  | warn (h : H) (side : Side)
  /-- A side that is being recorded stores its headers and body. -/
  | store (h : H) (side : Side)
  /-- A receipt, or a clone of it, declares a response type. -/
  | declareResponse (h : H) (T : WireType) (bytes : List UInt8)
  | configure (redactions : Redactions)
  | beginSnapshot
  | readExchange
  | endSnapshot

/-- The status that an event gives to a call. -/
def Event.statusOf {H β : Type*} [DecidableEq H] (h : H) : Event H β → Option Nat
  | .respond i status _ _ => if i = h then some status else none
  | _ => none

/-- The schema that an event declares for the response to a call. -/
def Event.declarationOf {H β : Type*} [DecidableEq H] (h : H) : Event H β → Option Declaration
  | .declareResponse i T bytes => if i = h ∧ T.accepts bytes then some T.rootSchema else none
  | _ => none

namespace Service

variable {H β ε : Type*} [DecidableEq H]

/-- Nothing called yet, under a redaction config. -/
def init (config : Redactions) : Service H β where
  recorder := .init config
  tees := fun _ _ => none

/-- The state with another tee on a side of a call. -/
def setTee (s : Service H β) (h : H) (side : Side) (tee : Tee β) : Service H β :=
  { s with tees := Function.update s.tees h (Function.update (s.tees h) side (some tee)) }

/-- A step of the store. -/
def act (env : Externals) (s : Service H β) (a : Action H) : Option (Service H β) :=
  (s.recorder.step env a).map fun recorder => { s with recorder := recorder }

/-- One step. -/
def step (env : Externals) (body : Body β ε) (s : Service H β) :
    Event H β → Option (Service H β)
  | .call h method matched path headers b =>
    (s.act env (.push h method (routeOf matched path) (captureHeaders headers).2)).map
      (·.setTee h .request (.new b headers))
  | .respond h status headers b =>
    (s.act env (.access h (.setStatus status))).map (·.setTee h .response (.new b headers))
  | .poll h side =>
    (s.tees h side).bind fun tee =>
      let (polled, called) := tee.poll body
      match called with
      | none => some (s.setTee h side polled)
      | some captured =>
        (s.act env (.access h (.side side (.finish tee.contentType tee.headers captured)))).map
          (·.setTee h side polled)
  | .warn h side => s.act env (.access h (.side side .warn))
  | .store h side => s.act env (.access h (.side side .store))
  | .declareResponse h T bytes => s.act env (.access h (.declareResponse T bytes))
  | .configure redactions => s.act env (.configure redactions)
  | .beginSnapshot => s.act env .beginSnapshot
  | .readExchange => s.act env .readExchange
  | .endSnapshot => s.act env .endSnapshot

variable {env : Externals} {body : Body β ε} {s s' : Service H β}

@[simp] theorem setTee_recorder (s : Service H β) (h : H) (side : Side) (tee : Tee β) :
    (s.setTee h side tee).recorder = s.recorder := rfl

/-- A step of the recorder leaves the tees alone. -/
theorem act_eq_some_iff {a : Action H} :
    s.act env a = some s' ↔
      s.recorder.step env a = some s'.recorder ∧ s'.tees = s.tees := by
  rw [act, Option.map_eq_some_iff]
  constructor
  · rintro ⟨recorder, hstep, rfl⟩
    exact ⟨hstep, rfl⟩
  · rintro ⟨hstep, htees⟩
    exact ⟨s'.recorder, hstep, by rw [← htees]⟩

/-- A poll moves the tee of its side on, and when the callback runs also the store. -/
theorem step_poll_iff {h : H} {side : Side} :
    s.step env body (.poll h side) = some s' ↔ ∃ tee, s.tees h side = some tee ∧
      (((tee.poll body).2 = none ∧ s' = s.setTee h side (tee.poll body).1) ∨
        ∃ captured t, (tee.poll body).2 = some captured ∧
          s.act env (.access h (.side side (.finish tee.contentType tee.headers captured))) =
            some t ∧ s' = t.setTee h side (tee.poll body).1) := by
  rw [step, Option.bind_eq_some_iff]
  refine exists_congr fun tee => and_congr_right fun _ => ?_
  cases hcalled : (tee.poll body).2 with
  | none => simp [hcalled, eq_comm]
  | some captured => simp [hcalled, eq_comm]

/-- The step of the store that an event takes, if it takes one. -/
def actionOf (body : Body β ε) (s : Service H β) : Event H β → Option (Action H)
  | .call h method matched path headers _ =>
    some (.push h method (routeOf matched path) (captureHeaders headers).2)
  | .respond h status _ _ => some (.access h (.setStatus status))
  | .poll h side => (s.tees h side).bind fun tee => (tee.poll body).2.map fun captured =>
      .access h (.side side (.finish tee.contentType tee.headers captured))
  | .warn h side => some (.access h (.side side .warn))
  | .store h side => some (.access h (.side side .store))
  | .declareResponse h T bytes => some (.access h (.declareResponse T bytes))
  | .configure redactions => some (.configure redactions)
  | .beginSnapshot => some .beginSnapshot
  | .readExchange => some .readExchange
  | .endSnapshot => some .endSnapshot

omit [DecidableEq H] in
/-- Only a poll may do without a step of the store. -/
theorem eq_poll_of_actionOf {e : Event H β} (ha : s.actionOf body e = none) :
    ∃ h side, e = .poll h side := by
  cases e with
  | poll h side => exact ⟨h, side, rfl⟩
  | _ => cases ha

/-- A step of the service is one step of the store, or leaves the store as it is. -/
theorem step_recorder {e : Event H β} (hstep : s.step env body e = some s') :
    run (Recorder.step env) s.recorder (s.actionOf body e).toList = some s'.recorder := by
  have hact : ∀ a, s.act env a = some s' →
      run (Recorder.step env) s.recorder [a] = some s'.recorder := by
    intro a h
    rw [run_singleton]
    exact (act_eq_some_iff.mp h).1
  have hactThen : ∀ a (h : H) side tee, (s.act env a).map (·.setTee h side tee) = some s' →
      run (Recorder.step env) s.recorder [a] = some s'.recorder := by
    intro a h side tee hmap
    obtain ⟨t, ht, rfl⟩ := Option.map_eq_some_iff.mp hmap
    rw [run_singleton]
    exact (act_eq_some_iff.mp ht).1
  cases e with
  | call h method matched path headers b => exact hactThen _ _ _ _ hstep
  | respond h status headers b => exact hactThen _ _ _ _ hstep
  | poll h side =>
    obtain ⟨tee, htee, ⟨hcalled, rfl⟩ | ⟨captured, t, hcalled, ht, rfl⟩⟩ := step_poll_iff.mp hstep
    · rw [actionOf, htee, Option.bind_some, hcalled]
      rfl
    · rw [actionOf, htee, Option.bind_some, hcalled]
      exact hactThen _ h side _ (Option.map_eq_some_iff.mpr ⟨t, ht, rfl⟩)
  | warn h side => exact hact _ hstep
  | store h side => exact hact _ hstep
  | declareResponse h T bytes => exact hact _ hstep
  | configure redactions => exact hact _ hstep
  | beginSnapshot => exact hact _ hstep
  | readExchange => exact hact _ hstep
  | endSnapshot => exact hact _ hstep

/-- The step of the store writes the status and the declaration that the event is about. -/
theorem writes_of_actionOf {e : Event H β} {a : Action H} (ha : s.actionOf body e = some a)
    (h : H) : (a.accessOf h).bind Access.status = e.statusOf h ∧
      (a.accessOf h).bind Access.declares = e.declarationOf h := by
  have hother : ∀ i side x, ((Action.access i (.side side x)).accessOf h).bind Access.status =
      none ∧ ((Action.access i (.side side x)).accessOf h).bind Access.declares = none := by
    intro i side x
    by_cases hi : i = h <;> simp [Action.accessOf, Access.status, Access.declares, hi]
  cases e with
  | poll i side =>
    obtain ⟨tee, -, hcalled⟩ := Option.bind_eq_some_iff.mp ha
    obtain ⟨captured, -, rfl⟩ := Option.map_eq_some_iff.mp hcalled
    exact hother i side _
  | warn i side =>
    obtain rfl := Option.some.inj ha
    exact hother i side _
  | store i side =>
    obtain rfl := Option.some.inj ha
    exact hother i side _
  | respond i status headers b =>
    obtain rfl := Option.some.inj ha
    by_cases hi : i = h <;> simp [Action.accessOf, Access.status, Access.declares,
      Event.statusOf, Event.declarationOf, hi]
  | declareResponse i T bytes =>
    obtain rfl := Option.some.inj ha
    by_cases hi : i = h <;> simp [Action.accessOf, Access.status, Access.declares,
      Event.statusOf, Event.declarationOf, hi]
  | _ =>
    obtain rfl := Option.some.inj ha
    exact ⟨rfl, rfl⟩

/-- A step of the service leaves the store as it is, or is a step of the store. -/
theorem step_recorder_cases {e : Event H β} (hstep : s.step env body e = some s') :
    (s.actionOf body e = none ∧ s'.recorder = s.recorder) ∨
      ∃ a, s.actionOf body e = some a ∧ s.recorder.step env a = some s'.recorder := by
  have hrun := step_recorder hstep
  cases ha : s.actionOf body e with
  | none =>
    rw [ha] at hrun
    exact .inl ⟨rfl, (Option.some.inj hrun).symm⟩
  | some a =>
    rw [ha, Option.toList_some, run_singleton] at hrun
    exact .inr ⟨a, rfl, hrun⟩

/-- Every run of the service is a run of the store, with the bodies left out. -/
theorem exists_run_recorder {s₀ : Service H β} {events : List (Event H β)}
    (hrun : run (step env body) s₀ events = some s) :
    ∃ actions, run (Recorder.step env) s₀.recorder actions = some s.recorder := by
  refine run_invariant (P := fun _ t => ∃ actions,
    run (Recorder.step env) s₀.recorder actions = some t.recorder) ⟨[], rfl⟩ ?_ hrun
  rintro _ t e t' - ⟨actions, hactions⟩ hstep
  refine ⟨actions ++ (t.actionOf body e).toList, ?_⟩
  rw [run_append, hactions]
  exact step_recorder hstep

/-! ## Responses -/

/-- Only the tee that was set is another one. -/
theorem setTee_tees (s : Service H β) (h h' : H) (side side' : Side) (tee : Tee β) :
    (s.setTee h side tee).tees h' side' =
      if h' = h ∧ side' = side then some tee else s.tees h' side' := by
  by_cases hh : h' = h
  · subst hh
    by_cases hside : side' = side <;> simp [setTee, hside]
  · simp [setTee, hh]

/-- A response is wrapped when its status is stored, and stays wrapped. -/
theorem step_response {e : Event H β} (hstep : s.step env body e = some s') (h : H) :
    (s'.tees h .response).isSome = ((s.tees h .response).isSome || (e.statusOf h).isSome) := by
  have hact : ∀ a, s.act env a = some s' → s'.tees h .response = s.tees h .response := by
    intro a ha
    rw [(act_eq_some_iff.mp ha).2]
  have hsame : ∀ t : Service H β, t.tees = s.tees → ∀ i side tee, (s.tees i side).isSome = true →
      ((t.setTee i side tee).tees h .response).isSome = (s.tees h .response).isSome := by
    intro t ht i side tee hwrapped
    rw [setTee_tees, ht]
    split_ifs with hi
    · rw [hi.1, hi.2, hwrapped]
      rfl
    · rfl
  cases e with
  | call i method matched path headers b =>
    obtain ⟨t, ht, rfl⟩ := Option.map_eq_some_iff.mp hstep
    rw [setTee_tees, (act_eq_some_iff.mp ht).2]
    simp [Event.statusOf]
  | respond i status headers b =>
    obtain ⟨t, ht, rfl⟩ := Option.map_eq_some_iff.mp hstep
    rw [setTee_tees, (act_eq_some_iff.mp ht).2]
    by_cases hi : h = i
    · simp [Event.statusOf, hi]
    · simp [Event.statusOf, hi, Ne.symm hi]
  | poll i side =>
    refine Eq.trans ?_ (Bool.or_false _).symm
    obtain ⟨tee, htee, ⟨-, rfl⟩ | ⟨captured, t, -, ht, rfl⟩⟩ := step_poll_iff.mp hstep
    · exact hsame s rfl i side _ (by rw [htee]; rfl)
    · exact hsame t (act_eq_some_iff.mp ht).2 i side _ (by rw [htee]; rfl)
  | _ =>
    rw [hact _ hstep]
    exact (Bool.or_false _).symm

/-- An event stores the status it gives to a call. -/
theorem step_statusAt {e : Event H β} (hstep : s.step env body e = some s') (h : H) :
    s'.recorder.statusAt h = (s.recorder.statusAt h).or (e.statusOf h) := by
  obtain ⟨ha, hsame⟩ | ⟨a, ha, hact⟩ := step_recorder_cases hstep
  · obtain ⟨i, side, rfl⟩ := eq_poll_of_actionOf ha
    rw [hsame]
    exact Option.or_none.symm
  · rw [Recorder.step_statusAt hact, (writes_of_actionOf ha h).1]

/-- An event that declares a schema puts it in place of the one declared before. -/
theorem step_declaredAt {e : Event H β} (hstep : s.step env body e = some s') (h : H) :
    s'.recorder.declaredAt h = (e.declarationOf h).or (s.recorder.declaredAt h) := by
  obtain ⟨ha, hsame⟩ | ⟨a, ha, hact⟩ := step_recorder_cases hstep
  · obtain ⟨i, side, rfl⟩ := eq_poll_of_actionOf ha
    rw [hsame]
    rfl
  · rw [Recorder.step_declaredAt hact, (writes_of_actionOf ha h).2]

/-- A response is wrapped exactly when its status is stored. -/
theorem response_isSome {config : Redactions} {events : List (Event H β)}
    (hrun : run (step env body) (init config) events = some s) (h : H) :
    (s.tees h .response).isSome = (s.recorder.statusAt h).isSome :=
  run_invariant (P := fun _ t => (t.tees h .response).isSome = (t.recorder.statusAt h).isSome) rfl
    (fun _ _ _ _ _ ih hstep => by
      rw [step_response hstep, step_statusAt hstep, ih, Option.isSome_or]) hrun

end Service

end Cyanotype
