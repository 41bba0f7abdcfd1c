import Cyanotype.Core.Run
import Cyanotype.Recorder.Declare
import Cyanotype.Recorder.Layer

/-!
# One shared exchange

An exchange behind its handle, with the locked accesses that its two body tees,
its service future and its receipts make. Each access is one atomic step; what a
tee computed before it takes the lock again is kept as the phase of its side.
-/

namespace Cyanotype

/-- What is left to do about the body of a side. -/
inductive Phase where
  /-- The callback has not run. -/
  | streaming
  /-- The body is decided and redacted: warnings to raise, then headers and body to store. -/
  | recording (headers : List (String × String)) (body : BodyCapture) (warnings : List String)
  | recorded

/-- The accesses of one run of `record_side`. -/
inductive SideAccess where
  /-- Decide what to keep of the captured body, and redact it as configured. -/
  | finish (contentType : Option String) (headers : List (String × String))
      (captured : CapturedBody)
  /-- Push the next warning to the global list. -/
  | warn
  /-- Store headers and body. -/
  | store

/-- A message and the phase of its side after an access. -/
def stepSide (env : Externals) (config : Redactions) (side : Side) (method : Method)
    (route : String) (message : MessageCapture) (phase : Phase) :
    SideAccess → Option (MessageCapture × Phase)
  | .finish contentType headers captured =>
    match phase with
    | .streaming =>
      let body := sideBody env config contentType captured
      some (message, .recording headers body (sideWarnings env side method route body))
    | _ => none
  | .warn =>
    match phase with
    | .recording headers body (_ :: warnings) => some (message, .recording headers body warnings)
    | _ => none
  | .store =>
    match phase with
    | .recording headers body [] =>
      some ({ message with headers := headers, body := body }, .recorded)
    | _ => none

section

variable {env : Externals} {config : Redactions} {side : Side} {method : Method} {route : String}
  {message : MessageCapture} {phase : Phase} {r : MessageCapture × Phase}

/-- A body is decided while it streams. -/
theorem stepSide_finish_iff {contentType : Option String} {headers : List (String × String)}
    {captured : CapturedBody} :
    stepSide env config side method route message phase (.finish contentType headers captured) =
        some r ↔
      phase = .streaming ∧
        r = (message, .recording headers (sideBody env config contentType captured)
          (sideWarnings env side method route (sideBody env config contentType captured))) := by
  cases phase <;> simp [stepSide, eq_comm]

/-- A warning is raised while there is one left. -/
theorem stepSide_warn_iff :
    stepSide env config side method route message phase .warn = some r ↔
      ∃ headers body warning warnings, phase = .recording headers body (warning :: warnings) ∧
        r = (message, .recording headers body warnings) := by
  cases phase with
  | streaming => simp [stepSide]
  | recorded => simp [stepSide]
  | recording headers body warnings => cases warnings <;> simp [stepSide, eq_comm]

/-- Headers and body are stored after the last warning. -/
theorem stepSide_store_iff :
    stepSide env config side method route message phase .store = some r ↔
      ∃ headers body, phase = .recording headers body [] ∧
        r = ({ message with headers := headers, body := body }, .recorded) := by
  cases phase with
  | streaming => simp [stepSide]
  | recorded => simp [stepSide]
  | recording headers body warnings => cases warnings <;> simp [stepSide, eq_comm]

/-- A side's tee leaves the status alone. -/
theorem stepSide_status {a : SideAccess}
    (hstep : stepSide env config side method route message phase a = some r) :
    r.1.status = message.status := by
  cases a with
  | finish contentType headers captured =>
    obtain ⟨-, rfl⟩ := stepSide_finish_iff.mp hstep
    rfl
  | warn =>
    obtain ⟨headers, body, warning, warnings, -, rfl⟩ := stepSide_warn_iff.mp hstep
    rfl
  | store =>
    obtain ⟨headers, body, -, rfl⟩ := stepSide_store_iff.mp hstep
    rfl

end

/-- An exchange behind its handle, and how far its two tees are. -/
structure SharedExchange where
  exchange : Exchange
  requestPhase : Phase
  responsePhase : Phase

/-- A locked access to an exchange. -/
inductive Access where
  | side (side : Side) (access : SideAccess)
  /-- The service future stores the status of the response. -/
  | setStatus (status : Nat)
  /-- A receipt declares a response type. -/
  | declareResponse (T : WireType) (bytes : List UInt8)

namespace SharedExchange

/-- A newly pushed exchange. -/
def new (method : Method) (routeTemplate : String) (security : Option SecurityScheme) :
    SharedExchange where
  exchange := .new method routeTemplate security
  requestPhase := .streaming
  responsePhase := .streaming

/-- How far the tee of a side is. -/
def phase (shared : SharedExchange) : Side → Phase
  | .request => shared.requestPhase
  | .response => shared.responsePhase

/-- One access. The tee of the response and the receipts exist once the status is stored. -/
def access (env : Externals) (config : Redactions) (shared : SharedExchange) :
    Access → Option SharedExchange
  | .side .request a =>
    (stepSide env config .request shared.exchange.method shared.exchange.routeTemplate
      shared.exchange.request shared.requestPhase a).map fun r =>
        { shared with exchange := { shared.exchange with request := r.1 }, requestPhase := r.2 }
  | .side .response a =>
    if shared.exchange.response.status = none then none
    else (stepSide env config .response shared.exchange.method shared.exchange.routeTemplate
      shared.exchange.response shared.responsePhase a).map fun r =>
        { shared with exchange := { shared.exchange with response := r.1 }, responsePhase := r.2 }
  | .setStatus status =>
    if shared.exchange.response.status = none then
      some { shared with exchange := { shared.exchange with
        response := { shared.exchange.response with status := some status } } }
    else none
  | .declareResponse T bytes =>
    if shared.exchange.response.status = none then none
    else match T.declareResponse bytes shared.exchange with
      | .ok exchange => some { shared with exchange := exchange }
      | .error _ => some shared

/-- The warnings an access pushes. -/
def raises (shared : SharedExchange) : Access → List String
  | .side side .warn =>
    match shared.phase side with
    | .recording _ _ (warning :: _) => [warning]
    | _ => []
  | _ => []

end SharedExchange

/-- The access is one of the request's tee. -/
def Access.isRequest : Access → Bool
  | .side .request _ => true
  | _ => false

namespace SharedExchange

variable {env : Externals} {config : Redactions} {shared shared' : SharedExchange}

/-- The exchange with another request and phase of the request. -/
def withRequest (shared : SharedExchange) (r : MessageCapture × Phase) : SharedExchange :=
  { shared with exchange := { shared.exchange with request := r.1 }, requestPhase := r.2 }

/-- An access of the request's tee changes the request and its phase only. -/
theorem access_request (shared : SharedExchange) (a : SideAccess) :
    shared.access env config (.side .request a) =
      (stepSide env config .request shared.exchange.method shared.exchange.routeTemplate
        shared.exchange.request shared.requestPhase a).map shared.withRequest := rfl

/-- An access of the response's tee happens after the status, and changes the
response and its phase only. -/
theorem access_response_eq_some_iff {a : SideAccess} :
    shared.access env config (.side .response a) = some shared' ↔
      shared.exchange.response.status ≠ none ∧ ∃ r, stepSide env config .response
        shared.exchange.method shared.exchange.routeTemplate shared.exchange.response
        shared.responsePhase a = some r ∧ shared' = { shared with
          exchange := { shared.exchange with response := r.1 }, responsePhase := r.2 } := by
  unfold access
  by_cases hstatus : shared.exchange.response.status = none
  · simp [hstatus]
  · simp [hstatus, eq_comm]

/-- The exchange with another message and phase of a side. -/
def setSide (shared : SharedExchange) (side : Side) (r : MessageCapture × Phase) :
    SharedExchange :=
  match side with
  | .request => shared.withRequest r
  | .response => { shared with
      exchange := { shared.exchange with response := r.1 }, responsePhase := r.2 }

@[simp] theorem phase_setSide (shared : SharedExchange) (side : Side)
    (r : MessageCapture × Phase) : (shared.setSide side r).phase side = r.2 := by
  cases side <;> rfl

/-- Another phase alone leaves the exchange as it is. -/
@[simp] theorem exchange_setSide_message (shared : SharedExchange) (side : Side) (phase : Phase) :
    (shared.setSide side (shared.exchange.message side, phase)).exchange = shared.exchange := by
  cases side <;> rfl

/-- Once a side's tee exists, its accesses work on the side's message and phase. -/
theorem access_side (env : Externals) (config : Redactions) (shared : SharedExchange)
    {side : Side} (hstatus : side = .response → shared.exchange.response.status ≠ none)
    (a : SideAccess) :
    shared.access env config (.side side a) =
      (stepSide env config side shared.exchange.method shared.exchange.routeTemplate
        (shared.exchange.message side) (shared.phase side) a).map (shared.setSide side) := by
  cases side with
  | request => rfl
  | response => exact if_neg (hstatus rfl)

/-- An access of a tee is a step of its side. -/
theorem access_side_eq_some_iff {side : Side} {a : SideAccess} :
    shared.access env config (.side side a) = some shared' ↔
      (side = .response → shared.exchange.response.status ≠ none) ∧ ∃ r,
        stepSide env config side shared.exchange.method shared.exchange.routeTemplate
          (shared.exchange.message side) (shared.phase side) a = some r ∧
        shared' = shared.setSide side r := by
  cases side with
  | request =>
    rw [access_request, Option.map_eq_some_iff]
    constructor
    · rintro ⟨r, hr, rfl⟩
      exact ⟨nofun, r, hr, rfl⟩
    · rintro ⟨-, r, hr, rfl⟩
      exact ⟨r, hr, rfl⟩
  | response =>
    rw [access_response_eq_some_iff]
    exact and_congr_left' (by simp)

/-- The status is stored once. -/
theorem access_setStatus_eq_some_iff {status : Nat} :
    shared.access env config (.setStatus status) = some shared' ↔
      shared.exchange.response.status = none ∧ shared' = { shared with
        exchange := { shared.exchange with
          response := { shared.exchange.response with status := some status } } } := by
  unfold access
  by_cases hstatus : shared.exchange.response.status = none
  · simp [hstatus, eq_comm]
  · simp [hstatus]

/-- A declaration happens after the status; a failing one changes nothing and a
succeeding one the declared schema only. -/
theorem access_declareResponse_eq_some_iff {T : WireType} {bytes : List UInt8} :
    shared.access env config (.declareResponse T bytes) = some shared' ↔
      shared.exchange.response.status ≠ none ∧ shared' = if T.accepts bytes then
        { shared with exchange := { shared.exchange with
          declaredResponseSchema := some T.rootSchema } } else shared := by
  unfold access
  by_cases hstatus : shared.exchange.response.status = none
  · simp [hstatus]
  · cases h : T.accepts bytes with
    | true => simp [hstatus, T.declareResponse_of_accepts h, eq_comm]
    | false =>
      obtain ⟨source, herror⟩ := T.declareResponse_of_not_accepts h shared.exchange
      simp [hstatus, herror, eq_comm]

/-- The other accesses take no notice of the request. -/
theorem access_withRequest (shared : SharedExchange) (r : MessageCapture × Phase) {b : Access}
    (hb : b.isRequest = false) :
    (shared.withRequest r).access env config b =
      (shared.access env config b).map (·.withRequest r) := by
  cases b with
  | side side x =>
    cases side with
    | request => cases hb
    | response =>
      unfold access
      by_cases hstatus : shared.exchange.response.status = none
      · simp [withRequest, hstatus]
      · simp only [withRequest, hstatus, if_false, Option.map_map]
        rfl
  | setStatus status =>
    unfold access
    by_cases hstatus : shared.exchange.response.status = none <;> simp [withRequest, hstatus]
  | declareResponse T bytes =>
    unfold access
    by_cases hstatus : shared.exchange.response.status = none
    · simp [withRequest, hstatus]
    · cases h : T.accepts bytes with
      | true => simp [withRequest, hstatus, T.declareResponse_of_accepts h]
      | false =>
        obtain ⟨source, herror⟩ := T.declareResponse_of_not_accepts h shared.exchange
        obtain ⟨source', herror'⟩ :=
          T.declareResponse_of_not_accepts h (shared.withRequest r).exchange
        simp only [withRequest] at herror'
        simp [withRequest, hstatus, herror, herror']

/-- The other accesses keep what the request's tee works on. -/
theorem access_keeps_request {b : Access} (hb : b.isRequest = false)
    (h : shared.access env config b = some shared') :
    shared'.exchange.method = shared.exchange.method ∧
      shared'.exchange.routeTemplate = shared.exchange.routeTemplate ∧
      shared'.exchange.request = shared.exchange.request ∧
      shared'.requestPhase = shared.requestPhase := by
  cases b with
  | side side x =>
    cases side with
    | request => cases hb
    | response =>
      obtain ⟨-, r, -, rfl⟩ := access_response_eq_some_iff.mp h
      exact ⟨rfl, rfl, rfl, rfl⟩
  | setStatus status =>
    obtain ⟨-, rfl⟩ := access_setStatus_eq_some_iff.mp h
    exact ⟨rfl, rfl, rfl, rfl⟩
  | declareResponse T bytes =>
    obtain ⟨-, rfl⟩ := access_declareResponse_eq_some_iff.mp h
    split_ifs <;> exact ⟨rfl, rfl, rfl, rfl⟩

/-- What the request's tee does commutes with every other access. -/
theorem access_comm (shared : SharedExchange) (a b : Access) (ha : a.isRequest = true)
    (hb : b.isRequest = false) :
    ((shared.access env config a).bind fun t => t.access env config b) =
      (shared.access env config b).bind fun t => t.access env config a := by
  obtain ⟨x, rfl⟩ : ∃ x, a = .side .request x := by
    cases a with
    | side side x => cases side <;> simp_all [Access.isRequest]
    | _ => cases ha
  have hkeep : ∀ t, shared.access env config b = some t →
      t.access env config (.side .request x) = (stepSide env config .request
        shared.exchange.method shared.exchange.routeTemplate shared.exchange.request
        shared.requestPhase x).map t.withRequest := by
    intro t ht
    obtain ⟨hmethod, hroute, hrequest, hphase⟩ := access_keeps_request hb ht
    rw [access_request, hmethod, hroute, hrequest, hphase]
  rw [access_request]
  cases hx : stepSide env config .request shared.exchange.method shared.exchange.routeTemplate
      shared.exchange.request shared.requestPhase x with
  | none =>
    cases hs : shared.access env config b with
    | none => rfl
    | some t => simp [hkeep t hs, hx]
  | some r =>
    rw [Option.map_some, Option.bind_some, access_withRequest shared r hb]
    cases hs : shared.access env config b with
    | none => rfl
    | some t => simp [hkeep t hs, hx]

end SharedExchange

/-! ## What the accesses write -/

namespace Access

/-- The status that an access stores. -/
def status : Access → Option Nat
  | .setStatus status => some status
  | _ => none

/-- The schema that an access declares. -/
def declares : Access → Option Declaration
  | .declareResponse T bytes => if T.accepts bytes then some T.rootSchema else none
  | _ => none

/-- The headers and the body that an access decides for a side. -/
def finishes (env : Externals) (config : Redactions) (side : Side) :
    Access → Option (List (String × String) × BodyCapture)
  | .side side' (.finish contentType headers captured) =>
    if side' = side then some (headers, sideBody env config contentType captured) else none
  | _ => none

/-- The access stores headers and body of the side. -/
def stores (side : Side) : Access → Bool
  | .side side' .store => side' = side
  | _ => false

end Access

/-- The status that some accesses store. -/
def statusOf (accesses : List Access) : Option Nat := accesses.findSome? Access.status

/-- The schema of the last successful declaration. -/
def declaredOf (accesses : List Access) : Option Declaration :=
  (accesses.filterMap Access.declares).getLast?

/-- The headers and the body that the accesses store for a side. -/
def storedOf (env : Externals) (config : Redactions) (side : Side) (accesses : List Access) :
    Option (List (String × String) × BodyCapture) :=
  if accesses.any (Access.stores side) then accesses.findSome? (Access.finishes env config side)
  else none

/-- The message with a status and what was stored for it, if anything was. -/
def messageOf (status : Option Nat) (stored : Option (List (String × String) × BodyCapture)) :
    MessageCapture where
  status := status
  headers := (stored.map Prod.fst).getD []
  body := (stored.map Prod.snd).getD .empty

/-- The exchange that some accesses make of a new one: every field has what the
accesses about it write, and nothing else. -/
def assembled (env : Externals) (config : Redactions) (method : Method) (routeTemplate : String)
    (security : Option SecurityScheme) (accesses : List Access) : Exchange where
  method := method
  routeTemplate := routeTemplate
  request := messageOf none (storedOf env config .request accesses)
  response := messageOf (statusOf accesses) (storedOf env config .response accesses)
  security := security
  declaredResponseSchema := declaredOf accesses

namespace Phase

/-- What was decided about the body, given what is stored. -/
def decided (stored : Option (List (String × String) × BodyCapture)) :
    Phase → Option (List (String × String) × BodyCapture)
  | streaming => none
  | recording headers body _ => some (headers, body)
  | recorded => stored

/-- The side is stored. -/
def isRecorded : Phase → Bool
  | recorded => true
  | _ => false

end Phase

/-- The accesses so far explain what a side's message holds and what its phase is. -/
structure SideWritten (env : Externals) (config : Redactions) (side : Side)
    (accesses : List Access) (message : MessageCapture) (phase : Phase) : Prop where
  message : message = messageOf message.status (storedOf env config side accesses)
  decided : accesses.findSome? (Access.finishes env config side) =
    phase.decided (storedOf env config side accesses)
  stored : accesses.any (Access.stores side) = phase.isRecorded

section

variable {env : Externals} {config : Redactions} {side : Side} {accesses : List Access}
  {message : MessageCapture} {phase : Phase}

private theorem findSome?_concat {α β : Type*} (f : α → Option β) (as : List α) (a : α) :
    (as ++ [a]).findSome? f = (as.findSome? f).or (f a) := by
  rw [List.findSome?_append, List.findSome?_singleton]

private theorem any_concat {α : Type*} (p : α → Bool) (as : List α) (a : α) :
    (as ++ [a]).any p = (as.any p || p a) := by
  rw [List.any_append, List.any_cons, List.any_nil, Bool.or_false]

/-- A later status is no status any more. -/
theorem statusOf_concat (accesses : List Access) (a : Access) :
    statusOf (accesses ++ [a]) = (statusOf accesses).or a.status :=
  findSome?_concat ..

/-- The last value is that of the last step, if it has one. -/
theorem getLast?_filterMap_concat {α β : Type*} (f : α → Option β) (as : List α) (a : α) :
    ((as ++ [a]).filterMap f).getLast? = (f a).or (as.filterMap f).getLast? := by
  rw [List.filterMap_append]
  cases ha : f a <;> simp [ha]

/-- A later declaration takes the place of earlier ones. -/
theorem declaredOf_concat (accesses : List Access) (a : Access) :
    declaredOf (accesses ++ [a]) = a.declares.or (declaredOf accesses) :=
  getLast?_filterMap_concat ..

/-- Before the store access nothing is stored. -/
theorem storedOf_eq_none (h : accesses.any (Access.stores side) = false) :
    storedOf env config side accesses = none := by
  rw [storedOf, h]
  rfl

/-- An access that does not finish or store the side's body leaves what is stored. -/
theorem storedOf_concat {a : Access} (hfinishes : a.finishes env config side = none)
    (hstores : a.stores side = false) :
    storedOf env config side (accesses ++ [a]) = storedOf env config side accesses := by
  rw [storedOf, storedOf, findSome?_concat, any_concat, hfinishes, hstores, Option.or_none,
    Bool.or_false]

/-- An access that does not finish or store the side's body keeps the explanation. -/
theorem SideWritten.concat (h : SideWritten env config side accesses message phase) {a : Access}
    (hfinishes : a.finishes env config side = none) (hstores : a.stores side = false) :
    SideWritten env config side (accesses ++ [a]) message phase := by
  refine ⟨?_, ?_, ?_⟩
  · rw [storedOf_concat hfinishes hstores]
    exact h.message
  · rw [findSome?_concat, hfinishes, Option.or_none, h.decided, storedOf_concat hfinishes hstores]
  · rw [any_concat, hstores, Bool.or_false, h.stored]

/-- A finished body is decided and not stored. -/
theorem SideWritten.finish (h : SideWritten env config side accesses message .streaming)
    (contentType : Option String) (headers : List (String × String)) (captured : CapturedBody)
    (warnings : List String) :
    SideWritten env config side
      (accesses ++ [.side side (.finish contentType headers captured)]) message
      (.recording headers (sideBody env config contentType captured) warnings) := by
  have hstored : (accesses ++ [Access.side side (.finish contentType headers captured)]).any
      (Access.stores side) = false := by
    rw [any_concat, h.stored]
    rfl
  refine ⟨?_, ?_, hstored⟩
  · rw [storedOf_eq_none hstored, ← storedOf_eq_none h.stored]
    exact h.message
  · rw [findSome?_concat, h.decided]
    simp [Access.finishes, Phase.decided]

/-- A warning changes neither the decision nor what is stored. -/
theorem SideWritten.warn {headers : List (String × String)} {body : BodyCapture}
    {warnings : List String}
    (h : SideWritten env config side accesses message (.recording headers body warnings))
    (warnings' : List String) :
    SideWritten env config side (accesses ++ [.side side .warn]) message
      (.recording headers body warnings') := by
  have hconcat := h.concat (a := .side side .warn) rfl rfl
  exact ⟨hconcat.message, hconcat.decided, hconcat.stored⟩

/-- What was decided is stored. -/
theorem SideWritten.store {headers : List (String × String)} {body : BodyCapture}
    {warnings : List String}
    (h : SideWritten env config side accesses message (.recording headers body warnings)) :
    SideWritten env config side (accesses ++ [.side side .store])
      { message with headers := headers, body := body } .recorded := by
  have hdecided : (accesses ++ [Access.side side .store]).findSome?
      (Access.finishes env config side) = some (headers, body) := by
    rw [findSome?_concat, h.decided]
    rfl
  have hany : (accesses ++ [Access.side side .store]).any (Access.stores side) = true := by
    simp [Access.stores]
  have hstored : storedOf env config side (accesses ++ [Access.side side .store]) =
      some (headers, body) := by
    rw [storedOf, hany, if_pos rfl, hdecided]
  refine ⟨?_, ?_, hany⟩
  · rw [hstored]
    rfl
  · rw [hdecided, hstored]
    rfl

/-- An access of the side's tee is accounted for. -/
theorem SideWritten.step (h : SideWritten env config side accesses message phase)
    {method : Method} {route : String} {a : SideAccess} {r : MessageCapture × Phase}
    (hstep : stepSide env config side method route message phase a = some r) :
    SideWritten env config side (accesses ++ [.side side a]) r.1 r.2 := by
  cases a with
  | finish contentType headers captured =>
    obtain ⟨rfl, rfl⟩ := stepSide_finish_iff.mp hstep
    exact h.finish contentType headers captured _
  | warn =>
    obtain ⟨headers, body, warning, warnings, rfl, rfl⟩ := stepSide_warn_iff.mp hstep
    exact h.warn warnings
  | store =>
    obtain ⟨headers, body, rfl, rfl⟩ := stepSide_store_iff.mp hstep
    exact h.store

end

namespace SharedExchange

variable {env : Externals} {config : Redactions} {method : Method} {routeTemplate : String}
  {security : Option SecurityScheme} {accesses : List Access} {shared shared' : SharedExchange}

/-- An access stores a status where there is none. -/
theorem access_status {a : Access} (hstep : shared.access env config a = some shared') :
    shared'.exchange.response.status = shared.exchange.response.status.or a.status := by
  cases a with
  | side side x =>
    obtain ⟨-, r, hr, rfl⟩ := access_side_eq_some_iff.mp hstep
    refine Eq.trans ?_ Option.or_none.symm
    cases side with
    | request => rfl
    | response => exact stepSide_status hr
  | setStatus status =>
    obtain ⟨hnone, rfl⟩ := access_setStatus_eq_some_iff.mp hstep
    rw [hnone]
    rfl
  | declareResponse T bytes =>
    obtain ⟨-, rfl⟩ := access_declareResponse_eq_some_iff.mp hstep
    refine Eq.trans ?_ Option.or_none.symm
    split_ifs <;> rfl

/-- An access that declares a schema puts it in place of the one declared before. -/
theorem access_declared {a : Access} (hstep : shared.access env config a = some shared') :
    shared'.exchange.declaredResponseSchema =
      a.declares.or shared.exchange.declaredResponseSchema := by
  cases a with
  | side side x =>
    obtain ⟨-, r, -, rfl⟩ := access_side_eq_some_iff.mp hstep
    cases side <;> rfl
  | setStatus status =>
    obtain ⟨-, rfl⟩ := access_setStatus_eq_some_iff.mp hstep
    rfl
  | declareResponse T bytes =>
    obtain ⟨-, rfl⟩ := access_declareResponse_eq_some_iff.mp hstep
    cases haccepts : T.accepts bytes <;> simp [Access.declares, haccepts]

/-- The accesses so far explain every field of a shared exchange. -/
structure Written (env : Externals) (config : Redactions) (method : Method)
    (routeTemplate : String) (security : Option SecurityScheme) (accesses : List Access)
    (shared : SharedExchange) : Prop where
  method : shared.exchange.method = method
  routeTemplate : shared.exchange.routeTemplate = routeTemplate
  security : shared.exchange.security = security
  requestStatus : shared.exchange.request.status = none
  status : shared.exchange.response.status = statusOf accesses
  declared : shared.exchange.declaredResponseSchema = declaredOf accesses
  request : SideWritten env config .request accesses shared.exchange.request shared.requestPhase
  response : SideWritten env config .response accesses shared.exchange.response
    shared.responsePhase

theorem written_new : Written env config method routeTemplate security []
    (new method routeTemplate security) :=
  ⟨rfl, rfl, rfl, rfl, rfl, rfl, ⟨rfl, rfl, rfl⟩, ⟨rfl, rfl, rfl⟩⟩

/-- The status is the first one stored. -/
theorem Written.concat_status
    (h : Written env config method routeTemplate security accesses shared) {a : Access}
    (hstep : shared.access env config a = some shared') :
    shared'.exchange.response.status = statusOf (accesses ++ [a]) := by
  rw [access_status hstep, h.status, statusOf_concat]

/-- The declared schema is the last one declared. -/
theorem Written.concat_declared
    (h : Written env config method routeTemplate security accesses shared) {a : Access}
    (hstep : shared.access env config a = some shared') :
    shared'.exchange.declaredResponseSchema = declaredOf (accesses ++ [a]) := by
  rw [access_declared hstep, h.declared, declaredOf_concat]

/-- An access of a tee is accounted for by its side. -/
theorem Written.side (h : Written env config method routeTemplate security accesses shared)
    {side : Side} {x : SideAccess}
    (hstep : shared.access env config (.side side x) = some shared') :
    Written env config method routeTemplate security (accesses ++ [.side side x]) shared' := by
  have hstatus := h.concat_status hstep
  have hdeclared := h.concat_declared hstep
  cases side with
  | request =>
    rw [access_request, Option.map_eq_some_iff] at hstep
    obtain ⟨r, hr, rfl⟩ := hstep
    exact ⟨h.method, h.routeTemplate, h.security, (stepSide_status hr).trans h.requestStatus,
      hstatus, hdeclared, h.request.step hr,
      h.response.concat (by cases x <;> rfl) (by cases x <;> rfl)⟩
  | response =>
    obtain ⟨-, r, hr, rfl⟩ := access_response_eq_some_iff.mp hstep
    exact ⟨h.method, h.routeTemplate, h.security, h.requestStatus, hstatus, hdeclared,
      h.request.concat (by cases x <;> rfl) (by cases x <;> rfl), h.response.step hr⟩

/-- Every access is accounted for, by the field it writes. -/
theorem Written.step (h : Written env config method routeTemplate security accesses shared)
    {a : Access} (hstep : shared.access env config a = some shared') :
    Written env config method routeTemplate security (accesses ++ [a]) shared' := by
  have hstatus := h.concat_status hstep
  have hdeclared := h.concat_declared hstep
  cases a with
  | side side x => exact h.side hstep
  | setStatus status =>
    obtain ⟨-, rfl⟩ := access_setStatus_eq_some_iff.mp hstep
    obtain ⟨hmessage, hdecided, hstored⟩ := h.response.concat (a := .setStatus status) rfl rfl
    refine ⟨h.method, h.routeTemplate, h.security, h.requestStatus, hstatus, hdeclared,
      h.request.concat rfl rfl, ?_, hdecided, hstored⟩
    rw [hmessage]
    rfl
  | declareResponse T bytes =>
    have hrequest := h.request.concat (a := .declareResponse T bytes) rfl rfl
    have hresponse := h.response.concat (a := .declareResponse T bytes) rfl rfl
    obtain ⟨-, rfl⟩ := access_declareResponse_eq_some_iff.mp hstep
    split_ifs at hstatus hdeclared ⊢
    · exact ⟨h.method, h.routeTemplate, h.security, h.requestStatus, hstatus, hdeclared,
        hrequest, hresponse⟩
    · exact ⟨h.method, h.routeTemplate, h.security, h.requestStatus, hstatus, hdeclared,
        hrequest, hresponse⟩

/-- An exchange whose fields are explained is the one that its accesses assemble. -/
theorem Written.exchange_eq
    (h : Written env config method routeTemplate security accesses shared) :
    shared.exchange = assembled env config method routeTemplate security accesses := by
  have hrequest := h.request.message
  have hresponse := h.response.message
  rw [h.requestStatus] at hrequest
  rw [h.status] at hresponse
  rw [assembled, ← hrequest, ← hresponse, ← h.method, ← h.routeTemplate, ← h.security, ← h.declared]

/-- In whatever order they come, accesses to a new exchange write each its own field. -/
theorem exchange_eq_assembled
    (h : run (access env config) (new method routeTemplate security) accesses = some shared) :
    shared.exchange = assembled env config method routeTemplate security accesses := by
  refine (run_invariant (P := Written env config method routeTemplate security) written_new
    (fun as t a t' _ ht hstep => ht.step hstep) h).exchange_eq

end SharedExchange

end Cyanotype
