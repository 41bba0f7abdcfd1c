import Cyanotype.Core.Mutex
import Cyanotype.Recorder.Store

/-!
# The threads of a test run

The functions of the store, the two callbacks and the receipts as code of threads: which
mutex they wait for, what they do behind it, and when they release it. `snapshot` keeps
the list of exchanges locked while it locks one exchange after the other; everything else
holds one mutex at a time. Threads call these functions when they have the values that it
takes to call them, and any number of threads interleave. The code of declared types runs
inside a declaration, and is assumed not to call any of these functions.
-/

namespace Cyanotype

open Mutex (System)

/-- The mutexes of the process. -/
inductive LockName (H : Type) where
  | exchanges
  | exchange (h : H)
  | warnings
  | config
  deriving DecidableEq

namespace LockName

variable {H : Type}

/-- What a mutex owns; an exchange is there once it is allocated. -/
abbrev Guarded : LockName H → Type
  | exchanges => List H
  | exchange _ => Option Exchange
  | warnings => List String
  | config => Redactions

/-- Only the list of exchanges is kept locked while another mutex is locked. -/
def rank : LockName H → Nat
  | exchanges => 1
  | _ => 0

end LockName

/-- What a function returns, to the code that called it. -/
inductive Outcome (H : Type) where
  | pushed (h : H)
  | recorded (h : H) (side : Side)
  | answered (h : H)
  | declared (h : H) (failure : Option DeclarationMismatch)
  | configured
  | snapshot (exchanges : List Exchange)
  | warnings (warnings : List String)

/-- Code of a thread. -/
abbrev Code (H : Type) := Mutex.Code (LockName.Guarded (H := H)) (Outcome H)

namespace Exchange

/-- Store the headers of a side. -/
def setHeaders (exchange : Exchange) (side : Side) (headers : List (String × String)) :
    Exchange :=
  match side with
  | .request => { exchange with request := { exchange.request with headers := headers } }
  | .response => { exchange with response := { exchange.response with headers := headers } }

/-- Store the body of a side. -/
def setBody (exchange : Exchange) (side : Side) (body : BodyCapture) : Exchange :=
  match side with
  | .request => { exchange with request := { exchange.request with body := body } }
  | .response => { exchange with response := { exchange.response with body := body } }

/-- Store the status of the response. -/
def setStatus (exchange : Exchange) (status : Nat) : Exchange :=
  { exchange with response := { exchange.response with status := some status } }

/-- Headers and body are stored by two assignments. -/
theorem setBody_setHeaders (exchange : Exchange) (side : Side)
    (headers : List (String × String)) (body : BodyCapture) :
    (exchange.setHeaders side headers).setBody side body =
      exchange.setMessage side headers body := by
  cases side <;> rfl

end Exchange

namespace Code

variable {H : Type} (env : Externals)

/-- `store::push`, after the exchange is allocated. -/
def push (h : H) : Code H :=
  .lock .exchanges (.use .exchanges (fun handles : List H => handles ++ [h]) fun _ =>
    .unlock .exchanges (.ret (.pushed h)))

/-- The loop of `store::snapshot`, with the list of exchanges locked. -/
def cloneAll : List H → List Exchange → Code H
  | [], taken => .unlock .exchanges (.ret (.snapshot taken))
  | h :: rest, taken => .lock (.exchange h) (.use (.exchange h) id fun exchange =>
      .unlock (.exchange h) (cloneAll rest (taken ++ Option.toList exchange)))

/-- `store::snapshot`. -/
def snapshot : Code H :=
  .lock .exchanges (.use .exchanges id fun handles => cloneAll handles [])

/-- `store::warn`, for one message after the other. -/
def warnAll : List String → Code H → Code H
  | [], next => next
  | message :: messages, next =>
    .lock .warnings (.use .warnings (fun all : List String => all ++ [message]) fun _ =>
      .unlock .warnings (warnAll messages next))

/-- `store::warnings_snapshot`. -/
def warningsSnapshot : Code H :=
  .lock .warnings (.use .warnings id fun all => .unlock .warnings (.ret (.warnings all)))

/-- `configure`. -/
def configure (redactions : Redactions) : Code H :=
  .lock .config (.use .config (fun _ => redactions) fun _ => .unlock .config (.ret .configured))

/-- The end of `record_side`: headers, then body. -/
def storeSide (h : H) (side : Side) (headers : List (String × String)) (body : BodyCapture) :
    Code H :=
  .lock (.exchange h) (.use (.exchange h) (Option.map (·.setHeaders side headers)) fun _ =>
    .use (.exchange h) (Option.map (·.setBody side body)) fun _ =>
      .unlock (.exchange h) (.ret (.recorded h side)))

/-- `record_side`, once the body is decided and redacted. -/
def finishSide (h : H) (side : Side) (method : Method) (route : String)
    (headers : List (String × String)) (body : BodyCapture) : Code H :=
  warnAll (sideWarnings env side method route body) (storeSide h side headers body)

/-- `record_side`: a JSON body is redacted with the config of the moment. -/
def recordSide (h : H) (side : Side) (method : Method) (route : String)
    (contentType : Option String) (headers : List (String × String)) (captured : CapturedBody) :
    Code H :=
  match BodyCapture.fromCaptured env.fromSlice contentType captured with
  | .json value => .lock .config (.use .config id fun config => .unlock .config
      (finishSide env h side method route headers (.json (redactWith config value))))
  | body => finishSide env h side method route headers body

/-- The status assignment of the service future. -/
def setStatus (h : H) (status : Nat) : Code H :=
  .lock (.exchange h) (.use (.exchange h) (Option.map (·.setStatus status)) fun _ =>
    .unlock (.exchange h) (.ret (.answered h)))

/-- What a declaration leaves of an exchange: a failed one leaves it as it is. -/
def declaring (T : WireType) (bytes : List UInt8) (exchange : Exchange) : Exchange :=
  match T.declareResponse bytes exchange with
  | .ok exchange' => exchange'
  | .error _ => exchange

/-- The error of a failed declaration. -/
def failure (T : WireType) (bytes : List UInt8) (exchange : Exchange) :
    Option DeclarationMismatch :=
  match T.declareResponse bytes exchange with
  | .ok _ => none
  | .error mismatch => some mismatch

/-- `Receipt::declare_response`: parsing and the generator of the schema, too, run with the
exchange locked. Their code belongs to the declared type. It is one use of the exchange,
because declared types are assumed not to call back into the crate: one that asked for the
collected exchanges there would wait for the mutex that its own thread holds. -/
def declareResponse (h : H) (T : WireType) (bytes : List UInt8) : Code H :=
  .lock (.exchange h) (.use (.exchange h) (Option.map (declaring T bytes)) fun exchange =>
    .unlock (.exchange h) (.ret (.declared h (Option.bind exchange (failure T bytes)))))

/-! ### The order of the mutexes -/

open Mutex.Code (Disciplined)

/-- Warnings are pushed one by one, with nothing else locked. -/
theorem warnAll_disciplined (messages : List String) {next : Code H}
    (h : next.Disciplined LockName.rank []) :
    (warnAll messages next).Disciplined LockName.rank [] := by
  induction messages with
  | nil => exact h
  | cons message messages ih => simpa [warnAll, Disciplined] using ih

/-- Locking the exchanges one by one, the snapshot keeps the list locked. -/
theorem cloneAll_disciplined (rest : List H) (taken : List Exchange) :
    (cloneAll rest taken).Disciplined LockName.rank [.exchanges] := by
  induction rest generalizing taken with
  | nil => simp [cloneAll, Disciplined]
  | cons h rest ih =>
    simp only [cloneAll, Disciplined, List.mem_singleton, forall_eq, LockName.rank,
      List.head?_cons, List.tail_cons, true_and]
    exact ⟨Nat.one_pos, fun exchange => ih _⟩

/-- Warnings are pushed before the exchange is locked. -/
theorem finishSide_disciplined (h : H) (side : Side) (method : Method) (route : String)
    (headers : List (String × String)) (body : BodyCapture) :
    (finishSide env h side method route headers body).Disciplined LockName.rank [] :=
  warnAll_disciplined _ (by simp [storeSide, Disciplined])

/-- The config is unlocked before anything else is locked. -/
theorem recordSide_disciplined (h : H) (side : Side) (method : Method) (route : String)
    (contentType : Option String) (headers : List (String × String)) (captured : CapturedBody) :
    (recordSide env h side method route contentType headers captured).Disciplined
      LockName.rank [] := by
  have hfinish := finishSide_disciplined env h side method route headers
  unfold recordSide
  cases BodyCapture.fromCaptured env.fromSlice contentType captured with
  | json value =>
    simp only [Disciplined, List.not_mem_nil, false_imp_iff, implies_true, List.head?_cons,
      List.tail_cons, true_and]
    exact fun config => hfinish _
  | _ => exact hfinish _

end Code

/-! ## Calls -/

/-- A call of a thread. -/
inductive Call (H : Type) where
  | push (h : H) (method : Method) (route : String) (security : Option SecurityScheme)
  | recordSide (h : H) (side : Side) (method : Method) (route : String)
      (contentType : Option String) (headers : List (String × String)) (captured : CapturedBody)
  | setStatus (h : H) (status : Nat)
  | declareResponse (h : H) (T : WireType) (bytes : List UInt8)
  | configure (redactions : Redactions)
  | snapshot
  | warningsSnapshot

/-- The values around an exchange that it takes to call its functions: the callbacks of
its tees, which are called once, with the method and the route they captured, the service
future before it stores the status, and the receipts. -/
structure Rights where
  method : Method
  route : String
  callback : Side → Bool := fun _ => false
  answer : Bool := false
  receipt : Bool := false

namespace Rights

/-- The callback of a side is made. -/
def give (rights : Rights) (side : Side) : Rights :=
  { rights with callback := Function.update rights.callback side true }

/-- The callback of a side is called. -/
def spend (rights : Rights) (side : Side) : Rights :=
  { rights with callback := Function.update rights.callback side false }

end Rights

namespace Call

variable {H : Type}

/-- What a call runs. -/
def code (env : Externals) : Call H → Code H
  | push h _ _ _ => .push h
  | recordSide h side method route contentType headers captured =>
    .recordSide env h side method route contentType headers captured
  | setStatus h status => .setStatus h status
  | declareResponse h T bytes => .declareResponse h T bytes
  | configure redactions => .configure redactions
  | snapshot => .snapshot
  | warningsSnapshot => .warningsSnapshot

/-- Every call keeps the order of the mutexes. -/
theorem code_disciplined (env : Externals) (call : Call H) :
    (call.code env).Disciplined LockName.rank [] := by
  cases call with
  | recordSide h side method route contentType headers captured =>
    exact Code.recordSide_disciplined ..
  | snapshot =>
    simp only [code, Code.snapshot, Mutex.Code.Disciplined, List.not_mem_nil, false_imp_iff,
      implies_true, List.head?_cons, true_and]
    exact fun handles => Code.cloneAll_disciplined handles []
  | push h method route security => simp [code, Code.push, Mutex.Code.Disciplined]
  | setStatus h status => simp [code, Code.setStatus, Mutex.Code.Disciplined]
  | declareResponse h T bytes => simp [code, Code.declareResponse, Mutex.Code.Disciplined]
  | configure redactions => simp [code, Code.configure, Mutex.Code.Disciplined]
  | warningsSnapshot => simp [code, Code.warningsSnapshot, Mutex.Code.Disciplined]

variable [DecidableEq H]

/-- What is left of the rights when a call begins, if the caller has the right to it. -/
def claim (rights : H → Option Rights) : Call H → Option (H → Option Rights)
  | push h method route _ =>
    if (rights h).isNone then
      some (Function.update rights h (some { method := method, route := route }))
    else none
  | recordSide h side method route _ _ _ => (rights h).bind fun r =>
    if r.method = method ∧ r.route = route ∧ r.callback side = true then
      some (Function.update rights h (some (r.spend side)))
    else none
  | setStatus h _ => (rights h).bind fun r =>
    if r.answer then some (Function.update rights h (some { r with answer := false })) else none
  | declareResponse h _ _ => (rights h).bind fun r => if r.receipt then some rights else none
  | _ => some rights

end Call

/-- What the caller has when a call returns: after the push the callback of the request
and the future, after the status the callback of the response and a receipt. -/
def Outcome.grant {H : Type} [DecidableEq H] (rights : H → Option Rights) :
    Outcome H → H → Option Rights
  | pushed h => Function.update rights h
      ((rights h).map fun r => { r.give .request with answer := true })
  | answered h => Function.update rights h
      ((rights h).map fun r => { r.give .response with receipt := true })
  | _ => rights

/-- The threads of the process: the mutexes and the code, what each thread is calling, and
the rights that nobody has used yet. -/
structure Threads (T H : Type) where
  system : System T (LockName.Guarded (H := H)) (Outcome H)
  call : T → Option (Call H)
  rights : H → Option Rights

/-- A turn of a thread. -/
inductive Turn (T H : Type) where
  | begin (t : T) (call : Call H)
  | advance (t : T)
  | finish (t : T)

namespace Threads

variable {T H : Type} [DecidableEq T] [DecidableEq H]

/-- No thread has begun. -/
def init (config : Redactions) : Threads T H where
  system :=
    { value := fun l => match l with
        | .exchanges => []
        | .exchange _ => none
        | .warnings => []
        | .config => config
      holder := fun _ => none
      code := fun _ => none }
  call := fun _ => none
  rights := fun _ => none

/-- A new exchange is allocated before it is pushed. -/
def allocate (system : System T (LockName.Guarded (H := H)) (Outcome H)) :
    Call H → System T (LockName.Guarded (H := H)) (Outcome H)
  | .push h method route security =>
    system.setValue (.exchange h) (some (.new method route security))
  | _ => system

/-- One turn. Locked mutexes are waited for. -/
def step (env : Externals) (m : Threads T H) : Turn T H → Option (Threads T H)
  | .begin t call =>
    match m.call t with
    | some _ => none
    | none => (call.claim m.rights).map fun rights =>
      { system := (allocate m.system call).setCode t (some (call.code env))
        call := Function.update m.call t (some call)
        rights := rights }
  | .advance t => (m.system.advance t).map fun system => { m with system := system }
  | .finish t =>
    match m.system.code t with
    | some (.ret outcome) => some
      { system := m.system.setCode t none
        call := Function.update m.call t none
        rights := outcome.grant m.rights }
    | _ => none

variable {env : Externals} {m m' : Threads T H}

/-- An idle thread begins a call that it has the rights to. -/
theorem step_begin_iff {t : T} {call : Call H} :
    m.step env (.begin t call) = some m' ↔ m.call t = none ∧ ∃ rights,
      call.claim m.rights = some rights ∧ m' =
        { system := (allocate m.system call).setCode t (some (call.code env))
          call := Function.update m.call t (some call)
          rights := rights } := by
  cases hcall : m.call t with
  | some call' => simp [step, hcall]
  | none => simp [step, hcall, eq_comm (a := m')]

/-- A thread takes one step of its code. -/
theorem step_advance_iff {t : T} :
    m.step env (.advance t) = some m' ↔
      ∃ system, m.system.advance t = some system ∧ m' = { m with system := system } := by
  simp only [step, Option.map_eq_some_iff, eq_comm (a := m')]

/-- A thread that has come to its return is idle again, and its caller gets the outcome. -/
theorem step_finish_iff {t : T} :
    m.step env (.finish t) = some m' ↔
      ∃ outcome, m.system.code t = some (.ret outcome) ∧ m' =
        { system := m.system.setCode t none
          call := Function.update m.call t none
          rights := outcome.grant m.rights } := by
  cases hcode : m.system.code t with
  | none => simp [step, hcode]
  | some code => cases code <;> simp [step, hcode, eq_comm (a := m')]

/-! ## No deadlock -/

/-- The mutexes are used as they should, and a thread has code while it is in a call. -/
structure Orderly (m : Threads T H) : Prop where
  disciplined : m.system.Disciplined LockName.rank
  idle_iff : ∀ t, m.call t = none ↔ m.system.code t = none

omit [DecidableEq T] [DecidableEq H] in
theorem orderly_init (config : Redactions) : (init config : Threads T H).Orderly :=
  ⟨fun _ => ⟨[], by simp [init], .nil, fun _ => rfl, nofun⟩, fun _ => by simp [init]⟩

/-- Every turn leaves the threads orderly: the code of a call that begins uses the mutexes as it
should, an advance goes on in such code, and a thread that returns holds nothing. -/
theorem Orderly.step (h : m.Orderly) {turn : Turn T H} (hstep : m.step env turn = some m') :
    m'.Orderly := by
  cases turn with
  | begin t call =>
    obtain ⟨hidle, rights, -, rfl⟩ := step_begin_iff.mp hstep
    have hcode := (h.idle_iff t).mp hidle
    refine ⟨?_, fun u => ?_⟩
    · have hallocate : (allocate m.system call).Disciplined LockName.rank ∧
          (allocate m.system call).code t = none := by
        cases call with
        | push => exact ⟨h.disciplined.setValue _ _, hcode⟩
        | _ => exact ⟨h.disciplined, hcode⟩
      exact hallocate.1.start hallocate.2 (call.code_disciplined env)
    · have hsame : (allocate m.system call).code u = m.system.code u := by cases call <;> rfl
      by_cases hut : u = t
      · simp [hut]
      · simpa [hut, hsame] using h.idle_iff u
  | advance t =>
    obtain ⟨system, hadvance, rfl⟩ := step_advance_iff.mp hstep
    refine ⟨h.disciplined.advance hadvance, fun u => (h.idle_iff u).trans ?_⟩
    by_cases hut : u = t
    · subst hut
      obtain ⟨l, next, hcode, -, rfl⟩ | ⟨l, f, next, hcode, -, rfl⟩ | ⟨l, next, hcode, -, rfl⟩ :=
        System.advance_cases hadvance <;> simp [hcode]
    · obtain ⟨l, next, -, -, rfl⟩ | ⟨l, f, next, -, -, rfl⟩ | ⟨l, next, -, -, rfl⟩ :=
        System.advance_cases hadvance <;> simp [hut]
  | finish t =>
    obtain ⟨outcome, hret, rfl⟩ := step_finish_iff.mp hstep
    refine ⟨h.disciplined.finish hret, fun u => ?_⟩
    by_cases hut : u = t
    · simp [hut]
    · simpa [hut] using h.idle_iff u

/-- The threads of every run are orderly. -/
theorem orderly_of_run {config : Redactions} {turns : List (Turn T H)}
    (hrun : run (step env) (init config) turns = some m) : m.Orderly :=
  run_invariant (P := fun _ => Orderly) (orderly_init config)
    (fun _ _ _ _ _ ih hstep => ih.step hstep) hrun

/-- However the threads of a test run interleave, they never deadlock, as long as declared
types do not call back into the crate: a thread that is in a call and has not come to its
return can take a turn, or it waits for a mutex, through other threads that wait, for a
thread that can take a turn. -/
theorem no_deadlock (env : Externals) (config : Redactions) {turns : List (Turn T H)}
    (hrun : run (step env) (init config) turns = some m) {t : T} {code : Code H}
    (hcode : m.system.code t = some code) (hreturn : ∀ outcome, code ≠ .ret outcome) :
    ∃ u, Relation.ReflTransGen m.system.Waits t u ∧
      ∃ m', m.step env (.advance u) = some m' := by
  have hbusy : m.system.Busy t := ⟨code, hcode, hreturn⟩
  obtain ⟨u, hpath, system, hadvance⟩ := (orderly_of_run hrun).disciplined.exists_advance hbusy
  exact ⟨u, hpath, _, step_advance_iff.mpr ⟨system, hadvance, rfl⟩⟩

/-- A call stores a status behind its exchange's mutex, a snapshot with the list locked
waits for it, and a push waits for the list. -/
def queue : List (Turn Nat Nat) :=
  [.begin 0 (.push 0 .get "/users" none), .advance 0, .advance 0, .advance 0, .finish 0,
    .begin 0 (.setStatus 0 200), .advance 0, .begin 1 .snapshot, .advance 1, .advance 1,
    .begin 2 (.push 1 .post "/users" none)]

/-- The push waits for a thread that can take a turn. -/
theorem no_deadlock_example : ∃ m, run (step parseDigits) (init .new) queue = some m ∧
    m.system.holder .exchanges = some 1 ∧
    ∃ u, Relation.ReflTransGen m.system.Waits 2 u ∧
      ∃ m', m.step parseDigits (.advance u) = some m' := by
  have hqueue : (run (step parseDigits) (init .new) queue).map
      (fun m => (m.system.holder .exchanges, m.system.code 2)) =
        some (some 1, some (Code.push 1)) := rfl
  obtain ⟨m, hm, hstate⟩ := Option.map_eq_some_iff.mp hqueue
  obtain ⟨hholder, hcode⟩ := Prod.mk.inj hstate
  exact ⟨m, hm, hholder, no_deadlock parseDigits .new hm hcode nofun⟩

end Threads

end Cyanotype
