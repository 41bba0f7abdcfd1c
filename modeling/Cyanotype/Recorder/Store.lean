import Cyanotype.Recorder.Shared
import Mathlib.Logic.Function.Basic

/-!
# The process-global store

All exchanges of a test run and the warnings raised so far, behind their locks.
Exchanges are held by handles `H`. Every locked access is one step, and steps of
any number of exchanges interleave. A snapshot keeps the list of exchanges locked
and clones one exchange after the other.
-/

namespace Cyanotype

/-- A snapshot in progress: the clones so far, and the handles still to read. -/
structure Snapshot (H : Type*) where
  taken : List (H × Exchange)
  rest : List H

/-- The global state, with the snapshots that were returned so far. -/
structure Recorder (H : Type*) where
  config : Redactions
  exchanges : List H
  heap : H → Option SharedExchange
  warnings : List String
  snapshot : Option (Snapshot H)
  collected : List (List Exchange)

/-- A step of some thread. -/
inductive Action (H : Type*) where
  /-- Replace the redaction config. -/
  | configure (redactions : Redactions)
  /-- Register a newly started exchange under a fresh handle. -/
  | push (h : H) (method : Method) (routeTemplate : String) (security : Option SecurityScheme)
  | access (h : H) (access : Access)
  /-- Lock the list of exchanges. -/
  | beginSnapshot
  /-- Clone the next exchange. -/
  | readExchange
  /-- Unlock the list and return the clones. -/
  | endSnapshot

namespace Action

variable {H : Type*}

/-- The step replaces the redaction config. -/
def isConfigure : Action H → Bool
  | configure _ => true
  | _ => false

/-- The redaction config after a step. -/
def configAfter (config : Redactions) : Action H → Redactions
  | configure redactions => redactions
  | _ => config

/-- The step decides and redacts a body. -/
def isFinish : Action H → Bool
  | access _ (.side _ (.finish _ _ _)) => true
  | _ => false

/-- The step begins or ends a snapshot. -/
def isBoundary : Action H → Bool
  | beginSnapshot => true
  | endSnapshot => true
  | _ => false

/-- The step is part of a snapshot. -/
def isSnapshot : Action H → Bool
  | beginSnapshot => true
  | readExchange => true
  | endSnapshot => true
  | _ => false

/-- The handle that a step registers. -/
def pushed : Action H → Option H
  | push h _ _ _ => some h
  | _ => none

/-- What a step does to the exchange of a handle, after its push. -/
def accessOf [DecidableEq H] (h : H) : Action H → Option Access
  | access h' a => if h' = h then some a else none
  | _ => none

end Action

/-- The accesses to one exchange, in their order. -/
def accessesOf {H : Type*} [DecidableEq H] (h : H) (actions : List (Action H)) : List Access :=
  actions.filterMap (Action.accessOf h)

/-- The last step adds its access, if it is one to the exchange. -/
theorem accessesOf_concat {H : Type*} [DecidableEq H] (h : H) (actions : List (Action H))
    (a : Action H) :
    accessesOf h (actions ++ [a]) = accessesOf h actions ++ (a.accessOf h).toList := by
  rw [accessesOf, List.filterMap_append, accessesOf]
  cases ha : a.accessOf h <;> simp [ha]

namespace Recorder

variable {H : Type*} [DecidableEq H]

/-- Nothing recorded yet, under a redaction config. -/
def init (config : Redactions) : Recorder H where
  config := config
  exchanges := []
  heap := fun _ => none
  warnings := []
  snapshot := none
  collected := []

/-- The exchange behind a handle. -/
def exchangeAt (s : Recorder H) (h : H) : Option Exchange := (s.heap h).map (·.exchange)

/-- All exchanges as they are now, in the order of the store. -/
def recorded (s : Recorder H) : List Exchange := s.exchanges.filterMap s.exchangeAt

/-- The state with another value behind a handle. -/
def put (s : Recorder H) (h : H) (shared : SharedExchange) : Recorder H :=
  { s with heap := Function.update s.heap h (some shared) }

/-- One step. A push waits for the end of a running snapshot, and so does another snapshot. -/
def step (env : Externals) (s : Recorder H) : Action H → Option (Recorder H)
  | .configure redactions => some { s with config := redactions }
  | .push h method routeTemplate security =>
    if s.heap h = none ∧ s.snapshot = none then
      some { s.put h (.new method routeTemplate security) with exchanges := s.exchanges ++ [h] }
    else none
  | .access h a =>
    (s.heap h).bind fun shared => (shared.access env s.config a).map fun shared' =>
      { s.put h shared' with warnings := s.warnings ++ shared.raises a }
  | .beginSnapshot =>
    if s.snapshot = none then some { s with snapshot := some ⟨[], s.exchanges⟩ } else none
  | .readExchange =>
    match s.snapshot with
    | some ⟨taken, h :: rest⟩ => (s.exchangeAt h).map fun exchange =>
      { s with snapshot := some ⟨taken ++ [(h, exchange)], rest⟩ }
    | _ => none
  | .endSnapshot =>
    match s.snapshot with
    | some ⟨taken, []⟩ =>
      some { s with snapshot := none, collected := s.collected ++ [taken.map Prod.snd] }
    | _ => none

variable {env : Externals} {s s' : Recorder H} {h : H}

/-- A push needs a fresh handle and no snapshot. -/
theorem step_push_iff {method : Method} {routeTemplate : String}
    {security : Option SecurityScheme} :
    s.step env (.push h method routeTemplate security) = some s' ↔
      s.heap h = none ∧ s.snapshot = none ∧ s' =
        { s.put h (.new method routeTemplate security) with exchanges := s.exchanges ++ [h] } := by
  rw [step, Option.ite_none_right_eq_some, Option.some.injEq, and_assoc, eq_comm (a := s')]

/-- An access changes its own exchange and raises the warnings of the access. -/
theorem step_access_iff {a : Access} :
    s.step env (.access h a) = some s' ↔
      ∃ shared shared', s.heap h = some shared ∧ shared.access env s.config a = some shared' ∧
        s' = { s.put h shared' with warnings := s.warnings ++ shared.raises a } := by
  simp only [step, Option.bind_eq_some_iff, Option.map_eq_some_iff]
  constructor
  · rintro ⟨shared, hs, shared', ha, rfl⟩
    exact ⟨shared, shared', hs, ha, rfl⟩
  · rintro ⟨shared, shared', hs, ha, rfl⟩
    exact ⟨shared, hs, shared', ha, rfl⟩

/-- A snapshot begins with all exchanges to be read. -/
theorem step_beginSnapshot_iff :
    s.step env .beginSnapshot = some s' ↔
      s.snapshot = none ∧ s' = { s with snapshot := some ⟨[], s.exchanges⟩ } := by
  rw [step, Option.ite_none_right_eq_some, Option.some.injEq, eq_comm (a := s')]

/-- The next exchange is cloned as it is. -/
theorem step_readExchange_iff :
    s.step env .readExchange = some s' ↔
      ∃ taken h rest exchange, s.snapshot = some ⟨taken, h :: rest⟩ ∧
        s.exchangeAt h = some exchange ∧
        s' = { s with snapshot := some ⟨taken ++ [(h, exchange)], rest⟩ } := by
  cases hs : s.snapshot with
  | none => simp [step, hs]
  | some snapshot =>
    obtain ⟨taken, rest⟩ := snapshot
    cases rest with
    | nil => simp [step, hs]
    | cons h rest =>
      simp only [step, hs, Option.map_eq_some_iff, Option.some.injEq, Snapshot.mk.injEq,
        List.cons.injEq]
      constructor
      · rintro ⟨exchange, he, rfl⟩
        exact ⟨taken, h, rest, exchange, ⟨rfl, rfl, rfl⟩, he, rfl⟩
      · rintro ⟨_, _, _, exchange, ⟨rfl, rfl, rfl⟩, he, rfl⟩
        exact ⟨exchange, he, rfl⟩

/-- A snapshot ends when all exchanges are cloned. -/
theorem step_endSnapshot_iff :
    s.step env .endSnapshot = some s' ↔
      ∃ taken, s.snapshot = some ⟨taken, []⟩ ∧ s' = { s with
        snapshot := none, collected := s.collected ++ [taken.map Prod.snd] } := by
  cases hs : s.snapshot with
  | none => simp [step, hs]
  | some snapshot =>
    obtain ⟨taken, rest⟩ := snapshot
    cases rest with
    | cons h rest => simp [step, hs]
    | nil => simp [step, hs, eq_comm]

/-- Only a new redaction config changes the config. -/
theorem step_config {a : Action H} (hstep : s.step env a = some s') :
    s'.config = a.configAfter s.config := by
  cases a with
  | configure redactions =>
    obtain rfl := Option.some.inj hstep
    rfl
  | push i method route security =>
    obtain ⟨-, -, rfl⟩ := step_push_iff.mp hstep
    rfl
  | access i a =>
    obtain ⟨shared, shared', -, -, rfl⟩ := step_access_iff.mp hstep
    rfl
  | beginSnapshot =>
    obtain ⟨-, rfl⟩ := step_beginSnapshot_iff.mp hstep
    rfl
  | readExchange =>
    obtain ⟨taken, i, rest, exchange, -, -, rfl⟩ := step_readExchange_iff.mp hstep
    rfl
  | endSnapshot =>
    obtain ⟨taken, -, rfl⟩ := step_endSnapshot_iff.mp hstep
    rfl

/-- A push is what makes the list of exchanges longer. -/
theorem step_exchanges {a : Action H} (hstep : s.step env a = some s') :
    s'.exchanges = s.exchanges ++ a.pushed.toList := by
  cases a with
  | configure redactions =>
    obtain rfl := Option.some.inj hstep
    exact (List.append_nil _).symm
  | push i method route security =>
    obtain ⟨-, -, rfl⟩ := step_push_iff.mp hstep
    rfl
  | access i a =>
    obtain ⟨shared, shared', -, -, rfl⟩ := step_access_iff.mp hstep
    exact (List.append_nil _).symm
  | beginSnapshot =>
    obtain ⟨-, rfl⟩ := step_beginSnapshot_iff.mp hstep
    exact (List.append_nil _).symm
  | readExchange =>
    obtain ⟨taken, i, rest, exchange, -, -, rfl⟩ := step_readExchange_iff.mp hstep
    exact (List.append_nil _).symm
  | endSnapshot =>
    obtain ⟨taken, -, rfl⟩ := step_endSnapshot_iff.mp hstep
    exact (List.append_nil _).symm

/-- Other steps leave the snapshots alone, and no push comes during one. -/
theorem step_snapshot {a : Action H} (hstep : s.step env a = some s')
    (ha : a.isSnapshot = false) :
    s'.snapshot = s.snapshot ∧ s'.collected = s.collected ∧
      (s.snapshot ≠ none → s'.exchanges = s.exchanges) := by
  cases a with
  | configure redactions =>
    obtain rfl := Option.some.inj hstep
    exact ⟨rfl, rfl, fun _ => rfl⟩
  | push i method route security =>
    obtain ⟨-, hnone, rfl⟩ := step_push_iff.mp hstep
    exact ⟨rfl, rfl, fun hsnapshot => absurd hnone hsnapshot⟩
  | access i a =>
    obtain ⟨shared, shared', -, -, rfl⟩ := step_access_iff.mp hstep
    exact ⟨rfl, rfl, fun _ => rfl⟩
  | beginSnapshot => cases ha
  | readExchange => cases ha
  | endSnapshot => cases ha

/-- A step leaves what is behind a handle alone, puts a new exchange there, or is an
access to the one there. -/
theorem step_heap_cases {a : Action H} (hstep : s.step env a = some s') (h : H) :
    (a.pushed ≠ some h ∧ a.accessOf h = none ∧ s'.heap h = s.heap h) ∨
    (∃ method route security, a = .push h method route security ∧ s.heap h = none ∧
      s'.heap h = some (.new method route security)) ∨
    ∃ access shared shared', a = .access h access ∧ s.heap h = some shared ∧
      shared.access env s.config access = some shared' ∧ s'.heap h = some shared' := by
  cases a with
  | configure redactions =>
    obtain rfl := Option.some.inj hstep
    exact .inl ⟨nofun, rfl, rfl⟩
  | push i method route security =>
    obtain ⟨hfresh, -, rfl⟩ := step_push_iff.mp hstep
    by_cases hi : h = i
    · subst hi
      exact .inr (.inl ⟨method, route, security, rfl, hfresh, by simp [put]⟩)
    · exact .inl ⟨fun h' => hi (Option.some.inj h').symm, rfl, by simp [put, hi]⟩
  | access i a =>
    obtain ⟨shared, shared', hshared, haccess, rfl⟩ := step_access_iff.mp hstep
    by_cases hi : h = i
    · subst hi
      exact .inr (.inr ⟨a, shared, shared', rfl, hshared, haccess, by simp [put]⟩)
    · exact .inl ⟨nofun, if_neg (Ne.symm hi), by simp [put, hi]⟩
  | beginSnapshot =>
    obtain ⟨-, rfl⟩ := step_beginSnapshot_iff.mp hstep
    exact .inl ⟨nofun, rfl, rfl⟩
  | readExchange =>
    obtain ⟨taken, i, rest, exchange, -, -, rfl⟩ := step_readExchange_iff.mp hstep
    exact .inl ⟨nofun, rfl, rfl⟩
  | endSnapshot =>
    obtain ⟨taken, -, rfl⟩ := step_endSnapshot_iff.mp hstep
    exact .inl ⟨nofun, rfl, rfl⟩

/-! ## One field of an exchange -/

/-- The status of the exchange behind a handle. -/
def statusAt (s : Recorder H) (h : H) : Option Nat :=
  (s.exchangeAt h).bind (·.response.status)

/-- The declaration of the exchange behind a handle. -/
def declaredAt (s : Recorder H) (h : H) : Option Declaration :=
  (s.exchangeAt h).bind (·.declaredResponseSchema)

section

omit [DecidableEq H]

/-- The status behind a handle is that of its exchange. -/
theorem statusAt_of_exchangeAt {exchange : Exchange} (h' : s.exchangeAt h = some exchange) :
    s.statusAt h = exchange.response.status := by
  rw [statusAt, h', Option.bind_some]

theorem declaredAt_of_exchangeAt {exchange : Exchange} (h' : s.exchangeAt h = some exchange) :
    s.declaredAt h = exchange.declaredResponseSchema := by
  rw [declaredAt, h', Option.bind_some]

/-- A status is there when an answered exchange is. -/
theorem statusAt_isSome_iff :
    (s.statusAt h).isSome ↔
      ∃ shared, s.heap h = some shared ∧ shared.exchange.response.status ≠ none := by
  unfold statusAt exchangeAt
  cases s.heap h with
  | none => simp
  | some shared => simp [Option.isSome_iff_ne_none]

end

/-- A step stores a status where there is none. -/
theorem step_statusAt {a : Action H} (hstep : s.step env a = some s') (h : H) :
    s'.statusAt h = (s.statusAt h).or ((a.accessOf h).bind Access.status) := by
  unfold statusAt exchangeAt
  obtain ⟨-, haccess, hheap⟩ | ⟨method, route, security, rfl, hfresh, hheap⟩ |
    ⟨access, shared, shared', rfl, hshared, haccess, hheap⟩ := step_heap_cases hstep h
  · rw [hheap, haccess, Option.bind_none, Option.or_none]
  · rw [hheap, hfresh]
    rfl
  · simpa [hheap, hshared, Action.accessOf] using SharedExchange.access_status haccess

/-- A step that declares a schema puts it in place of the one declared before. -/
theorem step_declaredAt {a : Action H} (hstep : s.step env a = some s') (h : H) :
    s'.declaredAt h = ((a.accessOf h).bind Access.declares).or (s.declaredAt h) := by
  unfold declaredAt exchangeAt
  obtain ⟨-, haccess, hheap⟩ | ⟨method, route, security, rfl, hfresh, hheap⟩ |
    ⟨access, shared, shared', rfl, hshared, haccess, hheap⟩ := step_heap_cases hstep h
  · rw [hheap, haccess, Option.bind_none, Option.none_or]
  · rw [hheap, hfresh]
    rfl
  · simpa [hheap, hshared, Action.accessOf] using SharedExchange.access_declared haccess

/-! ## A body recorded without interruption -/

/-- Once its warnings are known, a side raises them one by one and then stores its body. -/
private theorem run_raise {shared : SharedExchange} (hs : s.heap h = some shared) {side : Side}
    {headers : List (String × String)} {body : BodyCapture} {warnings : List String}
    (hphase : shared.phase side = .recording headers body warnings)
    (hstatus : side = .response → shared.exchange.response.status ≠ none) :
    ∃ s', run (step env) s (List.replicate warnings.length (.access h (.side side .warn)) ++
        [.access h (.side side .store)]) = some s' ∧
      s'.exchangeAt h = some (shared.exchange.setMessage side headers body) ∧
      s'.warnings = s.warnings ++ warnings := by
  induction warnings generalizing s shared with
  | nil =>
    have haccess := shared.access_side env s.config hstatus .store
    rw [hphase] at haccess
    have hstep := step_access_iff.mpr ⟨shared, _, hs, haccess, rfl⟩
    refine ⟨_, (run_singleton _).trans hstep, ?_, by simp [SharedExchange.raises]⟩
    cases side <;> simp [exchangeAt, put] <;> rfl
  | cons warning warnings ih =>
    have haccess := shared.access_side env s.config hstatus .warn
    rw [hphase] at haccess
    have hstep := step_access_iff.mpr ⟨shared, _, hs, haccess, rfl⟩
    have hnext : ∀ phase, side = .response → (shared.setSide side
        (shared.exchange.message side, phase)).exchange.response.status ≠ none := by
      simpa only [shared.exchange_setSide_message] using fun _ => hstatus
    obtain ⟨s', hrun, hexchange, hwarnings⟩ := ih (s := { s.put h _ with warnings := _ })
      (Function.update_self ..) (shared.phase_setSide side _) (hnext _)
    refine ⟨s', ?_, ?_, ?_⟩
    · rw [List.length_cons, List.replicate_succ, List.cons_append, run_cons, hstep]
      exact hrun
    · rw [hexchange, shared.exchange_setSide_message]
    · rw [hwarnings]
      simp [SharedExchange.raises, hphase]

/-- A body that is recorded without interruption is recorded as in one step. -/
theorem run_recordSide {shared : SharedExchange} (hs : s.heap h = some shared) {side : Side}
    (hphase : shared.phase side = .streaming)
    (hstatus : side = .response → shared.exchange.response.status ≠ none)
    (contentType : Option String) (headers : List (String × String)) (captured : CapturedBody) :
    ∃ n s', run (step env) s
        (.access h (.side side (.finish contentType headers captured)) ::
          (List.replicate n (.access h (.side side .warn)) ++
            [.access h (.side side .store)])) = some s' ∧
      (s'.exchangeAt h).map (Recording.mk · s'.warnings) = some (recordSide env s.config side
        shared.exchange.method shared.exchange.routeTemplate contentType headers captured
        ⟨shared.exchange, s.warnings⟩) := by
  have haccess := shared.access_side env s.config hstatus
    (.finish contentType headers captured)
  rw [hphase] at haccess
  have hstep := step_access_iff.mpr ⟨shared, _, hs, haccess, rfl⟩
  have hnext : ∀ phase, side = .response → (shared.setSide side
      (shared.exchange.message side, phase)).exchange.response.status ≠ none := by
    simpa only [shared.exchange_setSide_message] using fun _ => hstatus
  obtain ⟨s', hrun, hexchange, hwarnings⟩ := run_raise (s := { s.put h _ with warnings := _ })
    (Function.update_self ..) (shared.phase_setSide side _) (hnext _)
  refine ⟨_, s', by rw [run_cons, hstep]; exact hrun, ?_⟩
  rw [hexchange, hwarnings, shared.exchange_setSide_message]
  simp [recordSide, SharedExchange.raises]

end Recorder

end Cyanotype
