import Cyanotype.Recorder.Raised

/-!
# Every warning is raised once

The list of warnings is the tally of what each side of each exchange has raised so
far: the warnings due about its body, less those it has still to raise. Nothing is
raised twice, lost, or raised about a body that is not recorded.
-/

namespace Cyanotype

variable {env : Externals} {config : Redactions}

/-- One member of a list of distinct handles has more to say than before. -/
theorem flatMap_perm_append {α β : Type*} {l : List α} (hl : l.Nodup) {i : α} (hi : i ∈ l)
    {f g : α → List β} {extra : List β} (hself : (g i).Perm (f i ++ extra))
    (hother : ∀ j, j ≠ i → g j = f j) : (l.flatMap g).Perm (l.flatMap f ++ extra) := by
  induction l with
  | nil => cases hi
  | cons j l ih =>
    obtain ⟨hj, hl⟩ := List.nodup_cons.mp hl
    rw [List.flatMap_cons, List.flatMap_cons]
    by_cases hji : j = i
    · subst hji
      have hrest : l.flatMap g = l.flatMap f :=
        List.flatMap_congr fun k hk => hother k fun hkj => hj (hkj ▸ hk)
      rw [hrest]
      refine (hself.append_right _).trans ?_
      rw [List.append_assoc, List.append_assoc]
      exact List.perm_append_comm.append_left _
    · rw [hother j hji, List.append_assoc]
      exact (ih hl ((List.mem_cons.mp hi).resolve_left (Ne.symm hji))).append_left _

/-! ## One side -/

namespace Phase

/-- The warnings that a side has raised so far, when `due` are the warnings about a body. -/
def raised (due : BodyCapture → List String) (stored : BodyCapture) : Phase → List String
  | streaming => []
  | recording _ body remaining => (due body).take ((due body).length - remaining.length)
  | recorded => due stored

/-- The side is not between its decision and the store of its body. -/
def atRest : Phase → Bool
  | recording _ _ _ => false
  | _ => true

end Phase

/-- An access of the side's tee adds what it pushes to what the side has raised. -/
theorem SideRaised.raised_step {side : Side} {method : Method} {route : String}
    {warnings : List String} {message : MessageCapture} {phase : Phase} {a : SideAccess}
    {r : MessageCapture × Phase}
    (h : SideRaised env side method route warnings message.body phase)
    (hstep : stepSide env config side method route message phase a = some r) :
    r.2.raised (sideWarnings env side method route) r.1.body =
      phase.raised (sideWarnings env side method route) message.body ++ phase.raises a := by
  cases a with
  | finish contentType headers captured =>
    obtain ⟨rfl, rfl⟩ := stepSide_finish_iff.mp hstep
    simp [Phase.raised, Phase.raises]
  | warn =>
    obtain ⟨headers, body, warning, remaining, rfl, rfl⟩ := stepSide_warn_iff.mp hstep
    obtain ⟨-, raised, hdue, -⟩ := h
    have htake : ∀ rest : List String, (raised ++ rest).length - rest.length = raised.length :=
      fun rest => by simp
    have hsplit : raised ++ warning :: remaining = (raised ++ [warning]) ++ remaining := by simp
    simp only [Phase.raised, Phase.raises, hdue]
    rw [htake, List.take_left, hsplit, List.length_append, Nat.add_sub_cancel, List.take_left]
  | store =>
    obtain ⟨headers, body, rfl, rfl⟩ := stepSide_store_iff.mp hstep
    simp [Phase.raised, Phase.raises]

/-! ## One exchange -/

/-- The warnings due about the stored bodies of an exchange. -/
def Exchange.warningsDue (env : Externals) (exchange : Exchange) : List String :=
  sideWarnings env .request exchange.method exchange.routeTemplate exchange.request.body ++
    sideWarnings env .response exchange.method exchange.routeTemplate exchange.response.body

namespace SharedExchange

variable {warnings : List String} {shared shared' : SharedExchange}

/-- The warnings that a side of the exchange has raised so far. -/
def raisedBy (env : Externals) (shared : SharedExchange) (side : Side) : List String :=
  (shared.phase side).raised
    (sideWarnings env side shared.exchange.method shared.exchange.routeTemplate)
    (shared.exchange.message side).body

/-- The warnings that the exchange has raised so far. -/
def raised (env : Externals) (shared : SharedExchange) : List String :=
  shared.raisedBy env .request ++ shared.raisedBy env .response

/-- Neither side is between its decision and the store of its body. -/
def atRest (shared : SharedExchange) : Bool :=
  shared.requestPhase.atRest && shared.responsePhase.atRest

/-- An access adds what it pushes to what the exchange has raised. -/
theorem Raised.raised_access (h : shared.Raised env warnings) {a : Access}
    (hstep : shared.access env config a = some shared') :
    (shared'.raised env).Perm (shared.raised env ++ shared.raises a) := by
  cases a with
  | side side x =>
    obtain ⟨-, r, hr, rfl⟩ := access_side_eq_some_iff.mp hstep
    have hside := (h side).raised_step hr
    rw [raises_side]
    cases side with
    | request =>
      have hrequest : ((shared.setSide .request r).raisedBy env .request) =
          shared.raisedBy env .request ++ (shared.phase .request).raises x := hside
      have hresponse : ((shared.setSide .request r).raisedBy env .response) =
          shared.raisedBy env .response := rfl
      rw [raised, raised, hrequest, hresponse, List.append_assoc, List.append_assoc]
      exact List.perm_append_comm.append_left _
    | response =>
      have hrequest : ((shared.setSide .response r).raisedBy env .request) =
          shared.raisedBy env .request := rfl
      have hresponse : ((shared.setSide .response r).raisedBy env .response) =
          shared.raisedBy env .response ++ (shared.phase .response).raises x := hside
      rw [raised, raised, hrequest, hresponse, List.append_assoc]
  | setStatus status =>
    obtain ⟨-, rfl⟩ := access_setStatus_eq_some_iff.mp hstep
    exact .of_eq (List.append_nil _).symm
  | declareResponse T bytes =>
    obtain ⟨-, rfl⟩ := access_declareResponse_eq_some_iff.mp hstep
    split_ifs <;> exact .of_eq (List.append_nil _).symm

/-- A side at rest has raised the warnings about its stored body. -/
theorem Raised.raisedBy_of_atRest (h : shared.Raised env warnings) (side : Side)
    (hrest : (shared.phase side).atRest = true) :
    shared.raisedBy env side = sideWarnings env side shared.exchange.method
      shared.exchange.routeTemplate (shared.exchange.message side).body := by
  have hside := h side
  unfold raisedBy
  cases hphase : shared.phase side with
  | streaming =>
    rw [hphase] at hside
    have hempty : (shared.exchange.message side).body = .empty := hside
    rw [hempty]
    rfl
  | recording headers body remaining =>
    rw [hphase] at hrest
    cases hrest
  | recorded => rfl

/-- An exchange at rest has raised the warnings about its stored bodies. -/
theorem Raised.raised_of_atRest (h : shared.Raised env warnings) (hrest : shared.atRest = true) :
    shared.raised env = shared.exchange.warningsDue env := by
  rw [atRest, Bool.and_eq_true] at hrest
  have hrequest := h.raisedBy_of_atRest .request hrest.1
  have hresponse := h.raisedBy_of_atRest .response hrest.2
  rw [raised, hrequest, hresponse]
  rfl

end SharedExchange

/-! ## The store -/

namespace Recorder

variable {H : Type*} {s s' : Recorder H}

/-- The store lists every handle in use, once. -/
structure Registered (s : Recorder H) : Prop where
  once : s.exchanges.Nodup
  stored : ∀ h, h ∈ s.exchanges ↔ s.heap h ≠ none

/-- The warnings that the exchange of a handle has raised so far. -/
def raisedAt (env : Externals) (s : Recorder H) (h : H) : List String :=
  ((s.heap h).map (·.raised env)).getD []

/-- No side is between its decision and the store of its body. -/
def atRest (s : Recorder H) : Bool :=
  s.exchanges.all fun h => (s.heap h).all SharedExchange.atRest

/-- The list of warnings holds what each exchange has raised so far. -/
structure Tallied (env : Externals) (s : Recorder H) : Prop where
  registered : s.Registered
  warnings : s.warnings.Perm (s.exchanges.flatMap (s.raisedAt env))

theorem registered_init (redactions : Redactions) : (init redactions : Recorder H).Registered :=
  ⟨List.nodup_nil, fun _ => by simp [init]⟩

theorem tallied_init (redactions : Redactions) : Tallied env (init redactions : Recorder H) :=
  ⟨registered_init redactions, .refl _⟩

/-- A step that leaves exchanges and warnings alone keeps the tally. -/
theorem Tallied.frame (h : s.Tallied env) (hregistered : s'.Registered)
    (hexchanges : s'.exchanges = s.exchanges) (hheap : s'.heap = s.heap)
    (hwarnings : s'.warnings = s.warnings) : s'.Tallied env := by
  refine ⟨hregistered, ?_⟩
  have hraised : s'.raisedAt env = s.raisedAt env := by
    funext i
    rw [raisedAt, raisedAt, hheap]
  rw [hwarnings, hexchanges, hraised]
  exact h.warnings

variable [DecidableEq H]

/-- A handle is registered when its exchange is pushed, and stays so. -/
theorem Registered.step (h : s.Registered) {a : Action H} (hstep : s.step env a = some s') :
    s'.Registered := by
  have hlist := step_exchanges hstep
  refine ⟨?_, fun i => ?_⟩
  · rw [hlist]
    cases a with
    | push i method route security =>
      obtain ⟨hfresh, -, -⟩ := step_push_iff.mp hstep
      have hnew : i ∉ s.exchanges := fun hi => (h.stored i).mp hi hfresh
      simpa [Action.pushed] using h.once.concat hnew
    | _ => simpa [Action.pushed] using h.once
  · rw [hlist, List.mem_append, h.stored i, Option.mem_toList]
    obtain ⟨hother, -, hheap⟩ | ⟨_, _, _, rfl, -, hheap⟩ | ⟨_, _, _, rfl, hshared, -, hheap⟩ :=
      step_heap_cases hstep i
    · simp [hheap, hother]
    · simp [hheap, Action.pushed]
    · simp [hheap, hshared]

/-- Every step keeps the tally. -/
theorem Tallied.step (h : s.Tallied env) (hcovers : s.Covers env) {a : Action H}
    (hstep : s.step env a = some s') : s'.Tallied env := by
  have hregistered := h.registered.step hstep
  cases a with
  | configure redactions =>
    obtain rfl := Option.some.inj hstep
    exact h.frame hregistered rfl rfl rfl
  | push i method route security =>
    obtain ⟨hfresh, -, rfl⟩ := step_push_iff.mp hstep
    refine ⟨hregistered, ?_⟩
    have hnew : i ∉ s.exchanges := fun hi => (h.registered.stored i).mp hi hfresh
    have hothers : ∀ j ∈ s.exchanges, ({ s.put i (.new method route security) with
        exchanges := s.exchanges ++ [i] } : Recorder H).raisedAt env j = s.raisedAt env j := by
      intro j hj
      have hji : j ≠ i := fun hji => hnew (hji ▸ hj)
      simp [raisedAt, put, hji]
    rw [List.flatMap_append, List.flatMap_congr hothers]
    have hself : ({ s.put i (.new method route security) with
        exchanges := s.exchanges ++ [i] } : Recorder H).raisedAt env i = [] := by
      simp only [raisedAt, put, Function.update_self]
      rfl
    rw [List.flatMap_cons, hself, List.flatMap_nil, List.append_nil, List.append_nil]
    exact h.warnings
  | access i a =>
    obtain ⟨shared, shared', hshared, haccess, rfl⟩ := step_access_iff.mp hstep
    refine ⟨hregistered, (h.warnings.append_right _).trans (List.Perm.symm ?_)⟩
    have hi : i ∈ s.exchanges := (h.registered.stored i).mpr (by simp [hshared])
    refine flatMap_perm_append h.registered.once hi ?_ fun j hj => ?_
    · simp only [raisedAt, put, Function.update_self, hshared]
      exact (hcovers.heap i shared hshared).raised_access haccess
    · simp [raisedAt, put, hj]
  | beginSnapshot =>
    obtain ⟨-, rfl⟩ := step_beginSnapshot_iff.mp hstep
    exact h.frame hregistered rfl rfl rfl
  | readExchange =>
    obtain ⟨taken, i, rest, exchange, -, -, rfl⟩ := step_readExchange_iff.mp hstep
    exact h.frame hregistered rfl rfl rfl
  | endSnapshot =>
    obtain ⟨taken, -, rfl⟩ := step_endSnapshot_iff.mp hstep
    exact h.frame hregistered rfl rfl rfl

/-- In every state reached, the list of warnings is the tally. -/
theorem tallied_of_run {redactions : Redactions} {actions : List (Action H)}
    (hrun : run (step env) (init redactions) actions = some s) : s.Tallied env :=
  run_invariant (P := fun _ => Tallied env) (tallied_init redactions)
    (fun _ _ _ _ ht ih hstep => ih.step (covers_of_run ht) hstep) hrun

omit [DecidableEq H] in
/-- When all exchanges are at rest, the tally is that of the warnings due about their bodies. -/
theorem flatMap_raisedAt_of_atRest (hcovers : s.Covers env) (hregistered : s.Registered)
    (hrest : s.atRest = true) :
    s.exchanges.flatMap (s.raisedAt env) = s.recorded.flatMap (Exchange.warningsDue env) := by
  rw [recorded, List.filterMap_eq_flatMap_toList, List.flatMap_assoc]
  refine List.flatMap_congr fun i hi => ?_
  obtain ⟨shared, hshared⟩ := Option.ne_none_iff_exists'.mp ((hregistered.stored i).mp hi)
  have hshared' : shared.atRest = true := by
    simpa [hshared] using List.all_eq_true.mp hrest i hi
  have hdue := (hcovers.heap i shared hshared).raised_of_atRest hshared'
  simp [raisedAt, exchangeAt, hshared, hdue]

/-- In every state reached, however the steps of exchanges, snapshots and new redaction
configs interleave, the list of warnings is a rearrangement of what the sides have
raised. Whenever no side is between its decision and the store of its body, it is a
rearrangement of the warnings due about the bodies in the store: each is there once for
each body it is about, and there is nothing else. -/
theorem warnings_raised_once (env : Externals) (redactions : Redactions)
    {actions : List (Action H)} {s : Recorder H}
    (hrun : run (step env) (init redactions) actions = some s) :
    s.warnings.Perm (s.exchanges.flatMap (s.raisedAt env)) ∧
    (s.atRest = true → s.warnings.Perm (s.recorded.flatMap (Exchange.warningsDue env))) := by
  have htallied := tallied_of_run hrun
  refine ⟨htallied.warnings, fun hrest => ?_⟩
  rw [← flatMap_raisedAt_of_atRest (covers_of_run hrun) htallied.registered hrest]
  exact htallied.warnings

/-- Two sides whose bodies were cut off, with their steps interleaved. -/
def cutOff : List (Action Nat) :=
  [.push 0 .post "/users" none, .push 1 .get "/users" none,
    .access 0 (.side .request (.finish (some "application/json") [] ⟨[0x31], true⟩)),
    .access 1 (.side .request (.finish (some "application/json") [] ⟨[0x31], true⟩)),
    .access 1 (.side .request .warn), .access 0 (.side .request .warn),
    .access 1 (.side .request .store), .configure .new, .access 0 (.side .request .store)]

/-- Both sides have raised their warnings, in the order in which they came. -/
theorem warnings_raised_once_example : ∃ s,
    run (step parseDigits) (init .new) cutOff = some s ∧ s.atRest = true ∧
    s.warnings.length = 2 ∧
    s.warnings.Perm (s.recorded.flatMap (Exchange.warningsDue parseDigits)) := by
  have hchecked : (run (step parseDigits) (init .new) cutOff).any
      (fun s => s.atRest && s.warnings.length == 2) = true := by decide +kernel
  obtain ⟨s, hs, hchecked⟩ := (Option.any_eq_true ..).mp hchecked
  obtain ⟨hrest, hlength⟩ := Bool.and_eq_true_iff.mp hchecked
  exact ⟨s, hs, hrest, beq_iff_eq.mp hlength, (warnings_raised_once parseDigits .new hs).2 hrest⟩

end Recorder

end Cyanotype
