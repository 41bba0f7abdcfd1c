import Cyanotype.Recorder.Store

/-!
# Warnings come before bodies

A side raises all warnings about a body before it stores the body, and the list of
warnings only grows. So whatever body a snapshot shows, its warnings are already in
the list, in whatever order the steps of the exchanges and the snapshots interleave.
-/

namespace Cyanotype

variable {env : Externals} {config : Redactions}

/-! ## One side -/

/-- What is known of a side's warnings in a phase: none were due before a body is decided,
then those already raised and those still to be raised are all there are, and when the
body is stored all of them are in the list. -/
def SideRaised (env : Externals) (side : Side) (method : Method) (route : String)
    (warnings : List String) (stored : BodyCapture) : Phase → Prop
  | .streaming => stored = .empty
  | .recording _ body remaining => stored = .empty ∧ ∃ raised,
      sideWarnings env side method route body = raised ++ remaining ∧ raised.Sublist warnings
  | .recorded => (sideWarnings env side method route stored).Sublist warnings

section

variable {side : Side} {method : Method} {route : String} {warnings : List String}
  {stored : BodyCapture} {phase : Phase}

/-- More warnings do no harm. -/
theorem SideRaised.mono (h : SideRaised env side method route warnings stored phase)
    (more : List String) : SideRaised env side method route (warnings ++ more) stored phase := by
  cases phase with
  | streaming => exact h
  | recording headers body remaining =>
    obtain ⟨hempty, raised, hraised, hsublist⟩ := h
    exact ⟨hempty, raised, hraised, hsublist.trans (List.sublist_append_left ..)⟩
  | recorded =>
    have hstored : (sideWarnings env side method route stored).Sublist warnings := h
    exact hstored.trans (List.sublist_append_left ..)

/-- In every phase, the warnings about the stored body are in the list. -/
theorem SideRaised.sublist (h : SideRaised env side method route warnings stored phase) :
    (sideWarnings env side method route stored).Sublist warnings := by
  cases phase with
  | streaming =>
    obtain rfl : stored = .empty := h
    exact List.nil_sublist warnings
  | recording headers body remaining =>
    obtain ⟨rfl, -⟩ := h
    exact List.nil_sublist warnings
  | recorded => exact h

end

/-- The warnings that a side pushes with an access. -/
def Phase.raises (phase : Phase) : SideAccess → List String
  | .warn =>
    match phase with
    | recording _ _ (warning :: _) => [warning]
    | _ => []
  | _ => []

/-- An access of the side's tee raises before it stores. -/
theorem SideRaised.step {side : Side} {method : Method} {route : String}
    {warnings : List String} {message : MessageCapture} {phase : Phase} {a : SideAccess}
    {r : MessageCapture × Phase}
    (h : SideRaised env side method route warnings message.body phase)
    (hstep : stepSide env config side method route message phase a = some r) :
    SideRaised env side method route (warnings ++ phase.raises a) r.1.body r.2 := by
  cases a with
  | finish contentType headers captured =>
    obtain ⟨rfl, rfl⟩ := stepSide_finish_iff.mp hstep
    exact ⟨h, [], rfl, List.nil_sublist _⟩
  | warn =>
    obtain ⟨headers, body, warning, remaining, rfl, rfl⟩ := stepSide_warn_iff.mp hstep
    obtain ⟨hempty, raised, hraised, hsublist⟩ := h
    refine ⟨hempty, raised ++ [warning], ?_, hsublist.append (List.Sublist.refl _)⟩
    rw [hraised, List.append_assoc]
    rfl
  | store =>
    obtain ⟨headers, body, rfl, rfl⟩ := stepSide_store_iff.mp hstep
    obtain ⟨-, raised, hraised, hsublist⟩ := h
    rw [List.append_nil] at hraised
    exact (hraised ▸ hsublist).trans (List.sublist_append_left ..)

/-! ## One exchange -/

/-- The warnings about the stored bodies of an exchange are in the list. -/
def Exchange.Covered (env : Externals) (warnings : List String) (exchange : Exchange) : Prop :=
  ∀ side, (sideWarnings env side exchange.method exchange.routeTemplate
    (exchange.message side).body).Sublist warnings

theorem Exchange.Covered.mono {warnings : List String} {exchange : Exchange}
    (h : exchange.Covered env warnings) (more : List String) :
    exchange.Covered env (warnings ++ more) :=
  fun side => (h side).trans (List.sublist_append_left ..)

namespace SharedExchange

/-- Both sides raise before they store. -/
def Raised (env : Externals) (warnings : List String) (shared : SharedExchange) : Prop :=
  ∀ side, SideRaised env side shared.exchange.method shared.exchange.routeTemplate warnings
    (shared.exchange.message side).body (shared.phase side)

variable {warnings : List String} {shared shared' : SharedExchange}

/-- An exchange whose sides raise before they store is covered. -/
theorem Raised.covered (h : shared.Raised env warnings) :
    shared.exchange.Covered env warnings := fun side => (h side).sublist

theorem Raised.mono (h : shared.Raised env warnings) (more : List String) :
    shared.Raised env (warnings ++ more) := fun side => (h side).mono more

theorem raised_new (method : Method) (routeTemplate : String) (security : Option SecurityScheme)
    (warnings : List String) :
    (new method routeTemplate security).Raised env warnings := by
  intro side
  cases side <;> rfl

/-- An access of a side raises what its phase has next. -/
theorem raises_side (shared : SharedExchange) (side : Side) (a : SideAccess) :
    shared.raises (.side side a) = (shared.phase side).raises a := by
  cases a <;> rfl

/-- An access keeps both sides raising before they store. -/
theorem Raised.access (h : shared.Raised env warnings) {a : Access}
    (hstep : shared.access env config a = some shared') :
    shared'.Raised env (warnings ++ shared.raises a) := by
  cases a with
  | side side x =>
    obtain ⟨-, r, hr, rfl⟩ := access_side_eq_some_iff.mp hstep
    have hstepped := (h side).step hr
    rw [← raises_side] at hstepped
    intro side'
    have hother := (h side').mono (shared.raises (.side side x))
    cases side <;> cases side'
    · exact hstepped
    · exact hother
    · exact hother
    · exact hstepped
  | setStatus status =>
    obtain ⟨-, rfl⟩ := access_setStatus_eq_some_iff.mp hstep
    intro side
    have hside := (h side).mono (shared.raises (.setStatus status))
    cases side <;> exact hside
  | declareResponse T bytes =>
    obtain ⟨-, rfl⟩ := access_declareResponse_eq_some_iff.mp hstep
    intro side
    have hside := (h side).mono (shared.raises (.declareResponse T bytes))
    split_ifs
    · cases side <;> exact hside
    · exact hside

end SharedExchange

/-! ## The store -/

namespace Recorder

variable {H : Type*} {s s' : Recorder H}

/-- The list of warnings covers the exchanges, and the clones that snapshots made of them. -/
structure Covers (env : Externals) (s : Recorder H) : Prop where
  heap : ∀ h shared, s.heap h = some shared → shared.Raised env s.warnings
  underway : ∀ snapshot, s.snapshot = some snapshot →
    ∀ p ∈ snapshot.taken, p.2.Covered env s.warnings
  collected : ∀ result ∈ s.collected, ∀ exchange ∈ result, exchange.Covered env s.warnings

theorem covers_init (redactions : Redactions) : Covers env (init redactions : Recorder H) := by
  refine ⟨fun h shared hs => ?_, fun snapshot hs => ?_, fun result hr => ?_⟩
  · cases hs
  · cases hs
  · exact absurd hr List.not_mem_nil

/-- What an exchange is now is covered. -/
theorem Covers.exchangeAt (h : s.Covers env) {i : H} {exchange : Exchange}
    (hi : s.exchangeAt i = some exchange) : exchange.Covered env s.warnings := by
  obtain ⟨shared, hshared, rfl⟩ := Option.map_eq_some_iff.mp hi
  exact (h.heap i shared hshared).covered

variable [DecidableEq H]

/-- A new value behind a handle, with the warnings it needs, keeps the rest covered. -/
theorem Covers.put (h : s.Covers env) {i : H} {shared : SharedExchange} (more : List String)
    (hraised : shared.Raised env (s.warnings ++ more)) :
    Covers env { s.put i shared with warnings := s.warnings ++ more } := by
  refine ⟨?_, ?_, ?_⟩
  · intro j shared' hj
    by_cases hji : j = i
    · subst hji
      obtain rfl : shared = shared' := by simpa [Recorder.put] using hj
      exact hraised
    · exact (h.heap j shared' (by simpa [Recorder.put, hji] using hj)).mono more
  · exact fun snapshot hs p hp => (h.underway snapshot hs p hp).mono more
  · exact fun result hr exchange he => (h.collected result hr exchange he).mono more

/-- Every step keeps everything covered. -/
theorem Covers.step (h : s.Covers env) {a : Action H} (hstep : s.step env a = some s') :
    s'.Covers env := by
  cases a with
  | configure redactions =>
    obtain rfl := Option.some.inj hstep
    exact ⟨h.heap, h.underway, h.collected⟩
  | push i method route security =>
    obtain ⟨-, -, rfl⟩ := step_push_iff.mp hstep
    have hput := h.put (i := i) [] (SharedExchange.raised_new method route security _)
    rw [List.append_nil] at hput
    exact ⟨hput.heap, hput.underway, hput.collected⟩
  | access i a =>
    obtain ⟨shared, shared', hshared, haccess, rfl⟩ := step_access_iff.mp hstep
    exact h.put _ ((h.heap i shared hshared).access haccess)
  | beginSnapshot =>
    obtain ⟨-, rfl⟩ := step_beginSnapshot_iff.mp hstep
    refine ⟨h.heap, ?_, h.collected⟩
    rintro snapshot ⟨⟩ p hp
    exact absurd hp List.not_mem_nil
  | readExchange =>
    obtain ⟨taken, i, rest, exchange, hs, hi, rfl⟩ := step_readExchange_iff.mp hstep
    refine ⟨h.heap, ?_, h.collected⟩
    rintro snapshot ⟨⟩ p hp
    rcases List.mem_append.mp hp with hp | hp
    · exact h.underway _ hs p hp
    · obtain rfl := List.mem_singleton.mp hp
      exact h.exchangeAt hi
  | endSnapshot =>
    obtain ⟨taken, hs, rfl⟩ := step_endSnapshot_iff.mp hstep
    refine ⟨h.heap, nofun, ?_⟩
    intro result hresult exchange hexchange
    rcases List.mem_append.mp hresult with hresult | hresult
    · exact h.collected result hresult exchange hexchange
    · obtain rfl := List.mem_singleton.mp hresult
      obtain ⟨p, hp, rfl⟩ := List.mem_map.mp hexchange
      exact h.underway _ hs p hp

/-- In every state reached, warnings cover exchanges and snapshots. -/
theorem covers_of_run {redactions : Redactions} {actions : List (Action H)}
    (hrun : run (step env) (init redactions) actions = some s) : s.Covers env :=
  run_invariant (P := fun _ => Covers env) (covers_init redactions)
    (fun _ _ _ _ _ ih hstep => ih.step hstep) hrun

end Recorder

end Cyanotype
