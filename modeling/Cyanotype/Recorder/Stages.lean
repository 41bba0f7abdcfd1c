import Cyanotype.Recorder.Others

/-!
# Where calls are

Between its locked accesses, a thread is at some stage of its call. The stages say what the
recorder of whole accesses holds then, so that the mutexes, the stages and the rights that
nobody has used yet tell when it shows what the threads have done.
-/

namespace Cyanotype

open Mutex (System)

variable {T H : Type} {env : Externals}

/-! ## Where a call is -/

open SharedExchange (Untouched SideAt AnswerAt)

/-- The state of the mutexes and the threads. -/
abbrev Process (T H : Type) := System T (LockName.Guarded (H := H)) (Outcome H)

/-- Where a thread is in a call, between locked accesses: what it has left to do, and what
the recorder holds then. -/
inductive CallStage (env : Externals) (c : Process T H) (r : Recorder H) (t : T) :
    Call H → Code H → Prop
  | pushing {h method route security} (hnone : r.heap h = none)
      (hcell : c.value (.exchange h) = some (.new method route security)) :
    CallStage env c r t (.push h method route security) (.push h)
  | appending {h method route security} (hnone : r.heap h = none)
      (hcell : c.value (.exchange h) = some (.new method route security))
      (hlocked : c.holder .exchanges = some t) :
    CallStage env c r t (.push h method route security)
      (.use .exchanges (fun handles : List H => handles ++ [h]) fun _ =>
        .unlock .exchanges (.ret (.pushed h)))
  | appended {h method route security} (hat : r.At h Untouched)
      (hlocked : c.holder .exchanges = some t) :
    CallStage env c r t (.push h method route security) (.unlock .exchanges (.ret (.pushed h)))
  | pushed {h method route security} (hat : r.At h Untouched) :
    CallStage env c r t (.push h method route security) (.ret (.pushed h))
  | redacting {h side method route contentType headers captured value}
      (hjson : BodyCapture.fromCaptured env.fromSlice contentType captured = .json value)
      (hat : r.At h (SideAt side method route .streaming)) :
    CallStage env c r t (.recordSide h side method route contentType headers captured)
      (.lock .config (.use .config id fun config => .unlock .config
        (Code.finishSide env h side method route headers (.json (redactWith config value)))))
  | deciding {h side method route contentType headers captured body}
      (hbody : ∀ config, sideBody env config contentType captured = body)
      (hat : r.At h (SideAt side method route .streaming)) :
    CallStage env c r t (.recordSide h side method route contentType headers captured)
      (.finishSide env h side method route headers body)
  | raising {h side method route contentType headers captured body messages}
      (hat : r.At h (SideAt side method route (.recording headers body messages))) :
    CallStage env c r t (.recordSide h side method route contentType headers captured)
      (.warnAll messages (.storeSide h side headers body))
  | recorded {h side method route contentType headers captured} :
    CallStage env c r t (.recordSide h side method route contentType headers captured)
      (.ret (.recorded h side))
  | answering {h status} (hat : r.At h (AnswerAt false)) :
    CallStage env c r t (.setStatus h status) (.setStatus h status)
  | answered {h status} (hat : r.At h (AnswerAt true)) :
    CallStage env c r t (.setStatus h status) (.ret (.answered h))
  | declaring {h T bytes}
      (hat : r.At h fun shared => shared.exchange.response.status ≠ none) :
    CallStage env c r t (.declareResponse h T bytes) (.declareResponse h T bytes)
  | declared {h T bytes failure} :
    CallStage env c r t (.declareResponse h T bytes) (.ret (.declared h failure))
  | configuring {redactions} :
    CallStage env c r t (.configure redactions) (.configure redactions)
  | configured {redactions} : CallStage env c r t (.configure redactions) (.ret .configured)
  | listing : CallStage env c r t .snapshot .snapshot
  | listed (hlocked : c.holder .exchanges = some t) (hnone : r.snapshot = none) :
    CallStage env c r t .snapshot (.use .exchanges id fun handles => Code.cloneAll handles [])
  | cloning {taken rest} (hlocked : c.holder .exchanges = some t)
      (hsnapshot : r.snapshot = some ⟨taken, rest⟩) (hstored : ∀ h ∈ rest, r.heap h ≠ none) :
    CallStage env c r t .snapshot (.cloneAll rest (taken.map Prod.snd))
  | cloned {result} (hmem : result ∈ r.collected) :
    CallStage env c r t .snapshot (.ret (.snapshot result))
  | reading : CallStage env c r t .warningsSnapshot .warningsSnapshot
  | read {all} (hread : all <+: r.warnings) :
    CallStage env c r t .warningsSnapshot (.ret (.warnings all))

section

variable [DecidableEq H] {c c' : Process T H} {r r' : Recorder H} {t : T} {cl : Call H}
  {code : Code H}

/-- A thread stays where it is in its call when another one moves. -/
theorem CallStage.frame (h : CallStage env c r t cl code)
    (hother : Recorder.Elsewhere env cl.duties r r')
    (hlocked : c.holder .exchanges = some t →
      c'.holder .exchanges = some t ∧ r'.snapshot = r.snapshot)
    (hcell : ∀ h, (h, Duty.answer) ∈ cl.duties → r.heap h = none →
      c'.value (.exchange h) = c.value (.exchange h)) :
    CallStage env c' r' t cl code := by
  cases h with
  | @pushing h method route security hnone hvalue =>
    have hduty : (h, Duty.answer) ∈ (Call.push h method route security).duties := by
      simp [Call.duties]
    exact .pushing (hother.heap_eq_none hduty hnone) ((hcell _ hduty hnone).trans hvalue)
  | @appending h method route security hnone hvalue hmine =>
    have hduty : (h, Duty.answer) ∈ (Call.push h method route security).duties := by
      simp [Call.duties]
    exact .appending (hother.heap_eq_none hduty hnone) ((hcell _ hduty hnone).trans hvalue)
      (hlocked hmine).1
  | appended hat hmine =>
    refine .appended (hother.untouched hat (fun side => ?_) ?_) (hlocked hmine).1
    · cases side <;> simp [Call.duties]
    · simp [Call.duties]
  | pushed hat =>
    refine .pushed (hother.untouched hat (fun side => ?_) ?_)
    · cases side <;> simp [Call.duties]
    · simp [Call.duties]
  | redacting hjson hat => exact .redacting hjson (hother.sideAt hat (by simp [Call.duties]))
  | deciding hbody hat => exact .deciding hbody (hother.sideAt hat (by simp [Call.duties]))
  | raising hat => exact .raising (hother.sideAt hat (by simp [Call.duties]))
  | recorded => exact .recorded
  | answering hat =>
    exact .answering (hother.answerAt hat (by simp [Call.duties]) (by simp [Call.duties]))
  | answered hat =>
    exact .answered (hother.answerAt hat (by simp [Call.duties]) (by simp [Call.duties]))
  | declaring hat => exact .declaring (hother.statusAt hat)
  | declared => exact .declared
  | configuring => exact .configuring
  | configured => exact .configured
  | listing => exact .listing
  | listed hmine hnone =>
    obtain ⟨hmine', hsnapshot⟩ := hlocked hmine
    exact .listed hmine' (hsnapshot.trans hnone)
  | cloning hmine hcloning hstored =>
    obtain ⟨hmine', hsnapshot⟩ := hlocked hmine
    exact .cloning hmine' (hsnapshot.trans hcloning) fun i hi => hother.heap_ne_none (hstored i hi)
  | cloned hmem => exact .cloned (hother.results.1 _ hmem)
  | reading => exact .reading
  | read hread => exact .read (hread.trans hother.results.2)

/-! ## What the recorder holds -/

/-- What the rights to an exchange say about it. -/
structure Rights.Fits (q : Rights) (shared : SharedExchange) : Prop where
  method : shared.exchange.method = q.method
  route : shared.exchange.routeTemplate = q.route
  callback : ∀ side, q.callback side = true → shared.phase side = .streaming
  response : q.callback .response = true ∨ q.receipt = true →
    shared.exchange.response.status ≠ none
  answer : q.answer = true → AnswerAt false shared

/-- The mutexes own what the recorder holds. -/
structure Values (c : Process T H) (r : Recorder H) : Prop where
  config : c.value .config = r.config
  warnings : c.value .warnings = r.warnings
  exchanges : c.value .exchanges = r.exchanges
  cell : ∀ h shared, r.heap h = some shared → c.value (.exchange h) = some shared.exchange

/-- The recorder shows what the threads have done. -/
structure Shows (env : Externals) (call : T → Option (Call H)) (rights : H → Option Rights)
    (c : Process T H) (r : Recorder H) : Prop where
  values : Values c r
  absent : ∀ h, rights h = none → r.heap h = none
  unpushed : ∀ h q, rights h = some q → r.heap h = none →
    q.receipt = false ∧ ∀ duty, q.allows duty = false
  fits : ∀ h q shared, rights h = some q → r.heap h = some shared → q.Fits shared
  snapshot : r.snapshot ≠ none → ∃ t, c.holder .exchanges = some t ∧ call t = some .snapshot
  idle : ∀ t, call t = none → c.code t = none
  stage : ∀ t cl, call t = some cl → ∃ code, c.code t = some code ∧ CallStage env c r t cl code

/-- The recorder can go on so that it shows the threads again. -/
def Follows (env : Externals) (call : T → Option (Call H)) (rights : H → Option Rights)
    (r : Recorder H) (c' : Process T H) : Prop :=
  ∃ actions r', run (Recorder.step env) r actions = some r' ∧ Shows env call rights c' r'

/-- The recorder follows with one step. -/
theorem Follows.step {call : T → Option (Call H)} {rights : H → Option Rights} {a : Action H}
    (hstep : r.step env a = some r') (h : Shows env call rights c' r') :
    Follows env call rights r c' :=
  ⟨[a], r', (run_singleton a).trans hstep, h⟩

/-- Before that, it does another step. -/
theorem Follows.after {call : T → Option (Call H)} {rights : H → Option Rights} {a : Action H}
    (h : Follows env call rights r' c') (hstep : r.step env a = some r') :
    Follows env call rights r c' := by
  obtain ⟨actions, s, hrun, hshows⟩ := h
  exact ⟨a :: actions, s, by rwa [run_cons, hstep], hshows⟩

/-- At most one step of the recorder, for a call. -/
def Recorder.Does (env : Externals) (cl : Call H) (r r' : Recorder H) : Prop :=
  r' = r ∨ ∃ a, r.step env a = some r' ∧ (∀ k, a.duty = some k → k ∈ cl.duties) ∧
    ∀ h method route security, a = .push h method route security →
      cl = .push h method route security

variable {call : T → Option (Call H)} {rights : H → Option Rights}

omit [DecidableEq H] in
/-- An access that does nothing that the rights allow leaves them fitting. -/
theorem Rights.Fits.access {q : Rights} {config : Redactions} {shared shared' : SharedExchange}
    {i : H} {a : Access} (h : q.Fits shared) (hstep : shared.access env config a = some shared')
    (hduty : ∀ k, (Action.access i a).duty = some k → q.allows k.2 = false) :
    q.Fits shared' := by
  obtain ⟨hmethod, hroute⟩ := SharedExchange.access_origin hstep
  have hphase : ∀ side, (q.callback side = true ∨ side = .response ∧ q.answer = true) →
      shared'.phase side = shared.phase side := by
    intro side hallowed
    refine SharedExchange.access_phase hstep ?_
    rintro x rfl
    have hnot := hduty _ rfl
    cases side <;> simp_all [Rights.allows]
  refine ⟨hmethod.trans h.method, hroute.trans h.route, fun side hside => ?_, fun hstatus => ?_,
    fun hanswer => ⟨?_, ?_⟩⟩
  · rw [hphase side (.inl hside)]
    exact h.callback side hside
  · exact SharedExchange.access_status_ne_none hstep (h.response hstatus)
  · have hnone : shared.exchange.response.status = none := by
      simpa using (h.answer hanswer).status
    rw [SharedExchange.access_status_eq_none hstep ?_ hnone]
    · rfl
    · rintro status rfl
      have hnot : q.answer = false := hduty _ rfl
      rw [hanswer] at hnot
      cases hnot
  · rw [hphase .response (.inr ⟨rfl, hanswer⟩)]
    exact (h.answer hanswer).phase

/-- What the recorder does for a call keeps the rights fitting. -/
theorem Shows.fits_step (h : Shows env call rights c r) (hx : Exclusive call rights)
    (hcall : call t = some cl) (hdoes : Recorder.Does env cl r r') {i : H} {q : Rights}
    {shared : SharedExchange} (hq : rights i = some q) (hshared : r'.heap i = some shared) :
    q.Fits shared := by
  obtain rfl | ⟨a, hstep, hduty, hpush⟩ := hdoes
  · exact h.fits i q shared hq hshared
  · obtain ⟨-, -, hheap⟩ | ⟨method, route, security, rfl, hfresh, hheap⟩ |
      ⟨access, shared₀, shared', rfl, hshared₀, haccess, hheap⟩ := Recorder.step_heap_cases hstep i
    · exact h.fits i q shared hq (hheap ▸ hshared)
    · obtain rfl := Option.some.inj (hheap.symm.trans hshared)
      obtain ⟨hreceipt, hallows⟩ := h.unpushed i q hq hfresh
      obtain ⟨q', hq', hmethod, hroute⟩ :=
        hx.pushed t i method route security (hcall.trans (congrArg some (hpush _ _ _ _ rfl)))
      obtain rfl := Option.some.inj (hq.symm.trans hq')
      have hrequest : q.callback .request = false := hallows (.tee .request)
      have hresponse : q.callback .response = false ∧ q.answer = false := by
        simpa [Rights.allows] using hallows (.tee .response)
      refine ⟨hmethod.symm, hroute.symm, fun side hside => ?_, ?_, ?_⟩
      · cases side <;> rfl
      · simp [hresponse, hreceipt]
      · simp [hresponse]
    · obtain rfl := Option.some.inj (hheap.symm.trans hshared)
      refine (h.fits i q _ hq hshared₀).access (i := i) haccess fun k hk => ?_
      by_contra hallows
      have hki : k.1 = i := by
        cases access with
        | side side x => exact (Option.some.inj hk) ▸ rfl
        | setStatus status => exact (Option.some.inj hk) ▸ rfl
        | declareResponse T bytes => cases hk
      exact hx.taken t cl k hcall (hduty k hk) ⟨q, hki ▸ hq, by simpa using hallows⟩

/-- A thread moves in its call, and the recorder does what it has to for it. -/
theorem Shows.after [DecidableEq T] (h : Shows env call rights c r)
    (hx : Exclusive call rights) (hcall : call t = some cl) (hdoes : Recorder.Does env cl r r')
    (hcode : c'.code = Function.update c.code t (some code)) (hvalues : Values c' r')
    (hcell : ∀ h, r.heap h = none → c'.value (.exchange h) = c.value (.exchange h))
    (hlocked : ∀ u, u ≠ t → c.holder .exchanges = some u →
      c'.holder .exchanges = some u ∧ r'.snapshot = r.snapshot)
    (hsnapshot : r'.snapshot ≠ none →
      ∃ u, c'.holder .exchanges = some u ∧ call u = some .snapshot)
    (hstage : CallStage env c' r' t cl code) : Shows env call rights c' r' := by
  have hheap : ∀ i, r'.heap i = none → r.heap i = none := by
    intro i hnone
    obtain rfl | ⟨a, hstep, -, -⟩ := hdoes
    · exact hnone
    · obtain ⟨-, -, hheap⟩ | ⟨_, _, _, -, -, hheap⟩ | ⟨_, _, _, -, -, -, hheap⟩ :=
        Recorder.step_heap_cases hstep i
      · exact hheap ▸ hnone
      · cases hheap.symm.trans hnone
      · cases hheap.symm.trans hnone
  refine ⟨hvalues, ?absent, ?unpushed, ?fits, hsnapshot, ?idle, ?stage⟩
  case absent =>
    intro i hi
    have hnone := h.absent i hi
    obtain rfl | ⟨a, hstep, hduty, -⟩ := hdoes
    · exact hnone
    · obtain ⟨-, -, hheap⟩ | ⟨_, _, _, rfl, -, -⟩ | ⟨_, _, _, -, hshared, -, -⟩ :=
        Recorder.step_heap_cases hstep i
      · exact hheap.trans hnone
      · exact absurd hi (hx.known t cl _ hcall (hduty _ rfl))
      · cases hshared.symm.trans hnone
  case unpushed => exact fun i q hq hnone => h.unpushed i q hq (hheap i hnone)
  case fits => exact fun i q shared hq hshared => h.fits_step hx hcall hdoes hq hshared
  case idle =>
    intro u hu
    have hut : u ≠ t := by
      rintro rfl
      cases hcall.symm.trans hu
    rw [hcode, Function.update_of_ne hut]
    exact h.idle u hu
  case stage =>
    intro u d hu
    by_cases hut : u = t
    · subst hut
      obtain rfl := Option.some.inj (hcall.symm.trans hu)
      exact ⟨code, by rw [hcode, Function.update_self], hstage⟩
    · obtain ⟨code', hcode', hstage'⟩ := h.stage u d hu
      refine ⟨code', by rw [hcode, Function.update_of_ne hut, hcode'], ?_⟩
      refine hstage'.frame ?_ (hlocked u hut) fun i _ => hcell i
      obtain rfl | ⟨a, hstep, hduty, -⟩ := hdoes
      · exact .inl rfl
      · exact .inr ⟨a, hstep, fun k hk hku => hut (hx.once u t d cl k hu hcall hku (hduty k hk))⟩

end

end Cyanotype
