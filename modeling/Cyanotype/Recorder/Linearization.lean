import Cyanotype.Recorder.Sections

/-!
# Locked accesses are steps

The recorder's steps take a whole locked access at once, and the functions of the store
take several to do their work. Here the threads, which lock, write and unlock one after the
other, are shown to do what some run of the recorder does: what is behind a free mutex is
what the recorder holds, and every result that a call returns is one that the recorder has
returned. So no snapshot shows an exchange of which the headers are stored and the body
is not.
-/

namespace Cyanotype

open Mutex (System)
open Mutex.System (Commits)
open SharedExchange (Untouched SideAt AnswerAt)

variable {T H : Type} {env : Externals}

section

variable [DecidableEq T] [DecidableEq H] {c c' : Process T H} {r : Recorder H} {t : T} {cl : Call H}
  {code : Code H} {call : T → Option (Call H)} {rights : H → Option Rights} {i : H}

/-! ## Calls begin and return -/

omit [DecidableEq H] [DecidableEq T] in
/-- A thread that waits for the mutex of an exchange waits for one that is in the store. -/
theorem CallStage.heap_ne_none_of_lock {next : Code H} (h : CallStage env c r t cl code)
    (hlock : code = .lock (.exchange i) next) : r.heap i ≠ none := by
  have hat : ∀ {P : SharedExchange → Prop}, r.At i P → r.heap i ≠ none := by
    rintro P ⟨shared, hshared, -⟩
    exact hshared ▸ Option.some_ne_none shared
  have hwarn : ∀ {side headers body messages} {j : H},
      Code.warnAll messages (Code.storeSide j side headers body) = .lock (.exchange i) next →
        j = i := by
    intro side headers body messages j hcode
    cases messages with
    | nil =>
      cases hcode
      rfl
    | cons message messages => cases hcode
  cases h with
  | raising hknown =>
    obtain rfl := hwarn hlock
    exact hat hknown
  | deciding hbody hknown =>
    obtain rfl := hwarn hlock
    exact hat hknown
  | answering hknown =>
    cases hlock
    exact hat hknown
  | declaring hknown =>
    cases hlock
    exact hat hknown
  | @cloning taken rest hmine hsnapshot hstored =>
    cases rest with
    | nil => cases hlock
    | cons j rest =>
      cases hlock
      exact hstored i (List.mem_cons_self ..)
  | _ => cases hlock

omit [DecidableEq H] [DecidableEq T] in
/-- The mutex of an exchange that is not in the store is free. -/
theorem Shows.free_of_absent {s : Process T H} (h : Shows env call rights c r)
    (hcommits : Commits LockName.rank s c) (hnone : r.heap i = none) :
    s.holder (.exchange i) = none := by
  by_contra hne
  obtain ⟨u, hu⟩ := Option.ne_none_iff_exists'.mp hne
  obtain ⟨start, now, hstart, -, -⟩ := hcommits.inside (.exchange i) u rfl hu
  obtain ⟨cl, hcl⟩ : ∃ cl, call u = some cl := by
    refine Option.ne_none_iff_exists'.mp fun hidle => ?_
    cases (h.idle u hidle).symm.trans hstart
  obtain ⟨code, hcode, hstage⟩ := h.stage u cl hcl
  exact hstage.heap_ne_none_of_lock (Option.some.inj (hcode.symm.trans hstart)) hnone

/-- Rights that were used no longer say anything. -/
structure Rights.Less (q q' : Rights) : Prop where
  method : q.method = q'.method
  route : q.route = q'.route
  callback : ∀ side, q.callback side = true → q'.callback side = true
  answer : q.answer = true → q'.answer = true
  receipt : q.receipt = q'.receipt

theorem Rights.Less.refl (q : Rights) : q.Less q := ⟨rfl, rfl, fun _ => id, id, rfl⟩

/-- What fewer rights allow is allowed by more. -/
theorem Rights.Less.allows {q q' : Rights} (h : q.Less q') {duty : Duty}
    (hallows : q.allows duty = true) : q'.allows duty = true := by
  have hresponse := h.callback .response
  have hanswer := h.answer
  cases duty with
  | tee side =>
    cases side
    · exact h.callback .request hallows
    · simp only [Rights.allows, Bool.or_eq_true] at hallows ⊢
      exact hallows.imp hresponse hanswer
  | answer => exact hanswer hallows

/-- What fits more rights fits fewer. -/
theorem Rights.Less.fits {q q' : Rights} (h : q.Less q') {shared : SharedExchange}
    (hfits : q'.Fits shared) : q.Fits shared where
  method := hfits.method.trans h.method.symm
  route := hfits.route.trans h.route.symm
  callback := fun side hside => hfits.callback side (h.callback side hside)
  response := fun hresponse =>
    hfits.response (hresponse.imp (h.callback .response) fun hreceipt => h.receipt ▸ hreceipt)
  answer := fun hanswer => hfits.answer (h.answer hanswer)

/-- A call that begins uses up rights, or adds an exchange. -/
theorem claim_cases {rights' : H → Option Rights} (hclaim : cl.claim rights = some rights') :
    (∃ h method route, rights h = none ∧
      rights' = Function.update rights h (some { method := method, route := route })) ∨
    ∀ i, (rights' i = none → rights i = none) ∧
      ∀ q, rights' i = some q → ∃ q', rights i = some q' ∧ q.Less q' := by
  have hsame : ∀ i, (rights i = none → rights i = none) ∧
      ∀ q, rights i = some q → ∃ q', rights i = some q' ∧ q.Less q' :=
    fun i => ⟨id, fun q hq => ⟨q, hq, .refl q⟩⟩
  have hupdate : ∀ {h q q'}, rights h = some q' → q.Less q' → ∀ i,
      (Function.update rights h (some q) i = none → rights i = none) ∧
        ∀ p, Function.update rights h (some q) i = some p →
          ∃ p', rights i = some p' ∧ p.Less p' := by
    intro h q q' hq hless i
    by_cases hi : i = h
    · subst hi
      refine ⟨by simp, fun p hp => ⟨q', hq, ?_⟩⟩
      obtain rfl : q = p := by simpa using hp
      exact hless
    · simpa [hi] using hsame i
  cases cl with
  | push h method route security =>
    rw [Call.claim, Option.ite_none_right_eq_some, Option.some.injEq] at hclaim
    obtain ⟨hnone, rfl⟩ := hclaim
    exact .inl ⟨h, method, route, Option.isNone_iff_eq_none.mp hnone, rfl⟩
  | recordSide h side method route contentType headers captured =>
    rw [Call.claim, Option.bind_eq_some_iff] at hclaim
    obtain ⟨q, hq, hclaim⟩ := hclaim
    rw [Option.ite_none_right_eq_some, Option.some.injEq] at hclaim
    obtain ⟨-, rfl⟩ := hclaim
    refine .inr (hupdate hq ⟨rfl, rfl, fun side' hside => ?_, id, rfl⟩)
    by_cases hsides : side' = side
    · subst hsides
      simp [Rights.spend] at hside
    · simpa [Rights.spend, hsides] using hside
  | setStatus h status =>
    rw [Call.claim, Option.bind_eq_some_iff] at hclaim
    obtain ⟨q, hq, hclaim⟩ := hclaim
    rw [Option.ite_none_right_eq_some, Option.some.injEq] at hclaim
    obtain ⟨-, rfl⟩ := hclaim
    refine .inr (hupdate hq ⟨rfl, rfl, fun _ => id, fun hnone => ?_, rfl⟩)
    cases hnone
  | declareResponse h T bytes =>
    rw [Call.claim, Option.bind_eq_some_iff] at hclaim
    obtain ⟨q, hq, hclaim⟩ := hclaim
    rw [Option.ite_none_right_eq_some, Option.some.injEq] at hclaim
    obtain ⟨-, rfl⟩ := hclaim
    exact .inr hsame
  | configure redactions =>
    obtain rfl := Option.some.inj hclaim
    exact .inr hsame
  | snapshot =>
    obtain rfl := Option.some.inj hclaim
    exact .inr hsame
  | warningsSnapshot =>
    obtain rfl := Option.some.inj hclaim
    exact .inr hsame

/-- An exchange that nobody has a right to after a claim had none before. -/
theorem claim_of_none {rights' : H → Option Rights} (hclaim : cl.claim rights = some rights')
    (hnone : rights' i = none) : rights i = none := by
  obtain ⟨j, method, route, -, rfl⟩ | hrights := claim_cases hclaim
  · by_cases hij : i = j
    · simp [hij] at hnone
    · simpa [hij] using hnone
  · exact (hrights i).1 hnone

/-- The rights to an exchange after a claim are those of a new one, or rights it had before. -/
theorem claim_of_some {rights' : H → Option Rights} (hclaim : cl.claim rights = some rights')
    {q : Rights} (hq : rights' i = some q) :
    (rights i = none ∧ ∃ method route, q = { method := method, route := route }) ∨
      ∃ q', rights i = some q' ∧ q.Less q' := by
  obtain ⟨j, method, route, hfresh, rfl⟩ | hrights := claim_cases hclaim
  · by_cases hij : i = j
    · subst hij
      exact .inl ⟨hfresh, method, route, by simpa [eq_comm] using hq⟩
    · exact .inr ⟨q, by simpa [hij] using hq, .refl q⟩
  · exact .inr ((hrights i).2 q hq)

omit [DecidableEq H] [DecidableEq T] in
/-- Rights that allow something, or a receipt, are rights to an exchange in the store. -/
theorem Shows.exists_shared (h : Shows env call rights c r) {q : Rights} (hq : rights i = some q)
    (hright : q.receipt = true ∨ ∃ duty, q.allows duty = true) :
    ∃ shared, r.heap i = some shared ∧ q.Fits shared := by
  obtain ⟨shared, hshared⟩ : ∃ shared, r.heap i = some shared := by
    refine Option.ne_none_iff_exists'.mp fun hnone => ?_
    obtain ⟨hreceipt, hallows⟩ := h.unpushed i q hq hnone
    simp [hreceipt, hallows] at hright
  exact ⟨shared, hshared, h.fits i q shared hq hshared⟩

omit [DecidableEq T] in
/-- Where a call begins. -/
theorem CallStage.of_claim (h : Shows env call rights c r) {rights' : H → Option Rights}
    (hclaim : cl.claim rights = some rights')
    (hcell : ∀ i method route security, cl = .push i method route security →
      c'.value (.exchange i) = some (.new method route security)) :
    CallStage env c' r t cl (cl.code env) := by
  cases cl with
  | push i method route security =>
    rw [Call.claim, Option.ite_none_right_eq_some] at hclaim
    have hnone := h.absent i (Option.isNone_iff_eq_none.mp hclaim.1)
    exact .pushing hnone (hcell i method route security rfl)
  | recordSide i side method route contentType headers captured =>
    rw [Call.claim, Option.bind_eq_some_iff] at hclaim
    obtain ⟨q, hq, hclaim⟩ := hclaim
    rw [Option.ite_none_right_eq_some] at hclaim
    obtain ⟨⟨rfl, rfl, hcallback⟩, -⟩ := hclaim
    have hallows : q.allows (.tee side) = true := by
      cases side <;> simp [Rights.allows, hcallback]
    obtain ⟨shared, hshared, hfits⟩ := h.exists_shared hq (.inr ⟨_, hallows⟩)
    have hat : r.At i (SideAt side q.method q.route .streaming) := by
      refine ⟨shared, hshared, hfits.method, hfits.route, hfits.callback side hcallback, ?_⟩
      rintro rfl
      exact hfits.response (.inl hcallback)
    rw [Call.code, Code.recordSide]
    split
    case h_1 value hjson => exact .redacting hjson hat
    case h_2 hbody =>
      refine .deciding (fun config => ?_) hat
      rw [sideBody]
      split
      case h_1 value hjson => exact absurd hjson (hbody value)
      case h_2 => rfl
  | setStatus i status =>
    rw [Call.claim, Option.bind_eq_some_iff] at hclaim
    obtain ⟨q, hq, hclaim⟩ := hclaim
    rw [Option.ite_none_right_eq_some] at hclaim
    obtain ⟨shared, hshared, hfits⟩ := h.exists_shared hq (.inr ⟨.answer, hclaim.1⟩)
    exact .answering ⟨shared, hshared, hfits.answer hclaim.1⟩
  | declareResponse i T' bytes =>
    rw [Call.claim, Option.bind_eq_some_iff] at hclaim
    obtain ⟨q, hq, hclaim⟩ := hclaim
    rw [Option.ite_none_right_eq_some] at hclaim
    obtain ⟨shared, hshared, hfits⟩ := h.exists_shared hq (.inl hclaim.1)
    exact .declaring ⟨shared, hshared, hfits.response (.inr hclaim.1)⟩
  | configure redactions => exact .configuring
  | snapshot => exact .listing
  | warningsSnapshot => exact .reading

/-- A call begins, and nothing has happened yet. -/
theorem Shows.begin (h : Shows env call rights c r) (hx : Exclusive call rights)
    {rights' : H → Option Rights} (hidle : call t = none)
    (hclaim : cl.claim rights = some rights')
    (hcode : c'.code = Function.update c.code t (some (cl.code env)))
    (hholder : c'.holder = c.holder)
    (hvalue : ∀ l, (∀ i method route security, cl = .push i method route security →
      l ≠ .exchange i) → c'.value l = c.value l)
    (hcell : ∀ i method route security, cl = .push i method route security →
      c'.value (.exchange i) = some (.new method route security)) :
    Shows env (Function.update call t (some cl)) rights' c' r := by
  have hnew : ∀ i method route security, cl = .push i method route security →
      rights i = none := by
    rintro i method route security rfl
    rw [Call.claim, Option.ite_none_right_eq_some] at hclaim
    exact Option.isNone_iff_eq_none.mp hclaim.1
  have hold : ∀ i, r.heap i ≠ none → c'.value (.exchange i) = c.value (.exchange i) := by
    intro i hi
    refine hvalue _ ?_
    rintro j method route security hcl hij
    cases hij
    exact hi (h.absent i (hnew i method route security hcl))
  refine ⟨?values, ?absent, ?unpushed, ?fits, ?snapshot, ?idle, ?stage⟩
  case values =>
    refine ⟨?_, ?_, ?_, fun i shared hshared => ?_⟩
    · rw [hvalue .config (by simp), h.values.config]
    · rw [hvalue .warnings (by simp), h.values.warnings]
    · rw [hvalue .exchanges (by simp), h.values.exchanges]
    · rw [hold i (hshared ▸ Option.some_ne_none shared)]
      exact h.values.cell i shared hshared
  case absent => exact fun i hi => h.absent i (claim_of_none hclaim hi)
  case unpushed =>
    intro i q hq hnone
    obtain ⟨-, method, route, rfl⟩ | ⟨q', hq', hless⟩ := claim_of_some hclaim hq
    · refine ⟨rfl, fun duty => ?_⟩
      rcases duty with (_ | _) | _ <;> rfl
    · obtain ⟨hreceipt, hallows⟩ := h.unpushed i q' hq' hnone
      refine ⟨hless.receipt.trans hreceipt, fun duty => ?_⟩
      by_contra hallowed
      have hmore := hless.allows (by simpa using hallowed)
      rw [hallows duty] at hmore
      cases hmore
  case fits =>
    intro i q shared hq hshared
    obtain ⟨hfresh, -⟩ | ⟨q', hq', hless⟩ := claim_of_some hclaim hq
    · cases (h.absent i hfresh).symm.trans hshared
    · exact hless.fits (h.fits i q' shared hq' hshared)
  case snapshot =>
    intro hne
    obtain ⟨u, hu, hsnapshot⟩ := h.snapshot hne
    refine ⟨u, by rw [hholder, hu], ?_⟩
    have hut : u ≠ t := by
      rintro rfl
      cases hidle.symm.trans hsnapshot
    rwa [Function.update_of_ne hut]
  case idle =>
    intro u hu
    have hut : u ≠ t := by
      rintro rfl
      simp at hu
    rw [hcode, Function.update_of_ne hut]
    exact h.idle u (by simpa [hut] using hu)
  case stage =>
    intro u d hu
    by_cases hut : u = t
    · subst hut
      obtain rfl : cl = d := by simpa using hu
      exact ⟨_, by rw [hcode, Function.update_self], .of_claim h hclaim hcell⟩
    · have hcall : call u = some d := by simpa [hut] using hu
      obtain ⟨code, hcode', hstage⟩ := h.stage u d hcall
      refine ⟨code, by rw [hcode, Function.update_of_ne hut, hcode'], ?_⟩
      refine hstage.frame (.inl rfl) (fun hu => ⟨by rw [hholder, hu], rfl⟩) fun i hduty _ => ?_
      refine hvalue _ ?_
      rintro j method route security hcl hij
      cases hij
      exact hx.known u d _ hcall hduty (hnew i method route security hcl)

/-- What is known when a call returns. -/
structure Returned (r : Recorder H) (cl : Call H) (outcome : Outcome H) : Prop where
  returns : cl.Returns outcome
  pushed : ∀ h, outcome = .pushed h → r.At h Untouched
  answered : ∀ h, outcome = .answered h → r.At h (AnswerAt true)
  snapshot : ∀ result, outcome = .snapshot result → result ∈ r.collected
  warnings : ∀ all, outcome = .warnings all → all <+: r.warnings

omit [DecidableEq H] [DecidableEq T] in
/-- What a call returns is what it has done. -/
theorem CallStage.returned {outcome : Outcome H}
    (h : CallStage env c r t cl (.ret outcome)) : Returned r cl outcome := by
  generalize hcode : Mutex.Code.ret outcome = code at h
  cases h with
  | pushed hat =>
    cases hcode
    refine ⟨⟨fun i hi => ?_, nofun⟩, fun i hi => ?_, nofun, nofun, nofun⟩
    · cases hi
      exact ⟨_, _, _, rfl⟩
    · cases hi
      exact hat
  | answered hat =>
    cases hcode
    refine ⟨⟨nofun, fun i hi => ?_⟩, nofun, fun i hi => ?_, nofun, nofun⟩
    · cases hi
      exact ⟨_, rfl⟩
    · cases hi
      exact hat
  | cloned hmem =>
    cases hcode
    refine ⟨⟨nofun, nofun⟩, nofun, nofun, fun result hresult => ?_, nofun⟩
    cases hresult
    exact hmem
  | read hread =>
    cases hcode
    refine ⟨⟨nofun, nofun⟩, nofun, nofun, nofun, fun all hall => ?_⟩
    cases hall
    exact hread
  | recorded =>
    cases hcode
    exact ⟨⟨nofun, nofun⟩, nofun, nofun, nofun, nofun⟩
  | declared =>
    cases hcode
    exact ⟨⟨nofun, nofun⟩, nofun, nofun, nofun, nofun⟩
  | configured =>
    cases hcode
    exact ⟨⟨nofun, nofun⟩, nofun, nofun, nofun, nofun⟩
  | @deciding i side method route contentType headers captured body =>
    cases hmessages : sideWarnings env side method route body <;>
      simp [Code.finishSide, hmessages, Code.warnAll, Code.storeSide] at hcode
  | @raising i side method route contentType headers captured body messages =>
    cases messages <;> cases hcode
  | @cloning taken rest => cases rest <;> cases hcode
  | _ => cases hcode

omit [DecidableEq T] in
/-- Rights that a call returns fit what it has done. -/
theorem Shows.fits_grant (h : Shows env call rights c r) {outcome : Outcome H}
    (hreturned : Returned r cl outcome) {q : Rights} (hq : outcome.grant rights i = some q) :
    rights i = some q ∨ ∃ shared, r.heap i = some shared ∧ q.Fits shared := by
  cases outcome with
  | pushed j =>
    by_cases hij : i = j
    · subst hij
      obtain ⟨shared, hshared, huntouched⟩ := hreturned.pushed i rfl
      rw [Outcome.grant, Function.update_self] at hq
      obtain ⟨q', hq', rfl⟩ := Option.map_eq_some_iff.mp hq
      have hfits := h.fits i q' shared hq' hshared
      exact .inr ⟨shared, hshared, hfits.method, hfits.route, fun side _ => huntouched.phase side,
        hfits.response, fun _ => ⟨by simp [huntouched.status], huntouched.phase _⟩⟩
    · exact .inl (by simpa [Outcome.grant, hij] using hq)
  | answered j =>
    by_cases hij : i = j
    · subst hij
      obtain ⟨shared, hshared, hknown⟩ := hreturned.answered i rfl
      rw [Outcome.grant, Function.update_self] at hq
      obtain ⟨q', hq', rfl⟩ := Option.map_eq_some_iff.mp hq
      have hfits := h.fits i q' shared hq' hshared
      refine .inr ⟨shared, hshared, hfits.method, hfits.route, fun side hside => ?_, fun _ => ?_,
        hfits.answer⟩
      · cases side
        · exact hfits.callback .request (by simpa [Rights.give] using hside)
        · exact hknown.phase
      · simpa [Option.isSome_iff_ne_none] using hknown.status
    · exact .inl (by simpa [Outcome.grant, hij] using hq)
  | _ => exact .inl hq

/-- A call returns, and nothing happens. -/
theorem Shows.finish (h : Shows env call rights c r) (hx : Exclusive call rights)
    {outcome : Outcome H} (hcall : call t = some cl) (hret : c.code t = some (.ret outcome))
    (hfree : c.holder .exchanges ≠ some t) :
    Shows env (Function.update call t none) (outcome.grant rights) (c.setCode t none) r := by
  obtain ⟨code, hcode, hstage⟩ := h.stage t cl hcall
  obtain rfl : code = .ret outcome := Option.some.inj (hcode.symm.trans hret)
  have hreturned := hstage.returned
  have hgranted := hx.granted hcall hreturned.returns
  have hbusy : ∀ {u d}, Function.update call t none u = some d → u ≠ t ∧ call u = some d := by
    intro u d hu
    by_cases hut : u = t
    · subst hut
      simp at hu
    · exact ⟨hut, by simpa [hut] using hu⟩
  refine ⟨h.values.frame rfl rfl rfl rfl rfl, ?absent, ?unpushed, ?fits, ?snapshot, ?idle, ?stage⟩
  case absent =>
    intro i hi
    refine h.absent i (Option.eq_none_iff_forall_ne_some.mpr fun q hq => ?_)
    obtain ⟨q', hq', -⟩ := hgranted.kept i q hq
    cases hi.symm.trans hq'
  case unpushed =>
    intro i q hq hnone
    rcases h.fits_grant hreturned hq with hsame | ⟨shared, hshared, -⟩
    · exact h.unpushed i q hsame hnone
    · cases hnone.symm.trans hshared
  case fits =>
    intro i q shared hq hshared
    rcases h.fits_grant hreturned hq with hsame | ⟨shared', hshared', hfits⟩
    · exact h.fits i q shared hsame hshared
    · exact Option.some.inj (hshared'.symm.trans hshared) ▸ hfits
  case snapshot =>
    intro hne
    obtain ⟨u, hu, hsnapshot⟩ := h.snapshot hne
    have hut : u ≠ t := by
      rintro rfl
      exact hfree hu
    exact ⟨u, hu, by rwa [Function.update_of_ne hut]⟩
  case idle =>
    intro u hu
    by_cases hut : u = t
    · simp [hut]
    · simpa [hut] using h.idle u (by simpa [hut] using hu)
  case stage =>
    intro u d hu
    obtain ⟨hut, hu'⟩ := hbusy hu
    obtain ⟨code, hcode', hstage'⟩ := h.stage u d hu'
    refine ⟨code, by simpa [hut] using hcode', ?_⟩
    exact hstage'.frame (.inl rfl) (fun hu => ⟨hu, rfl⟩) fun _ _ _ => rfl

end

/-! ## Runs -/

namespace Threads

variable [DecidableEq T] [DecidableEq H] {m m' : Threads T H} {config : Redactions}

/-- The snapshot that a call returns in a turn. -/
def returned (m : Threads T H) : Turn T H → Option (List Exchange)
  | .finish t =>
    match m.system.code t with
    | some (.ret (.snapshot result)) => some result
    | _ => none
  | _ => none

/-- Note the snapshots that calls return. -/
def note (m : Threads T H) (results : List (List Exchange)) (turn : Turn T H) :
    List (List Exchange) :=
  results ++ (m.returned turn).toList

/-- Some run of the recorder shows what the threads have done. -/
structure Linear (env : Externals) (config : Redactions) (m : Threads T H)
    (results : List (List Exchange)) (c : Process T H) (r : Recorder H) : Prop where
  orderly : m.Orderly
  exclusive : Exclusive m.call m.rights
  reached : ∃ actions, run (Recorder.step env) (.init config) actions = some r
  commits : Commits LockName.rank m.system c
  shows : Shows env m.call m.rights c r
  results : ∀ result ∈ results, result ∈ r.collected

omit [DecidableEq T] in
theorem linear_init (env : Externals) (config : Redactions) :
    Linear env config (init config : Threads T H) [] (init config : Threads T H).system
      (Recorder.init config) where
  orderly := orderly_init config
  exclusive := exclusive_init config
  reached := ⟨[], rfl⟩
  commits := .self fun _ => rfl
  shows := by
    refine ⟨⟨rfl, rfl, rfl, ?_⟩, fun _ _ => rfl, ?_, ?_, fun hne => absurd rfl hne,
      fun _ _ => rfl, ?_⟩ <;> simp [init, Recorder.init]
  results := by simp

omit [DecidableEq T] in
/-- What the recorder has returned stays returned. -/
theorem collected_of_run {r r' : Recorder H} {actions : List (Action H)}
    (hrun : run (Recorder.step env) r actions = some r') :
    ∀ result ∈ r.collected, result ∈ r'.collected :=
  run_invariant (P := fun _ s => ∀ result ∈ r.collected, result ∈ s.collected) (fun _ => id)
    (fun _ s a s' _ ih hstep result hresult => by
      have hstays : Recorder.Elsewhere env [] s s' := .inr ⟨a, hstep, by simp⟩
      exact hstays.results.1 _ (ih result hresult))
    hrun

namespace Linear

variable {results : List (List Exchange)} {c c' : Process T H} {r : Recorder H}

omit [DecidableEq T] in
/-- The recorder follows a turn of the threads. -/
theorem follow (h : Linear env config m results c r) {results' : List (List Exchange)}
    (hresults : ∀ result ∈ results', result ∈ r.collected) (horderly : m'.Orderly)
    (hexclusive : Exclusive m'.call m'.rights) (hcommits : Commits LockName.rank m'.system c')
    (hfollows : Follows env m'.call m'.rights r c') :
    ∃ r', Linear env config m' results' c' r' := by
  obtain ⟨before, hbefore⟩ := h.reached
  obtain ⟨actions, r', hrun, hshows⟩ := hfollows
  refine ⟨r', horderly, hexclusive, ⟨before ++ actions, ?_⟩, hcommits, hshows, ?_⟩
  · rw [run_append, hbefore]
    exact hrun
  · exact fun result hresult => collected_of_run hrun result (hresults result hresult)

/-- Whatever turn a thread takes, some run of the recorder shows what the threads have done then. -/
theorem step (h : Linear env config m results c r) {turn : Turn T H}
    (hstep : m.step env turn = some m') :
    ∃ c' r', Linear env config m' (m.note results turn) c' r' := by
  have horderly := h.orderly.step hstep
  cases turn with
  | begin t cl =>
    obtain ⟨hidle, rights, hclaim, rfl⟩ := step_begin_iff.mp hstep
    have hsystem := (h.orderly.idle_iff t).mp hidle
    have hnothing := h.orderly.disciplined.holds_nothing (.inl hsystem)
    have hexclusive := h.exclusive.begin (t := t) (claimed_of_claim h.exclusive.split hclaim)
    have hcommits : Commits LockName.rank (allocate m.system cl) (allocate c cl) ∧
        (allocate m.system cl).holder = m.system.holder := by
      cases cl with
      | push i method route security =>
        rw [Call.claim, Option.ite_none_right_eq_some] at hclaim
        have hnone := h.shows.absent i (Option.isNone_iff_eq_none.mp hclaim.1)
        exact ⟨h.commits.setValue (fun _ => h.shows.free_of_absent h.commits hnone) _, rfl⟩
      | _ => exact ⟨h.commits, rfl⟩
    have hshows : Shows env (Function.update m.call t (some cl)) rights
        ((allocate c cl).setCode t (some (cl.code env))) r := by
      refine h.shows.begin h.exclusive hidle hclaim ?_ ?_ (fun l hl => ?_) ?_
      · cases cl <;> rfl
      · cases cl <;> rfl
      · cases cl with
        | push i method route security => simp [allocate, hl i method route security rfl]
        | _ => rfl
      · rintro i method route security rfl
        simp [allocate]
    have hresults : ∀ result ∈ m.note results (.begin t cl), result ∈ r.collected := by
      simpa [note, Threads.returned] using h.results
    exact ⟨_, h.follow hresults horderly hexclusive
      (hcommits.1.setCode (fun l _ => hcommits.2 ▸ hnothing l) _) ⟨[], r, rfl, hshows⟩⟩
  | advance t =>
    obtain ⟨system, hadvance, rfl⟩ := step_advance_iff.mp hstep
    have hresults : ∀ result ∈ m.note results (.advance t), result ∈ r.collected := by
      simpa [note, Threads.returned] using h.results
    obtain hcommits | ⟨c', hatomic, hcommits⟩ := h.commits.advance h.orderly.disciplined hadvance
    · exact ⟨c, h.follow hresults horderly h.exclusive hcommits ⟨[], r, rfl, h.shows⟩⟩
    · obtain ⟨actions, hactions⟩ := h.reached
      have hregistered := (Recorder.tallied_of_run hactions).registered
      exact ⟨c', h.follow hresults horderly h.exclusive hcommits
        (h.shows.atomic h.exclusive hregistered hatomic)⟩
  | finish t =>
    obtain ⟨outcome, hret, rfl⟩ := step_finish_iff.mp hstep
    have hnothing := h.orderly.disciplined.holds_nothing (.inr ⟨outcome, hret⟩)
    have hcode := (h.commits.outside t fun l _ => hnothing l).trans hret
    obtain ⟨cl, hcall⟩ : ∃ cl, m.call t = some cl := by
      refine Option.ne_none_iff_exists'.mp fun hidle => ?_
      cases ((h.orderly.idle_iff t).mp hidle).symm.trans hret
    obtain ⟨code, hcode', hstage⟩ := h.shows.stage t cl hcall
    obtain rfl : code = .ret outcome := Option.some.inj (hcode'.symm.trans hcode)
    have hreturned := hstage.returned
    have hfree : c.holder .exchanges ≠ some t := by
      rw [h.commits.holder .exchanges Nat.one_ne_zero]
      exact hnothing _
    have hshows := h.shows.finish h.exclusive hcall hcode hfree
    have hexclusive := h.exclusive.finish hcall hreturned.returns
    have hresults : ∀ result ∈ m.note results (.finish t), result ∈ r.collected := by
      intro result hresult
      rcases List.mem_append.mp hresult with hold | hnew
      · exact h.results result hold
      · refine hreturned.snapshot result ?_
        rw [Option.mem_toList, Threads.returned, hret] at hnew
        cases outcome with
        | snapshot result' =>
          cases hnew
          rfl
        | _ => cases hnew
    exact ⟨_, h.follow hresults horderly hexclusive
      (h.commits.setCode (fun l _ => hnothing l) none) ⟨[], r, rfl, hshows⟩⟩

end Linear

/-- So a run of the recorder shows every run of the threads. -/
theorem linear_of_run {results : List (List Exchange)} {turns : List (Turn T H)}
    (hrun : run (withHistory (step env) note) (init config, []) turns = some (m, results)) :
    ∃ c r, Linear env config m results c r :=
  run_invariant (P := fun _ p => ∃ c r, Linear env config p.1 p.2 c r)
    ⟨_, _, linear_init env config⟩
    (fun _ _ _ _ _ ⟨_, _, ih⟩ hstep => by
      obtain ⟨hstep, hnote⟩ := withHistory_eq_some_iff.mp hstep
      exact hnote ▸ ih.step hstep) hrun

omit [DecidableEq T] in
/-- What the recorder shows is behind the mutexes that are free. -/
theorem Linear.exists_run {results : List (List Exchange)} {c : Process T H} {r : Recorder H}
    (h : Linear env config m results c r) :
    ∃ actions r, run (Recorder.step env) (Recorder.init config) actions = some r ∧
      m.system.value .exchanges = r.exchanges ∧
      (m.system.holder .config = none → m.system.value .config = r.config) ∧
      (m.system.holder .warnings = none → m.system.value .warnings = r.warnings) ∧
      (∀ h exchange, r.exchangeAt h = some exchange → m.system.holder (.exchange h) = none →
        m.system.value (.exchange h) = some exchange) ∧
      ∀ result ∈ results, result ∈ r.collected := by
  obtain ⟨actions, hactions⟩ := h.reached
  have hvalues := h.shows.values
  have hvalue := h.commits.value
  refine ⟨actions, r, hactions, ?_, fun hfree => ?_, fun hfree => ?_, fun i exchange hi hfree => ?_,
    h.results⟩
  · rw [← hvalue .exchanges nofun, hvalues.exchanges]
  · rw [← hvalue .config fun _ => hfree, hvalues.config]
  · rw [← hvalue .warnings fun _ => hfree, hvalues.warnings]
  · obtain ⟨shared, hshared, rfl⟩ := Option.map_eq_some_iff.mp hi
    rw [← hvalue (.exchange i) fun _ => hfree, hvalues.cell i shared hshared]

/-- However the threads interleave, holding each mutex for a while, they do what some run
of the recorder does, whose steps are whole locked accesses: what a free mutex owns is what
the recorder holds then, the list of exchanges at any time, and every snapshot that a call
has returned is one that the recorder has taken. -/
theorem linearizable (env : Externals) (config : Redactions) {turns : List (Turn T H)}
    {results : List (List Exchange)}
    (hrun : run (withHistory (step env) note) (init config, []) turns = some (m, results)) :
    ∃ actions r, run (Recorder.step env) (Recorder.init config) actions = some r ∧
      m.system.value .exchanges = r.exchanges ∧
      (m.system.holder .config = none → m.system.value .config = r.config) ∧
      (m.system.holder .warnings = none → m.system.value .warnings = r.warnings) ∧
      (∀ h exchange, r.exchangeAt h = some exchange → m.system.holder (.exchange h) = none →
        m.system.value (.exchange h) = some exchange) ∧
      ∀ result ∈ results, result ∈ r.collected := by
  obtain ⟨c, r, hlinear⟩ := linear_of_run hrun
  exact hlinear.exists_run

/-- While a snapshot has the list locked, a status is stored behind the mutex of its
exchange, which the snapshot then waits for. -/
def overtaken : List (Turn Nat Nat) :=
  [.begin 0 (.push 0 .get "/users" none), .advance 0, .advance 0, .advance 0, .finish 0,
    .begin 1 .snapshot, .advance 1, .begin 0 (.setStatus 0 200), .advance 0, .advance 1,
    .advance 0, .advance 0, .advance 1, .advance 1, .advance 1, .advance 1, .finish 1]

/-- The snapshot shows the status. -/
theorem linearizable_example : ∃ (m : Threads Nat Nat) (results : List (List Exchange)),
    run (withHistory (step parseDigits) note) (init .new, []) overtaken = some (m, results) ∧
      results.map (·.map (·.response.status)) = [[some 200]] ∧
      ∃ actions, ∃ r : Recorder Nat,
        run (Recorder.step parseDigits) (Recorder.init .new) actions = some r ∧
          ∀ result ∈ results, result ∈ r.collected := by
  have hovertaken : (run (withHistory (step parseDigits) note) (init .new, []) overtaken).map
      (fun p => p.2.map (·.map (·.response.status))) = some [[some 200]] := rfl
  obtain ⟨⟨m, results⟩, hm, hstatus⟩ := Option.map_eq_some_iff.mp hovertaken
  obtain ⟨actions, r, hactions, -, -, -, -, hresults⟩ := linearizable parseDigits .new hm
  exact ⟨m, results, hm, hstatus, actions, r, hactions, hresults⟩

end Threads

end Cyanotype
