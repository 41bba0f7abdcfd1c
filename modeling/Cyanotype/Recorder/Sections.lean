import Cyanotype.Recorder.Stages

/-!
# Locked sections

Each function of the store is a few sections, and each section is a step of the recorder,
or none: the recorder follows what a thread does while it holds a mutex.
-/

namespace Cyanotype

open Mutex (System Section)
open Mutex.System (Atomic)
open SharedExchange (Untouched SideAt AnswerAt)

variable {T H : Type} {env : Externals}

section

variable [DecidableEq H] {c c' : Process T H} {r r' : Recorder H} {t : T} {cl : Call H}
  {code : Code H} {call : T → Option (Call H)} {rights : H → Option Rights}

/-! ## Sections -/

/-- A section of a lock of the lowest rank, for a call. -/
theorem Shows.whole [DecidableEq T] (h : Shows env call rights c r)
    (hx : Exclusive call rights) (hcall : call t = some cl) (hdoes : Recorder.Does env cl r r')
    {l : LockName H} {v : LockName.Guarded l}
    (hvalues : Values (c.setValue l v) r') (hcell : ∀ i, l = .exchange i → r.heap i ≠ none)
    (hsnapshot : r'.snapshot = r.snapshot ∨
      c.holder .exchanges = some t ∧ cl = .snapshot)
    (hstage : CallStage env ((c.setValue l v).setCode t (some code)) r' t cl code) :
    Shows env call rights ((c.setValue l v).setCode t (some code)) r' := by
  refine h.after hx hcall hdoes rfl ⟨hvalues.config, hvalues.warnings, hvalues.exchanges,
    hvalues.cell⟩ (fun i hi => ?_) (fun u hut hu => ⟨hu, ?_⟩) (fun hne => ?_) hstage
  · have hli : LockName.exchange i ≠ l := fun hli => hcell i hli.symm hi
    simp [hli]
  · rcases hsnapshot with hsame | ⟨hmine, -⟩
    · exact hsame
    · exact absurd (Option.some.inj (hu.symm.trans hmine)) hut
  · rcases hsnapshot with hsame | ⟨hmine, rfl⟩
    · exact h.snapshot (hsame ▸ hne)
    · exact ⟨t, hmine, hcall⟩

omit [DecidableEq H] in
/-- Snapshots leave the values alone. -/
theorem Values.frame (h : Values c r) (hvalue : c'.value = c.value)
    (hconfig : r'.config = r.config) (hwarnings : r'.warnings = r.warnings)
    (hexchanges : r'.exchanges = r.exchanges) (hheap : r'.heap = r.heap) : Values c' r' := by
  refine ⟨?_, ?_, ?_, ?_⟩ <;> rw [hvalue]
  · exact h.config.trans hconfig.symm
  · exact h.warnings.trans hwarnings.symm
  · exact h.exchanges.trans hexchanges.symm
  · rw [hheap]
    exact h.cell

/-- An access writes the exchange it is about, and pushes warnings. -/
theorem Values.put (h : Values c r) {i : H} {shared : SharedExchange} {more : List String}
    (hconfig : c'.value .config = c.value .config)
    (hwarnings : c'.value .warnings = c.value .warnings ++ more)
    (hexchanges : c'.value .exchanges = c.value .exchanges)
    (hself : c'.value (.exchange i) = some shared.exchange)
    (hothers : ∀ j, j ≠ i → c'.value (.exchange j) = c.value (.exchange j)) :
    Values c' { r.put i shared with warnings := r.warnings ++ more } := by
  refine ⟨hconfig.trans h.config, hwarnings.trans (by rw [h.warnings]),
    hexchanges.trans h.exchanges, fun j shared' hj => ?_⟩
  by_cases hji : j = i
  · subst hji
    obtain rfl : shared = shared' := by simpa [Recorder.put] using hj
    exact hself
  · exact (hothers j hji).trans (h.cell j shared' (by simpa [Recorder.put, hji] using hj))

variable (env) in
/-- A step of a side's tee, as a step of the recorder. -/
theorem step_side_eq {i : H} {side : Side} {shared : SharedExchange}
    (hshared : r.heap i = some shared)
    (hstatus : side = .response → shared.exchange.response.status ≠ none) {x : SideAccess}
    {res : MessageCapture × Phase}
    (hres : stepSide env r.config side shared.exchange.method shared.exchange.routeTemplate
      (shared.exchange.message side) (shared.phase side) x = some res) :
    r.step env (.access i (.side side x)) = some { r.put i (shared.setSide side res) with
      warnings := r.warnings ++ (shared.phase side).raises x } :=
  Recorder.step_access_iff.mpr ⟨shared, _, hshared,
    SharedExchange.access_side_eq_some_iff.mpr ⟨hstatus, res, hres, rfl⟩,
    by rw [SharedExchange.raises_side]⟩

/-- A step of a side is one of recording the side. -/
theorem does_side {i : H} {side : Side} {method : Method} {route : String}
    {contentType : Option String} {headers : List (String × String)} {captured : CapturedBody}
    {x : SideAccess} (hstep : r.step env (.access i (.side side x)) = some r') :
    Recorder.Does env (.recordSide i side method route contentType headers captured) r r' :=
  .inr ⟨_, hstep, by simp [Action.duty, Call.duties], nofun⟩

variable (env) in
/-- Redact and decide: the recorder finishes the body. -/
theorem finish_eq {i : H} {side : Side} {method : Method} {route : String}
    {shared : SharedExchange} (hshared : r.heap i = some shared)
    (hknown : SideAt side method route .streaming shared) (contentType : Option String)
    (headers : List (String × String)) (captured : CapturedBody) :
    r.step env (.access i (.side side (.finish contentType headers captured))) =
      some { r.put i (shared.setSide side (shared.exchange.message side,
        .recording headers (sideBody env r.config contentType captured)
          (sideWarnings env side method route (sideBody env r.config contentType captured)))) with
        warnings := r.warnings ++ [] } := by
  have hres : stepSide env r.config side shared.exchange.method shared.exchange.routeTemplate
      (shared.exchange.message side) (shared.phase side) (.finish contentType headers captured) =
        some _ :=
    stepSide_finish_iff.mpr ⟨hknown.phase, rfl⟩
  rw [step_side_eq env hshared hknown.status hres, hknown.method, hknown.route, hknown.phase]
  rfl

/-- What a side's tee has just done about its exchange. -/
theorem at_setSide {i : H} {side : Side} {method : Method} {route : String}
    {shared : SharedExchange} {phase phase' : Phase}
    (hknown : SideAt side method route phase shared) (warnings : List String) :
    Recorder.At { r.put i (shared.setSide side (shared.exchange.message side, phase')) with
      warnings := warnings } i (SideAt side method route phase') := by
  refine ⟨_, Function.update_self .., ?_, ?_, shared.phase_setSide side _, ?_⟩
  · rw [shared.exchange_setSide_message]
    exact hknown.method
  · rw [shared.exchange_setSide_message]
    exact hknown.route
  · rw [shared.exchange_setSide_message]
    exact hknown.status

section

variable [DecidableEq T] {i : H} {side : Side} {method : Method} {route : String}
  {contentType : Option String} {headers : List (String × String)} {captured : CapturedBody}

/-- The section that reads the config redacts and decides a body. -/
theorem Shows.redact (h : Shows env call rights c r) (hx : Exclusive call rights)
    (hcall : call t = some (.recordSide i side method route contentType headers captured))
    {value : Value}
    (hjson : BodyCapture.fromCaptured env.fromSlice contentType captured = .json value)
    (hat : r.At i (SideAt side method route .streaming)) :
    Follows env call rights r ((c.setValue .config (c.value .config)).setCode t
      (some (Code.finishSide env i side method route headers
        (.json (redactWith (c.value .config) value))))) := by
  obtain ⟨shared, hshared, hknown⟩ := hat
  have hstep := finish_eq env hshared hknown contentType headers captured
  have hbody : sideBody env r.config contentType captured =
      .json (redactWith (c.value .config) value) := by
    rw [sideBody, hjson, h.values.config]
  rw [hbody] at hstep
  refine .step hstep (h.whole hx hcall (does_side hstep) ?_ nofun (.inl rfl)
    (.raising (at_setSide hknown _)))
  refine h.values.put ?_ (List.append_nil _).symm rfl ?_ fun j _ => rfl
  · simp
  · rw [shared.exchange_setSide_message]
    exact h.values.cell i shared hshared

/-- The section that pushes a warning. -/
theorem Shows.raise (h : Shows env call rights c r) (hx : Exclusive call rights)
    (hcall : call t = some (.recordSide i side method route contentType headers captured))
    {body : BodyCapture} {message : String} {messages : List String}
    (hat : r.At i (SideAt side method route (.recording headers body (message :: messages)))) :
    Follows env call rights r ((c.setValue .warnings (c.value .warnings ++ [message])).setCode t
      (some (Code.warnAll messages (Code.storeSide i side headers body)))) := by
  obtain ⟨shared, hshared, hknown⟩ := hat
  have hres : stepSide env r.config side shared.exchange.method shared.exchange.routeTemplate
      (shared.exchange.message side) (shared.phase side) .warn = some _ :=
    stepSide_warn_iff.mpr ⟨headers, body, message, messages, hknown.phase, rfl⟩
  have hstep := step_side_eq env hshared hknown.status hres
  have hraises : (shared.phase side).raises .warn = [message] := by
    rw [hknown.phase]
    rfl
  rw [hraises] at hstep
  refine .step hstep (h.whole hx hcall (does_side hstep) ?_ nofun (.inl rfl)
    (.raising (at_setSide hknown _)))
  refine h.values.put rfl ?_ rfl ?_ fun j _ => rfl
  · simp
  · rw [shared.exchange_setSide_message]
    exact h.values.cell i shared hshared

/-- The section that stores headers and body. -/
theorem Shows.store (h : Shows env call rights c r) (hx : Exclusive call rights)
    (hcall : call t = some (.recordSide i side method route contentType headers captured))
    {body : BodyCapture}
    (hat : r.At i (SideAt side method route (.recording headers body []))) :
    Follows env call rights r ((c.setValue (.exchange i) (((c.value (.exchange i)).map
      (·.setHeaders side headers)).map (·.setBody side body))).setCode t
        (some (.ret (.recorded i side)))) := by
  obtain ⟨shared, hshared, hknown⟩ := hat
  have hres : stepSide env r.config side shared.exchange.method shared.exchange.routeTemplate
      (shared.exchange.message side) (shared.phase side) .store = some _ :=
    stepSide_store_iff.mpr ⟨headers, body, hknown.phase, rfl⟩
  have hstep := step_side_eq env hshared hknown.status hres
  have hne : r.heap i ≠ none := hshared ▸ Option.some_ne_none shared
  refine .step hstep (h.whole hx hcall (does_side hstep) ?_ ?_ (.inl rfl) .recorded)
  · refine h.values.put rfl ?_ rfl ?_ fun j hj => ?_
    · rw [hknown.phase]
      exact (List.append_nil _).symm
    · rw [System.setValue_value, Function.update_self, h.values.cell i shared hshared,
        Option.map_some, Option.map_some, Exchange.setBody_setHeaders]
      cases side <;> rfl
    · simp [hj]
  · rintro j hj
    cases hj
    exact hne

/-- The sections of `record_side` after the body is decided. -/
theorem Shows.recording (h : Shows env call rights c r) (hx : Exclusive call rights)
    (hcall : call t = some (.recordSide i side method route contentType headers captured))
    {body : BodyCapture} {messages : List String}
    (hcode : c.code t = some (Code.warnAll messages (Code.storeSide i side headers body)))
    (hat : r.At i (SideAt side method route (.recording headers body messages)))
    (hatomic : Atomic LockName.rank c t c') : Follows env call rights r c' := by
  cases messages with
  | nil =>
    obtain ⟨-, next, v, hsection, rfl⟩ := hatomic.of_lock hcode rfl
    rw [Section.use_unlock_iff, Section.use_unlock_iff, Section.unlock_iff] at hsection
    obtain ⟨rfl, rfl⟩ := hsection
    exact h.store hx hcall hat
  | cons message messages =>
    obtain ⟨-, next, v, hsection, rfl⟩ := hatomic.of_lock hcode rfl
    rw [Section.use_unlock_iff, Section.unlock_iff] at hsection
    obtain ⟨rfl, rfl⟩ := hsection
    exact h.raise hx hcall hat

/-- A body that is not redacted is decided without a mutex. -/
theorem Shows.decide (h : Shows env call rights c r) (hx : Exclusive call rights)
    (hcall : call t = some (.recordSide i side method route contentType headers captured))
    {body : BodyCapture}
    (hcode : c.code t = some (Code.finishSide env i side method route headers body))
    (hbody : ∀ config, sideBody env config contentType captured = body)
    (hat : r.At i (SideAt side method route .streaming)) :
    ∃ r', r.step env (.access i (.side side (.finish contentType headers captured))) = some r' ∧
      Shows env call rights c r' ∧ r'.At i (SideAt side method route
        (.recording headers body (sideWarnings env side method route body))) := by
  obtain ⟨shared, hshared, hknown⟩ := hat
  have hstep := finish_eq env hshared hknown contentType headers captured
  rw [hbody r.config] at hstep
  have hat' : Recorder.At { r.put i (shared.setSide side (shared.exchange.message side,
      .recording headers body (sideWarnings env side method route body))) with
      warnings := r.warnings ++ [] } i (SideAt side method route
        (.recording headers body (sideWarnings env side method route body))) :=
    at_setSide hknown _
  refine ⟨_, hstep, ?_, hat'⟩
  refine h.after hx hcall (does_side hstep) ?_ ?_ (fun _ _ => rfl) (fun _ _ hu => ⟨hu, rfl⟩)
    h.snapshot (.raising hat')
  · exact (Function.update_eq_self_iff.mpr hcode.symm).symm
  · refine h.values.put rfl (List.append_nil _).symm rfl ?_ fun _ _ => rfl
    rw [shared.exchange_setSide_message]
    exact h.values.cell i shared hshared

/-- The section that stores the status. -/
theorem Shows.answer (h : Shows env call rights c r) (hx : Exclusive call rights) {status : Nat}
    (hcall : call t = some (.setStatus i status)) (hat : r.At i (AnswerAt false)) :
    Follows env call rights r ((c.setValue (.exchange i) ((c.value (.exchange i)).map
      (·.setStatus status))).setCode t (some (.ret (.answered i)))) := by
  obtain ⟨shared, hshared, hknown⟩ := hat
  have hnone : shared.exchange.response.status = none := by simpa using hknown.status
  have haccess : shared.access env r.config (.setStatus status) = some _ :=
    SharedExchange.access_setStatus_eq_some_iff.mpr ⟨hnone, rfl⟩
  have hstep := Recorder.step_access_iff.mpr ⟨shared, _, hshared, haccess, rfl⟩
  have hne : r.heap i ≠ none := hshared ▸ Option.some_ne_none shared
  refine .step hstep (h.whole hx hcall ?_ ?_ ?_ (.inl rfl) (.answered ?_))
  · exact .inr ⟨_, hstep, by simp [Action.duty, Call.duties], nofun⟩
  · refine h.values.put rfl (List.append_nil _).symm rfl ?_ fun j hj => ?_
    · simp [h.values.cell i shared hshared, Exchange.setStatus]
    · simp [hj]
  · rintro j hj
    cases hj
    exact hne
  · exact ⟨_, Function.update_self .., rfl, hknown.phase⟩

/-- A declaration puts the schema in the exchange, if the bytes are of the type. -/
theorem Code.declaring_eq (T : WireType) (bytes : List UInt8) (exchange : Exchange) :
    Code.declaring T bytes exchange = if T.accepts bytes then
      { exchange with declaredResponseSchema := some T.rootSchema } else exchange := by
  unfold Code.declaring
  cases haccepts : T.accepts bytes with
  | true => simp [WireType.declareResponse_of_accepts haccepts]
  | false =>
    obtain ⟨source, herror⟩ := WireType.declareResponse_of_not_accepts haccepts exchange
    simp [herror]

/-- The section that declares a response. -/
theorem Shows.declare (h : Shows env call rights c r) (hx : Exclusive call rights)
    {T' : WireType} {bytes : List UInt8} {failure : Option DeclarationMismatch}
    (hcall : call t = some (.declareResponse i T' bytes))
    (hat : r.At i fun shared => shared.exchange.response.status ≠ none) :
    Follows env call rights r ((c.setValue (.exchange i) ((c.value (.exchange i)).map
      (Code.declaring T' bytes))).setCode t (some (.ret (.declared i failure)))) := by
  obtain ⟨shared, hshared, hstatus⟩ := hat
  have haccess : shared.access env r.config (.declareResponse T' bytes) = some _ :=
    SharedExchange.access_declareResponse_eq_some_iff.mpr ⟨hstatus, rfl⟩
  have hstep := Recorder.step_access_iff.mpr ⟨shared, _, hshared, haccess, rfl⟩
  have hne : r.heap i ≠ none := hshared ▸ Option.some_ne_none shared
  refine .step hstep (h.whole hx hcall ?_ ?_ ?_ (.inl rfl) .declared)
  · exact .inr ⟨_, hstep, nofun, nofun⟩
  · refine h.values.put rfl (List.append_nil _).symm rfl ?_ fun j hj => ?_
    · simp only [System.setValue_value, Function.update_self, h.values.cell i shared hshared,
        Option.map_some, Code.declaring_eq]
      split_ifs <;> rfl
    · simp [hj]
  · rintro j hj
    cases hj
    exact hne

/-- The section that puts another config. -/
theorem Shows.configure (h : Shows env call rights c r) (hx : Exclusive call rights)
    {redactions : Redactions} (hcall : call t = some (.configure redactions)) :
    Follows env call rights r ((c.setValue .config redactions).setCode t
      (some (.ret .configured))) := by
  have hstep : r.step env (.configure redactions) = some _ := rfl
  refine .step hstep (h.whole hx hcall ?_ ?_ nofun (.inl rfl) .configured)
  · exact .inr ⟨_, hstep, nofun, nofun⟩
  · exact ⟨by simp, h.values.warnings, h.values.exchanges, h.values.cell⟩

/-- The section that clones one exchange. -/
theorem Shows.clone (h : Shows env call rights c r) (hx : Exclusive call rights)
    (hcall : call t = some .snapshot) {taken : List (H × Exchange)} {rest : List H}
    (hlocked : c.holder .exchanges = some t) (hsnapshot : r.snapshot = some ⟨taken, i :: rest⟩)
    (hstored : ∀ j ∈ i :: rest, r.heap j ≠ none) :
    Follows env call rights r ((c.setValue (.exchange i) (c.value (.exchange i))).setCode t
      (some (Code.cloneAll rest
        (taken.map Prod.snd ++ Option.toList (c.value (.exchange i)))))) := by
  obtain ⟨shared, hshared⟩ := Option.ne_none_iff_exists'.mp (hstored i (List.mem_cons_self ..))
  have hexchange : r.exchangeAt i = some shared.exchange := by
    rw [Recorder.exchangeAt, hshared, Option.map_some]
  have hstep : r.step env .readExchange = some _ :=
    Recorder.step_readExchange_iff.mpr ⟨taken, i, rest, _, hsnapshot, hexchange, rfl⟩
  have htaken : taken.map Prod.snd ++ Option.toList (c.value (.exchange i)) =
      (taken ++ [(i, shared.exchange)]).map Prod.snd := by
    simp [h.values.cell i shared hshared]
  rw [htaken]
  refine .step hstep (h.whole hx hcall ?_ ?_ (fun j hj => ?_) (.inr ⟨hlocked, rfl⟩)
    (.cloning hlocked rfl fun j hj => hstored j (List.mem_cons_of_mem _ hj)))
  · refine .inr ⟨_, hstep, fun _ hduty => ?_, fun _ _ _ _ hpush => ?_⟩
    · cases hduty
    · cases hpush
  · exact h.values.frame (Function.update_eq_self ..) rfl rfl rfl rfl
  · cases hj
    exact hstored i (List.mem_cons_self ..)

/-! ## The list of exchanges -/

/-- The list is locked. -/
theorem Shows.lockList (h : Shows env call rights c r) (hx : Exclusive call rights)
    {next : Code H} (hcall : call t = some cl) (hfree : c.holder .exchanges = none)
    (hstage : CallStage env ((c.setHolder .exchanges (some t)).setCode t (some next)) r t cl next) :
    Follows env call rights r ((c.setHolder .exchanges (some t)).setCode t (some next)) := by
  refine ⟨[], r, rfl, h.after hx hcall (.inl rfl) rfl (h.values.frame rfl rfl rfl rfl rfl)
    (fun _ _ => rfl) (fun u _ hu => ?_) (fun hne => ?_) hstage⟩
  · cases hfree.symm.trans hu
  · obtain ⟨u, hu, -⟩ := h.snapshot hne
    cases hfree.symm.trans hu

/-- The list is released. -/
theorem Shows.unlockList (h : Shows env call rights c r) (hx : Exclusive call rights)
    {next : Code H} (hcall : call t = some cl) (hdoes : Recorder.Does env cl r r')
    (hmine : c.holder .exchanges = some t) (hvalues : Values c r') (hnone : r'.snapshot = none)
    (hstage : CallStage env ((c.setHolder .exchanges none).setCode t (some next)) r' t cl next) :
    Shows env call rights ((c.setHolder .exchanges none).setCode t (some next)) r' := by
  refine h.after hx hcall hdoes rfl (hvalues.frame rfl rfl rfl rfl rfl) (fun _ _ => rfl)
    (fun u hut hu => ?_) (fun hne => absurd hnone hne) hstage
  exact absurd (Option.some.inj (hu.symm.trans hmine)) hut

omit [DecidableEq H] [DecidableEq T] in
/-- While another call has locked the list, no snapshot runs. -/
theorem Shows.snapshot_eq_none (h : Shows env call rights c r)
    (hmine : c.holder .exchanges = some t) (hcall : call t ≠ some .snapshot) :
    r.snapshot = none := by
  by_contra hne
  obtain ⟨u, hu, hsnapshot⟩ := h.snapshot hne
  obtain rfl := Option.some.inj (hmine.symm.trans hu)
  exact hcall hsnapshot

/-- The exchange is appended to the list. -/
theorem Shows.append (h : Shows env call rights c r) (hx : Exclusive call rights)
    {security : Option SecurityScheme} (hcall : call t = some (.push i method route security))
    (hmine : c.holder .exchanges = some t) (hnone : r.heap i = none)
    (hcell : c.value (.exchange i) = some (.new method route security)) :
    Follows env call rights r ((c.setValue .exchanges (c.value .exchanges ++ [i])).setCode t
      (some (.unlock .exchanges (.ret (.pushed i))))) := by
  have hsnapshot := h.snapshot_eq_none hmine (by simp [hcall])
  have hstep : r.step env (.push i method route security) = some _ :=
    Recorder.step_push_iff.mpr ⟨hnone, hsnapshot, rfl⟩
  refine .step hstep (h.whole hx hcall ?_ ?_ nofun (.inl rfl) (.appended ?_ hmine))
  · refine .inr ⟨_, hstep, by simp [Action.duty, Call.duties], ?_⟩
    rintro j method' route' security' hj
    cases hj
    rfl
  · refine ⟨h.values.config, h.values.warnings, ?_, fun j shared hj => ?_⟩
    · simp [h.values.exchanges]
    · by_cases hji : j = i
      · subst hji
        obtain rfl : SharedExchange.new method route security = shared := by
          simpa [Recorder.put] using hj
        exact hcell
      · exact h.values.cell j shared (by simpa [Recorder.put, hji] using hj)
  · exact ⟨_, Function.update_self .., fun side => by cases side <;> rfl, rfl⟩

/-- The list is read, and the snapshot begins. -/
theorem Shows.list (h : Shows env call rights c r) (hx : Exclusive call rights)
    (hregistered : r.Registered) (hcall : call t = some .snapshot)
    (hmine : c.holder .exchanges = some t) (hnone : r.snapshot = none) :
    Follows env call rights r ((c.setValue .exchanges (c.value .exchanges)).setCode t
      (some (Code.cloneAll (c.value .exchanges) []))) := by
  have hstep : r.step env .beginSnapshot = some _ :=
    Recorder.step_beginSnapshot_iff.mpr ⟨hnone, rfl⟩
  refine .step hstep (h.whole hx hcall ?_ ?_ nofun (.inr ⟨hmine, rfl⟩) ?_)
  · exact .inr ⟨_, hstep, nofun, nofun⟩
  · exact h.values.frame (Function.update_eq_self ..) rfl rfl rfl rfl
  · rw [h.values.exchanges]
    change CallStage _ _ _ _ _ (.cloneAll _ (([] : List (H × Exchange)).map Prod.snd))
    exact .cloning hmine rfl fun j hj => (hregistered.stored j).mp hj

/-- The snapshot ends. -/
theorem Shows.endSnapshot (h : Shows env call rights c r) (hx : Exclusive call rights)
    (hcall : call t = some .snapshot) {taken : List (H × Exchange)}
    (hmine : c.holder .exchanges = some t) (hsnapshot : r.snapshot = some ⟨taken, []⟩) :
    Follows env call rights r ((c.setHolder .exchanges none).setCode t
      (some (.ret (.snapshot (taken.map Prod.snd))))) := by
  have hstep : r.step env .endSnapshot = some _ :=
    Recorder.step_endSnapshot_iff.mpr ⟨taken, hsnapshot, rfl⟩
  refine .step hstep (h.unlockList hx hcall ?_ hmine ?_ rfl (.cloned ?_))
  · exact .inr ⟨_, hstep, nofun, nofun⟩
  · exact h.values.frame rfl rfl rfl rfl rfl
  · exact List.mem_append_right _ (List.mem_singleton_self _)

/-- A move on the list is a step by itself. -/
theorem atomic_list (hatomic : Atomic LockName.rank c t c') {code : Code H}
    (hcode : c.code t = some code) (htarget : code.target = some .exchanges) :
    c.advance t = some c' :=
  hatomic.of_target hcode htarget Nat.one_ne_zero

/-- What a thread does at once, the recorder does. -/
theorem Shows.atomic (h : Shows env call rights c r) (hx : Exclusive call rights)
    (hregistered : r.Registered) (hatomic : Atomic LockName.rank c t c') :
    Follows env call rights r c' := by
  obtain ⟨cl, hcall⟩ : ∃ cl, call t = some cl := by
    by_contra hnone
    have hidle := h.idle t (Option.eq_none_iff_forall_ne_some.mpr fun cl hcl => hnone ⟨cl, hcl⟩)
    cases hatomic with
    | whole _ _ hcode _ => cases hidle.symm.trans hcode
    | move hcode _ _ _ => cases hidle.symm.trans hcode
  obtain ⟨code, hcode, hstage⟩ := h.stage t cl hcall
  cases hstage with
  | pushing hnone hcell =>
    obtain ⟨hfree, rfl⟩ := (System.advance_lock_iff hcode).mp (atomic_list hatomic hcode rfl)
    exact h.lockList hx hcall hfree (.appending hnone hcell (by simp))
  | appending hnone hcell hmine =>
    obtain ⟨-, rfl⟩ := (System.advance_use_iff hcode).mp (atomic_list hatomic hcode rfl)
    exact h.append hx hcall hmine hnone hcell
  | appended hat hmine =>
    obtain ⟨-, rfl⟩ := (System.advance_unlock_iff hcode).mp (atomic_list hatomic hcode rfl)
    exact ⟨[], r, rfl, h.unlockList hx hcall (.inl rfl) hmine h.values
      (h.snapshot_eq_none hmine (by simp [hcall])) (.pushed hat)⟩
  | redacting hjson hat =>
    obtain ⟨-, next, v, hsection, rfl⟩ := hatomic.of_lock hcode rfl
    rw [Section.use_unlock_iff, Section.unlock_iff] at hsection
    obtain ⟨rfl, rfl⟩ := hsection
    exact h.redact hx hcall hjson hat
  | deciding hbody hat =>
    obtain ⟨r', hstep, h', hat'⟩ := h.decide hx hcall hcode hbody hat
    exact (h'.recording hx hcall hcode hat' hatomic).after hstep
  | raising hat => exact h.recording hx hcall hcode hat hatomic
  | answering hat =>
    obtain ⟨-, next, v, hsection, rfl⟩ := hatomic.of_lock hcode rfl
    rw [Section.use_unlock_iff, Section.unlock_iff] at hsection
    obtain ⟨rfl, rfl⟩ := hsection
    exact h.answer hx hcall hat
  | declaring hat =>
    obtain ⟨-, next, v, hsection, rfl⟩ := hatomic.of_lock hcode rfl
    rw [Section.use_unlock_iff, Section.unlock_iff] at hsection
    obtain ⟨rfl, rfl⟩ := hsection
    exact h.declare hx hcall hat
  | configuring =>
    obtain ⟨-, next, v, hsection, rfl⟩ := hatomic.of_lock hcode rfl
    rw [Section.use_unlock_iff, Section.unlock_iff] at hsection
    obtain ⟨rfl, rfl⟩ := hsection
    exact h.configure hx hcall
  | listing =>
    obtain ⟨hfree, rfl⟩ := (System.advance_lock_iff hcode).mp (atomic_list hatomic hcode rfl)
    refine h.lockList hx hcall hfree (.listed (by simp) ?_)
    by_contra hne
    obtain ⟨u, hu, -⟩ := h.snapshot hne
    cases hfree.symm.trans hu
  | listed hmine hnone =>
    obtain ⟨-, rfl⟩ := (System.advance_use_iff hcode).mp (atomic_list hatomic hcode rfl)
    exact h.list hx hregistered hcall hmine hnone
  | @cloning taken rest hmine hsnapshot hstored =>
    cases rest with
    | nil =>
      obtain ⟨-, rfl⟩ := (System.advance_unlock_iff hcode).mp (atomic_list hatomic hcode rfl)
      exact h.endSnapshot hx hcall hmine hsnapshot
    | cons i rest =>
      obtain ⟨-, next, v, hsection, rfl⟩ := hatomic.of_lock hcode rfl
      rw [Section.use_unlock_iff, Section.unlock_iff] at hsection
      obtain ⟨rfl, rfl⟩ := hsection
      exact h.clone hx hcall hmine hsnapshot hstored
  | reading =>
    obtain ⟨-, next, v, hsection, rfl⟩ := hatomic.of_lock hcode rfl
    rw [Section.use_unlock_iff, Section.unlock_iff] at hsection
    obtain ⟨rfl, rfl⟩ := hsection
    refine ⟨[], r, rfl, h.whole hx hcall (.inl rfl) ?_ nofun (.inl rfl) (.read ?_)⟩
    · exact h.values.frame (Function.update_eq_self ..) rfl rfl rfl rfl
    · rw [h.values.warnings]
  | pushed => exact absurd hcode (hatomic.not_ret _)
  | recorded => exact absurd hcode (hatomic.not_ret _)
  | answered => exact absurd hcode (hatomic.not_ret _)
  | declared => exact absurd hcode (hatomic.not_ret _)
  | configured => exact absurd hcode (hatomic.not_ret _)
  | cloned => exact absurd hcode (hatomic.not_ret _)
  | read => exact absurd hcode (hatomic.not_ret _)

end

end

end Cyanotype
