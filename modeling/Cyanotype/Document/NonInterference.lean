import Cyanotype.Document.Reading
import Cyanotype.Recorder.Store

/-!
# Redacted values leave no trace

Two runs take the same steps, on bodies that may differ in the values of declared
field names. Bodies are redacted before anything else looks at them, so the two
runs go through the same states. Two things still depend on such a value: a
`content-length` states how long it is, and a declared type may reject it.
-/

namespace Cyanotype

/-- Captures of the same body up to redacted values: both the same, or both
parsed completely, with values that differ below declared names only. -/
def SameCapture (env : Externals) (redactions : Redactions) (contentType : Option String)
    (captured captured' : CapturedBody) : Prop :=
  captured = captured' ∨ ∃ v w,
    BodyCapture.fromCaptured env.fromSlice contentType captured = .json v ∧
    BodyCapture.fromCaptured env.fromSlice contentType captured' = .json w ∧
    EqualExcept redactions v w

/-- The same access in two runs. Declared bytes come from bodies and may differ
with them, as long as they are accepted or rejected alike. -/
inductive SameAccess (env : Externals) (redactions : Redactions) : Access → Access → Prop
  | finish (side : Side) (contentType : Option String) (headers : List (String × String))
      {captured captured' : CapturedBody}
      (h : SameCapture env redactions contentType captured captured') :
      SameAccess env redactions (.side side (.finish contentType headers captured))
        (.side side (.finish contentType headers captured'))
  | declareResponse (T : WireType) {bytes bytes' : List UInt8}
      (h : T.accepts bytes = T.accepts bytes') :
      SameAccess env redactions (.declareResponse T bytes) (.declareResponse T bytes')
  | refl (a : Access) : SameAccess env redactions a a

/-- The same step in two runs. -/
inductive SameAction {H : Type*} (env : Externals) (redactions : Redactions) :
    Action H → Action H → Prop
  | access (h : H) {a b : Access} (hab : SameAccess env redactions a b) :
      SameAction env redactions (.access h a) (.access h b)
  | refl (a : Action H) : SameAction env redactions a a

/-- Whenever the steps finish a body, the redaction config is the given one. -/
def FinishesUnder {H : Type*} (redactions : Redactions) : Redactions → List (Action H) → Prop
  | _, [] => True
  | config, a :: as => (a.isFinish = true → config = redactions) ∧
      FinishesUnder redactions (a.configAfter config) as

/-- What is stored of a body does not depend on redacted values. -/
theorem sideBody_eq_of_sameCapture {env : Externals} {redactions : Redactions}
    {contentType : Option String} {captured captured' : CapturedBody}
    (h : SameCapture env redactions contentType captured captured') :
    sideBody env redactions contentType captured =
      sideBody env redactions contentType captured' := by
  rcases h with rfl | ⟨v, w, hv, hw, hvw⟩
  · rfl
  · rw [sideBody, sideBody, hv, hw]
    exact congrArg BodyCapture.json (redactWith_eq_of_equalExcept hvw)

/-- The same access has the same effect on an exchange. -/
theorem SharedExchange.access_eq_of_sameAccess {env : Externals} {redactions config : Redactions}
    {a b : Access} (hab : SameAccess env redactions a b)
    (hconfig : ∀ side contentType headers captured,
      a = .side side (.finish contentType headers captured) → config = redactions)
    (shared : SharedExchange) :
    shared.access env config a = shared.access env config b ∧
      shared.raises a = shared.raises b := by
  cases hab with
  | finish side contentType headers h =>
    obtain rfl := hconfig _ _ _ _ rfl
    refine ⟨?_, rfl⟩
    cases side <;> simp only [access, stepSide, sideBody_eq_of_sameCapture h]
  | declareResponse T h =>
    refine ⟨Option.ext fun shared' => ?_, rfl⟩
    rw [access_declareResponse_eq_some_iff, access_declareResponse_eq_some_iff, h]
  | refl a => exact ⟨rfl, rfl⟩

namespace Recorder

variable {H : Type*} [DecidableEq H] {env : Externals} {redactions : Redactions}
  {actions actions' : List (Action H)}

/-- The same step leads to the same state. -/
theorem step_eq_of_sameAction {a b : Action H} (hab : SameAction env redactions a b)
    {s : Recorder H} (hconfig : a.isFinish = true → s.config = redactions) :
    s.step env a = s.step env b := by
  cases hab with
  | refl a => rfl
  | @access h a b hab =>
    have hfinish : ∀ side contentType headers captured,
        a = .side side (.finish contentType headers captured) → s.config = redactions := by
      rintro side contentType headers captured rfl
      exact hconfig rfl
    have hsame := fun shared => SharedExchange.access_eq_of_sameAccess hab hfinish shared
    simp only [step, (hsame _).1, (hsame _).2]

/-- The same steps lead to the same state. -/
theorem run_eq_of_sameActions (hsame : List.Forall₂ (SameAction env redactions) actions actions')
    {s : Recorder H} (hconfig : FinishesUnder redactions s.config actions) :
    run (step env) s actions = run (step env) s actions' := by
  induction hsame generalizing s with
  | nil => rfl
  | cons hab _ ih =>
    rw [run_cons, run_cons, ← step_eq_of_sameAction hab hconfig.1]
    cases hstep : s.step env _ with
    | none => rfl
    | some t => exact ih (step_config hstep ▸ hconfig.2)

/-- Two runs that take the same steps, on bodies equal except for the values of
the field names declared whenever a body is finished, end with the same
exchanges, snapshots and warnings, and so with the same documents. -/
theorem redaction_noninterference (env : Externals) (redactions config : Redactions)
    (hsame : List.Forall₂ (SameAction env redactions) actions actions')
    (hconfig : FinishesUnder redactions config actions) {s s' : Recorder H}
    (hs : run (step env) (init config) actions = some s)
    (hs' : run (step env) (init config) actions' = some s') :
    s.exchanges = s'.exchanges ∧ (∀ h, s.exchangeAt h = s'.exchangeAt h) ∧
    s.warnings = s'.warnings ∧ s.collected = s'.collected ∧
    buildDocument s.recorded s.warnings = buildDocument s'.recorded s'.warnings ∧
    ∀ i : Nat, s.collected[i]?.map (buildDocument · s.warnings) =
      s'.collected[i]?.map (buildDocument · s'.warnings) := by
  have hrun := run_eq_of_sameActions hsame (s := init config) hconfig
  obtain rfl : s = s' := Option.some.inj (hs.symm.trans (hrun.trans hs'))
  exact ⟨rfl, fun _ => rfl, rfl, rfl, rfl, fun _ => rfl⟩

end Recorder

/-! ## Lengths and declared types -/

/-- Headers of two messages that differ in the stated length of the body only. -/
def LikeHeaders (captured captured' : CapturedBody) (headers headers' : List (String × String)) :
    Prop :=
  List.Forall₂ (fun header header' => header = header' ∨
    header = ("content-length", toString captured.bytes.length) ∧
      header' = ("content-length", toString captured'.bytes.length)) headers headers'

/-- Bytes that are the same, or parse to values that differ below declared names only. -/
def LikeBytes (env : Externals) (redactions : Redactions) (bytes bytes' : List UInt8) : Prop :=
  bytes = bytes' ∨ ∃ v w, env.fromSlice bytes = some v ∧ env.fromSlice bytes' = some w ∧
    EqualExcept redactions v w

/-- The same step in two runs, as far as the values of declared names allow: stated
lengths follow the bodies, and a declared type sees the bytes of its run. -/
inductive LikeAction {H : Type*} (env : Externals) (redactions : Redactions) :
    Action H → Action H → Prop
  | finish (h : H) (side : Side) (contentType : Option String)
      {headers headers' : List (String × String)} {captured captured' : CapturedBody}
      (hcapture : SameCapture env redactions contentType captured captured')
      (hheaders : LikeHeaders captured captured' headers headers') :
      LikeAction env redactions (.access h (.side side (.finish contentType headers captured)))
        (.access h (.side side (.finish contentType headers' captured')))
  | declareResponse (h : H) (T : WireType) {bytes bytes' : List UInt8}
      (hbytes : LikeBytes env redactions bytes bytes') :
      LikeAction env redactions (.access h (.declareResponse T bytes))
        (.access h (.declareResponse T bytes'))
  | refl (a : Action H) : LikeAction env redactions a a

/-- The captured headers that a step keeps of its message. -/
def Action.headers {H : Type*} : Action H → List (String × String)
  | access _ (.side _ (.finish _ headers _)) => headers
  | _ => []

/-- Whether the type that a step declares accepts its bytes. -/
def Action.accepted {H : Type*} : Action H → Option Bool
  | access _ (.declareResponse T bytes) => some (T.accepts bytes)
  | _ => none

/-- Like steps with equal headers and equal acceptance are the same step. -/
theorem LikeAction.sameAction {H : Type*} {env : Externals} {redactions : Redactions}
    {a b : Action H} (hlike : LikeAction env redactions a b) (hheaders : a.headers = b.headers)
    (haccepted : a.accepted = b.accepted) : SameAction env redactions a b := by
  cases hlike with
  | finish h side contentType hcapture _ =>
    obtain rfl : _ = _ := hheaders
    exact .access h (.finish side contentType _ hcapture)
  | declareResponse h T _ =>
    exact .access h (.declareResponse T (Option.some.inj haccepted))
  | refl a => exact .refl a

/-- So it is for all steps of two runs. -/
theorem sameActions_of_likeActions {H : Type*} {env : Externals} {redactions : Redactions}
    {actions actions' : List (Action H)}
    (hlike : List.Forall₂ (LikeAction env redactions) actions actions')
    (hheaders : actions.map Action.headers = actions'.map Action.headers)
    (haccepted : actions.map Action.accepted = actions'.map Action.accepted) :
    List.Forall₂ (SameAction env redactions) actions actions' := by
  induction hlike with
  | nil => exact .nil
  | cons hab _ ih =>
    obtain ⟨hhead, htail⟩ := List.cons.inj hheaders
    obtain ⟨hhead', htail'⟩ := List.cons.inj haccepted
    exact .cons (hab.sameAction hhead hhead') (ih htail htail')

/-- The text of an object with one member `password`, around the text of its value. -/
def loginText (password : List UInt8) : List UInt8 :=
  [0x7B, 0x22, 0x70, 0x61, 0x73, 0x73, 0x77, 0x6F, 0x72, 0x64, 0x22, 0x3A] ++ password ++ [0x7D]

/-- `"a"`. -/
def shortText : List UInt8 := loginText [0x22, 0x61, 0x22]

/-- `"abc"`. -/
def longText : List UInt8 := loginText [0x22, 0x61, 0x62, 0x63, 0x22]

/-- `[1,2]`. -/
def arrayText : List UInt8 := loginText [0x5B, 0x31, 0x2C, 0x32, 0x5D]

/-- `12345`. -/
def numberText : List UInt8 := loginText [0x31, 0x32, 0x33, 0x34, 0x35]

/-- A parser that knows logins with these passwords. -/
def parseLogin : Externals where
  fromSlice := fun bytes =>
    if bytes = shortText then some (.object [("password", .string "a")])
    else if bytes = longText then some (.object [("password", .string "abc")])
    else if bytes = arrayText then some (.object [("password", .array [.ofNat 1, .ofNat 2])])
    else if bytes = numberText then some (.object [("password", .ofNat 12345)])
    else none
  entropic := fun _ => false

/-- A type of logins whose password is a text. -/
def loginType : WireType where
  typeName := "Login"
  fromSlice := fun bytes =>
    if bytes = shortText ∨ bytes = longText then .ok () else .error "expected a string"
  rootSchema := ⟨.object [("title", .string "Login"), ("type", .string "object")], .empty⟩

/-- The config that redacts passwords. -/
def passwords : Redactions := Redactions.new.field "password"

/-- The captured headers of a message with a body. -/
def sizedHeaders (bytes : List UInt8) : List (String × String) :=
  [("content-length", toString bytes.length)]

/-- The steps that record a login whose response repeats the request, and declare its type. -/
def login (bytes : List UInt8) : List (Action Nat) :=
  [.configure passwords, .push 0 .post "/login" none,
    .access 0 (.side .request (.finish none (sizedHeaders bytes) ⟨bytes, false⟩)),
    .access 0 (.side .request .store), .access 0 (.setStatus 200),
    .access 0 (.side .response (.finish none (sizedHeaders bytes) ⟨bytes, false⟩)),
    .access 0 (.side .response .store), .access 0 (.declareResponse loginType bytes)]

/-- A login that parses is captured as its value. -/
theorem fromCaptured_login {bytes : List UInt8} {v : Value}
    (hv : parseLogin.fromSlice bytes = some v) :
    BodyCapture.fromCaptured parseLogin.fromSlice none ⟨bytes, false⟩ = .json v := by
  refine BodyCapture.fromCaptured_eq_json_iff.mpr ⟨rfl, ?_, .inr rfl, hv⟩
  rintro rfl
  exact Option.some_ne_none _ hv.symm

/-- Logins with any two passwords take like steps. -/
theorem likeActions_login {bytes bytes' : List UInt8} {v w : Value}
    (hv : parseLogin.fromSlice bytes = some (.object [("password", v)]))
    (hw : parseLogin.fromSlice bytes' = some (.object [("password", w)])) :
    List.Forall₂ (LikeAction parseLogin passwords) (login bytes) (login bytes') := by
  have hexcept : EqualExcept passwords (.object [("password", v)]) (.object [("password", w)]) :=
    ⟨rfl, .inl (Finset.mem_insert_self _ _), trivial⟩
  have hcapture : SameCapture parseLogin passwords none ⟨bytes, false⟩ ⟨bytes', false⟩ :=
    .inr ⟨_, _, fromCaptured_login hv, fromCaptured_login hw, hexcept⟩
  have hheaders : LikeHeaders ⟨bytes, false⟩ ⟨bytes', false⟩ (sizedHeaders bytes)
      (sizedHeaders bytes') := .cons (.inr ⟨rfl, rfl⟩) .nil
  have hbytes : LikeBytes parseLogin passwords bytes bytes' := .inr ⟨_, _, hv, hw, hexcept⟩
  exact .cons (.refl _) (.cons (.refl _) (.cons (.finish 0 _ _ hcapture hheaders)
    (.cons (.refl _) (.cons (.refl _) (.cons (.finish 0 _ _ hcapture hheaders)
      (.cons (.refl _) (.cons (.declareResponse 0 _ hbytes) .nil)))))))

/-- A login is recorded under the config that redacts passwords. -/
theorem finishesUnder_login (bytes : List UInt8) :
    FinishesUnder passwords .new (login bytes) := by
  simp [FinishesUnder, login, Action.isFinish, Action.configAfter]

/-- What is recorded of a login. -/
def loginExchange (bytes : List UInt8) : Exchange :=
  let body := BodyCapture.json (.object [("password", .string redactedValue)])
  { Exchange.new .post "/login" none with
    request := { headers := sizedHeaders bytes, body := body }
    response := { headers := sizedHeaders bytes, body := body, status := some 200 }
    declaredResponseSchema :=
      if loginType.accepts bytes then some loginType.rootSchema else none }

namespace Recorder

/-- The steps of a login are possible and record it. -/
theorem run_login (bytes : List UInt8)
    (h : bytes ∈ [shortText, longText, arrayText, numberText]) :
    ∃ s : Recorder Nat, run (step parseLogin) (init .new) (login bytes) = some s ∧
      s.recorded = [loginExchange bytes] ∧ s.warnings = [] := by
  have hrun : (run (step parseLogin) (init .new) (login bytes)).map
      (fun s => (s.recorded, s.warnings)) = some ([loginExchange bytes], []) := by
    simp only [List.mem_cons, List.not_mem_nil, or_false] at h
    rcases h with rfl | rfl | rfl | rfl <;> rfl
  obtain ⟨s, hs, hrecorded⟩ := Option.map_eq_some_iff.mp hrun
  exact ⟨s, hs, congrArg Prod.fst hrecorded, congrArg Prod.snd hrecorded⟩

/-- Logins of equal length that are both rejected leave the same document. -/
theorem redaction_noninterference_example : ∃ s s' : Recorder Nat,
    run (step parseLogin) (init .new) (login arrayText) = some s ∧
    run (step parseLogin) (init .new) (login numberText) = some s' ∧
    buildDocument s.recorded s.warnings = buildDocument s'.recorded s'.warnings := by
  obtain ⟨s, hs, -⟩ := run_login arrayText (by simp)
  obtain ⟨s', hs', -⟩ := run_login numberText (by simp)
  have hsame : List.Forall₂ (SameAction parseLogin passwords) (login arrayText)
      (login numberText) :=
    sameActions_of_likeActions (likeActions_login rfl rfl) rfl rfl
  have hstates := redaction_noninterference parseLogin passwords .new hsame
    (finishesUnder_login arrayText) hs hs'
  exact ⟨s, s', hs, hs', hstates.2.2.2.2.1⟩

/-- The length of a redacted password stays in the recorded headers, and a type that is
declared for one password only changes the document. -/
theorem redaction_interferes :
    (List.Forall₂ (LikeAction parseLogin passwords) (login shortText) (login longText) ∧
      FinishesUnder passwords .new (login shortText) ∧
      ∃ s s' : Recorder Nat, run (step parseLogin) (init .new) (login shortText) = some s ∧
        run (step parseLogin) (init .new) (login longText) = some s' ∧
        s.recorded ≠ s'.recorded) ∧
    List.Forall₂ (LikeAction parseLogin passwords) (login longText) (login arrayText) ∧
      FinishesUnder passwords .new (login longText) ∧
      ∃ s s' : Recorder Nat, run (step parseLogin) (init .new) (login longText) = some s ∧
        run (step parseLogin) (init .new) (login arrayText) = some s' ∧
        (∀ e ∈ s.recorded, ∀ e' ∈ s'.recorded, ∀ side,
          (e.message side).headers = (e'.message side).headers) ∧
        buildDocument s.recorded s.warnings ≠ buildDocument s'.recorded s'.warnings := by
  obtain ⟨short, hshort, hshortRecorded, -⟩ := run_login shortText (by simp)
  obtain ⟨long, hlong, hlongRecorded, hlongWarnings⟩ := run_login longText (by simp)
  obtain ⟨array, harray, harrayRecorded, harrayWarnings⟩ := run_login arrayText (by simp)
  refine ⟨⟨likeActions_login rfl rfl, finishesUnder_login _, short, long, hshort, hlong, ?_⟩,
    likeActions_login rfl rfl, finishesUnder_login _, long, array, hlong, harray, ?_, ?_⟩
  · rw [hshortRecorded, hlongRecorded]
    intro heq
    have hlength : toString shortText.length = toString longText.length := by
      simpa [loginExchange, sizedHeaders] using congrArg (List.map (·.request.headers)) heq
    exact absurd (toString_injective hlength) (by decide)
  · rw [hlongRecorded, harrayRecorded]
    intro e he e' he' side
    obtain rfl := List.mem_singleton.mp he
    obtain rfl := List.mem_singleton.mp he'
    cases side <;> rfl
  · rw [hlongRecorded, harrayRecorded, hlongWarnings, harrayWarnings]
    intro heq
    have htitle := congrArg (fun document => ((responseAt document.1 "/login" "post"
      (toString 200)).bind contentSchema).bind (·.get "title")) heq
    rw [contentSchema_buildDocument, contentSchema_buildDocument] at htitle
    exact Option.some_ne_none _ htitle

end Recorder

end Cyanotype
