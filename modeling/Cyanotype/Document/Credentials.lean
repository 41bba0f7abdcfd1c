import Cyanotype.Document.Openapi
import Cyanotype.Recorder.Service

/-!
# Credentials leave no trace

Two runs take the same steps, on headers that may differ in the values of
`Authorization`. Such a value is looked at for the kind of the scheme only, so
where that is the same the two runs go through the same states.
-/

namespace Cyanotype

/-- The same headers, up to the values of `Authorization`. -/
def SameHeaders (headers headers' : HeaderMap) : Prop :=
  List.Forall₂ (fun a b => a.1 = b.1 ∧ (a.1 = .authorization ∨ a.2 = b.2)) headers headers'

/-- The captured lists are the same. -/
theorem captureHeaders_fst_eq {headers headers' : HeaderMap} (h : SameHeaders headers headers') :
    (captureHeaders headers).1 = (captureHeaders headers').1 := by
  rw [captureHeaders_fst, captureHeaders_fst]
  induction h with
  | nil => rfl
  | @cons a b headers headers' hab _ ih =>
    rw [List.map_cons, List.map_cons, ih]
    congr 1
    obtain ⟨name, value⟩ := a
    obtain ⟨name', value'⟩ := b
    obtain ⟨rfl, rfl | rfl⟩ := hab
    · rw [capturedHeader_authorization, capturedHeader_authorization]
    · rfl

/-- The content types are the same. -/
theorem contentTypeOf_eq {headers headers' : HeaderMap} (h : SameHeaders headers headers') :
    contentTypeOf headers = contentTypeOf headers' := by
  have hget : headers.get .contentType = headers'.get .contentType := by
    unfold HeaderMap.get
    induction h with
    | nil => rfl
    | @cons a b headers headers' hab _ ih =>
      obtain ⟨name, value⟩ := a
      obtain ⟨name', value'⟩ := b
      obtain ⟨rfl, hvalue⟩ := hab
      by_cases hname : name = .contentType
      · subst hname
        obtain rfl : value = value' :=
          hvalue.resolve_left (show HeaderName.contentType ≠ .authorization by decide)
        rfl
      · simpa [List.find?_cons, hname] using ih
  rw [contentTypeOf, contentTypeOf, hget]

/-- The same tee is put around a body. -/
theorem Tee.new_eq {β : Type*} (b : β) {headers headers' : HeaderMap}
    (h : SameHeaders headers headers') : Tee.new b headers = Tee.new b headers' := by
  rw [new, new, captureHeaders_fst_eq h, contentTypeOf_eq h]

/-- The same event in two runs. The headers of a request give the same kind of scheme. -/
inductive SameEvent {H β : Type*} : Event H β → Event H β → Prop
  | call (h : H) (method : Method) (matched : Option String) (path : String) (b : β)
      {headers headers' : HeaderMap} (hsame : SameHeaders headers headers')
      (hkind : (captureHeaders headers).2.map (·.kind) = (captureHeaders headers').2.map (·.kind)) :
      SameEvent (.call h method matched path headers b) (.call h method matched path headers' b)
  | respond (h : H) (status : Nat) (b : β) {headers headers' : HeaderMap}
      (hsame : SameHeaders headers headers') :
      SameEvent (.respond h status headers b) (.respond h status headers' b)
  | refl (e : Event H β) : SameEvent e e

/-- The kind of a scheme is all there is to it. -/
theorem SecurityScheme.eq_of_map_kind_eq {a b : Option SecurityScheme}
    (h : a.map (·.kind) = b.map (·.kind)) : a = b := by
  refine Option.map_injective ?_ h
  rintro ⟨na, ka, rfl⟩ ⟨nb, kb, rfl⟩ rfl
  rfl

namespace Service

variable {H β ε : Type*} [DecidableEq H] {env : Externals} {body : Body β ε}
  {events events' : List (Event H β)}

/-- The same event leads to the same state. -/
theorem step_eq_of_sameEvent {e e' : Event H β} (h : SameEvent e e') (s : Service H β) :
    s.step env body e = s.step env body e' := by
  cases h with
  | call h method matched path b hsame hkind =>
    simp only [step, SecurityScheme.eq_of_map_kind_eq hkind, Tee.new_eq b hsame]
  | respond h status b hsame => simp only [step, Tee.new_eq b hsame]
  | refl e => rfl

/-- The same events lead to the same state. -/
theorem run_eq_of_sameEvents (hsame : List.Forall₂ SameEvent events events')
    (s : Service H β) : run (step env body) s events = run (step env body) s events' := by
  induction hsame generalizing s with
  | nil => rfl
  | cons hab _ ih =>
    rw [run_cons, run_cons, step_eq_of_sameEvent hab]
    exact congrArg _ (funext ih)

end Service

/-- One captured entry for each header, under its name: the marker for an authorization
value, and any other visible-ASCII value as it is. -/
def CapturedFrom (header : HeaderName × HeaderValue) (captured : String × String) : Prop :=
  captured.1 = header.1.asStr ∧ (header.1 = .authorization → captured.2 = redactedMarker) ∧
    (header.1 ≠ .authorization → header.2.bytes.all isVisibleAscii = true →
      captured.2.toList.map Char.toNat = header.2.bytes.map UInt8.toNat)

/-- Every header is captured, in order, as the header that it was. -/
theorem capturedFrom_captureHeaders (headers : HeaderMap) :
    List.Forall₂ CapturedFrom headers (captureHeaders headers).1 := by
  rw [captureHeaders_fst, List.forall₂_map_right_iff, List.forall₂_same]
  rintro ⟨name, value⟩ -
  refine ⟨rfl, ?_, fun hname hascii => ?_⟩
  · rintro rfl
    rfl
  · have hother : name.asStr ≠ "authorization" := by
      obtain ⟨asStr, lower⟩ := name
      simpa [HeaderName.authorization] using hname
    have hcaptured : (capturedHeader (name, value)).2 = textOf value.bytes := by
      simp [capturedHeader, hother, HeaderValue.toStr, hascii]
    rw [hcaptured, textOf_toList, List.map_map]
    exact List.map_congr_left fun b _ => charOf_toNat b

namespace Service

variable {H β ε : Type*} [DecidableEq H]

/-- Two runs that take the same steps, on headers equal except for the values of
`Authorization`, end with the same exchanges, snapshots, warnings and documents,
provided that each request's headers give the same kind of scheme in both. What is
captured of headers has their names in their order, without any authorization value. -/
theorem credential_noninterference (env : Externals) (body : Body β ε) (config : Redactions)
    {events events' : List (Event H β)} (hsame : List.Forall₂ SameEvent events events')
    {s s' : Service H β} (hs : run (step env body) (init config) events = some s)
    (hs' : run (step env body) (init config) events' = some s') :
    (s.recorder.exchanges = s'.recorder.exchanges ∧
      (∀ h, s.recorder.exchangeAt h = s'.recorder.exchangeAt h) ∧
      s.recorder.warnings = s'.recorder.warnings ∧
      s.recorder.collected = s'.recorder.collected ∧
      buildDocument s.recorder.recorded s.recorder.warnings =
        buildDocument s'.recorder.recorded s'.recorder.warnings ∧
      ∀ i : Nat, s.recorder.collected[i]?.map (buildDocument · s.recorder.warnings) =
        s'.recorder.collected[i]?.map (buildDocument · s'.recorder.warnings)) ∧
    ∀ headers, List.Forall₂ CapturedFrom headers (captureHeaders headers).1 := by
  refine ⟨?_, capturedFrom_captureHeaders⟩
  have hrun : run (step env body) (init config) events =
      run (step env body) (init config) events' := run_eq_of_sameEvents hsame _
  obtain rfl : s = s' := Option.some.inj (hs.symm.trans (hrun.trans hs'))
  exact ⟨rfl, fun _ => rfl, rfl, rfl, rfl, fun _ => rfl⟩

/-- `Bearer x` for some letter. -/
def bearer (x : UInt8) (hx : isHeaderByte x = true) : HeaderValue where
  bytes := "Bearer ".toList.map (UInt8.ofNat ·.toNat) ++ [x]
  legal := by
    rw [List.all_append, List.all_cons, hx]
    rfl

/-- A call with a credential, answered with another one. -/
def authorizedCall (credential answer : HeaderValue) : List (Event Nat Bool) :=
  [.call 0 .get (some "/me") "/me" [(.ofText "AUTHORIZATION", credential)] false,
    .respond 0 200 [(.authorization, answer)] false, .poll 0 .response, .poll 0 .response]

/-- Calls with different tokens leave the same document. -/
theorem credential_noninterference_example : ∃ s s' : Service Nat Bool,
    run (step parseDigits (oneFrame false)) (init .new)
      (authorizedCall (bearer 0x61 rfl) ⟨[0x78], rfl⟩) = some s ∧
    run (step parseDigits (oneFrame false)) (init .new)
      (authorizedCall (bearer 0x62 rfl) ⟨[0xE9], rfl⟩) = some s' ∧
    buildDocument s.recorder.recorded s.recorder.warnings =
      buildDocument s'.recorder.recorded s'.recorder.warnings := by
  have henabled : ∀ credential answer, (run (step parseDigits (oneFrame false)) (init .new)
      (authorizedCall credential answer)).isSome = true := fun _ _ => rfl
  obtain ⟨s, hs⟩ := Option.isSome_iff_exists.mp (henabled (bearer 0x61 rfl) ⟨[0x78], rfl⟩)
  obtain ⟨s', hs'⟩ := Option.isSome_iff_exists.mp (henabled (bearer 0x62 rfl) ⟨[0xE9], rfl⟩)
  have hname : HeaderName.ofText "AUTHORIZATION" = .authorization := by decide
  have hsame : List.Forall₂ SameEvent
      (authorizedCall (bearer 0x61 rfl) ⟨[0x78], rfl⟩)
      (authorizedCall (bearer 0x62 rfl) ⟨[0xE9], rfl⟩) := by
    refine .cons (.call 0 .get _ _ _ (.cons ⟨rfl, .inl hname⟩ .nil) ?_)
      (.cons (.respond 0 200 _ (.cons ⟨rfl, .inl rfl⟩ .nil))
        (.cons (.refl _) (.cons (.refl _) .nil)))
    decide
  obtain ⟨⟨-, -, -, -, hdocument, -⟩, -⟩ :=
    credential_noninterference parseDigits (oneFrame false) .new hsame hs hs'
  exact ⟨s, s', hs, hs', hdocument⟩

end Service

end Cyanotype
