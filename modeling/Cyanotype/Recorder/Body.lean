import Cyanotype.Recorder.Layer

/-!
# The streaming tee

A body is polled from state to state. `TeeBody` passes every result of the
inner body on and copies at most `cap` bytes of its data aside; the callback
runs at the first poll after which nothing more can come.
-/

namespace Cyanotype

/-! ## Polled bodies -/

/-- A frame of a body. -/
inductive Frame where
  | data (bytes : List UInt8)
  | trailers (headers : List (String × List UInt8))
  deriving DecidableEq

/-- The result of one poll. -/
inductive PollFrame (ε : Type*) where
  | pending
  | frame (f : Frame)
  | error (e : ε)
  /-- `Ready(None)`. -/
  | ended

/-- A size hint: a lower bound, and an upper bound if one is known. -/
structure SizeHint where
  lower : Nat
  upper : Option Nat
  deriving DecidableEq

/-- `http_body::Body`, as a machine with states `β`. -/
structure Body (β ε : Type*) where
  pollFrame : β → PollFrame ε × β
  isEndStream : β → Bool
  sizeHint : β → SizeHint

/-- The data bytes of a result. -/
def PollFrame.data {ε : Type*} : PollFrame ε → List UInt8
  | .frame (.data bytes) => bytes
  | .frame (.trailers _) => []
  | .pending => []
  | .error _ => []
  | .ended => []

namespace Body

variable {β ε : Type*} (body : Body β ε)

/-- The state after some polls. -/
def after : Nat → β → β
  | 0, b => b
  | n + 1, b => after n (body.pollFrame b).2

/-- From a body at end of stream no frame comes any more. -/
def EndStreamSound : Prop :=
  ∀ b, body.isEndStream b = true → ∀ n f, (body.pollFrame (body.after n b)).1 ≠ .frame f

/-- The whole behaviour of a body: its data, and the error it ends with, if any. -/
inductive Delivers : β → List UInt8 → Option ε → Prop
  | ended {b : β} (h : (body.pollFrame b).1 = .ended) : Delivers b [] none
  | error {b : β} {e : ε} (h : (body.pollFrame b).1 = .error e) : Delivers b [] (some e)
  | pending {b b' : β} {data : List UInt8} {outcome : Option ε}
      (h : body.pollFrame b = (.pending, b')) (hrest : Delivers b' data outcome) :
      Delivers b data outcome
  | frame {b b' : β} {f : Frame} {data : List UInt8} {outcome : Option ε}
      (h : body.pollFrame b = (.frame f, b')) (hrest : Delivers b' data outcome) :
      Delivers b ((PollFrame.frame f : PollFrame ε).data ++ data) outcome

/-- Nothing more can come after a result that left the body in a state. -/
def Finishes (result : PollFrame ε) (b' : β) : Prop :=
  match result with
  | .pending => False
  | .frame _ => body.isEndStream b' = true
  | .error _ => True
  | .ended => True

instance (result : PollFrame ε) (b' : β) : Decidable (body.Finishes result b') := by
  cases result <;> unfold Finishes <;> infer_instance

/-- The data up to the first poll after which nothing more can come, if one of
the next polls is such a poll. -/
def firstFinish : Nat → β → List UInt8 → Option (List UInt8)
  | 0, _, _ => none
  | n + 1, b, data =>
    let (result, b') := body.pollFrame b
    if body.Finishes result b' then some (data ++ result.data)
    else firstFinish n b' (data ++ result.data)

end Body

/-! ## The tee -/

/-- A body wrapper that tees data into a capped buffer. The callback is applied
to the captured body and acts on states `σ` outside the body. -/
structure TeeBody (β σ : Type*) where
  inner : β
  buf : List UInt8
  truncated : Bool
  cap : Nat
  onFinish : Option (CapturedBody → σ → σ)

namespace TeeBody

variable {β ε σ : Type*}

/-- `TeeBody::new`. -/
def new (inner : β) (cap : Nat) (onFinish : CapturedBody → σ → σ) : TeeBody β σ where
  inner := inner
  buf := []
  truncated := false
  cap := cap
  onFinish := some onFinish

/-- Hand what was captured to the callback, unless that was done before. -/
def finish (tee : TeeBody β σ) (s : σ) : TeeBody β σ × σ :=
  match tee.onFinish with
  | some cb => ({ tee with buf := [], onFinish := none }, cb ⟨tee.buf, tee.truncated⟩ s)
  | none => (tee, s)

/-- Copy as much of the data as the cap allows. -/
def capture (tee : TeeBody β σ) (data : List UInt8) : TeeBody β σ :=
  if tee.truncated then tee
  else
    let remaining := tee.cap - tee.buf.length
    let take := min remaining data.length
    { tee with
      buf := tee.buf ++ data.take take
      truncated := decide (take < data.length) }

/-- Copy the data of a frame, if it has any. -/
def captureFrame (tee : TeeBody β σ) : Frame → TeeBody β σ
  | .data bytes => tee.capture bytes
  | .trailers _ => tee

/-- What a tee does about a result of its inner body. -/
def onResult (body : Body β ε) (result : PollFrame ε) (tee : TeeBody β σ) (s : σ) :
    TeeBody β σ × σ :=
  match result with
  | .frame f =>
    let tee := tee.captureFrame f
    -- Some bodies are at their end as soon as the last frame was returned.
    if body.isEndStream tee.inner then tee.finish s else (tee, s)
  | .error _ => tee.finish s
  | .ended => tee.finish s
  | .pending => (tee, s)

/-- `TeeBody::poll_frame`: poll the body, and capture what it gives. -/
def pollFrame (body : Body β ε) (tee : TeeBody β σ) (s : σ) : PollFrame ε × TeeBody β σ × σ :=
  let (result, inner) := body.pollFrame tee.inner
  (result, onResult body result { tee with inner := inner } s)

/-- The tee is a body again, with the state its callback acts on. -/
def asBody (body : Body β ε) : Body (TeeBody β σ × σ) ε where
  pollFrame := fun (tee, s) => tee.pollFrame body s
  isEndStream := fun (tee, _) => body.isEndStream tee.inner
  sizeHint := fun (tee, _) => body.sizeHint tee.inner

/-- The capture of some data under a cap. -/
def captureOf (cap : Nat) (data : List UInt8) : CapturedBody where
  bytes := data.take cap
  truncated := decide (cap < data.length)

/-- The tee holds the capture of the data so far and has not called back. -/
structure Armed (tee : TeeBody β σ) (cap : Nat) (onFinish : CapturedBody → σ → σ)
    (data : List UInt8) : Prop where
  buf : tee.buf = (captureOf cap data).bytes
  truncated : tee.truncated = (captureOf cap data).truncated
  cap : tee.cap = cap
  onFinish : tee.onFinish = some onFinish

theorem armed_new (inner : β) (cap : Nat) (onFinish : CapturedBody → σ → σ) :
    (new inner cap onFinish).Armed cap onFinish [] := ⟨by simp [new, captureOf], rfl, rfl, rfl⟩

theorem Armed.withInner {tee : TeeBody β σ} {cap : Nat} {f : CapturedBody → σ → σ}
    {data : List UInt8} (h : tee.Armed cap f data) (inner : β) :
    Armed { tee with inner := inner } cap f data := ⟨h.buf, h.truncated, h.cap, h.onFinish⟩

/-- Capturing more data keeps the capture of all of it, however it is split. -/
theorem Armed.capture {tee : TeeBody β σ} {cap : Nat} {f : CapturedBody → σ → σ}
    {data : List UInt8} (h : tee.Armed cap f data) (bytes : List UInt8) :
    (tee.capture bytes).Armed cap f (data ++ bytes) := by
  obtain ⟨hbuf, htruncated, hcap, hfinish⟩ := h
  simp only [captureOf] at hbuf htruncated
  unfold TeeBody.capture
  by_cases hlong : cap < data.length
  · rw [if_pos (by simpa [htruncated] using hlong)]
    refine ⟨?_, ?_, hcap, hfinish⟩
    · rw [hbuf, captureOf, List.take_append_of_le_length hlong.le]
    · rw [htruncated, captureOf, List.length_append]
      exact decide_eq_decide.mpr ⟨fun hc => by omega, fun _ => hlong⟩
  · have hall : tee.buf = data := by rw [hbuf, List.take_of_length_le (by omega)]
    rw [if_neg (by simpa [htruncated] using hlong)]
    refine ⟨?_, ?_, hcap, hfinish⟩
    · simp only [captureOf, hall, hcap]
      rw [List.take_append, List.take_of_length_le (by omega : data.length ≤ cap)]
      exact congrArg (data ++ ·) (List.take_eq_take_iff.mpr (by omega))
    · simp only [captureOf, hall, hcap, List.length_append]
      exact decide_eq_decide.mpr (by omega)

/-- Copying a frame keeps the capture of all data. -/
theorem Armed.captureFrame {tee : TeeBody β σ} {cap : Nat} {f : CapturedBody → σ → σ}
    {data : List UInt8} (h : tee.Armed cap f data) (fr : Frame) :
    (tee.captureFrame fr).Armed cap f (data ++ (PollFrame.frame fr : PollFrame ε).data) := by
  cases fr with
  | data bytes => exact h.capture bytes
  | trailers headers => rwa [PollFrame.data, List.append_nil]

@[simp] theorem captureFrame_inner (tee : TeeBody β σ) (fr : Frame) :
    (tee.captureFrame fr).inner = tee.inner := by
  cases fr with
  | data bytes =>
    unfold TeeBody.captureFrame TeeBody.capture
    split_ifs <;> rfl
  | trailers headers => rfl

@[simp] theorem captureFrame_onFinish (tee : TeeBody β σ) (fr : Frame) :
    (tee.captureFrame fr).onFinish = tee.onFinish := by
  cases fr with
  | data bytes =>
    unfold TeeBody.captureFrame TeeBody.capture
    split_ifs <;> rfl
  | trailers headers => rfl

/-- The callback is not called a second time. -/
theorem finish_of_done {tee : TeeBody β σ} (h : tee.onFinish = none) (s : σ) :
    tee.finish s = (tee, s) := by
  rw [finish, h]

/-- An armed tee hands its capture over and is done. -/
theorem Armed.finish {tee : TeeBody β σ} {cap : Nat} {f : CapturedBody → σ → σ}
    {data : List UInt8} (h : tee.Armed cap f data) (s : σ) :
    tee.finish s = ({ tee with buf := [], onFinish := none }, f (captureOf cap data) s) := by
  have hcapture : captureOf cap data = ⟨tee.buf, tee.truncated⟩ := by
    rw [h.buf, h.truncated]
  rw [TeeBody.finish, h.onFinish, hcapture]

/-- A tee that is done changes nothing outside. -/
theorem onResult_of_done (body : Body β ε) (result : PollFrame ε) {tee : TeeBody β σ}
    (h : tee.onFinish = none) (s : σ) :
    ∃ tee', tee'.onFinish = none ∧ onResult body result tee s = (tee', s) := by
  unfold onResult
  cases result with
  | pending => exact ⟨tee, h, rfl⟩
  | error e => exact ⟨tee, h, finish_of_done h s⟩
  | ended => exact ⟨tee, h, finish_of_done h s⟩
  | frame fr =>
    have hcaptured := (captureFrame_onFinish tee fr).trans h
    exact ⟨_, hcaptured, by simp only [finish_of_done hcaptured, ite_self]⟩

/-- When nothing more can come, an armed tee calls back with all data. -/
theorem Armed.onResult_of_finishes (body : Body β ε) {result : PollFrame ε} {tee : TeeBody β σ}
    {cap : Nat} {f : CapturedBody → σ → σ} {data : List UInt8} (h : tee.Armed cap f data) (s : σ)
    (hfinishes : body.Finishes result tee.inner) :
    ∃ tee', tee'.onFinish = none ∧
      onResult body result tee s = (tee', f (captureOf cap (data ++ result.data)) s) := by
  unfold onResult
  cases result with
  | pending => exact hfinishes.elim
  | error e => exact ⟨_, rfl, by rw [PollFrame.data, List.append_nil]; exact h.finish s⟩
  | ended => exact ⟨_, rfl, by rw [PollFrame.data, List.append_nil]; exact h.finish s⟩
  | frame fr =>
    have hend : body.isEndStream tee.inner = true := hfinishes
    simp only [captureFrame_inner, hend, if_true]
    exact ⟨_, rfl, (h.captureFrame fr).finish s⟩

/-- As long as more can come, an armed tee copies the data and stays armed. -/
theorem Armed.onResult_of_not_finishes (body : Body β ε) {result : PollFrame ε}
    {tee : TeeBody β σ} {cap : Nat} {f : CapturedBody → σ → σ} {data : List UInt8}
    (h : tee.Armed cap f data) (s : σ) (hfinishes : ¬ body.Finishes result tee.inner) :
    ∃ tee', tee'.Armed cap f (data ++ result.data) ∧ tee'.inner = tee.inner ∧
      onResult body result tee s = (tee', s) := by
  unfold onResult
  cases result with
  | pending => exact ⟨tee, by rwa [PollFrame.data, List.append_nil], rfl, rfl⟩
  | error e => exact absurd trivial hfinishes
  | ended => exact absurd trivial hfinishes
  | frame fr =>
    have hend : ¬ body.isEndStream tee.inner = true := hfinishes
    simp only [captureFrame_inner, hend]
    exact ⟨_, h.captureFrame fr, captureFrame_inner tee fr, rfl⟩

/-- After the callback the outside state does not change any more. -/
theorem after_of_done (body : Body β ε) (n : Nat) {tee : TeeBody β σ} (s : σ)
    (h : tee.onFinish = none) : ((asBody body).after n (tee, s)).2 = s := by
  induction n generalizing tee with
  | zero => rfl
  | succ n ih =>
    have hpolled : ({ tee with inner := (body.pollFrame tee.inner).2 } : TeeBody β σ).onFinish =
      none := h
    obtain ⟨tee', hdone, hresult⟩ :=
      onResult_of_done body (body.pollFrame tee.inner).1 hpolled s
    have hstep : ((asBody body).pollFrame (tee, s)).2 = (tee', s) := hresult
    rw [Body.after, hstep]
    exact ih hdone

/-- After any number of polls an armed tee has called back with the capture of
the data up to the first poll after which nothing more could come, or not yet. -/
theorem Armed.after (body : Body β ε) (n : Nat) {tee : TeeBody β σ} {cap : Nat}
    {f : CapturedBody → σ → σ} {data : List UInt8} (h : tee.Armed cap f data) (s : σ) :
    ((asBody body).after n (tee, s)).2 =
      match body.firstFinish n tee.inner data with
      | none => s
      | some all => f (captureOf cap all) s := by
  induction n generalizing tee data with
  | zero => rfl
  | succ n ih =>
    have hpolled := h.withInner (body.pollFrame tee.inner).2
    rw [Body.after, Body.firstFinish]
    by_cases hfinishes :
        body.Finishes (body.pollFrame tee.inner).1 (body.pollFrame tee.inner).2
    · obtain ⟨tee', hdone, hresult⟩ := hpolled.onResult_of_finishes body s hfinishes
      have hstep : ((asBody body).pollFrame (tee, s)).2 =
          (tee', f (captureOf cap (data ++ (body.pollFrame tee.inner).1.data)) s) := hresult
      simp only [if_pos hfinishes, hstep]
      exact after_of_done body n _ hdone
    · obtain ⟨tee', harmed, hinner, hresult⟩ :=
        hpolled.onResult_of_not_finishes body s hfinishes
      have hstep : ((asBody body).pollFrame (tee, s)).2 = (tee', s) := hresult
      simp only [if_neg hfinishes, hstep]
      rw [ih harmed, hinner]

end TeeBody

/-! ## Complete samples -/

namespace Body

variable {β ε : Type*} {body : Body β ε}

/-- A body from which no frame comes has no data left. -/
theorem Delivers.eq_nil {b : β} {data : List UInt8} {outcome : Option ε}
    (h : body.Delivers b data outcome)
    (hnone : ∀ n f, (body.pollFrame (body.after n b)).1 ≠ .frame f) : data = [] := by
  induction h with
  | ended h => rfl
  | error h => rfl
  | pending h hrest ih =>
    refine ih fun n f => ?_
    have hnext := hnone (n + 1) f
    rwa [after, h] at hnext
  | frame h hrest ih =>
    have hfirst := hnone 0
    rw [after, h] at hfirst
    exact absurd rfl (hfirst _)

/-- Up to the poll at which the callback runs, all data of the body was delivered. -/
theorem Delivers.eq_of_firstFinish (hsound : body.EndStreamSound) {b : β} {data : List UInt8}
    {outcome : Option ε} (h : body.Delivers b data outcome) {n : Nat} {acc all : List UInt8}
    (hfinish : body.firstFinish n b acc = some all) : all = acc ++ data := by
  induction h generalizing n acc with
  | @ended b h =>
    cases n with
    | zero => cases hfinish
    | succ n =>
      have hpoll : body.pollFrame b = (.ended, (body.pollFrame b).2) := Prod.ext h rfl
      rw [firstFinish, hpoll] at hfinish
      exact (Option.some.inj hfinish).symm
  | @error b e h =>
    cases n with
    | zero => cases hfinish
    | succ n =>
      have hpoll : body.pollFrame b = (.error e, (body.pollFrame b).2) := Prod.ext h rfl
      rw [firstFinish, hpoll] at hfinish
      exact (Option.some.inj hfinish).symm
  | pending h hrest ih =>
    cases n with
    | zero => cases hfinish
    | succ n =>
      rw [firstFinish, h] at hfinish
      rw [ih hfinish, PollFrame.data, List.append_nil]
  | @frame b b' f data outcome h hrest ih =>
    cases n with
    | zero => cases hfinish
    | succ n =>
      rw [firstFinish, h] at hfinish
      simp only at hfinish
      split_ifs at hfinish with hend
      · rw [hrest.eq_nil (hsound b' hend), List.append_nil]
        exact (Option.some.inj hfinish).symm
      · rw [ih hfinish, List.append_assoc]

/-- A body that comes to its end makes the callback run, with all its data. -/
theorem Delivers.exists_firstFinish (hsound : body.EndStreamSound) {b : β} {data : List UInt8}
    {outcome : Option ε} (h : body.Delivers b data outcome) (acc : List UInt8) :
    ∃ n, body.firstFinish n b acc = some (acc ++ data) := by
  have hex : ∃ n all, body.firstFinish n b acc = some all := by
    induction h generalizing acc with
    | @ended b h =>
      have hpoll : body.pollFrame b = (.ended, (body.pollFrame b).2) := Prod.ext h rfl
      exact ⟨1, _, by rw [firstFinish, hpoll]; rfl⟩
    | @error b e h =>
      have hpoll : body.pollFrame b = (.error e, (body.pollFrame b).2) := Prod.ext h rfl
      exact ⟨1, _, by rw [firstFinish, hpoll]; rfl⟩
    | pending h hrest ih =>
      obtain ⟨n, all, hn⟩ := ih (acc ++ (PollFrame.pending : PollFrame ε).data)
      exact ⟨n + 1, all, by rw [firstFinish, h]; exact hn⟩
    | @frame b b' f data outcome h hrest ih =>
      obtain ⟨n, all, hn⟩ := ih (acc ++ (PollFrame.frame f : PollFrame ε).data)
      by_cases hend : body.Finishes (.frame f) b'
      · exact ⟨1, _, by rw [firstFinish, h]; exact if_pos hend⟩
      · exact ⟨n + 1, all, by rw [firstFinish, h]; exact (if_neg hend).trans hn⟩
  obtain ⟨n, all, hn⟩ := hex
  exact ⟨n, by rw [hn, h.eq_of_firstFinish hsound hn]⟩

end Body

/-- The recording after some polls of a side's tee. -/
def recordingAfter {β ε : Type*} (env : Externals) (config : Redactions) (side : Side)
    (method : Method) (route : String) (contentType : Option String)
    (headers : List (String × String)) (cap : Nat) (body : Body β ε) (b : β) (n : Nat)
    (recording : Recording) : Recording :=
  ((TeeBody.asBody body).after n (TeeBody.new b cap
    (recordSide env config side method route contentType headers), recording)).2

/-- A tee records once, when its body is first seen to finish, and all that came before. -/
theorem recordingAfter_eq {β ε : Type*} (env : Externals) (config : Redactions) (side : Side)
    (method : Method) (route : String) (contentType : Option String)
    (headers : List (String × String)) (cap : Nat) (body : Body β ε) (b : β) (n : Nat)
    (recording : Recording) :
    recordingAfter env config side method route contentType headers cap body b n recording =
      match body.firstFinish n b [] with
      | none => recording
      | some all => recordSide env config side method route contentType headers
          (TeeBody.captureOf cap all) recording :=
  (TeeBody.armed_new b cap _).after body n recording

/-- Every JSON sample stored for a side comes from a body that ended normally and
is the redaction of the parse of all its data, exactly when the body does not
fail after a non-empty prefix, within the cap, that is JSON by itself. -/
theorem json_sample_complete_iff {β ε : Type*} (env : Externals) (config : Redactions)
    (side : Side) (method : Method) (route : String) (contentType : Option String)
    (headers : List (String × String)) (cap : Nat) (body : Body β ε)
    (hsound : body.EndStreamSound) {b : β} {data : List UInt8} {outcome : Option ε}
    (hdelivers : body.Delivers b data outcome) (recording : Recording)
    (hfresh : (recording.exchange.message side).body = .empty) :
    (∀ n value, ((recordingAfter env config side method route contentType headers cap body b n
        recording).exchange.message side).body = .json value →
      outcome = none ∧ ∃ parsed, env.fromSlice data = some parsed ∧
        value = redactWith config parsed) ↔
    ¬ (outcome ≠ none ∧ data ≠ [] ∧ data.length ≤ cap ∧
      (BodyCapture.looksLikeJson contentType = true ∨ contentType = none) ∧
      env.fromSlice data ≠ none) := by
  constructor
  · rintro h ⟨houtcome, hnil, hcap, htype, hparse⟩
    obtain ⟨parsed, hparsed⟩ := Option.ne_none_iff_exists'.mp hparse
    obtain ⟨n, hn⟩ := hdelivers.exists_firstFinish hsound []
    refine houtcome (h n (redactWith config parsed) ?_).1
    rw [recordingAfter_eq, hn]
    simp only [recordSide, List.nil_append, Exchange.message_setMessage_body]
    refine sideBody_eq_json_iff.mpr ⟨?_, ?_, htype, parsed, ?_, rfl⟩
    · simpa [TeeBody.captureOf] using hcap
    · rwa [TeeBody.captureOf, List.take_of_length_le hcap]
    · rwa [TeeBody.captureOf, List.take_of_length_le hcap]
  · intro h n value hvalue
    rw [recordingAfter_eq] at hvalue
    cases hn : body.firstFinish n b [] with
    | none =>
      rw [hn] at hvalue
      simp only [hfresh] at hvalue
      cases hvalue
    | some all =>
      obtain rfl : all = data := hdelivers.eq_of_firstFinish hsound hn
      rw [hn] at hvalue
      simp only [recordSide, Exchange.message_setMessage_body] at hvalue
      obtain ⟨htruncated, hnil, htype, parsed, hparsed, hredacted⟩ :=
        sideBody_eq_json_iff.mp hvalue
      have hcap : all.length ≤ cap := by simpa [TeeBody.captureOf] using htruncated
      simp only [TeeBody.captureOf, List.take_of_length_le hcap] at hnil hparsed
      refine ⟨?_, parsed, hparsed, hredacted⟩
      by_contra houtcome
      exact h ⟨houtcome, hnil, hcap, htype, by simp [hparsed]⟩

/-- A body of one frame, the text `1`, that then fails or comes to its end. -/
def oneFrame (fails : Bool) : Body Bool Unit where
  pollFrame := fun sent =>
    if sent then (if fails then .error () else .ended, true)
    else (.frame (.data [0x31]), true)
  isEndStream := fun _ => false
  sizeHint := fun _ => ⟨0, none⟩

/-- From the body at end of stream no frame comes any more. -/
theorem oneFrame_endStreamSound (fails : Bool) : (oneFrame fails).EndStreamSound :=
  fun _ h => absurd h Bool.false_ne_true

/-- The body delivers one byte, and ends or fails. -/
theorem oneFrame_delivers (fails : Bool) :
    (oneFrame fails).Delivers false [0x31] (if fails then some () else none) := by
  have hpoll : (oneFrame fails).pollFrame false = (.frame (.data [0x31]), true) := rfl
  rw [← List.append_nil [0x31]]
  refine Body.Delivers.frame hpoll ?_
  cases fails
  · exact .ended rfl
  · exact .error rfl

/-- The body that ends normally is stored as the number it is. -/
theorem json_sample_complete_example : (none : Option Unit) = none ∧ ∃ parsed,
    parseDigits.fromSlice [0x31] = some parsed ∧ Value.ofNat 1 = redactWith .new parsed :=
  (json_sample_complete_iff parseDigits .new .response .get "/" (some "application/json") []
    captureCapBytes (oneFrame false) (oneFrame_endStreamSound false)
    (oneFrame_delivers false) ⟨.new .get "/" none, []⟩ rfl).mpr
    (fun h => h.1 rfl) 2 (.ofNat 1) (by rfl)

/-- A body cut off by an error after `1` is stored as the number 1. -/
theorem json_sample_of_failed_body :
    (oneFrame true).EndStreamSound ∧ (oneFrame true).Delivers false [0x31] (some ()) ∧
    ¬ ∀ n value, ((recordingAfter parseDigits .new .response .get "/" (some "application/json") []
        captureCapBytes (oneFrame true) false n
        ⟨.new .get "/" none, []⟩).exchange.message .response).body = .json value →
      some () = none ∧ ∃ parsed, parseDigits.fromSlice [0x31] = some parsed ∧
        value = redactWith .new parsed := by
  refine ⟨oneFrame_endStreamSound true, oneFrame_delivers true, fun h => ?_⟩
  exact absurd (h 2 (.ofNat 1) (by rfl)).1 (Option.some_ne_none _)

end Cyanotype
