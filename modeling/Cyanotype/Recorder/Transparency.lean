import Cyanotype.Recorder.Body

/-!
# The tee is transparent

Whoever polls a tee sees the inner body, and the callback is called once, with the
capture of the data delivered until then. How the data is split into frames makes
no difference to it.
-/

namespace Cyanotype

/-! ## What a body delivers -/

namespace Body

variable {β ε : Type*} (body : Body β ε)

/-- The data of the first polls. -/
def delivered : Nat → β → List UInt8
  | 0, _ => []
  | n + 1, b => (body.pollFrame b).1.data ++ delivered n (body.pollFrame b).2

/-- Nothing more can come after the poll that follows some polls. -/
def FinishesAt (b : β) (k : Nat) : Prop :=
  body.Finishes (body.pollFrame (body.after k b)).1 (body.pollFrame (body.after k b)).2

variable {body}

/-- The first finishing poll, with the data up to it. -/
theorem exists_of_firstFinish {n : Nat} {b : β} {data all : List UInt8}
    (h : body.firstFinish n b data = some all) :
    ∃ k < n, body.FinishesAt b k ∧ (∀ j < k, ¬ body.FinishesAt b j) ∧
      all = data ++ body.delivered (k + 1) b := by
  induction n generalizing b data with
  | zero => cases h
  | succ n ih =>
    rw [firstFinish] at h
    by_cases hfinishes : body.Finishes (body.pollFrame b).1 (body.pollFrame b).2
    · simp only [if_pos hfinishes, Option.some.injEq] at h
      refine ⟨0, Nat.succ_pos n, hfinishes, fun j hj => absurd hj (Nat.not_lt_zero j), ?_⟩
      rw [← h, delivered, delivered, List.append_nil]
    · simp only [if_neg hfinishes] at h
      obtain ⟨k, hk, hat, hbefore, rfl⟩ := ih h
      refine ⟨k + 1, Nat.succ_lt_succ hk, hat, ?_, ?_⟩
      · rintro (_ | j) hj
        · exact hfinishes
        · exact hbefore j (Nat.lt_of_succ_lt_succ hj)
      · exact List.append_assoc ..

/-- As long as there is no finishing poll, every poll leaves more to come. -/
theorem not_finishesAt_of_firstFinish {n : Nat} {b : β} {data : List UInt8}
    (h : body.firstFinish n b data = none) : ∀ k < n, ¬ body.FinishesAt b k := by
  induction n generalizing b data with
  | zero => exact fun k hk => absurd hk (Nat.not_lt_zero k)
  | succ n ih =>
    rw [firstFinish] at h
    by_cases hfinishes : body.Finishes (body.pollFrame b).1 (body.pollFrame b).2
    · simp only [if_pos hfinishes] at h
      cases h
    · simp only [if_neg hfinishes] at h
      rintro (_ | k) hk
      · exact hfinishes
      · exact ih h k (Nat.lt_of_succ_lt_succ hk)

end Body

/-! ## What the tee adds -/

namespace TeeBody

variable {β ε σ : Type*}

@[simp] theorem finish_inner (tee : TeeBody β σ) (s : σ) : (tee.finish s).1.inner = tee.inner := by
  unfold finish
  split <;> rfl

/-- Whatever the tee does about a result, the inner body stays. -/
theorem onResult_inner (body : Body β ε) (result : PollFrame ε) (tee : TeeBody β σ) (s : σ) :
    (onResult body result tee s).1.inner = tee.inner := by
  unfold onResult
  cases result with
  | pending => rfl
  | error e => exact finish_inner tee s
  | ended => exact finish_inner tee s
  | frame f =>
    simp only [captureFrame_inner]
    split_ifs
    · rw [finish_inner, captureFrame_inner]
    · exact captureFrame_inner tee f

/-- After the callback there is none left. -/
theorem finish_onFinish (tee : TeeBody β σ) (s : σ) : (tee.finish s).1.onFinish = none := by
  unfold finish
  cases h : tee.onFinish with
  | none => exact h
  | some cb => rfl

/-- The callback is used up by a result after which nothing more can come. -/
theorem onResult_onFinish_eq_none_iff (body : Body β ε) (result : PollFrame ε)
    {tee : TeeBody β σ} (h : tee.onFinish ≠ none) (s : σ) :
    (onResult body result tee s).1.onFinish = none ↔ body.Finishes result tee.inner := by
  unfold onResult Body.Finishes
  cases result with
  | pending => exact iff_of_false h id
  | error e => exact iff_of_true (finish_onFinish tee s) trivial
  | ended => exact iff_of_true (finish_onFinish tee s) trivial
  | frame f =>
    simp only [captureFrame_inner]
    split_ifs with hend
    · exact iff_of_true (finish_onFinish _ s) hend
    · exact iff_of_false (by rwa [captureFrame_onFinish]) hend

/-- Polling the tee polls the inner body. -/
theorem after_inner (body : Body β ε) (n : Nat) (tee : TeeBody β σ) (s : σ) :
    ((asBody body).after n (tee, s)).1.inner = body.after n tee.inner := by
  induction n generalizing tee s with
  | zero => rfl
  | succ n ih => exact (ih _ _).trans (congrArg (body.after n) (onResult_inner body _ _ s))

/-- The side buffer is within the cap. -/
structure Within (tee : TeeBody β σ) (cap : Nat) : Prop where
  cap_eq : tee.cap = cap
  buf_le : tee.buf.length ≤ cap

/-- Whatever is captured, the buffer stays within the cap. -/
theorem Within.capture {tee : TeeBody β σ} {cap : Nat} (h : tee.Within cap)
    (data : List UInt8) : (tee.capture data).Within cap := by
  obtain ⟨hcap, hbuf⟩ := h
  unfold TeeBody.capture
  split_ifs
  · exact ⟨hcap, hbuf⟩
  · refine ⟨hcap, ?_⟩
    simp only [List.length_append, List.length_take, hcap]
    omega

theorem Within.captureFrame {tee : TeeBody β σ} {cap : Nat} (h : tee.Within cap) (f : Frame) :
    (tee.captureFrame f).Within cap := by
  cases f with
  | data bytes => exact h.capture bytes
  | trailers headers => exact h

theorem Within.finish {tee : TeeBody β σ} {cap : Nat} (h : tee.Within cap) (s : σ) :
    (tee.finish s).1.Within cap := by
  unfold TeeBody.finish
  split
  · exact ⟨h.cap_eq, Nat.zero_le cap⟩
  · exact h

theorem Within.onResult (body : Body β ε) (result : PollFrame ε) {tee : TeeBody β σ} {cap : Nat}
    (h : tee.Within cap) (s : σ) : (onResult body result tee s).1.Within cap := by
  unfold TeeBody.onResult
  cases result with
  | pending => exact h
  | error e => exact h.finish s
  | ended => exact h.finish s
  | frame f =>
    simp only
    split_ifs
    · exact (h.captureFrame f).finish s
    · exact h.captureFrame f

/-- No poll fills the side buffer beyond the cap. -/
theorem Within.after (body : Body β ε) (n : Nat) {tee : TeeBody β σ} {cap : Nat}
    (h : tee.Within cap) (s : σ) : ((asBody body).after n (tee, s)).1.Within cap := by
  induction n generalizing tee s with
  | zero => exact h
  | succ n ih =>
    have hpolled : ({ tee with inner := (body.pollFrame tee.inner).2 } : TeeBody β σ).Within cap :=
      ⟨h.cap_eq, h.buf_le⟩
    exact ih (hpolled.onResult body (body.pollFrame tee.inner).1 s) _

/-- As long as more can come, the tee holds the capture of the data so far. -/
theorem Armed.after_of_firstFinish (body : Body β ε) (n : Nat) {tee : TeeBody β σ} {cap : Nat}
    {f : CapturedBody → σ → σ} {data : List UInt8} (h : tee.Armed cap f data) (s : σ)
    (hnone : body.firstFinish n tee.inner data = none) :
    ((asBody body).after n (tee, s)).1.Armed cap f (data ++ body.delivered n tee.inner) := by
  induction n generalizing tee data with
  | zero => rwa [Body.delivered, List.append_nil]
  | succ n ih =>
    have hpolled := h.withInner (body.pollFrame tee.inner).2
    rw [Body.firstFinish] at hnone
    by_cases hfinishes : body.Finishes (body.pollFrame tee.inner).1 (body.pollFrame tee.inner).2
    · simp only [if_pos hfinishes] at hnone
      cases hnone
    · simp only [if_neg hfinishes] at hnone
      obtain ⟨tee', harmed, hinner, hresult⟩ :=
        hpolled.onResult_of_not_finishes body s hfinishes
      have hstep : ((asBody body).pollFrame (tee, s)).2 = (tee', s) := hresult
      rw [Body.after, hstep, Body.delivered, ← List.append_assoc]
      have hnext := ih harmed
      rw [hinner] at hnext
      exact hnext hnone

/-- Keep a record of what the callback is called with. -/
def recordCall (captured : CapturedBody) (calls : List CapturedBody) : List CapturedBody :=
  calls ++ [captured]

/-- The tee and the calls of its callback after some polls. -/
def polled (body : Body β ε) (cap : Nat) (b : β) (n : Nat) :
    TeeBody β (List CapturedBody) × List CapturedBody :=
  (asBody body).after n (new b cap recordCall, [])

/-- The callback has been called at the first finishing poll, or else not at all. -/
theorem polled_calls (body : Body β ε) (cap : Nat) (b : β) (n : Nat) :
    (polled body cap b n).2 = ((body.firstFinish n b []).map (captureOf cap)).toList := by
  rw [polled, (armed_new b cap recordCall).after body n []]
  cases h : body.firstFinish n b [] with
  | none => simp [new, h]
  | some all => simp [new, h, recordCall]

/-- After any number of polls, the tee answers as the inner body does, and its buffer
is within the cap. The callback has been called once if some poll was a finishing
one, and otherwise not yet. It was called with the data delivered up to the first
such poll, cut at the cap; until then the tee holds the data delivered so far, cut
at the cap. A body that is polled to its end is captured by its data alone. -/
theorem tee_transparent (body : Body β ε) (hsound : body.EndStreamSound) (cap : Nat) (b : β)
    (n : Nat) :
    ((asBody body).pollFrame (polled body cap b n)).1 = (body.pollFrame (body.after n b)).1 ∧
    (asBody body).isEndStream (polled body cap b n) = body.isEndStream (body.after n b) ∧
    (asBody body).sizeHint (polled body cap b n) = body.sizeHint (body.after n b) ∧
    (polled body cap b n).1.buf.length ≤ cap ∧
    (polled body cap b n).2.length ≤ 1 ∧
    ((polled body cap b n).2.length = 1 ↔ ∃ k < n, body.FinishesAt b k) ∧
    (∀ captured ∈ (polled body cap b n).2, ∃ k < n, body.FinishesAt b k ∧
      (∀ j < k, ¬ body.FinishesAt b j) ∧
      captured.bytes = (body.delivered (k + 1) b).take cap ∧
      (captured.truncated = true ↔ cap < (body.delivered (k + 1) b).length)) ∧
    ((polled body cap b n).2 = [] →
      (polled body cap b n).1.buf = (body.delivered n b).take cap ∧
      ((polled body cap b n).1.truncated = true ↔ cap < (body.delivered n b).length)) ∧
    ∀ data outcome, body.Delivers b data outcome → ∀ captured ∈ (polled body cap b n).2,
      captured.bytes = data.take cap ∧ (captured.truncated = true ↔ cap < data.length) := by
  have hinner : (polled body cap b n).1.inner = body.after n b := after_inner body n _ _
  have hwithin : (new b cap recordCall).Within cap := ⟨rfl, Nat.zero_le cap⟩
  refine ⟨?_, ?_, ?_, (hwithin.after body n []).buf_le, ?_⟩
  · exact congrArg (fun b => (body.pollFrame b).1) hinner
  · exact congrArg body.isEndStream hinner
  · exact congrArg body.sizeHint hinner
  rw [polled_calls]
  cases hfinish : body.firstFinish n b [] with
  | none =>
    have hnot := Body.not_finishesAt_of_firstFinish hfinish
    have harmed := (armed_new b cap recordCall).after_of_firstFinish body n [] hfinish
    rw [List.nil_append] at harmed
    refine ⟨Nat.zero_le 1, ?_, by simp, fun _ => ⟨harmed.buf, ?_⟩, by simp⟩
    · refine iff_of_false (by simp) ?_
      rintro ⟨k, hk, hat⟩
      exact hnot k hk hat
    · rw [polled, harmed.truncated]
      exact decide_eq_true_iff
  | some all =>
    obtain ⟨k, hk, hat, hbefore, hall⟩ := Body.exists_of_firstFinish hfinish
    rw [List.nil_append] at hall
    have honly : ∀ captured ∈ (Option.map (captureOf cap) (some all)).toList,
        captured = captureOf cap all := by simp
    refine ⟨Nat.le_refl 1, iff_of_true rfl ⟨k, hk, hat⟩, ?_, by simp, ?_⟩
    · intro captured hmem
      obtain rfl := honly captured hmem
      refine ⟨k, hk, hat, hbefore, ?_⟩
      rw [← hall]
      exact ⟨rfl, decide_eq_true_iff⟩
    · intro data outcome hdelivers captured hmem
      obtain rfl := honly captured hmem
      obtain rfl := hdelivers.eq_of_firstFinish hsound hfinish
      exact ⟨rfl, decide_eq_true_iff⟩

/-- A body of one frame is captured when it comes to its end. -/
theorem tee_transparent_example :
    (polled (oneFrame false) 10 false 2).2.length = 1 ∧
      ∀ captured ∈ (polled (oneFrame false) 10 false 2).2, captured.bytes = [0x31] := by
  obtain ⟨-, -, -, -, -, honce, -, -, hdata⟩ :=
    tee_transparent (oneFrame false) (oneFrame_endStreamSound false) 10 false 2
  refine ⟨honce.mpr ⟨1, by decide, trivial⟩, fun captured hmem => ?_⟩
  exact (hdata _ _ (oneFrame_delivers false) captured hmem).1

end TeeBody

end Cyanotype
