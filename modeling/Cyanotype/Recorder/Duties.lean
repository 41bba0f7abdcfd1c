import Cyanotype.Recorder.Threads

/-!
# Who may do what

A body is recorded and a status stored once for each exchange: it takes a callback that
is called once, or the future that stores the status. Such a duty is with one call, or
with whoever has the right to it, and calls that begin and return hand it on.
-/

namespace Cyanotype

variable {T H : Type}

/-- What is done once about an exchange. -/
inductive Duty where
  /-- Record the body of a side. -/
  | tee (side : Side)
  /-- Store the status. -/
  | answer

/-- What a call is to do, or what its caller may do when it returns. The response's tee is
made once the status is stored. -/
def Call.duties : Call H → List (H × Duty)
  | push h _ _ _ => [(h, .tee .request), (h, .tee .response), (h, .answer)]
  | recordSide h side _ _ _ _ _ => [(h, .tee side)]
  | setStatus h _ => [(h, .answer), (h, .tee .response)]
  | _ => []

/-- What a step of the recorder does once. -/
def Action.duty : Action H → Option (H × Duty)
  | push h _ _ _ => some (h, .answer)
  | access h (.side side _) => some (h, .tee side)
  | access h (.setStatus _) => some (h, .answer)
  | _ => none

namespace Rights

/-- What the rights to an exchange allow to do. -/
def allows (r : Rights) : Duty → Bool
  | .tee .request => r.callback .request
  | .tee .response => r.callback .response || r.answer
  | .answer => r.answer

/-- Somebody may do it. -/
def Allow (rights : H → Option Rights) (k : H × Duty) : Prop :=
  ∃ r, rights k.1 = some r ∧ r.allows k.2 = true

/-- Other rights to one exchange change what is allowed there, and nothing elsewhere. -/
theorem allow_update_iff [DecidableEq H] {rights : H → Option Rights} {h : H} {r : Rights}
    {k : H × Duty} :
    Allow (Function.update rights h (some r)) k ↔
      if k.1 = h then r.allows k.2 = true else Allow rights k := by
  obtain ⟨i, duty⟩ := k
  by_cases hi : i = h
  · subst hi
    simp [Allow]
  · simp [Allow, hi]

end Rights

/-- Whatever is done once is done by one call, or may be done by somebody, not both. -/
structure Exclusive (call : T → Option (Call H)) (rights : H → Option Rights) : Prop where
  once : ∀ t u c d k, call t = some c → call u = some d → k ∈ c.duties → k ∈ d.duties → t = u
  taken : ∀ t c k, call t = some c → k ∈ c.duties → ¬ Rights.Allow rights k
  known : ∀ t c k, call t = some c → k ∈ c.duties → rights k.1 ≠ none
  split : ∀ h r, rights h = some r → r.answer = true → r.callback .response = false
  pushed : ∀ t h method route security, call t = some (.push h method route security) →
    ∃ r, rights h = some r ∧ r.method = method ∧ r.route = route

theorem exclusive_init (config : Redactions) :
    Exclusive (Threads.init config : Threads T H).call (Threads.init config : Threads T H).rights :=
  ⟨nofun, nofun, nofun, nofun, nofun⟩

/-- What a caller gives up when a call begins. -/
structure Claimed (c : Call H) (rights rights' : H → Option Rights) : Prop where
  had : ∀ k ∈ c.duties, rights k.1 = none ∨ Rights.Allow rights k
  spent : ∀ k ∈ c.duties, ¬ Rights.Allow rights' k
  less : ∀ k, Rights.Allow rights' k → Rights.Allow rights k
  known : ∀ k ∈ c.duties, rights' k.1 ≠ none
  kept : ∀ h r, rights h = some r → ∃ r', rights' h = some r' ∧ r'.method = r.method ∧
    r'.route = r.route
  split : ∀ h r, rights' h = some r → r.answer = true → r.callback .response = false
  pushed : ∀ h method route security, c = .push h method route security →
    ∃ r, rights' h = some r ∧ r.method = method ∧ r.route = route

section

variable [DecidableEq H] {rights rights' : H → Option Rights} {h : H} {c : Call H}

/-- Rights to one exchange are spent. -/
theorem claimed_update {r r' : Rights}
    (hsplit : ∀ h r, rights h = some r → r.answer = true → r.callback .response = false)
    (hr : rights h = some r) (hsame : r'.method = r.method ∧ r'.route = r.route)
    (hless : ∀ k, r'.allows k = true → r.allows k = true)
    (hduties : ∀ k ∈ c.duties, k.1 = h ∧ r.allows k.2 = true ∧ r'.allows k.2 = false)
    (hanswer : r'.answer = true → r'.callback .response = false)
    (hpush : ∀ h method route security, c ≠ .push h method route security) :
    Claimed c rights (Function.update rights h (some r')) where
  had := by
    intro k hk
    obtain ⟨rfl, hallows, -⟩ := hduties k hk
    exact .inr ⟨r, hr, hallows⟩
  spent := by
    intro k hk
    obtain ⟨rfl, -, hspent⟩ := hduties k hk
    simp [Rights.allow_update_iff, hspent]
  less := by
    intro k hk
    rw [Rights.allow_update_iff] at hk
    split_ifs at hk with hkh
    · exact ⟨r, hkh ▸ hr, hless _ hk⟩
    · exact hk
  known := by
    intro k hk
    obtain ⟨rfl, -, -⟩ := hduties k hk
    simp
  kept := by
    intro i q hq
    by_cases hi : i = h
    · subst hi
      obtain rfl := Option.some.inj (hr.symm.trans hq)
      exact ⟨r', by simp, hsame⟩
    · exact ⟨q, by simpa [hi] using hq, rfl, rfl⟩
  split := by
    intro i q hq
    by_cases hi : i = h
    · subst hi
      obtain rfl : r' = q := by simpa using hq
      exact hanswer
    · exact hsplit i q (by simpa [hi] using hq)
  pushed := fun i method route security hc => absurd hc (hpush i method route security)

/-- The rights to a new exchange are not there before it is pushed. -/
theorem claimed_push {method : Method} {route : String} {security : Option SecurityScheme}
    (hsplit : ∀ h r, rights h = some r → r.answer = true → r.callback .response = false)
    (hnone : rights h = none) :
    Claimed (.push h method route security) rights
      (Function.update rights h (some { method := method, route := route })) := by
  have hallows : ∀ duty, ({ method := method, route := route } : Rights).allows duty = false := by
    rintro (_ | _) <;> try rfl
    rename_i side
    cases side <;> rfl
  have hhandle : ∀ k ∈ (Call.push h method route security).duties, k.1 = h := by
    simp [Call.duties]
  refine ⟨fun k hk => .inl (hhandle k hk ▸ hnone), ?_, ?_, ?_, ?_, ?_, ?_⟩
  · intro k hk
    simp [Rights.allow_update_iff, hhandle k hk, hallows]
  · intro k hk
    rw [Rights.allow_update_iff] at hk
    split_ifs at hk with hkh
    · rw [hallows] at hk
      cases hk
    · exact hk
  · intro k hk
    simp [hhandle k hk]
  · intro i q hq
    have hi : i ≠ h := by
      rintro rfl
      cases hnone.symm.trans hq
    exact ⟨q, by simpa [hi] using hq, rfl, rfl⟩
  · intro i q hq
    by_cases hi : i = h
    · subst hi
      obtain rfl : ({ method := method, route := route } : Rights) = q := by simpa using hq
      nofun
    · exact hsplit i q (by simpa [hi] using hq)
  · rintro i method' route' security' hc
    cases hc
    exact ⟨_, Function.update_self .., rfl, rfl⟩

/-- A call begins with the rights to it, and leaves the others. -/
theorem claimed_of_claim
    (hsplit : ∀ h r, rights h = some r → r.answer = true → r.callback .response = false)
    (hclaim : c.claim rights = some rights') : Claimed c rights rights' := by
  have hsame : ∀ {c : Call H}, c.duties = [] → (∀ h method route security,
      c ≠ .push h method route security) → Claimed c rights rights := by
    intro c hnil hpush
    refine ⟨?_, ?_, fun _ => id, ?_, fun h r hr => ⟨r, hr, rfl, rfl⟩, hsplit,
      fun h method route security hc => absurd hc (hpush h method route security)⟩ <;>
      simp [hnil]
  cases c with
  | push h method route security =>
    rw [Call.claim, Option.ite_none_right_eq_some, Option.some.injEq] at hclaim
    obtain ⟨hnone, rfl⟩ := hclaim
    exact claimed_push hsplit (Option.isNone_iff_eq_none.mp hnone)
  | recordSide h side method route contentType headers captured =>
    rw [Call.claim, Option.bind_eq_some_iff] at hclaim
    obtain ⟨r, hr, hclaim⟩ := hclaim
    rw [Option.ite_none_right_eq_some, Option.some.injEq] at hclaim
    obtain ⟨⟨-, -, hcallback⟩, rfl⟩ := hclaim
    have hanswer : side = .response → r.answer = false := by
      rintro rfl
      by_contra hanswer
      have hnot := hsplit h r hr (by simpa using hanswer)
      rw [hcallback] at hnot
      cases hnot
    refine claimed_update hsplit hr ⟨rfl, rfl⟩ ?_ ?_ ?_ nofun
    · rintro (side' | _) hk
      · cases side <;> cases side' <;> simp_all [Rights.allows, Rights.spend]
      · exact hk
    · cases side <;> simp_all [Call.duties, Rights.allows, Rights.spend]
    · intro hr'
      have hresponse := hsplit h r hr hr'
      cases side <;> simp_all [Rights.spend]
  | setStatus h status =>
    rw [Call.claim, Option.bind_eq_some_iff] at hclaim
    obtain ⟨r, hr, hclaim⟩ := hclaim
    rw [Option.ite_none_right_eq_some, Option.some.injEq] at hclaim
    obtain ⟨hanswer, rfl⟩ := hclaim
    have hresponse := hsplit h r hr hanswer
    refine claimed_update hsplit hr ⟨rfl, rfl⟩ ?_ ?_ nofun nofun
    · rintro (side | _) hk
      · cases side
        · exact hk
        · simp [Rights.allows, hanswer]
      · cases hk
    · simp [Call.duties, Rights.allows, hanswer, hresponse]
  | declareResponse h T bytes =>
    rw [Call.claim, Option.bind_eq_some_iff] at hclaim
    obtain ⟨r, -, hclaim⟩ := hclaim
    rw [Option.ite_none_right_eq_some, Option.some.injEq] at hclaim
    obtain ⟨-, rfl⟩ := hclaim
    exact hsame rfl nofun
  | configure redactions =>
    obtain rfl := Option.some.inj hclaim
    exact hsame rfl nofun
  | snapshot =>
    obtain rfl := Option.some.inj hclaim
    exact hsame rfl nofun
  | warningsSnapshot =>
    obtain rfl := Option.some.inj hclaim
    exact hsame rfl nofun

omit [DecidableEq H] in
/-- Duties stay exclusive when a call begins. -/
theorem Exclusive.begin [DecidableEq T] {call : T → Option (Call H)} {t : T}
    (h : Exclusive call rights) (hclaimed : Claimed c rights rights') :
    Exclusive (Function.update call t (some c)) rights' := by
  have hnobody : ∀ u d k, call u = some d → k ∈ d.duties → k ∉ c.duties := by
    intro u d k hu hd hk
    rcases hclaimed.had k hk with hnone | hallow
    · exact h.known u d k hu hd hnone
    · exact h.taken u d k hu hd hallow
  have hcases : ∀ u d, Function.update call t (some c) u = some d →
      (u = t ∧ d = c) ∨ (u ≠ t ∧ call u = some d) := by
    intro u d hu
    by_cases hut : u = t
    · subst hut
      exact .inl ⟨rfl, by simpa [eq_comm] using hu⟩
    · exact .inr ⟨hut, by simpa [hut] using hu⟩
  refine ⟨?_, ?_, ?_, hclaimed.split, ?_⟩
  · intro u w d e k hu hw hd he
    obtain ⟨rfl, rfl⟩ | ⟨-, hu'⟩ := hcases u d hu
    · obtain ⟨rfl, -⟩ | ⟨-, hw'⟩ := hcases w e hw
      · rfl
      · exact absurd hd (hnobody w e k hw' he)
    · obtain ⟨-, rfl⟩ | ⟨-, hw'⟩ := hcases w e hw
      · exact absurd he (hnobody u d k hu' hd)
      · exact h.once u w d e k hu' hw' hd he
  · intro u d k hu hd hallow
    obtain ⟨-, rfl⟩ | ⟨-, hu'⟩ := hcases u d hu
    · exact hclaimed.spent k hd hallow
    · exact h.taken u d k hu' hd (hclaimed.less k hallow)
  · intro u d k hu hd
    obtain ⟨-, rfl⟩ | ⟨-, hu'⟩ := hcases u d hu
    · exact hclaimed.known k hd
    · obtain ⟨r, hr⟩ := Option.ne_none_iff_exists'.mp (h.known u d k hu' hd)
      obtain ⟨r', hr', -⟩ := hclaimed.kept _ r hr
      rw [hr']
      exact Option.some_ne_none _
  · intro u i method route security hu
    obtain ⟨-, hc⟩ | ⟨-, hu'⟩ := hcases u _ hu
    · exact hclaimed.pushed i method route security hc.symm
    · obtain ⟨r, hr, rfl, rfl⟩ := h.pushed u i method route security hu'
      exact hclaimed.kept i r hr

/-- What a caller may do when a call returns. -/
structure Granted (c : Call H) (rights rights' : H → Option Rights) : Prop where
  more : ∀ k, Rights.Allow rights' k → Rights.Allow rights k ∨ k ∈ c.duties
  kept : ∀ h r, rights h = some r → ∃ r', rights' h = some r' ∧ r'.method = r.method ∧
    r'.route = r.route
  split : ∀ h r, rights' h = some r → r.answer = true → r.callback .response = false

/-- Rights to one exchange are given. -/
theorem granted_update {r r' : Rights}
    (hsplit : ∀ h r, rights h = some r → r.answer = true → r.callback .response = false)
    (hr : rights h = some r) (hsame : r'.method = r.method ∧ r'.route = r.route)
    (hmore : ∀ duty, r'.allows duty = true → r.allows duty = true ∨ (h, duty) ∈ c.duties)
    (hanswer : r'.answer = true → r'.callback .response = false) :
    Granted c rights (Function.update rights h (some r')) where
  more := by
    rintro ⟨i, duty⟩ hk
    rw [Rights.allow_update_iff] at hk
    split_ifs at hk with hi
    · obtain rfl : i = h := hi
      exact (hmore duty hk).imp_left fun hallows => ⟨r, hr, hallows⟩
    · exact .inl hk
  kept := by
    intro i q hq
    by_cases hi : i = h
    · subst hi
      obtain rfl := Option.some.inj (hr.symm.trans hq)
      exact ⟨r', by simp, hsame⟩
    · exact ⟨q, by simpa [hi] using hq, rfl, rfl⟩
  split := by
    intro i q hq
    by_cases hi : i = h
    · subst hi
      obtain rfl : r' = q := by simpa using hq
      exact hanswer
    · exact hsplit i q (by simpa [hi] using hq)

/-- A call that returns an outcome that grants rights. -/
structure Call.Returns (c : Call H) (outcome : Outcome H) : Prop where
  pushed : ∀ h, outcome = .pushed h → ∃ method route security, c = .push h method route security
  answered : ∀ h, outcome = .answered h → ∃ status, c = .setStatus h status

/-- What a call returns grants what the call has left to do. -/
theorem Exclusive.granted {call : T → Option (Call H)} {t : T} (h : Exclusive call rights)
    (ht : call t = some c) {outcome : Outcome H} (hreturns : c.Returns outcome) :
    Granted c rights (outcome.grant rights) := by
  have hnot : ∀ {i r duty}, rights i = some r → (i, duty) ∈ c.duties → r.allows duty = false := by
    intro i r duty hr hduty
    by_contra hallows
    exact h.taken t c _ ht hduty ⟨r, hr, by simpa using hallows⟩
  have hsame : Granted c rights rights :=
    ⟨fun _ => .inl, fun i r hr => ⟨r, hr, rfl, rfl⟩, h.split⟩
  cases outcome with
  | pushed i =>
    obtain ⟨method, route, security, rfl⟩ := hreturns.pushed i rfl
    have hmem : (i, Duty.tee .response) ∈ (Call.push i method route security).duties := by
      simp [Call.duties]
    obtain ⟨r, hr⟩ := Option.ne_none_iff_exists'.mp (h.known t _ _ ht hmem)
    rw [Outcome.grant, hr]
    refine granted_update h.split hr ⟨rfl, rfl⟩ (fun duty _ => .inr ?_) fun _ => ?_
    · rcases duty with (_ | _) | _ <;> simp [Call.duties]
    · have hresponse := hnot hr hmem
      simp_all [Rights.allows, Rights.give]
  | answered i =>
    obtain ⟨status, rfl⟩ := hreturns.answered i rfl
    have hmem : (i, Duty.answer) ∈ (Call.setStatus i status).duties := by simp [Call.duties]
    obtain ⟨r, hr⟩ := Option.ne_none_iff_exists'.mp (h.known t _ _ ht hmem)
    have hanswer : r.answer = false := hnot hr hmem
    rw [Outcome.grant, hr]
    refine granted_update h.split hr ⟨rfl, rfl⟩ (fun duty hduty => ?_) fun hr' => ?_
    · rcases duty with (_ | _) | _
      · exact .inl hduty
      · exact .inr (by simp [Call.duties])
      · exact .inl hduty
    · have hcontra : r.answer = true := hr'
      rw [hanswer] at hcontra
      cases hcontra
  | _ => exact hsame

/-- Duties stay exclusive when a call returns and its caller may do what the call leaves
to do. -/
theorem Exclusive.finish [DecidableEq T] {call : T → Option (Call H)} {t : T}
    (h : Exclusive call rights) (ht : call t = some c) {outcome : Outcome H}
    (hreturns : c.Returns outcome) :
    Exclusive (Function.update call t none) (outcome.grant rights) := by
  have hcall : ∀ {u d}, Function.update call t none u = some d → u ≠ t ∧ call u = some d := by
    intro u d hu
    by_cases hut : u = t
    · subst hut
      simp at hu
    · exact ⟨hut, by simpa [hut] using hu⟩
  have hgranted := h.granted ht hreturns
  refine ⟨?_, ?_, ?_, hgranted.split, ?_⟩
  · intro u w d e k hu hw hd he
    exact h.once u w d e k (hcall hu).2 (hcall hw).2 hd he
  · intro u d k hu hd hallow
    obtain ⟨hut, hu'⟩ := hcall hu
    rcases hgranted.more k hallow with hallow | hk
    · exact h.taken u d k hu' hd hallow
    · exact hut (h.once u t d c k hu' ht hd hk)
  · intro u d k hu hd
    obtain ⟨r, hr⟩ := Option.ne_none_iff_exists'.mp (h.known u d k (hcall hu).2 hd)
    obtain ⟨r', hr', -⟩ := hgranted.kept _ r hr
    rw [hr']
    exact Option.some_ne_none _
  · intro u i method route security hu
    obtain ⟨r, hr, rfl, rfl⟩ := h.pushed u i method route security (hcall hu).2
    exact hgranted.kept i r hr

end

end Cyanotype
