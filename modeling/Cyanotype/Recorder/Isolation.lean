import Cyanotype.Recorder.Store

/-!
# Concurrent exchanges

However the steps of concurrent exchanges and of snapshots interleave, the store
lists what was pushed, an exchange is what its own accesses make of it, and a
snapshot shows states that the exchanges had while it was taken.
-/

namespace Cyanotype.Recorder

open SharedExchange (new access)

variable {H : Type*} [DecidableEq H] {env : Externals} {redactions : Redactions}
  {actions : List (Action H)} {s s' : Recorder H}

/-! ## Exchanges -/

/-- The steps so far explain the store and every exchange, under one redaction config. -/
structure Tracked (env : Externals) (redactions : Redactions) (actions : List (Action H))
    (s : Recorder H) : Prop where
  config : s.config = redactions
  order : s.exchanges = actions.filterMap Action.pushed
  once : s.exchanges.Nodup
  stored : ∀ h, h ∈ s.exchanges ↔ s.heap h ≠ none
  untouched : ∀ h, s.heap h = none → accessesOf h actions = []
  alone : ∀ h shared, s.heap h = some shared → ∃ method route security,
    .push h method route security ∈ actions ∧
    run (access env redactions) (new method route security) (accessesOf h actions) = some shared

theorem tracked_init : Tracked env redactions ([] : List (Action H)) (init redactions) :=
  ⟨rfl, rfl, List.nodup_nil, fun _ => by simp [init], fun _ _ => rfl, fun _ _ h => by cases h⟩

/-- A push adds one exchange at the end, without accesses; an access is the next one of
its own exchange and of no other. No other step but a new redaction config is the
exchanges' business. -/
theorem Tracked.step (h : Tracked env redactions actions s) {a : Action H}
    (hstep : s.step env a = some s') (hfixed : a.isConfigure = false) :
    Tracked env redactions (actions ++ [a]) s' := by
  have hconfig : s'.config = s.config := by
    rw [step_config hstep]
    cases a <;> first | rfl | cases hfixed
  have hlist := step_exchanges hstep
  have hcases := step_heap_cases hstep
  refine ⟨hconfig.trans h.config, ?order, ?once, ?stored, ?untouched, ?alone⟩
  case order =>
    rw [hlist, h.order, List.filterMap_append]
    cases hpushed : a.pushed <;> simp [hpushed]
  case once =>
    rw [hlist]
    cases hpushed : a.pushed with
    | none => simpa using h.once
    | some i =>
      have hnew : i ∉ s.exchanges := by
        intro hmem
        obtain ⟨hother, -⟩ | ⟨_, _, _, -, hfresh, -⟩ | ⟨_, _, _, rfl, -⟩ := hcases i
        · exact hother hpushed
        · exact (h.stored i).mp hmem hfresh
        · cases hpushed
      rw [Option.toList_some, ← List.concat_eq_append]
      exact h.once.concat hnew
  case stored =>
    intro i
    rw [hlist, List.mem_append, h.stored i, Option.mem_toList]
    obtain ⟨hother, -, hheap⟩ | ⟨_, _, _, rfl, -, hheap⟩ | ⟨_, _, _, rfl, hshared, -, hheap⟩ :=
      hcases i
    · simp [hheap, hother]
    · simp [hheap, Action.pushed]
    · simp [hheap, hshared]
  case untouched =>
    intro i hi
    rw [accessesOf_concat]
    obtain ⟨-, haccess, hheap⟩ | ⟨_, _, _, -, -, hheap⟩ | ⟨_, _, _, -, -, -, hheap⟩ := hcases i
    · rw [haccess, h.untouched i (hheap ▸ hi)]
      rfl
    · exact absurd (hheap.symm.trans hi) (Option.some_ne_none _)
    · exact absurd (hheap.symm.trans hi) (Option.some_ne_none _)
  case alone =>
    intro i shared hi
    rw [accessesOf_concat]
    obtain ⟨-, haccess, hheap⟩ | ⟨method, route, security, rfl, hfresh, hheap⟩ |
      ⟨access, before, shared', rfl, hbefore, hstepped, hheap⟩ := hcases i
    · obtain ⟨method, route, security, hpush, hrun⟩ := h.alone i shared (hheap ▸ hi)
      rw [haccess, Option.toList_none, List.append_nil]
      exact ⟨method, route, security, List.mem_append_left _ hpush, hrun⟩
    · obtain rfl := Option.some.inj (hheap.symm.trans hi)
      rw [h.untouched i hfresh]
      exact ⟨method, route, security, by simp, rfl⟩
    · obtain rfl := Option.some.inj (hheap.symm.trans hi)
      obtain ⟨method, route, security, hpush, hrun⟩ := h.alone i before hbefore
      refine ⟨method, route, security, List.mem_append_left _ hpush, ?_⟩
      have hown : (Action.access i access).accessOf i = some access := if_pos rfl
      rw [hown, Option.toList_some, run_concat_eq_some_iff]
      exact ⟨before, hrun, h.config ▸ hstepped⟩

/-- Every run under one redaction config is accounted for. -/
theorem tracked_of_run (hrun : run (Recorder.step env) (init redactions) actions = some s)
    (hfixed : ∀ a ∈ actions, a.isConfigure = false) : Tracked env redactions actions s := by
  refine run_invariant (P := fun as t => (∀ a ∈ as, a.isConfigure = false) →
    Tracked env redactions as t) (fun _ => tracked_init) ?_ hrun hfixed
  intro as t a t' _ ih hstep hfixed
  exact (ih fun b hb => hfixed b (List.mem_append_left _ hb)).step hstep
    (hfixed a (List.mem_append_right _ (List.mem_singleton_self a)))

/-! ## Snapshots -/

/-- Some time after the beginning of a snapshot, the exchange of a handle was as given. -/
def ShownIn (env : Externals) (s₀ : Recorder H) (before during : List (Action H)) (h : H)
    (exchange : Exchange) : Prop :=
  ∃ d, d <+: during ∧ ∃ s, run (Recorder.step env) s₀ (before ++ .beginSnapshot :: d) = some s ∧
    s.exchangeAt h = some exchange

/-- The result was returned by a snapshot call among the steps: it has one entry
for each exchange in the store when the call began, in the order of the store,
and each entry is a state its exchange had during the call. -/
def Returned (env : Externals) (s₀ : Recorder H) (actions : List (Action H))
    (result : List Exchange) : Prop :=
  ∃ before during after,
    actions = before ++ .beginSnapshot :: (during ++ .endSnapshot :: after) ∧
    (∀ a ∈ during, a.isBoundary = false) ∧
    ∃ s, run (Recorder.step env) s₀ before = some s ∧
      List.Forall₂ (ShownIn env s₀ before during) s.exchanges result

/-- The snapshot in progress began at some step, and its clones are states since then. -/
def Underway (env : Externals) (s₀ : Recorder H) (actions : List (Action H))
    (snapshot : Snapshot H) : Prop :=
  ∃ before during, actions = before ++ .beginSnapshot :: during ∧
    (∀ a ∈ during, a.isBoundary = false) ∧
    (∃ s, run (Recorder.step env) s₀ before = some s ∧
      s.exchanges = snapshot.taken.map Prod.fst ++ snapshot.rest) ∧
    ∀ p ∈ snapshot.taken, ShownIn env s₀ before during p.1 p.2

variable {s₀ : Recorder H}

theorem ShownIn.mono {before during : List (Action H)} {i : H} {exchange : Exchange}
    (h : ShownIn env s₀ before during i exchange) (a : Action H) :
    ShownIn env s₀ before (during ++ [a]) i exchange := by
  obtain ⟨d, hd, hs⟩ := h
  exact ⟨d, hd.trans (List.prefix_append _ _), hs⟩

theorem Returned.mono {result : List Exchange} (h : Returned env s₀ actions result)
    (a : Action H) : Returned env s₀ (actions ++ [a]) result := by
  obtain ⟨before, during, after, rfl, hrest⟩ := h
  exact ⟨before, during, after ++ [a], by simp, hrest⟩

/-- Other steps leave a snapshot in progress as it is. -/
theorem Underway.mono {snapshot : Snapshot H} (h : Underway env s₀ actions snapshot)
    {a : Action H} (ha : a.isBoundary = false) :
    Underway env s₀ (actions ++ [a]) snapshot := by
  obtain ⟨before, during, rfl, hduring, hbegin, hshown⟩ := h
  refine ⟨before, during ++ [a], by simp, ?_, hbegin, fun p hp => (hshown p hp).mono a⟩
  intro b hb
  rcases List.mem_append.mp hb with hb | hb
  · exact hduring b hb
  · rwa [List.mem_singleton.mp hb]

/-- Reading shows the exchange as it is now. -/
theorem Underway.read {taken : List (H × Exchange)} {i : H} {rest : List H}
    (h : Underway env s₀ actions ⟨taken, i :: rest⟩)
    (hrun : run (Recorder.step env) s₀ actions = some s) {exchange : Exchange}
    (hi : s.exchangeAt i = some exchange) :
    Underway env s₀ (actions ++ [.readExchange]) ⟨taken ++ [(i, exchange)], rest⟩ := by
  obtain ⟨before, during, rfl, hduring, ⟨s₁, hbefore, hlist⟩, hshown⟩ := h
  refine ⟨before, during ++ [.readExchange], by simp, ?_, ⟨s₁, hbefore, by simp [hlist]⟩, ?_⟩
  · intro b hb
    rcases List.mem_append.mp hb with hb | hb
    · exact hduring b hb
    · rw [List.mem_singleton.mp hb]
      rfl
  · intro p hp
    rcases List.mem_append.mp hp with hp | hp
    · exact (hshown p hp).mono _
    · obtain rfl := List.mem_singleton.mp hp
      exact ⟨during, List.prefix_append _ _, s, hrun, hi⟩

/-- When all exchanges are read, the clones are the result. -/
theorem Underway.end {taken : List (H × Exchange)} (h : Underway env s₀ actions ⟨taken, []⟩) :
    Returned env s₀ (actions ++ [.endSnapshot]) (taken.map Prod.snd) := by
  obtain ⟨before, during, rfl, hduring, ⟨s₁, hbefore, hlist⟩, hshown⟩ := h
  refine ⟨before, during, [], by simp, hduring, s₁, hbefore, ?_⟩
  rw [hlist, List.append_nil, List.forall₂_map_left_iff, List.forall₂_map_right_iff,
    List.forall₂_same]
  exact hshown

/-- The snapshots of a run: those returned, and the one in progress. -/
structure Snapshots (env : Externals) (s₀ : Recorder H) (actions : List (Action H))
    (s : Recorder H) : Prop where
  returned : ∀ result ∈ s.collected, Returned env s₀ actions result
  underway : ∀ snapshot, s.snapshot = some snapshot → Underway env s₀ actions snapshot

/-- A step that is no part of a snapshot keeps the account of the snapshots. -/
theorem Snapshots.frame (h : Snapshots env s₀ actions s) {a : Action H}
    (ha : a.isBoundary = false) (hcollected : s'.collected = s.collected)
    (hsnapshot : s'.snapshot = s.snapshot) : Snapshots env s₀ (actions ++ [a]) s' := by
  refine ⟨?_, ?_⟩
  · rw [hcollected]
    exact fun result hresult => (h.returned result hresult).mono a
  · rw [hsnapshot]
    exact fun snapshot hs => (h.underway snapshot hs).mono ha

/-- Every step keeps the account of the snapshots. -/
theorem Snapshots.step (h : Snapshots env s₀ actions s)
    (hrun : run (Recorder.step env) s₀ actions = some s) {a : Action H}
    (hstep : s.step env a = some s') : Snapshots env s₀ (actions ++ [a]) s' := by
  cases a with
  | configure redactions =>
    obtain rfl := Option.some.inj hstep
    exact h.frame rfl rfl rfl
  | push i method route security =>
    obtain ⟨-, -, rfl⟩ := step_push_iff.mp hstep
    exact h.frame rfl rfl rfl
  | access i a =>
    obtain ⟨shared, shared', -, -, rfl⟩ := step_access_iff.mp hstep
    exact h.frame rfl rfl rfl
  | beginSnapshot =>
    obtain ⟨-, rfl⟩ := step_beginSnapshot_iff.mp hstep
    refine ⟨fun result hresult => (h.returned result hresult).mono _, ?_⟩
    rintro snapshot hs
    obtain rfl := Option.some.inj hs
    exact ⟨actions, [], rfl, by simp, ⟨s, hrun, rfl⟩, by simp⟩
  | readExchange =>
    obtain ⟨taken, i, rest, exchange, hs, hi, rfl⟩ := step_readExchange_iff.mp hstep
    refine ⟨fun result hresult => (h.returned result hresult).mono _, ?_⟩
    rintro snapshot hs'
    obtain rfl := Option.some.inj hs'
    exact (h.underway _ hs).read hrun hi
  | endSnapshot =>
    obtain ⟨taken, hs, rfl⟩ := step_endSnapshot_iff.mp hstep
    refine ⟨?_, fun snapshot hs' => by cases hs'⟩
    intro result hresult
    rcases List.mem_append.mp hresult with hresult | hresult
    · exact (h.returned result hresult).mono _
    · rw [List.mem_singleton.mp hresult]
      exact (h.underway _ hs).end

/-- The snapshots of every run show states that were held during their calls. -/
theorem snapshots_of_run (hrun : run (Recorder.step env) (init redactions) actions = some s) :
    Snapshots env (init redactions) actions s :=
  run_invariant (P := Snapshots env (init redactions))
    ⟨fun _ h => absurd h List.not_mem_nil, fun _ h => by cases h⟩
    (fun _ _ _ _ ht ih hstep => ih.step ht hstep) hrun

/-! ## Isolation -/

/-- In every state reached under one redaction config, however the steps of the
exchanges interleave, the store lists what was pushed, once each and in order.
An exchange is what its own accesses alone make of a new one, in whatever order
the accesses of its request's tee come among the others, and each of its fields
has what the accesses about that field write. A snapshot shows for each exchange
in the store a state that the exchange had during the snapshot. -/
theorem recorder_isolates (env : Externals) (redactions : Redactions)
    {actions : List (Action H)} {s : Recorder H}
    (hrun : run (Recorder.step env) (init redactions) actions = some s)
    (hfixed : ∀ a ∈ actions, a.isConfigure = false) :
    s.exchanges = actions.filterMap Action.pushed ∧ s.exchanges.Nodup ∧
    (∀ h ∈ s.exchanges, ∃ method route security shared,
      .push h method route security ∈ actions ∧ s.heap h = some shared ∧
      (∀ accesses,
        accesses.filter Access.isRequest = (accessesOf h actions).filter Access.isRequest →
        (accesses.filter fun a => !a.isRequest) =
          ((accessesOf h actions).filter fun a => !a.isRequest) →
        run (access env redactions) (new method route security) accesses = some shared) ∧
      s.exchangeAt h =
        some (assembled env redactions method route security (accessesOf h actions))) ∧
    ∀ result ∈ s.collected, Returned env (init redactions) actions result := by
  have htracked := tracked_of_run hrun hfixed
  refine ⟨htracked.order, htracked.once, ?_, (snapshots_of_run hrun).returned⟩
  intro h hmem
  obtain ⟨shared, hshared⟩ := Option.ne_none_iff_exists'.mp ((htracked.stored h).mp hmem)
  obtain ⟨method, route, security, hpush, halone⟩ := htracked.alone h shared hshared
  refine ⟨method, route, security, shared, hpush, hshared, ?_, ?_⟩
  · intro accesses hrequest hothers
    rw [← halone]
    exact run_eq_of_shuffle SharedExchange.access_comm hrequest hothers
  · rw [exchangeAt, hshared, Option.map_some, SharedExchange.exchange_eq_assembled halone]

/-- Two exchanges whose steps interleave, also with a snapshot. -/
def interleaving : List (Action Nat) :=
  [.push 0 .get "/users" none, .push 1 .post "/users" none, .access 0 (.setStatus 200),
    .beginSnapshot, .readExchange, .access 1 (.setStatus 201),
    .access 0 (.side .response (.finish none [] ⟨[0x31], false⟩)), .readExchange, .endSnapshot,
    .access 0 (.side .response .store), .access 0 (.side .request (.finish none [] ⟨[], false⟩)),
    .access 0 (.side .request .store)]

/-- Both exchanges of the interleaving end as their own accesses make them. -/
theorem recorder_isolates_example : ∃ s,
    run (Recorder.step parseDigits) (init .new) interleaving = some s ∧ s.exchanges = [0, 1] ∧
    ∀ h ∈ s.exchanges, ∃ method route security, .push h method route security ∈ interleaving ∧
      s.exchangeAt h =
        some (assembled parseDigits .new method route security (accessesOf h interleaving)) := by
  have henabled : (run (Recorder.step parseDigits) (init .new) interleaving).isSome = true := rfl
  obtain ⟨s, hs⟩ := Option.isSome_iff_exists.mp henabled
  obtain ⟨horder, -, halone, -⟩ := recorder_isolates parseDigits .new hs (by decide)
  refine ⟨s, hs, horder, fun h hmem => ?_⟩
  obtain ⟨method, route, security, shared, hpush, -, -, hassembled⟩ := halone h hmem
  exact ⟨method, route, security, hpush, hassembled⟩

end Cyanotype.Recorder
