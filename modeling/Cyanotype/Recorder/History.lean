import Cyanotype.Recorder.Service

/-!
# What the snapshots saw

A history of the service notes for every exchange that a snapshot clones which events
came before the clone was made. It explains the snapshots that were returned: they
list the exchanges in the order of the calls, each as it was at that moment.
-/

namespace Cyanotype

/-- The exchange that a running snapshot reads next. -/
def Recorder.next {H : Type*} (s : Recorder H) : Option (H × Exchange) :=
  match s.snapshot with
  | some ⟨_, h :: _⟩ => (s.exchangeAt h).map (h, ·)
  | _ => none

/-- An exchange as a snapshot cloned it. -/
structure Clone (H β : Type*) where
  handle : H
  exchange : Exchange
  /-- The events before it was read. -/
  past : List (Event H β)

/-- The clones of the snapshots that were returned, and of the one in progress. -/
structure Clones (H β : Type*) where
  past : List (Event H β) := []
  taken : List (Clone H β) := []
  collected : List (List (Clone H β)) := []

/-- Take note of an event. -/
def Clones.note {H β : Type*} (s : Service H β) (clones : Clones H β) (e : Event H β) :
    Clones H β :=
  let noted := { clones with past := clones.past ++ [e] }
  match e with
  | .beginSnapshot => { noted with taken := [] }
  | .readExchange => { noted with
      taken := clones.taken ++ s.recorder.next.toList.map fun (h, exchange) =>
        ⟨h, exchange, clones.past⟩ }
  | .endSnapshot => { noted with collected := clones.collected ++ [clones.taken] }
  | _ => noted

/-- The call that an event begins. -/
def Event.called {H β : Type*} : Event H β → Option H
  | .call h _ _ _ _ _ => some h
  | _ => none

/-- The event is part of a snapshot. -/
def Event.isSnapshot {H β : Type*} : Event H β → Bool
  | .beginSnapshot => true
  | .readExchange => true
  | .endSnapshot => true
  | _ => false

namespace Service

variable {H β ε : Type*} {env : Externals} {body : Body β ε} {s s' s₀ : Service H β}
  {events : List (Event H β)} {clones : Clones H β}

/-- The step of the store is of the kind of the event. -/
theorem kind_of_actionOf {e : Event H β} {a : Action H} (ha : s.actionOf body e = some a) :
    a.pushed = e.called ∧ a.isSnapshot = e.isSnapshot := by
  cases e with
  | poll h side =>
    obtain ⟨tee, -, hcalled⟩ := Option.bind_eq_some_iff.mp ha
    obtain ⟨captured, -, rfl⟩ := Option.map_eq_some_iff.mp hcalled
    exact ⟨rfl, rfl⟩
  | _ =>
    obtain rfl := Option.some.inj ha
    exact ⟨rfl, rfl⟩

/-- A snapshot lists the calls that began before it, in their order. -/
def Listed (events : List (Event H β)) (result : List (Clone H β)) : Prop :=
  ∃ before, before <+: events ∧ result.map (·.handle) = before.filterMap Event.called

theorem Listed.mono {result : List (Clone H β)} (h : Listed events result) (e : Event H β) :
    Listed (events ++ [e]) result := by
  obtain ⟨before, hbefore, hhandles⟩ := h
  exact ⟨before, hbefore.trans (List.prefix_append _ _), hhandles⟩

variable [DecidableEq H]

/-- Only a call makes the list of exchanges longer. -/
theorem step_exchanges {e : Event H β} (hstep : s.step env body e = some s') :
    s'.recorder.exchanges = s.recorder.exchanges ++ e.called.toList := by
  obtain ⟨ha, hsame⟩ | ⟨a, ha, hact⟩ := step_recorder_cases hstep
  · obtain ⟨h, side, rfl⟩ := eq_poll_of_actionOf ha
    rw [hsame]
    exact (List.append_nil _).symm
  · rw [Recorder.step_exchanges hact, (kind_of_actionOf ha).1]

/-- Other events leave the snapshots alone, and no call begins during one. -/
theorem step_snapshot {e : Event H β} (hstep : s.step env body e = some s')
    (he : e.isSnapshot = false) :
    s'.recorder.snapshot = s.recorder.snapshot ∧
      s'.recorder.collected = s.recorder.collected ∧
      (s.recorder.snapshot ≠ none → s'.recorder.exchanges = s.recorder.exchanges) := by
  obtain ⟨-, hsame⟩ | ⟨a, ha, hact⟩ := step_recorder_cases hstep
  · rw [hsame]
    exact ⟨rfl, rfl, fun _ => rfl⟩
  · exact Recorder.step_snapshot hact ((kind_of_actionOf ha).2.trans he)

/-! ## The history of a run -/

/-- A clone is its exchange as it was after some of the events. -/
structure Shows (env : Externals) (body : Body β ε) (s₀ : Service H β)
    (events : List (Event H β)) (clone : Clone H β) : Prop where
  before : clone.past <+: events
  read : ∃ t, run (step env body) s₀ clone.past = some t ∧
    t.recorder.exchangeAt clone.handle = some clone.exchange

/-- The history explains the store and its snapshots. -/
structure Noted (env : Externals) (body : Body β ε) (s₀ : Service H β)
    (events : List (Event H β)) (s : Service H β) (clones : Clones H β) : Prop where
  past : clones.past = events
  order : s.recorder.exchanges = events.filterMap Event.called
  collected : s.recorder.collected = clones.collected.map fun result => result.map (·.exchange)
  underway : ∀ snapshot, s.recorder.snapshot = some snapshot →
    snapshot.taken = clones.taken.map (fun c => (c.handle, c.exchange)) ∧
      s.recorder.exchanges = clones.taken.map (·.handle) ++ snapshot.rest
  taken : ∀ c ∈ clones.taken, Shows env body s₀ events c
  shows : ∀ result ∈ clones.collected, ∀ c ∈ result, Shows env body s₀ events c
  listed : ∀ result ∈ clones.collected, Listed events result

theorem Shows.mono {c : Clone H β} (h : Shows env body s₀ events c) (e : Event H β) :
    Shows env body s₀ (events ++ [e]) c := ⟨h.before.trans (List.prefix_append _ _), h.read⟩

theorem noted_init (config : Redactions) :
    Noted env body (init config : Service H β) [] (init config) {} :=
  ⟨rfl, rfl, rfl, nofun, fun _ hc => absurd hc List.not_mem_nil,
    fun _ hr => absurd hr List.not_mem_nil, fun _ hr => absurd hr List.not_mem_nil⟩

/-- The calls so far are listed. -/
theorem Noted.order_step (h : Noted env body s₀ events s clones) {e : Event H β}
    (hstep : s.step env body e = some s') :
    s'.recorder.exchanges = (events ++ [e]).filterMap Event.called := by
  rw [step_exchanges hstep, h.order, List.filterMap_append]
  cases hcalled : e.called <;> simp [hcalled]

/-- An event that is no part of a snapshot keeps the account of them. -/
theorem Noted.frame (h : Noted env body s₀ events s clones) {e : Event H β}
    (hstep : s.step env body e = some s') (he : e.isSnapshot = false) :
    Noted env body s₀ (events ++ [e]) s' (clones.note s e) := by
  obtain ⟨hsnapshot, hcollected, hexchanges⟩ := step_snapshot hstep he
  have hnote : clones.note s e = { clones with past := clones.past ++ [e] } := by
    cases e <;> first | rfl | cases he
  rw [hnote]
  refine ⟨congrArg (· ++ [e]) h.past, h.order_step hstep, hcollected.trans h.collected, ?_,
    fun c hc => (h.taken c hc).mono e, fun result hr c hc => (h.shows result hr c hc).mono e,
    fun result hr => (h.listed result hr).mono e⟩
  intro snapshot hs
  rw [hsnapshot] at hs
  obtain ⟨htaken, hrest⟩ := h.underway snapshot hs
  exact ⟨htaken, (hexchanges (by simp [hs])).trans hrest⟩

/-- A snapshot begins without clones and with everything to read. -/
theorem Noted.beginSnapshot (h : Noted env body s₀ events s clones)
    (hstep : s.step env body .beginSnapshot = some s') :
    Noted env body s₀ (events ++ [.beginSnapshot]) s' (clones.note s .beginSnapshot) := by
  obtain ⟨-, hs'⟩ := Recorder.step_beginSnapshot_iff.mp (act_eq_some_iff.mp hstep).1
  refine ⟨congrArg (· ++ [_]) h.past, h.order_step hstep, ?_, ?_,
    fun _ hc => absurd hc List.not_mem_nil, fun result hr c hc => (h.shows result hr c hc).mono _,
    fun result hr => (h.listed result hr).mono _⟩
  · rw [hs']
    exact h.collected
  · rw [hs']
    rintro snapshot ⟨⟩
    exact ⟨rfl, rfl⟩

/-- A clone is taken of the exchange as it is now. -/
theorem Noted.readExchange (h : Noted env body s₀ events s clones)
    (hrun : run (step env body) s₀ events = some s)
    (hstep : s.step env body .readExchange = some s') :
    Noted env body s₀ (events ++ [.readExchange]) s' (clones.note s .readExchange) := by
  obtain ⟨taken, i, rest, exchange, hs, hi, hs'⟩ :=
    Recorder.step_readExchange_iff.mp (act_eq_some_iff.mp hstep).1
  obtain ⟨hunderway, hrest⟩ := h.underway _ hs
  have hnext : s.recorder.next = some (i, exchange) := by simp [Recorder.next, hs, hi]
  have hnote : clones.note s .readExchange = { clones with
      past := clones.past ++ [.readExchange]
      taken := clones.taken ++ [⟨i, exchange, clones.past⟩] } := by
    simp [Clones.note, hnext]
  have hclone : Shows env body s₀ (events ++ [.readExchange]) ⟨i, exchange, clones.past⟩ :=
    ⟨h.past ▸ List.prefix_append _ _, s, h.past ▸ hrun, hi⟩
  rw [hnote]
  refine ⟨congrArg (· ++ [_]) h.past, h.order_step hstep, ?_, ?_, ?_,
    fun result hr c hc => (h.shows result hr c hc).mono _,
    fun result hr => (h.listed result hr).mono _⟩
  · rw [hs']
    exact h.collected
  · rw [hs']
    rintro snapshot ⟨⟩
    simp only at hunderway hrest ⊢
    rw [List.map_append, List.map_append, hunderway, hrest]
    exact ⟨rfl, by simp⟩
  · intro c hc
    rcases List.mem_append.mp hc with hc | hc
    · exact (h.taken c hc).mono _
    · exact List.mem_singleton.mp hc ▸ hclone

/-- At its end a snapshot has read every exchange, and its clones are what it returns. -/
theorem Noted.endSnapshot (h : Noted env body s₀ events s clones)
    (hstep : s.step env body .endSnapshot = some s') :
    Noted env body s₀ (events ++ [.endSnapshot]) s' (clones.note s .endSnapshot) := by
  obtain ⟨taken, hs, hs'⟩ := Recorder.step_endSnapshot_iff.mp (act_eq_some_iff.mp hstep).1
  obtain ⟨hunderway, hrest⟩ := h.underway _ hs
  simp only [List.append_nil] at hunderway hrest
  have htaken : ∀ c ∈ clones.taken, Shows env body s₀ (events ++ [.endSnapshot]) c :=
    fun c hc => (h.taken c hc).mono _
  have hlisted : Listed (events ++ [.endSnapshot]) clones.taken :=
    ⟨events, List.prefix_append _ _, hrest.symm.trans h.order⟩
  refine ⟨congrArg (· ++ [_]) h.past, h.order_step hstep, ?_, ?_, htaken, ?_, ?_⟩
  · rw [hs']
    simp only [Clones.note, List.map_append, h.collected, hunderway]
    simp
  · rw [hs']
    exact nofun
  · intro result hr
    rcases List.mem_append.mp hr with hr | hr
    · exact fun c hc => (h.shows result hr c hc).mono _
    · rw [List.mem_singleton.mp hr]
      exact htaken
  · intro result hr
    rcases List.mem_append.mp hr with hr | hr
    · exact (h.listed result hr).mono _
    · rw [List.mem_singleton.mp hr]
      exact hlisted

/-- Every event keeps the account. -/
theorem Noted.step (h : Noted env body s₀ events s clones)
    (hrun : run (step env body) s₀ events = some s) {e : Event H β}
    (hstep : s.step env body e = some s') :
    Noted env body s₀ (events ++ [e]) s' (clones.note s e) := by
  cases e with
  | beginSnapshot => exact h.beginSnapshot hstep
  | readExchange => exact h.readExchange hrun hstep
  | endSnapshot => exact h.endSnapshot hstep
  | _ => exact h.frame hstep rfl

/-- The history of a run explains the snapshots returned in it. -/
theorem noted_of_run {config : Redactions}
    (hrun : run (withHistory (step env body) Clones.note) (init config, {})
      events = some (s, clones)) :
    Noted env body (init config) events s clones := by
  refine run_invariant (P := fun as p => Noted env body (init config) as p.1 p.2)
    (noted_init config) ?_ hrun
  rintro as ⟨t, g⟩ e ⟨t', g'⟩ ht ih hstep
  obtain ⟨hstep', rfl⟩ := withHistory_eq_some_iff.mp hstep
  exact ih.step (run_of_run_withHistory ht) hstep'

end Service

end Cyanotype
