import Cyanotype.Recorder.Tally

/-!
# Snapshots only grow

An exchange is filled in and never taken back: a status, a body and a declaration once
there stay, only another declaration may take a declaration's place. So whatever one
snapshot shows of an exchange, every later one shows at the same place, the same or more.
-/

namespace Cyanotype

/-- A field that is filled in at most once is blank, or it stays. -/
def FilledOnce {α : Type*} (blank before after : α) : Prop := before = blank ∨ after = before

theorem FilledOnce.refl {α : Type*} (blank a : α) : FilledOnce blank a a := .inr rfl

theorem FilledOnce.trans {α : Type*} {blank a b c : α} (hab : FilledOnce blank a b)
    (hbc : FilledOnce blank b c) : FilledOnce blank a c := by
  rcases hab with hab | rfl
  · exact .inl hab
  · exact hbc

/-! ## One exchange -/

/-- A later version of a message: what it had it still has. -/
structure MessageCapture.Grows (before after : MessageCapture) : Prop where
  status : FilledOnce none before.status after.status
  body : FilledOnce .empty before.body after.body

theorem MessageCapture.Grows.refl (message : MessageCapture) : message.Grows message :=
  ⟨.refl .., .refl ..⟩

theorem MessageCapture.Grows.trans {a b c : MessageCapture} (hab : a.Grows b) (hbc : b.Grows c) :
    a.Grows c :=
  ⟨hab.status.trans hbc.status, hab.body.trans hbc.body⟩

/-- A later version of an exchange: what it had it still has, and where it had a
declaration it has that or another one. -/
structure Exchange.Grows (before after : Exchange) : Prop where
  method : after.method = before.method
  routeTemplate : after.routeTemplate = before.routeTemplate
  security : after.security = before.security
  request : before.request.Grows after.request
  response : before.response.Grows after.response
  declared : before.declaredResponseSchema ≠ none → after.declaredResponseSchema ≠ none

theorem Exchange.Grows.refl (exchange : Exchange) : exchange.Grows exchange :=
  ⟨rfl, rfl, rfl, .refl _, .refl _, id⟩

theorem Exchange.Grows.trans {a b c : Exchange} (hab : a.Grows b) (hbc : b.Grows c) :
    a.Grows c where
  method := hbc.method.trans hab.method
  routeTemplate := hbc.routeTemplate.trans hab.routeTemplate
  security := hbc.security.trans hab.security
  request := hab.request.trans hbc.request
  response := hab.response.trans hbc.response
  declared := hbc.declared ∘ hab.declared

variable {env : Externals} {config : Redactions}

/-- A side's tee fills in the body of its message, which was empty till then. -/
theorem SideRaised.grows_step {side : Side} {method : Method} {route : String}
    {warnings : List String} {message : MessageCapture} {phase : Phase} {a : SideAccess}
    {r : MessageCapture × Phase}
    (h : SideRaised env side method route warnings message.body phase)
    (hstep : stepSide env config side method route message phase a = some r) :
    message.Grows r.1 := by
  cases a with
  | finish contentType headers captured =>
    obtain ⟨-, rfl⟩ := stepSide_finish_iff.mp hstep
    exact .refl _
  | warn =>
    obtain ⟨headers, body, warning, remaining, -, rfl⟩ := stepSide_warn_iff.mp hstep
    exact .refl _
  | store =>
    obtain ⟨headers, body, rfl, rfl⟩ := stepSide_store_iff.mp hstep
    exact ⟨.refl .., .inl h.1⟩

/-- An access fills in fields of the exchange, or puts another declaration in place of one. -/
theorem SharedExchange.Raised.grows_access {warnings : List String}
    {shared shared' : SharedExchange} (h : shared.Raised env warnings) {a : Access}
    (hstep : shared.access env config a = some shared') :
    shared.exchange.Grows shared'.exchange := by
  cases a with
  | side side x =>
    obtain ⟨-, r, hr, rfl⟩ := access_side_eq_some_iff.mp hstep
    have hmessage := (h side).grows_step hr
    cases side with
    | request => exact ⟨rfl, rfl, rfl, hmessage, .refl _, id⟩
    | response => exact ⟨rfl, rfl, rfl, .refl _, hmessage, id⟩
  | setStatus status =>
    obtain ⟨hnone, rfl⟩ := access_setStatus_eq_some_iff.mp hstep
    exact ⟨rfl, rfl, rfl, .refl _, ⟨.inl hnone, .refl ..⟩, id⟩
  | declareResponse T bytes =>
    obtain ⟨-, rfl⟩ := access_declareResponse_eq_some_iff.mp hstep
    split_ifs
    · exact ⟨rfl, rfl, rfl, .refl _, .refl _, fun _ => Option.some_ne_none _⟩
    · exact .refl _

/-! ## Lists of exchanges -/

/-- A later view of the store: every exchange is still at its place, in a later version. -/
def Below (before after : List Exchange) : Prop :=
  ∀ (n : Nat) e, before[n]? = some e → ∃ e', after[n]? = some e' ∧ e.Grows e'

/-- A later view of a later view is a later view. -/
theorem Below.trans {as bs cs : List Exchange} (hab : Below as bs) (hbc : Below bs cs) :
    Below as cs := by
  intro n a ha
  obtain ⟨b, hb, hgrows⟩ := hab n a ha
  obtain ⟨c, hc, hgrows'⟩ := hbc n b hb
  exact ⟨c, hc, hgrows.trans hgrows'⟩

namespace Recorder

variable {H : Type*} {s s' : Recorder H}

/-- What is behind a handle is a later version of an exchange. -/
def Holds (s : Recorder H) (h : H) (e : Exchange) : Prop :=
  ∃ e', s.exchangeAt h = some e' ∧ e.Grows e'

/-- What the snapshots have shown is still there, in later versions: the clones of the
snapshot in progress behind the handles they were made of, and the results returned
before behind the handles at the same places of the store. The clones of the snapshot in
progress are later versions of the results before. -/
structure Keeps (s : Recorder H) : Prop where
  collected : ∀ result ∈ s.collected, ∀ (n : Nat) e, result[n]? = some e →
    ∃ h, s.exchanges[n]? = some h ∧ s.Holds h e
  handles : ∀ taken rest, s.snapshot = some ⟨taken, rest⟩ →
    taken.map Prod.fst ++ rest = s.exchanges
  taken : ∀ taken rest, s.snapshot = some ⟨taken, rest⟩ → ∀ p ∈ taken, s.Holds p.1 p.2
  underway : ∀ taken rest, s.snapshot = some ⟨taken, rest⟩ → ∀ result ∈ s.collected,
    ∀ (n : Nat) e p, result[n]? = some e → taken[n]? = some p → e.Grows p.2
  ordered : s.collected.Pairwise Below

theorem keeps_init (redactions : Redactions) : (init redactions : Recorder H).Keeps := by
  refine ⟨?_, nofun, nofun, nofun, .nil⟩
  exact fun result hresult => absurd hresult List.not_mem_nil

variable [DecidableEq H]

/-- Every step leaves later versions behind the handles. -/
theorem holds_step (h : s.Covers env) {a : Action H} (hstep : s.step env a = some s')
    {i : H} {e : Exchange} (hi : s.Holds i e) : s'.Holds i e := by
  obtain ⟨e', he', hgrows⟩ := hi
  obtain ⟨shared, hshared, rfl⟩ := Option.map_eq_some_iff.mp he'
  obtain ⟨-, -, hheap⟩ | ⟨_, _, _, -, hfresh, -⟩ |
    ⟨access, shared₀, shared', -, hshared₀, haccess, hheap⟩ := step_heap_cases hstep i
  · exact ⟨shared.exchange, by rw [exchangeAt, hheap, hshared]; rfl, hgrows⟩
  · rw [hfresh] at hshared
    cases hshared
  · obtain rfl := Option.some.inj (hshared₀.symm.trans hshared)
    refine ⟨shared'.exchange, by rw [exchangeAt, hheap]; rfl, ?_⟩
    exact hgrows.trans ((h.heap i _ hshared₀).grows_access haccess)

/-- A step that is no part of a snapshot keeps what the snapshots have shown. -/
theorem Keeps.frame (h : s.Keeps) (hcovers : s.Covers env) {a : Action H}
    (hstep : s.step env a = some s') (ha : a.isSnapshot = false) : s'.Keeps := by
  obtain ⟨hsnapshot, hcollected, hfixed⟩ := step_snapshot hstep ha
  have hlist := step_exchanges hstep
  refine ⟨?_, ?_, ?_, ?_, ?_⟩
  · rw [hcollected]
    intro result hresult n e he
    obtain ⟨i, hi, hholds⟩ := h.collected result hresult n e he
    refine ⟨i, ?_, holds_step hcovers hstep hholds⟩
    rw [hlist, List.getElem?_append_left (List.getElem?_eq_some_iff.mp hi).1]
    exact hi
  · rw [hsnapshot]
    intro taken rest hs
    rw [hfixed (by rw [hs]; exact Option.some_ne_none _)]
    exact h.handles taken rest hs
  · rw [hsnapshot]
    exact fun taken rest hs p hp => holds_step hcovers hstep (h.taken taken rest hs p hp)
  · rw [hsnapshot, hcollected]
    exact h.underway
  · rw [hcollected]
    exact h.ordered

/-- A snapshot begins without clones. -/
theorem Keeps.beginSnapshot (h : s.Keeps) (hstep : s.step env .beginSnapshot = some s') :
    s'.Keeps := by
  obtain ⟨-, rfl⟩ := step_beginSnapshot_iff.mp hstep
  refine ⟨h.collected, ?_, ?_, ?_, h.ordered⟩
  · rintro taken rest ⟨⟩
    rfl
  · rintro taken rest ⟨⟩ p hp
    exact absurd hp List.not_mem_nil
  · rintro taken rest ⟨⟩ result - n e p - hp
    cases hp

/-- A clone is a later version of what earlier results show at its place. -/
theorem Keeps.readExchange (h : s.Keeps) (hstep : s.step env .readExchange = some s') :
    s'.Keeps := by
  obtain ⟨taken, i, rest, exchange, hs, hi, rfl⟩ := step_readExchange_iff.mp hstep
  have hhandles := h.handles _ _ hs
  refine ⟨h.collected, ?_, ?_, ?_, h.ordered⟩
  · rintro _ _ ⟨⟩
    simpa using hhandles
  · rintro _ _ ⟨⟩ p hp
    rcases List.mem_append.mp hp with hp | hp
    · exact h.taken _ _ hs p hp
    · obtain rfl := List.mem_singleton.mp hp
      exact ⟨exchange, hi, .refl _⟩
  · rintro _ _ ⟨⟩ result hresult n e p he hp
    by_cases hn : n < taken.length
    · rw [List.getElem?_append_left hn] at hp
      exact h.underway _ _ hs result hresult n e p he hp
    · have hlast : n = taken.length := by
        have := (List.getElem?_eq_some_iff.mp hp).1
        simp only [List.length_append, List.length_singleton] at this
        omega
      subst hlast
      obtain rfl : (i, exchange) = p := by simpa using hp
      obtain ⟨j, hj, e', he', hgrows⟩ := h.collected result hresult _ e he
      obtain rfl : i = j := by simpa [← hhandles] using hj
      obtain rfl := Option.some.inj (hi.symm.trans he')
      exact hgrows

/-- A returned result shows later versions of what the results before it show. -/
theorem Keeps.endSnapshot (h : s.Keeps) (hstep : s.step env .endSnapshot = some s') :
    s'.Keeps := by
  obtain ⟨taken, hs, rfl⟩ := step_endSnapshot_iff.mp hstep
  have hhandles : taken.map Prod.fst = s.exchanges := by simpa using h.handles _ _ hs
  refine ⟨?_, nofun, nofun, nofun, ?_⟩
  · intro result hresult n e he
    rcases List.mem_append.mp hresult with hresult | hresult
    · exact h.collected result hresult n e he
    · obtain rfl := List.mem_singleton.mp hresult
      rw [List.getElem?_map] at he
      obtain ⟨p, hp, rfl⟩ := Option.map_eq_some_iff.mp he
      refine ⟨p.1, ?_, h.taken _ _ hs p (List.mem_of_getElem? hp)⟩
      rw [← hhandles, List.getElem?_map, hp]
      rfl
  · refine List.pairwise_append.mpr ⟨h.ordered, List.pairwise_singleton .., ?_⟩
    intro result hresult later hlater n e he
    obtain rfl := List.mem_singleton.mp hlater
    obtain ⟨i, hi, -⟩ := h.collected result hresult n e he
    rw [← hhandles, List.getElem?_map] at hi
    obtain ⟨p, hp, -⟩ := Option.map_eq_some_iff.mp hi
    refine ⟨p.2, ?_, h.underway _ _ hs result hresult n e p he hp⟩
    rw [List.getElem?_map, hp]
    rfl

/-- Every step keeps what the snapshots have shown. -/
theorem Keeps.step (h : s.Keeps) (hcovers : s.Covers env) {a : Action H}
    (hstep : s.step env a = some s') : s'.Keeps := by
  cases a with
  | configure redactions => exact h.frame hcovers hstep rfl
  | push i method route security => exact h.frame hcovers hstep rfl
  | access i a => exact h.frame hcovers hstep rfl
  | beginSnapshot => exact h.beginSnapshot hstep
  | readExchange => exact h.readExchange hstep
  | endSnapshot => exact h.endSnapshot hstep

/-- In every run the snapshots that were returned are earlier versions of the store. -/
theorem keeps_of_run {redactions : Redactions} {actions : List (Action H)}
    (hrun : run (step env) (init redactions) actions = some s) : s.Keeps :=
  run_invariant (P := fun _ => Keeps) (keeps_init redactions)
    (fun _ _ _ _ ht ih hstep => ih.step (covers_of_run ht) hstep) hrun

omit [DecidableEq H] in
/-- The recorded exchanges stand at the places of their handles. -/
theorem Registered.recorded_getElem? (h : s.Registered) (n : Nat) :
    s.recorded[n]? = s.exchanges[n]?.bind s.exchangeAt := by
  have hall : ∀ i ∈ s.exchanges, (s.exchangeAt i).isSome := by
    intro i hi
    rw [exchangeAt, Option.isSome_map, Option.isSome_iff_ne_none]
    exact (h.stored i).mp hi
  rw [recorded]
  generalize s.exchanges = handles at hall ⊢
  induction handles generalizing n with
  | nil => rfl
  | cons i handles ih =>
    rw [List.forall_mem_cons] at hall
    obtain ⟨e, he⟩ := Option.isSome_iff_exists.mp hall.1
    rw [List.filterMap_cons_some he]
    cases n with
    | zero => exact he.symm
    | succ n => exact ih n hall.2

/-- In every state reached, whatever an earlier snapshot showed, a later one shows at the
same places in later versions, and the store still holds it. -/
theorem snapshots_grow {redactions : Redactions} {actions : List (Action H)}
    (hrun : run (step env) (init redactions) actions = some s) :
    s.collected.Pairwise Below ∧ ∀ result ∈ s.collected, Below result s.recorded := by
  have hkeeps := keeps_of_run hrun
  refine ⟨hkeeps.ordered, fun result hresult n e he => ?_⟩
  obtain ⟨i, hi, e', he', hgrows⟩ := hkeeps.collected result hresult n e he
  refine ⟨e', ?_, hgrows⟩
  rw [(tallied_of_run hrun).registered.recorded_getElem?, hi, Option.bind_some, he']

end Recorder

end Cyanotype
