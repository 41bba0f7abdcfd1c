import Cyanotype.Recorder.Linearization

/-!
# Panics in declared types

A declaration runs code of the declared type, its deserializer and the generator of its
schema, while it has the exchange locked and before it stores anything. If that code
panics, the lock is dropped and the mutex is poisoned. Every mutex is locked whether it is
poisoned or not, so the other threads go on, and what the threads do is what they could
have done without the declarations that panicked. That code may panic, but is assumed
not to call back into the crate while it has the exchange locked.
-/

namespace Cyanotype

open Mutex (System)

variable {T H : Type}

/-- The rest of a declaration once its exchange is locked. -/
def Code.declaration (h : H) (D : WireType) (bytes : List UInt8) : Code H :=
  .use (.exchange h) (Option.map (declaring D bytes)) fun exchange =>
    .unlock (.exchange h) (.ret (.declared h (Option.bind exchange (failure D bytes))))

/-- A declaration locks the exchange first. -/
theorem Code.declareResponse_eq (h : H) (D : WireType) (bytes : List UInt8) :
    Code.declareResponse h D bytes = .lock (.exchange h) (Code.declaration h D bytes) := rfl

/-- Where a thread is in a declaration. -/
inductive DeclareStage (h : H) (D : WireType) (bytes : List UInt8) : Code H → Prop
  | begun : DeclareStage h D bytes (Code.declareResponse h D bytes)
  | locked : DeclareStage h D bytes (Code.declaration h D bytes)
  | stored {outcome} : DeclareStage h D bytes (.unlock (.exchange h) (.ret outcome))
  | returned {outcome} : DeclareStage h D bytes (.ret outcome)

namespace Threads

/-- A thread is in a declaration that has not stored its schema. -/
def unstored (m : Threads T H) (t : T) : Bool :=
  match m.call t, m.system.code t with
  | some (.declareResponse _ _ _), some (.lock _ _) => true
  | some (.declareResponse _ _ _), some (.use _ _ _) => true
  | _, _ => false

/-- The threads without the declarations that have not stored their schemas. -/
def erase (m : Threads T H) : Threads T H where
  system :=
    { value := m.system.value
      holder := fun l => (m.system.holder l).filter fun t => !m.unstored t
      code := fun t => if m.unstored t then none else m.system.code t }
  call := fun t => if m.unstored t then none else m.call t
  rights := m.rights

end Threads

/-! ## The machine -/

/-- The threads, and the mutexes that a panic has poisoned. -/
structure PanickingThreads (T H : Type) where
  threads : Threads T H
  poisoned : LockName H → Bool

/-- A turn of a thread, or a panic in a type that it declares. -/
inductive PanickingTurn (T H : Type) where
  | turn (turn : Turn T H)
  | panic (t : T)

namespace PanickingThreads

variable [DecidableEq T] [DecidableEq H]

/-- No thread has begun, and no mutex is poisoned. -/
def init (config : Redactions) : PanickingThreads T H where
  threads := .init config
  poisoned := fun _ => false

/-- One turn, or a panic. -/
def step (env : Externals) (p : PanickingThreads T H) :
    PanickingTurn T H → Option (PanickingThreads T H)
  -- `unwrap_or_else(PoisonError::into_inner)`: a poisoned mutex is locked like any other
  | .turn turn => (p.threads.step env turn).map fun threads => { p with threads := threads }
  -- the exchange is locked, and nothing is stored yet
  | .panic t =>
    match p.threads.call t, p.threads.system.code t with
    | some (.declareResponse _ _ _), some (.use l _ _) => some
      { threads :=
          { system := p.threads.system.unwind t
            call := Function.update p.threads.call t none
            rights := p.threads.rights }
        poisoned := Function.update p.poisoned l true }
    | _, _ => none

/-- Note the snapshots that calls return. -/
def note (p : PanickingThreads T H) (results : List (List Exchange)) :
    PanickingTurn T H → List (List Exchange)
  | .turn turn => p.threads.note results turn
  | .panic _ => results

variable {env : Externals} {config : Redactions} {p p' : PanickingThreads T H}

/-- What a turn does. -/
theorem step_turn_iff {turn : Turn T H} : p.step env (.turn turn) = some p' ↔
    ∃ threads, p.threads.step env turn = some threads ∧
      p' = { threads := threads, poisoned := p.poisoned } := by
  simp only [step, Option.map_eq_some_iff, eq_comm (a := p')]

/-- What a panic does. -/
theorem step_panic_iff {t : T} : p.step env (.panic t) = some p' ↔
    ∃ h D bytes l f next, p.threads.call t = some (.declareResponse h D bytes) ∧
      p.threads.system.code t = some (.use l f next) ∧ p' =
        { threads :=
            { system := p.threads.system.unwind t
              call := Function.update p.threads.call t none
              rights := p.threads.rights }
          poisoned := Function.update p.poisoned l true } := by
  constructor
  · intro hstep
    simp only [step] at hstep
    split at hstep
    case h_1 h D bytes l f next hcall hcode =>
      exact ⟨h, D, bytes, l, f, next, hcall, hcode, (Option.some.inj hstep).symm⟩
    case h_2 => cases hstep
  · rintro ⟨h, D, bytes, l, f, next, hcall, hcode, rfl⟩
    simp only [step, hcall, hcode]

end PanickingThreads

/-! ## What is kept -/

section

variable [DecidableEq H] {rights rights' : H → Option Rights} {cl : Call H} {i : H}

/-- Somebody has a receipt of an exchange. -/
def HasReceipt (rights : H → Option Rights) (i : H) : Prop :=
  ∃ q, rights i = some q ∧ q.receipt = true

/-- Receipts are not used up. -/
theorem HasReceipt.claim (h : HasReceipt rights i) (hclaim : cl.claim rights = some rights') :
    HasReceipt rights' i := by
  obtain ⟨q, hq, hreceipt⟩ := h
  have hsome : rights' i ≠ none := by
    intro hnone
    cases hq.symm.trans (claim_of_none hclaim hnone)
  obtain ⟨q', hq'⟩ := Option.ne_none_iff_exists'.mp hsome
  obtain ⟨hnone, -⟩ | ⟨q₀, hq₀, hless⟩ := claim_of_some hclaim hq'
  · cases hq.symm.trans hnone
  · obtain rfl := Option.some.inj (hq.symm.trans hq₀)
    exact ⟨q', hq', hless.receipt.trans hreceipt⟩

/-- What a call returns takes nobody a receipt away. -/
theorem HasReceipt.grant (h : HasReceipt rights i) (outcome : Outcome H) :
    HasReceipt (outcome.grant rights) i := by
  obtain ⟨q, hq, hreceipt⟩ := h
  cases outcome with
  | pushed j =>
    by_cases hij : i = j
    · subst hij
      exact ⟨{ q.give .request with answer := true }, by simp [Outcome.grant, hq], hreceipt⟩
    · exact ⟨q, by simpa [Outcome.grant, hij] using hq, hreceipt⟩
  | answered j =>
    by_cases hij : i = j
    · subst hij
      exact ⟨{ q.give .response with receipt := true }, by simp [Outcome.grant, hq], rfl⟩
    · exact ⟨q, by simpa [Outcome.grant, hij] using hq, hreceipt⟩
  | _ => exact ⟨q, hq, hreceipt⟩

end

section

variable [DecidableEq T] [DecidableEq H] {env : Externals} {m m' : Threads T H} {t : T}

/-- What a turn or a panic leaves: mutexes are used as they should, and who declares is
somewhere in the code of the declaration and has the receipt. -/
structure Threads.Sound (m : Threads T H) : Prop where
  orderly : m.Orderly
  stage : ∀ t h D bytes code, m.call t = some (.declareResponse h D bytes) →
    m.system.code t = some code → DeclareStage h D bytes code
  receipt : ∀ t h D bytes, m.call t = some (.declareResponse h D bytes) → HasReceipt m.rights h

omit [DecidableEq T] [DecidableEq H] in
theorem Threads.sound_init (config : Redactions) : (Threads.init config : Threads T H).Sound :=
  ⟨orderly_init config, nofun, nofun⟩

/-- A declaration goes on. -/
theorem DeclareStage.advance {system system' : Process T H} {h : H} {D : WireType}
    {bytes : List UInt8} {code code' : Code H} (hstage : DeclareStage h D bytes code)
    (hcode : system.code t = some code) (hadvance : system.advance t = some system')
    (hcode' : system'.code t = some code') : DeclareStage h D bytes code' := by
  cases hstage with
  | begun =>
    rw [Code.declareResponse_eq] at hcode
    obtain ⟨-, rfl⟩ := (System.advance_lock_iff hcode).mp hadvance
    rw [System.setCode_code, Function.update_self, Option.some.injEq] at hcode'
    exact hcode' ▸ .locked
  | locked =>
    obtain ⟨-, rfl⟩ := (System.advance_use_iff hcode).mp hadvance
    rw [System.setCode_code, Function.update_self, Option.some.injEq] at hcode'
    exact hcode' ▸ .stored
  | @stored outcome =>
    obtain ⟨-, rfl⟩ := (System.advance_unlock_iff hcode).mp hadvance
    obtain rfl : Mutex.Code.ret outcome = code' := by simpa using hcode'
    exact .returned
  | returned =>
    obtain ⟨_, _, hother, -⟩ | ⟨_, _, _, hother, -⟩ | ⟨_, _, hother, -⟩ :=
      System.advance_cases hadvance <;> cases hcode.symm.trans hother

omit [DecidableEq H] in
/-- A call that is still under way is not the one that ended. -/
theorem call_of_update_none {call : T → Option (Call H)} {u : T} {cl : Call H}
    (hu : Function.update call t none u = some cl) : u ≠ t ∧ call u = some cl := by
  by_cases hut : u = t
  · subst hut
    simp at hu
  · exact ⟨hut, by simpa [hut] using hu⟩

namespace Threads

/-- A thread that does not advance stays where it is. -/
theorem advance_code_of_ne {system system' : Process T H}
    (hadvance : system.advance t = some system') {u : T} (hut : u ≠ t) :
    system'.code u = system.code u := by
  obtain ⟨_, _, -, -, rfl⟩ | ⟨_, _, _, -, -, rfl⟩ | ⟨_, _, -, -, rfl⟩ :=
    System.advance_cases hadvance <;> simp [hut]

/-- Every turn leaves the threads so: one that begins a declaration has the receipt and stands
at its first line, one that advances comes to the next line, and one that finishes declares no
longer. -/
theorem Sound.step (h : m.Sound) {turn : Turn T H} (hstep : m.step env turn = some m') :
    m'.Sound := by
  refine ⟨h.orderly.step hstep, ?stage, ?receipt⟩
  case stage =>
    intro u i D bytes code hcall hcode
    cases turn with
    | begin t cl =>
      obtain ⟨-, rights, -, rfl⟩ := step_begin_iff.mp hstep
      by_cases hut : u = t
      · subst hut
        obtain rfl : cl = .declareResponse i D bytes := by simpa using hcall
        obtain rfl : Code.declareResponse i D bytes = code := by simpa [Call.code] using hcode
        exact .begun
      · have hsame : (allocate m.system cl).code u = m.system.code u := by cases cl <;> rfl
        have hcall' : m.call u = some (.declareResponse i D bytes) := by simpa [hut] using hcall
        exact h.stage u i D bytes code hcall' (by simpa [hut, hsame] using hcode)
    | advance t =>
      obtain ⟨system, hadvance, rfl⟩ := step_advance_iff.mp hstep
      by_cases hut : u = t
      · subst hut
        obtain ⟨code₀, hcode₀⟩ : ∃ code₀, m.system.code u = some code₀ := by
          refine Option.ne_none_iff_exists'.mp fun hidle => ?_
          cases ((h.orderly.idle_iff u).mpr hidle).symm.trans hcall
        exact (h.stage u i D bytes code₀ hcall hcode₀).advance hcode₀ hadvance hcode
      · exact h.stage u i D bytes code hcall ((advance_code_of_ne hadvance hut).symm.trans hcode)
    | finish t =>
      obtain ⟨outcome, -, rfl⟩ := step_finish_iff.mp hstep
      obtain ⟨hut, hcall'⟩ := call_of_update_none hcall
      exact h.stage u i D bytes code hcall' (by simpa [hut] using hcode)
  case receipt =>
    intro u i D bytes hcall
    cases turn with
    | begin t cl =>
      obtain ⟨-, rights, hclaim, rfl⟩ := step_begin_iff.mp hstep
      by_cases hut : u = t
      · subst hut
        obtain rfl : cl = .declareResponse i D bytes := by simpa using hcall
        obtain ⟨q, hq, hallowed⟩ := Option.bind_eq_some_iff.mp hclaim
        rw [Option.ite_none_right_eq_some] at hallowed
        obtain ⟨hreceipt, hsame⟩ := hallowed
        exact ⟨q, by rw [← Option.some.inj hsame, hq], hreceipt⟩
      · exact (h.receipt u i D bytes (by simpa [hut] using hcall)).claim hclaim
    | advance t =>
      obtain ⟨system, -, rfl⟩ := step_advance_iff.mp hstep
      exact h.receipt u i D bytes hcall
    | finish t =>
      obtain ⟨outcome, -, rfl⟩ := step_finish_iff.mp hstep
      exact (h.receipt u i D bytes (call_of_update_none hcall).2).grant outcome

/-! ## Without unfinished declarations -/

omit [DecidableEq T] [DecidableEq H] in
/-- A declaration that has not stored its schema has yet to lock the exchange, or to use it. -/
theorem unstored_iff : m.unstored t = true ↔ ∃ h D bytes code,
    m.call t = some (.declareResponse h D bytes) ∧ m.system.code t = some code ∧
      ((∃ l next, code = .lock l next) ∨ ∃ l f next, code = .use l f next) := by
  unfold unstored
  split
  case h_1 h D bytes l next hcall hcode => simp [hcall, hcode]
  case h_2 h D bytes l f next hcall hcode => simp [hcall, hcode]
  case h_3 hlock huse =>
    simp only [Bool.false_eq_true, false_iff]
    rintro ⟨h, D, bytes, code, hcall, hcode, ⟨l, next, rfl⟩ | ⟨l, f, next, rfl⟩⟩
    · exact hlock h D bytes l next hcall hcode
    · exact huse h D bytes l f next hcall hcode

omit [DecidableEq T] [DecidableEq H] in
theorem unstored_eq_false_of_idle (hidle : m.call t = none) : m.unstored t = false := by
  simp [unstored, hidle]

omit [DecidableEq T] [DecidableEq H] in
/-- A thread that has come to its return has stored its schema. -/
theorem unstored_eq_false_of_ret {outcome : Outcome H}
    (hret : m.system.code t = some (.ret outcome)) : m.unstored t = false := by
  refine Bool.eq_false_iff.mpr fun ht => ?_
  obtain ⟨_, _, _, code, -, hcode, hshape⟩ := unstored_iff.mp ht
  obtain rfl : code = .ret outcome := Option.some.inj (hcode.symm.trans hret)
  simp at hshape

omit [DecidableEq T] [DecidableEq H] in
/-- A declaration that has not stored its schema has not locked its exchange, or has. -/
theorem Sound.unstored_cases (h : m.Sound) (ht : m.unstored t = true) : ∃ i D bytes,
    m.call t = some (.declareResponse i D bytes) ∧
      (m.system.code t = some (Code.declareResponse i D bytes) ∨
        m.system.code t = some (Code.declaration i D bytes)) := by
  obtain ⟨i, D, bytes, code, hcall, hcode, hshape⟩ := unstored_iff.mp ht
  refine ⟨i, D, bytes, hcall, ?_⟩
  cases h.stage t i D bytes code hcall hcode with
  | begun => exact .inl hcode
  | locked => exact .inr hcode
  | stored => simp at hshape
  | returned => simp at hshape

omit [DecidableEq T] [DecidableEq H] in
/-- Whether a schema is stored shows in the call and the code of the thread. -/
theorem unstored_congr {u : T} (hcall : m'.call u = m.call u)
    (hcode : m'.system.code u = m.system.code u) : m'.unstored u = m.unstored u := by
  unfold unstored
  rw [hcall, hcode]

omit [DecidableEq T] [DecidableEq H] in
/-- Threads without the unfinished declarations, component by component. -/
theorem eq_erase {n : Threads T H} (hvalue : n.system.value = m.system.value)
    (hholder : ∀ l, n.system.holder l = (m.system.holder l).filter fun t => !m.unstored t)
    (hcode : ∀ t, n.system.code t = if m.unstored t then none else m.system.code t)
    (hcall : ∀ t, n.call t = if m.unstored t then none else m.call t)
    (hrights : n.rights = m.rights) : n = m.erase := by
  obtain ⟨⟨value, holder, code⟩, call, rights⟩ := n
  obtain rfl : holder = _ := funext hholder
  obtain rfl : code = _ := funext hcode
  obtain rfl : call = _ := funext hcall
  subst hvalue hrights
  rfl

/-- Once its schema is stored, a declaration has nothing else to store. -/
theorem Sound.unstored_advance (h : m.Sound) {system : Process T H}
    (hadvance : m.system.advance t = some system) (ht : m.unstored t = false) :
    ({ m with system := system } : Threads T H).unstored t = false := by
  refine Bool.eq_false_iff.mpr fun ht' => ?_
  obtain ⟨i, D, bytes, code', hcall, hcode', hshape⟩ := unstored_iff.mp ht'
  have hnot : ∀ code, m.system.code t = some code →
      ¬ ((∃ l next, code = .lock l next) ∨ ∃ l f next, code = .use l f next) := by
    intro code hcode hshape
    have htrue : m.unstored t = true := unstored_iff.mpr ⟨i, D, bytes, code, hcall, hcode, hshape⟩
    rw [ht] at htrue
    cases htrue
  obtain ⟨l, next, hcode, -, rfl⟩ | ⟨l, f, next, hcode, -, rfl⟩ | ⟨l, next, hcode, -, rfl⟩ :=
    System.advance_cases hadvance
  · exact hnot _ hcode (.inl ⟨l, next, rfl⟩)
  · exact hnot _ hcode (.inr ⟨l, f, next, rfl⟩)
  · generalize hunlock : Mutex.Code.unlock l next = code at hcode
    cases h.stage t i D bytes code hcall hcode with
    | @stored outcome =>
      cases hunlock
      obtain rfl : .ret outcome = code' := by simpa using hcode'
      simp at hshape
    | _ => cases hunlock

omit [DecidableEq H] in
/-- What changes for a thread that stays changes in what is left, too. -/
theorem update_of_stored {α : Type} (ht : m.unstored t = false) (f : T → Option α) (x : Option α)
    (u : T) : Function.update (fun u => if m.unstored u then none else f u) t x u =
      if m.unstored u then none else Function.update f t x u := by
  have hupdate := Function.apply_update
    (fun (u : T) (y : Option α) => if m.unstored u then none else y) f t x u
  simpa [ht] using hupdate.symm

omit [DecidableEq T] in
/-- Updating one holder and leaving threads out commute, if the new holder is not left out. -/
theorem update_filter (p : T → Bool) (holder : LockName H → Option T) (l k : LockName H)
    {x : Option T} (hx : x.filter p = x) :
    Function.update (fun l => (holder l).filter p) l x k =
      (Function.update holder l x k).filter p := by
  have hupdate := Function.apply_update (fun _ (y : Option T) => y.filter p) holder l x k
  rw [hx] at hupdate
  exact hupdate.symm

/-- A call that is no declaration begins without the declarations of others. -/
theorem erase_step_begin {cl : Call H} (hstep : m.step env (.begin t cl) = some m')
    (hnew : m'.unstored t = false) : m.erase.step env (.begin t cl) = some m'.erase := by
  obtain ⟨hidle, rights, hclaim, rfl⟩ := step_begin_iff.mp hstep
  have hold := unstored_eq_false_of_idle hidle
  have hcodes : ∀ system : Process T H, (allocate system cl).code = system.code := by
    intro system
    cases cl <;> rfl
  have hsame : ∀ u, unstored
      { system := (allocate m.system cl).setCode t (some (cl.code env))
        call := Function.update m.call t (some cl)
        rights := rights } u = m.unstored u := by
    intro u
    by_cases hut : u = t
    · rw [hut, hnew, hold]
    · exact unstored_congr (by simp [hut]) (by simp [hut, hcodes])
  refine step_begin_iff.mpr ⟨by simp [erase, hold, hidle], rights, hclaim, ?_⟩
  symm
  refine eq_erase ?_ (fun l => ?_) (fun u => ?_) (fun u => ?_) rfl
  · cases cl <;> rfl
  · simp only [hsame]
    cases cl <;> rfl
  · rw [hsame, System.setCode_code, System.setCode_code, hcodes, hcodes]
    exact update_of_stored hold m.system.code _ u
  · rw [hsame]
    exact update_of_stored hold m.call _ u

/-- A thread that is in no declaration, or has stored its schema, goes on without the
declarations of others. -/
theorem erase_step_advance (h : m.Sound) (hstep : m.step env (.advance t) = some m')
    (hold : m.unstored t = false) : m.erase.step env (.advance t) = some m'.erase := by
  obtain ⟨system, hadvance, rfl⟩ := step_advance_iff.mp hstep
  have hnew := h.unstored_advance hadvance hold
  have hsame : ∀ u, unstored { m with system := system } u = m.unstored u := by
    intro u
    by_cases hut : u = t
    · rw [hut, hnew, hold]
    · exact unstored_congr rfl (advance_code_of_ne hadvance hut)
  have hcode : ∀ code, m.system.code t = some code → m.erase.system.code t = some code := by
    intro code hcode
    simpa [erase, hold] using hcode
  have hmine : ∀ l, m.system.holder l = some t → m.erase.system.holder l = some t := by
    intro l hl
    simp [erase, hl, Option.filter, hold]
  refine step_advance_iff.mpr ?_
  obtain ⟨l, next, hlock, hfree, rfl⟩ | ⟨l, f, next, huse, hl, rfl⟩ |
    ⟨l, next, hunlock, hl, rfl⟩ := System.advance_cases hadvance
  · have hfree' : m.erase.system.holder l = none := by simp [erase, hfree]
    refine ⟨_, (System.advance_lock_iff (hcode _ hlock)).mpr ⟨hfree', rfl⟩, ?_⟩
    symm
    refine eq_erase rfl (fun k => ?_) (fun u => ?_) (fun u => by rw [hsame]; rfl) rfl
    · simp only [hsame]
      exact update_filter _ m.system.holder l k (by simp [Option.filter, hold])
    · rw [hsame]
      exact update_of_stored hold m.system.code _ u
  · refine ⟨_, (System.advance_use_iff (hcode _ huse)).mpr ⟨hmine l hl, rfl⟩, ?_⟩
    symm
    refine eq_erase rfl (fun k => ?_) (fun u => ?_) (fun u => by rw [hsame]; rfl) rfl
    · simp only [hsame]
      rfl
    · rw [hsame]
      exact update_of_stored hold m.system.code _ u
  · refine ⟨_, (System.advance_unlock_iff (hcode _ hunlock)).mpr ⟨hmine l hl, rfl⟩, ?_⟩
    symm
    refine eq_erase rfl (fun k => ?_) (fun u => ?_) (fun u => by rw [hsame]; rfl) rfl
    · simp only [hsame]
      exact update_filter _ m.system.holder l k rfl
    · rw [hsame]
      exact update_of_stored hold m.system.code _ u

/-- A call returns without the declarations of others. -/
theorem erase_step_finish (hstep : m.step env (.finish t) = some m') :
    m.erase.step env (.finish t) = some m'.erase := by
  obtain ⟨outcome, hret, rfl⟩ := step_finish_iff.mp hstep
  have hold := unstored_eq_false_of_ret hret
  have hsame : ∀ u, unstored
      { system := m.system.setCode t none
        call := Function.update m.call t none
        rights := outcome.grant m.rights } u = m.unstored u := by
    intro u
    by_cases hut : u = t
    · rw [hut, hold, unstored_eq_false_of_idle (by simp)]
    · exact unstored_congr (by simp [hut]) (by simp [hut])
  refine step_finish_iff.mpr ⟨outcome, by simp [erase, hold, hret], ?_⟩
  symm
  refine eq_erase rfl (fun l => ?_) (fun u => ?_) (fun u => ?_) rfl
  · simp only [hsame]
    rfl
  · rw [hsame]
    exact update_of_stored hold m.system.code _ u
  · rw [hsame]
    exact update_of_stored hold m.call _ u

/-- Nothing of a thread is left: it does nothing, or declares and has stored nothing. -/
def Unseen (m : Threads T H) (t : T) : Prop :=
  m.unstored t = true ∨ m.call t = none ∧ m.system.code t = none ∧ ∀ l, m.system.holder l ≠ some t

omit [DecidableEq T] [DecidableEq H] in
/-- A thread of which nothing is left is idle and holds nothing. -/
theorem Unseen.erase_eq (h : m.Unseen t) : m.erase.call t = none ∧ m.erase.system.code t = none ∧
    ∀ l, m.erase.system.holder l ≠ some t := by
  rcases h with ht | ⟨hcall, hcode, hholder⟩
  · simp [erase, ht, Option.filter_eq_some_iff]
  · simp [erase, hcall, hcode, hholder, Option.filter_eq_some_iff]

omit [DecidableEq H] in
/-- What a thread does of which nothing is left before and after changes nothing. -/
theorem erase_eq_erase (hbefore : m.Unseen t) (hafter : m'.Unseen t)
    (hvalue : m'.system.value = m.system.value) (hrights : m'.rights = m.rights)
    (hcall : ∀ u, u ≠ t → m'.call u = m.call u)
    (hcode : ∀ u, u ≠ t → m'.system.code u = m.system.code u)
    (hholder : ∀ l u, u ≠ t → (m'.system.holder l = some u ↔ m.system.holder l = some u)) :
    m'.erase = m.erase := by
  have hsame : ∀ u, u ≠ t → m'.unstored u = m.unstored u :=
    fun u hut => unstored_congr (hcall u hut) (hcode u hut)
  obtain ⟨hcall₀, hcode₀, hholder₀⟩ := hbefore.erase_eq
  obtain ⟨hcall₁, hcode₁, hholder₁⟩ := hafter.erase_eq
  symm
  refine eq_erase hvalue.symm (fun l => Option.ext fun u => ?_) (fun u => ?_) (fun u => ?_)
    hrights.symm
  · by_cases hut : u = t
    · subst hut
      exact iff_of_false (hholder₀ l) (hholder₁ l)
    · simp [erase, Option.filter_eq_some_iff, hsame u hut, hholder l u hut]
  · by_cases hut : u = t
    · subst hut
      exact hcode₀.trans hcode₁.symm
    · simp [erase, hsame u hut, hcode u hut]
  · by_cases hut : u = t
    · subst hut
      exact hcall₀.trans hcall₁.symm
    · simp [erase, hsame u hut, hcall u hut]

/-- A declaration that begins is not there yet. -/
theorem erase_begin (h : m.Sound) {i : H} {D : WireType} {bytes : List UInt8}
    (hstep : m.step env (.begin t (.declareResponse i D bytes)) = some m') :
    m'.erase = m.erase := by
  obtain ⟨hidle, rights, hclaim, rfl⟩ := step_begin_iff.mp hstep
  obtain ⟨q, -, hrights⟩ := Option.bind_eq_some_iff.mp hclaim
  rw [Option.ite_none_right_eq_some, Option.some.injEq] at hrights
  obtain ⟨-, rfl⟩ := hrights
  have hcode := (h.orderly.idle_iff t).mp hidle
  have hnothing := h.orderly.disciplined.holds_nothing (.inl hcode)
  refine erase_eq_erase (.inr ⟨hidle, hcode, hnothing⟩) (.inl ?_) rfl rfl ?_ ?_ fun _ _ _ => Iff.rfl
  · exact unstored_iff.mpr ⟨i, D, bytes, _, Function.update_self .., Function.update_self ..,
      .inl ⟨_, _, rfl⟩⟩
  · exact fun u hut => by simp [hut]
  · exact fun u hut => by simp [hut, allocate]

/-- A declaration that locks its exchange is not there yet. -/
theorem erase_lock {i : H} {D : WireType} {bytes : List UInt8}
    (hcall : m.call t = some (.declareResponse i D bytes))
    (hcode : m.system.code t = some (Code.declareResponse i D bytes))
    (hstep : m.step env (.advance t) = some m') : m'.erase = m.erase := by
  obtain ⟨system, hadvance, rfl⟩ := step_advance_iff.mp hstep
  obtain ⟨hfree, rfl⟩ := (System.advance_lock_iff hcode).mp hadvance
  refine erase_eq_erase (.inl (unstored_iff.mpr ⟨i, D, bytes, _, hcall, hcode, .inl ⟨_, _, rfl⟩⟩))
    (.inl ?_) rfl rfl (fun _ _ => rfl) (fun u hut => by simp [hut]) fun l u hut => ?_
  · exact unstored_iff.mpr ⟨i, D, bytes, _, hcall, Function.update_self .., .inr ⟨_, _, _, rfl⟩⟩
  · by_cases hl : l = .exchange i
    · subst hl
      simp [hfree, Ne.symm hut]
    · simp [hl]

omit [DecidableEq H] in
/-- A declaration that panics is not there any more. -/
theorem erase_unwind (ht : m.unstored t = true) : erase
    { system := m.system.unwind t
      call := Function.update m.call t none
      rights := m.rights } = m.erase := by
  refine erase_eq_erase (.inl ht) (.inr ⟨by simp, by simp, fun l => ?_⟩) rfl rfl
    (fun u hut => by simp [hut]) (fun u hut => by simp [hut]) fun l u hut => ?_
  · by_cases hl : m.system.holder l = some t <;> simp [System.unwind_holder, hl]
  · by_cases hl : m.system.holder l = some t
    · simp [System.unwind_holder, hl, Ne.symm hut]
    · simp [System.unwind_holder, hl]

omit [DecidableEq T] [DecidableEq H] in
/-- A declaration that is about to store its schema has locked its exchange and nothing else. -/
theorem Sound.holds_of_locked (h : m.Sound) {i : H} {D : WireType} {bytes : List UInt8}
    (hcode : m.system.code t = some (Code.declaration i D bytes)) {l : LockName H}
    (hl : m.system.holder l = some t) : l = .exchange i := by
  obtain ⟨held, hheld⟩ := h.orderly.disciplined t
  obtain ⟨hhead, hafter⟩ := hheld.code _ hcode
  obtain ⟨rest, rfl⟩ := List.head?_eq_some_iff.mp hhead
  obtain rfl : rest = [] := (hafter none).2
  exact List.mem_singleton.mp ((hheld.mem_iff l).mpr hl)

/-- A declaration begins, locks its exchange and stores its schema. -/
theorem run_declaration (env : Externals) {i : H} (D : WireType) (bytes : List UInt8)
    (hidle : m.call t = none) (hreceipt : HasReceipt m.rights i)
    (hfree : m.system.holder (.exchange i) = none) :
    run (Threads.step env) m [.begin t (.declareResponse i D bytes), .advance t, .advance t] =
      some
        { system :=
            { value := Function.update m.system.value (.exchange i)
                (Option.map (Code.declaring D bytes) (m.system.value (.exchange i)))
              holder := Function.update m.system.holder (.exchange i) (some t)
              code := Function.update m.system.code t (some (.unlock (.exchange i)
                (.ret (.declared i
                  (Option.bind (m.system.value (.exchange i)) (Code.failure D bytes)))))) }
          call := Function.update m.call t (some (.declareResponse i D bytes))
          rights := m.rights } := by
  obtain ⟨q, hq, hreceipt⟩ := hreceipt
  have hclaim : Call.claim m.rights (.declareResponse i D bytes) = some m.rights := by
    simp [Call.claim, hq, hreceipt]
  have hbegin : m.step env (.begin t (.declareResponse i D bytes)) = some
      { system := m.system.setCode t (some (Code.declareResponse i D bytes))
        call := Function.update m.call t (some (.declareResponse i D bytes))
        rights := m.rights } := step_begin_iff.mpr ⟨hidle, m.rights, hclaim, rfl⟩
  have hlock := (System.advance_lock_iff (s := m.system.setCode t
    (some (Code.declareResponse i D bytes))) (t := t) (Function.update_self ..)).mpr ⟨hfree, rfl⟩
  rw [run_cons, hbegin, Option.bind_some, run_cons, step_advance_iff.mpr ⟨_, hlock, rfl⟩,
    Option.bind_some, run_singleton]
  refine step_advance_iff.mpr ⟨_, (System.advance_use_iff (Function.update_self ..)).mpr
    ⟨Function.update_self .., rfl⟩, ?_⟩
  simp [System.setCode, System.setHolder, System.setValue]

/-- A declaration is there when it stores its schema: begun, locked and stored at once. -/
theorem erase_store (h : m.Sound) {i : H} {D : WireType} {bytes : List UInt8}
    (hcall : m.call t = some (.declareResponse i D bytes))
    (hcode : m.system.code t = some (Code.declaration i D bytes))
    (hstep : m.step env (.advance t) = some m') :
    run (Threads.step env) m.erase [.begin t (.declareResponse i D bytes), .advance t,
      .advance t] = some m'.erase := by
  obtain ⟨system, hadvance, hm'⟩ := step_advance_iff.mp hstep
  obtain ⟨hmine, hsystem⟩ := (System.advance_use_iff hcode).mp hadvance
  have hold : m.unstored t = true :=
    unstored_iff.mpr ⟨i, D, bytes, _, hcall, hcode, .inr ⟨_, _, _, rfl⟩⟩
  have hnew : m'.unstored t = false := by simp [hm', hsystem, unstored, hcall]
  have hsame : ∀ u, u ≠ t → m'.unstored u = m.unstored u :=
    fun u hut => unstored_congr (by rw [hm']) (by simp [hm', hsystem, hut])
  obtain ⟨hidle, -, -⟩ := Unseen.erase_eq (.inl hold)
  have hfree : m.erase.system.holder (.exchange i) = none := by
    simp [erase, hmine, Option.filter, hold]
  rw [run_declaration env D bytes hidle (h.receipt t i D bytes hcall) hfree, Option.some.injEq]
  refine eq_erase ?_ (fun l => ?_) (fun u => ?_) (fun u => ?_) ?_
  · rw [hm', hsystem]
    rfl
  · have hkept : m'.system.holder l = m.system.holder l := by
      rw [hm', hsystem]
      rfl
    rw [hkept]
    by_cases hl : l = .exchange i
    · subst hl
      simp [hmine, Option.filter, hnew]
    · cases hother : m.system.holder l with
      | none => simp [hl, erase, hother]
      | some u =>
        have hut : u ≠ t := by
          rintro rfl
          exact hl (h.holds_of_locked hcode hother)
        simp [hl, erase, hother, Option.filter, hsame u hut]
  · by_cases hut : u = t
    · subst hut
      rw [hnew, hm', hsystem]
      simp [erase]
    · have hkept : m'.system.code u = m.system.code u := by simp [hm', hsystem, hut]
      rw [hsame u hut, hkept]
      simp [hut, erase]
  · have hkept : m'.call u = m.call u := by rw [hm']
    rw [hkept]
    by_cases hut : u = t
    · subst hut
      simp [hnew, hcall]
    · simp [hut, hsame u hut, erase]
  · rw [hm']
    rfl

omit [DecidableEq T] [DecidableEq H] in
/-- Declarations return no snapshots. -/
theorem returned_erase (m : Threads T H) (turn : Turn T H) :
    m.erase.returned turn = m.returned turn := by
  cases turn with
  | finish t =>
    by_cases ht : m.unstored t = true
    · obtain ⟨_, _, _, code, -, hcode, ⟨l, next, rfl⟩ | ⟨l, f, next, rfl⟩⟩ := unstored_iff.mp ht <;>
        simp [returned, erase, ht, hcode]
    · simp [returned, erase, ht]
  | _ => rfl

/-- No snapshot is returned before a call finishes. -/
theorem run_note_of_not_finish {turns : List (Turn T H)} {results : List (List Exchange)}
    (hturns : ∀ turn ∈ turns, ∀ t, turn ≠ .finish t)
    (hrun : run (Threads.step env) m turns = some m') :
    run (withHistory (Threads.step env) note) (m, results) turns = some (m', results) := by
  induction turns generalizing m with
  | nil =>
    obtain rfl := Option.some.inj hrun
    rfl
  | cons turn turns ih =>
    rw [List.forall_mem_cons] at hturns
    obtain ⟨n, hn, hrest⟩ := Option.bind_eq_some_iff.mp ((run_cons ..).symm.trans hrun)
    have hnote : m.note results turn = results := by
      cases turn with
      | finish t => exact absurd rfl (hturns.1 t)
      | _ => simp [note, returned]
    have hfirst : withHistory (Threads.step env) note (m, results) turn = some (n, results) :=
      withHistory_eq_some_iff.mpr ⟨hn, hnote.symm⟩
    rw [run_cons, hfirst, Option.bind_some]
    exact ih hturns.2 hrest

/-- Every turn can be made without the declarations that have not stored their schemas. -/
theorem Sound.exists_erased (h : m.Sound) {turn : Turn T H} (hstep : m.step env turn = some m')
    (results : List (List Exchange)) :
    ∃ turns, run (withHistory (Threads.step env) note) (m.erase, results) turns =
      some (m'.erase, m.note results turn) := by
  have hsame : m.erase.step env turn = some m'.erase →
      ∃ turns, run (withHistory (Threads.step env) note) (m.erase, results) turns =
        some (m'.erase, m.note results turn) := by
    intro herased
    refine ⟨[turn], (run_singleton turn).trans (withHistory_eq_some_iff.mpr ⟨herased, ?_⟩)⟩
    rw [note, note, returned_erase]
  cases turn with
  | begin t cl =>
    by_cases hnew : m'.unstored t = true
    · obtain ⟨i, D, bytes, _, hcall, -, -⟩ := unstored_iff.mp hnew
      obtain rfl : cl = .declareResponse i D bytes := by
        obtain ⟨-, _, -, rfl⟩ := step_begin_iff.mp hstep
        simpa using hcall
      exact ⟨[], by simp [erase_begin h hstep, note, returned]⟩
    · exact hsame (erase_step_begin hstep (by simpa using hnew))
  | advance t =>
    by_cases hold : m.unstored t = true
    · obtain ⟨i, D, bytes, hcall, hcode | hcode⟩ := h.unstored_cases hold
      · exact ⟨[], by simp [erase_lock hcall hcode hstep, note, returned]⟩
      · have hnote : m.note results (.advance t) = results := by simp [note, returned]
        rw [hnote]
        exact ⟨_, run_note_of_not_finish (by simp) (erase_store h hcall hcode hstep)⟩
    · exact hsame (erase_step_advance h hstep (by simpa using hold))
  | finish t => exact hsame (erase_step_finish hstep)

end Threads

/-! ## Runs -/

namespace PanickingThreads

variable {config : Redactions} {p p' : PanickingThreads T H}

/-- What a panic keeps. -/
theorem sound_panic (h : p.threads.Sound) (hstep : p.step env (.panic t) = some p') :
    p'.threads.Sound := by
  obtain ⟨i, D, bytes, l, f, next, -, -, rfl⟩ := step_panic_iff.mp hstep
  refine ⟨⟨h.orderly.disciplined.unwind t, fun u => ?_⟩, fun u j D' bytes' code hcall hcode => ?_,
    fun u j D' bytes' hcall => h.receipt u j D' bytes' (call_of_update_none hcall).2⟩
  · by_cases hut : u = t
    · simp [hut]
    · simpa [hut] using h.orderly.idle_iff u
  · obtain ⟨hut, hcall'⟩ := call_of_update_none hcall
    exact h.stage u j D' bytes' code hcall' (by simpa [hut] using hcode)

/-- What is left of the threads without the declarations that have not stored their schemas
is left by turns without a panic. -/
structure Erased (env : Externals) (config : Redactions) (p : PanickingThreads T H)
    (results : List (List Exchange)) : Prop where
  sound : p.threads.Sound
  reached : ∃ turns, run (withHistory (Threads.step env) Threads.note) (.init config, []) turns =
    some (p.threads.erase, results)
  poisoned : ∀ l, p.poisoned l = true → ∃ h, l = .exchange h

omit [DecidableEq T] [DecidableEq H] in
theorem erase_init (config : Redactions) :
    (Threads.init config : Threads T H).erase = Threads.init config :=
  (Threads.eq_erase rfl (fun _ => rfl) (fun _ => rfl) (fun _ => rfl) rfl).symm

theorem erased_init (env : Externals) (config : Redactions) :
    Erased env config (init config : PanickingThreads T H) [] :=
  ⟨Threads.sound_init config, ⟨[], by simp [init, erase_init]⟩, nofun⟩

/-- Whatever turn is taken and whichever declaration panics, turns without a panic lead to what
is left. -/
theorem Erased.step {results : List (List Exchange)} (h : Erased env config p results)
    {turn : PanickingTurn T H} (hstep : p.step env turn = some p') :
    Erased env config p' (p.note results turn) := by
  obtain ⟨before, hbefore⟩ := h.reached
  cases turn with
  | turn turn =>
    obtain ⟨threads, hthreads, rfl⟩ := step_turn_iff.mp hstep
    obtain ⟨turns, hturns⟩ := h.sound.exists_erased hthreads results
    refine ⟨h.sound.step hthreads, ⟨before ++ turns, ?_⟩, h.poisoned⟩
    rw [run_append, hbefore]
    exact hturns
  | panic t =>
    have hsound := sound_panic h.sound hstep
    obtain ⟨i, D, bytes, l, f, next, hcall, hcode, rfl⟩ := step_panic_iff.mp hstep
    have hunstored : p.threads.unstored t = true :=
      Threads.unstored_iff.mpr ⟨i, D, bytes, _, hcall, hcode, .inr ⟨l, f, next, rfl⟩⟩
    refine ⟨hsound, ⟨before, ?_⟩, fun k hk => ?_⟩
    · rw [Threads.erase_unwind hunstored]
      exact hbefore
    · by_cases hkl : k = l
      · generalize hlocked : Mutex.Code.use l f next = code at hcode
        cases h.sound.stage t i D bytes code hcall hcode with
        | locked =>
          cases hlocked
          exact ⟨i, hkl⟩
        | _ => cases hlocked
      · exact h.poisoned k (by simpa [hkl] using hk)

/-- So they do after every run. -/
theorem erased_of_run {results : List (List Exchange)} {turns : List (PanickingTurn T H)}
    (hrun : run (withHistory (step env) note) (init config, []) turns = some (p, results)) :
    Erased env config p results :=
  run_invariant (P := fun _ q => Erased env config q.1 q.2) (erased_init env config)
    (fun _ _ _ _ _ ih hstep => by
      obtain ⟨hstep, hnote⟩ := withHistory_eq_some_iff.mp hstep
      exact hnote ▸ ih.step hstep) hrun

end PanickingThreads

end

namespace PanickingThreads

/-- A type of which every text is one. -/
def anyType : WireType where
  typeName := "Any"
  fromSlice := fun _ => .ok ()
  rootSchema := ⟨.bool true, .empty⟩

/-- A declaration panics while a snapshot waits for its exchange. -/
def panicking : List (PanickingTurn Nat Nat) :=
  [.turn (.begin 0 (.push 0 .get "/users" none)), .turn (.advance 0), .turn (.advance 0),
    .turn (.advance 0), .turn (.finish 0), .turn (.begin 0 (.setStatus 0 200)),
    .turn (.advance 0), .turn (.advance 0), .turn (.advance 0), .turn (.finish 0),
    .turn (.begin 0 (.declareResponse 0 anyType [])), .turn (.advance 0),
    .turn (.begin 1 .snapshot), .turn (.advance 1), .turn (.advance 1), .panic 0,
    .turn (.advance 1), .turn (.advance 1), .turn (.advance 1), .turn (.advance 1),
    .turn (.finish 1)]

end PanickingThreads

end Cyanotype
