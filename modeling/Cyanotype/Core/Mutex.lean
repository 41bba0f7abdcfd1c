import Mathlib.Logic.Function.Basic
import Mathlib.Logic.Relation
import Mathlib.Data.List.Basic

/-!
# Threads and mutexes

Threads share values only through locks that own them. A thread uses a value through the
guard of its lock, which it releases before the guards it had before. Locks have ranks,
and a thread locks only below what it holds. Then threads never wait in a circle, and what
they do to a value of the lowest rank while they hold its lock takes effect at once.
-/

namespace Cyanotype.Mutex

variable {T L : Type*} {V : L → Type*} {R : Type*}

/-- What a thread has left to do before it returns a result. -/
inductive Code (V : L → Type*) (R : Type*) where
  | ret (result : R)
  /-- Wait for a lock. -/
  | lock (l : L) (next : Code V R)
  /-- Put a new value behind a lock and go on with the one read. -/
  | use (l : L) (f : V l → V l) (next : V l → Code V R)
  /-- Release the guard of a lock. -/
  | unlock (l : L) (next : Code V R)

/-- The code, begun with the given locks held, innermost first, locks only below what it
holds, uses and releases the innermost guard only, and returns without any. -/
def Code.Disciplined (rank : L → Nat) : Code V R → List L → Prop
  | ret _, held => held = []
  | lock l next, held => (∀ m ∈ held, rank l < rank m) ∧ next.Disciplined rank (l :: held)
  | use l _ next, held => held.head? = some l ∧ ∀ v, (next v).Disciplined rank held
  | unlock l next, held => held.head? = some l ∧ next.Disciplined rank held.tail

/-- The lock that the next move is about. -/
def Code.target : Code V R → Option L
  | ret _ => none
  | lock l _ => some l
  | use l _ _ => some l
  | unlock l _ => some l

/-- From one code and value behind a lock to another by uses of that lock only. -/
inductive Section (l : L) (code : Code V R) (v : V l) : Code V R → V l → Prop
  | refl : Section l code v code v
  | use {f : V l → V l} {next : V l → Code V R} {w : V l} :
    Section l code v (.use l f next) w → Section l code v (next w) (f w)

namespace Section

variable {l : L} {code code' next : Code V R} {v w : V l}

/-- A first use of the lock, before the others. -/
theorem cons {f : V l → V l} {next : V l → Code V R} (h : Section l (next v) (f v) code w) :
    Section l (.use l f next) v code w := by
  induction h with
  | refl => exact .use .refl
  | use _ ih => exact .use ih

/-- What a section begins with. -/
theorem cases_head (h : Section l code v code' w) : (code' = code ∧ w = v) ∨
    ∃ f next, code = .use l f next ∧ Section l (next v) (f v) code' w := by
  induction h with
  | refl => exact .inl ⟨rfl, rfl⟩
  | @use f next w h ih =>
    rcases ih with ⟨hcode, rfl⟩ | ⟨f', next', hcode, hrest⟩
    · exact .inr ⟨f, next, hcode.symm, .refl⟩
    · exact .inr ⟨f', next', hcode, .use hrest⟩

@[simp] theorem use_unlock_iff {f : V l → V l} {next' : V l → Code V R} :
    Section l (.use l f next') v (.unlock l next) w ↔
      Section l (next' v) (f v) (.unlock l next) w := by
  refine ⟨fun h => ?_, cons⟩
  rcases h.cases_head with ⟨hcode, -⟩ | ⟨f', next', hcode, hrest⟩
  · cases hcode
  · cases hcode
    exact hrest

@[simp] theorem unlock_iff {next' : Code V R} :
    Section l (.unlock l next') v (.unlock l next) w ↔ next = next' ∧ w = v := by
  constructor
  · intro h
    rcases h.cases_head with ⟨hcode, hvalue⟩ | ⟨f, next, hcode, -⟩
    · cases hcode
      exact ⟨rfl, hvalue⟩
    · cases hcode
  · rintro ⟨rfl, rfl⟩
    exact .refl

end Section

/-- The values behind the locks, who holds them, and what each thread has left to do; an
idle thread has nothing. -/
structure System (T : Type*) (V : L → Type*) (R : Type*) where
  value : (l : L) → V l
  holder : L → Option T
  code : T → Option (Code V R)

namespace System

variable {s s' c : System T V R} {t : T} {rank : L → Nat}

/-! ## The discipline -/

/-- The locks that a thread holds, innermost first, and the code it has left with them. -/
structure Holds (rank : L → Nat) (s : System T V R) (t : T) (held : List L) : Prop where
  mem_iff : ∀ l, l ∈ held ↔ s.holder l = some t
  ordered : held.Pairwise fun l m => rank l < rank m
  idle : s.code t = none → held = []
  code : ∀ code, s.code t = some code → code.Disciplined rank held

/-- Every thread keeps the discipline. -/
def Disciplined (rank : L → Nat) (s : System T V R) : Prop := ∀ t, ∃ held, s.Holds rank t held

namespace Holds

variable {u : T} {held : List L} {l : L}

/-- A thread keeps what it holds when others move. -/
theorem frame (h : s.Holds rank u held) (hholder : ∀ l, s'.holder l = some u ↔ s.holder l = some u)
    (hcode : s'.code u = s.code u) : s'.Holds rank u held :=
  ⟨fun l => (h.mem_iff l).trans (hholder l).symm, h.ordered, fun hidle => h.idle (hcode ▸ hidle),
    fun code hcode' => h.code code (hcode ▸ hcode')⟩

/-- A lock of the lowest rank is the innermost one that its holder holds. -/
theorem head_of_leaf (h : s.Holds rank u held) (hleaf : rank l = 0) (hl : l ∈ held) :
    held.head? = some l := by
  cases held with
  | nil => cases hl
  | cons m rest =>
    rcases List.mem_cons.mp hl with rfl | hrest
    · rfl
    · have hlt := (List.pairwise_cons.mp h.ordered).1 l hrest
      omega

end Holds

/-- A thread waits for a lock that another one holds. -/
def Waits (s : System T V R) (t u : T) : Prop :=
  ∃ l next, s.code t = some (.lock l next) ∧ s.holder l = some u

/-- A thread that has something left to do. -/
def Busy (s : System T V R) (t : T) : Prop :=
  ∃ code, s.code t = some code ∧ ∀ result, code ≠ .ret result

/-- Who holds a lock has something left to do. -/
theorem Disciplined.busy_of_holder (h : s.Disciplined rank) {l : L} (hl : s.holder l = some t) :
    s.Busy t := by
  obtain ⟨held, hheld⟩ := h t
  have hne : held ≠ [] := List.ne_nil_of_mem ((hheld.mem_iff l).mpr hl)
  cases hcode : s.code t with
  | none => exact absurd (hheld.idle hcode) hne
  | some code =>
    refine ⟨code, hcode, ?_⟩
    rintro result rfl
    exact hne (hheld.code _ hcode)

/-- The lock that a thread waits for ranks above the lock that its holder waits for. -/
theorem Disciplined.rank_lt (h : s.Disciplined rank) {l m : L} {u : T} {next : Code V R}
    (hholder : s.holder l = some u) (hcode : s.code u = some (.lock m next)) :
    rank m < rank l := by
  obtain ⟨held, hheld⟩ := h u
  exact (hheld.code _ hcode).1 l ((hheld.mem_iff l).mpr hholder)

/-! ## Moves -/

section

variable [DecidableEq T] (s : System T V R) (t : T) (code : Option (Code V R))

/-- The system with other code for a thread. -/
def setCode : System T V R := { s with code := Function.update s.code t code }

@[simp] theorem setCode_value : (s.setCode t code).value = s.value := rfl

@[simp] theorem setCode_holder : (s.setCode t code).holder = s.holder := rfl

@[simp] theorem setCode_code :
    (s.setCode t code).code = Function.update s.code t code := rfl

end

section

variable [DecidableEq L] (s : System T V R) (l : L)

/-- The system with another value behind a lock. -/
def setValue (v : V l) : System T V R := { s with value := Function.update s.value l v }

/-- The system with another holder of a lock. -/
def setHolder (holder : Option T) : System T V R :=
  { s with holder := Function.update s.holder l holder }

@[simp] theorem setValue_value (v : V l) :
    (s.setValue l v).value = Function.update s.value l v := rfl

@[simp] theorem setValue_holder (v : V l) : (s.setValue l v).holder = s.holder := rfl

@[simp] theorem setValue_code (v : V l) : (s.setValue l v).code = s.code := rfl

@[simp] theorem setHolder_value (holder : Option T) :
    (s.setHolder l holder).value = s.value := rfl

@[simp] theorem setHolder_holder (holder : Option T) :
    (s.setHolder l holder).holder = Function.update s.holder l holder := rfl

@[simp] theorem setHolder_code (holder : Option T) :
    (s.setHolder l holder).code = s.code := rfl

end

variable [DecidableEq T] [DecidableEq L]

/-- One step of a thread. A lock in use is waited for. -/
def advance (s : System T V R) (t : T) : Option (System T V R) :=
  match s.code t with
  | some (.lock l next) =>
    if s.holder l = none then some ((s.setHolder l (some t)).setCode t (some next)) else none
  | some (.use l f next) =>
    if s.holder l = some t then
      some ((s.setValue l (f (s.value l))).setCode t (some (next (s.value l))))
    else none
  | some (.unlock l next) =>
    if s.holder l = some t then some ((s.setHolder l none).setCode t (some next)) else none
  | _ => none

/-- What a step of a thread can do. -/
theorem advance_cases (h : s.advance t = some s') :
    (∃ l next, s.code t = some (.lock l next) ∧ s.holder l = none ∧
      s' = (s.setHolder l (some t)).setCode t (some next)) ∨
    (∃ l f next, s.code t = some (.use l f next) ∧ s.holder l = some t ∧
      s' = (s.setValue l (f (s.value l))).setCode t (some (next (s.value l)))) ∨
    ∃ l next, s.code t = some (.unlock l next) ∧ s.holder l = some t ∧
      s' = (s.setHolder l none).setCode t (some next) := by
  unfold advance at h
  split at h
  case h_1 l next hcode =>
    rw [Option.ite_none_right_eq_some] at h
    exact .inl ⟨l, next, hcode, h.1, (Option.some.inj h.2).symm⟩
  case h_2 l f next hcode =>
    rw [Option.ite_none_right_eq_some] at h
    exact .inr (.inl ⟨l, f, next, hcode, h.1, (Option.some.inj h.2).symm⟩)
  case h_3 l next hcode =>
    rw [Option.ite_none_right_eq_some] at h
    exact .inr (.inr ⟨l, next, hcode, h.1, (Option.some.inj h.2).symm⟩)
  case h_4 => cases h

section

variable {l : L} {next : Code V R}

/-- A lock is taken when it is free. -/
theorem advance_lock_iff (hcode : s.code t = some (.lock l next)) : s.advance t = some s' ↔
    s.holder l = none ∧ s' = (s.setHolder l (some t)).setCode t (some next) := by
  rw [advance, hcode, Option.ite_none_right_eq_some, Option.some.injEq, eq_comm (a := s')]

/-- A value is used by who holds its lock. -/
theorem advance_use_iff {f : V l → V l} {next : V l → Code V R}
    (hcode : s.code t = some (.use l f next)) : s.advance t = some s' ↔
      s.holder l = some t ∧
        s' = (s.setValue l (f (s.value l))).setCode t (some (next (s.value l))) := by
  rw [advance, hcode, Option.ite_none_right_eq_some, Option.some.injEq, eq_comm (a := s')]

/-- A lock is released by who holds it. -/
theorem advance_unlock_iff (hcode : s.code t = some (.unlock l next)) :
    s.advance t = some s' ↔
      s.holder l = some t ∧ s' = (s.setHolder l none).setCode t (some next) := by
  rw [advance, hcode, Option.ite_none_right_eq_some, Option.some.injEq, eq_comm (a := s')]

end

/-- A step keeps the discipline. -/
theorem Disciplined.advance (h : s.Disciplined rank) (hstep : s.advance t = some s') :
    s'.Disciplined rank := by
  intro u
  obtain ⟨held, hheld⟩ := h u
  by_cases hu : u = t
  · subst hu
    obtain ⟨l, next, hcode, hfree, rfl⟩ | ⟨l, f, next, hcode, hmine, rfl⟩ |
      ⟨l, next, hcode, hmine, rfl⟩ := advance_cases hstep
    · obtain ⟨hbelow, hnext⟩ := hheld.code _ hcode
      refine ⟨l :: held, fun m => ?_, List.pairwise_cons.mpr ⟨hbelow, hheld.ordered⟩, ?_, ?_⟩
      · by_cases hm : m = l
        · simp [hm]
        · simp [hm, hheld.mem_iff m]
      · simp
      · simpa using hnext
    · obtain ⟨-, hnext⟩ := hheld.code _ hcode
      refine ⟨held, hheld.mem_iff, hheld.ordered, ?_, ?_⟩
      · simp
      · simpa using hnext (s.value l)
    · obtain ⟨hhead, hnext⟩ := hheld.code _ hcode
      obtain ⟨rest, rfl⟩ : ∃ rest, held = l :: rest := List.head?_eq_some_iff.mp hhead
      obtain ⟨hbelow, hordered⟩ := List.pairwise_cons.mp hheld.ordered
      refine ⟨rest, fun m => ?_, hordered, ?_, ?_⟩
      · by_cases hm : m = l
        · subst hm
          have hnot : m ∉ rest := fun hrest => absurd (hbelow m hrest) (Nat.lt_irrefl _)
          simp [hnot]
        · have hmem := hheld.mem_iff m
          rw [List.mem_cons] at hmem
          simpa [hm] using hmem
      · simp
      · simpa using hnext
  · refine ⟨held, hheld.frame (fun m => ?_) ?_⟩
    · obtain ⟨l, next, hcode, hfree, rfl⟩ | ⟨l, f, next, hcode, hmine, rfl⟩ |
        ⟨l, next, hcode, hmine, rfl⟩ := advance_cases hstep
      · by_cases hm : m = l
        · subst hm
          simp [hfree, Ne.symm hu]
        · simp [hm]
      · rfl
      · by_cases hm : m = l
        · subst hm
          simp [hmine, Ne.symm hu]
        · simp [hm]
    · obtain ⟨l, next, -, -, rfl⟩ | ⟨l, f, next, -, -, rfl⟩ | ⟨l, next, -, -, rfl⟩ :=
        advance_cases hstep <;> simp [hu]

omit [DecidableEq L] in
/-- An idle thread takes up code that begins and ends without locks. -/
theorem Disciplined.start (h : s.Disciplined rank) (hidle : s.code t = none) {code : Code V R}
    (hcode : code.Disciplined rank []) : (s.setCode t (some code)).Disciplined rank := by
  intro u
  obtain ⟨held, hheld⟩ := h u
  by_cases hu : u = t
  · subst hu
    obtain rfl := hheld.idle hidle
    exact ⟨[], hheld.mem_iff, hheld.ordered, fun _ => rfl, by simpa using hcode⟩
  · exact ⟨held, hheld.frame (fun _ => Iff.rfl) (by simp [hu])⟩

omit [DecidableEq L] in
/-- A thread that has returned becomes idle. -/
theorem Disciplined.finish (h : s.Disciplined rank) {result : R}
    (hret : s.code t = some (.ret result)) : (s.setCode t none).Disciplined rank := by
  intro u
  obtain ⟨held, hheld⟩ := h u
  by_cases hu : u = t
  · subst hu
    obtain rfl : held = [] := hheld.code _ hret
    exact ⟨[], hheld.mem_iff, hheld.ordered, fun _ => rfl, by simp⟩
  · exact ⟨held, hheld.frame (fun _ => Iff.rfl) (by simp [hu])⟩

omit [DecidableEq T] in
/-- Values may change from outside. -/
theorem Disciplined.setValue (h : s.Disciplined rank) (l : L) (v : V l) :
    (s.setValue l v).Disciplined rank := by
  intro u
  obtain ⟨held, hheld⟩ := h u
  exact ⟨held, hheld.frame (fun _ => Iff.rfl) rfl⟩

/-! ## Panics -/

section

variable (s : System T V R) (t : T)

/-- A thread that panics drops its guards, and the rest of its code is left undone. Locks
are taken whether or not a panic has poisoned them, so they are free again then. -/
def unwind : System T V R where
  value := s.value
  holder := fun l => if s.holder l = some t then none else s.holder l
  code := Function.update s.code t none

omit [DecidableEq L]

@[simp] theorem unwind_value : (s.unwind t).value = s.value := rfl

@[simp] theorem unwind_code : (s.unwind t).code = Function.update s.code t none := rfl

/-- Unwinding a thread releases what it holds and nothing else. -/
theorem unwind_holder (l : L) :
    (s.unwind t).holder l = if s.holder l = some t then none else s.holder l := rfl

end

omit [DecidableEq L] in
/-- The others keep the locks they hold. -/
theorem Disciplined.unwind (h : s.Disciplined rank) (t : T) : (s.unwind t).Disciplined rank := by
  intro u
  by_cases hu : u = t
  · subst hu
    refine ⟨[], fun l => ?_, .nil, fun _ => rfl, by simp⟩
    by_cases hl : s.holder l = some u <;> simp [unwind_holder, hl]
  · obtain ⟨held, hheld⟩ := h u
    refine ⟨held, hheld.frame (fun l => ?_) (by simp [hu])⟩
    by_cases hl : s.holder l = some t
    · simp [unwind_holder, hl, Ne.symm hu]
    · simp [unwind_holder, hl]

/-! ## No thread waits forever -/

/-- A thread with something left to do moves, or waits for another one. -/
theorem Disciplined.advance_or_waits (h : s.Disciplined rank) (ht : s.Busy t) :
    (∃ s', s.advance t = some s') ∨ ∃ u, s.Waits t u := by
  obtain ⟨code, hcode, hret⟩ := ht
  obtain ⟨held, hheld⟩ := h t
  have hdisciplined := hheld.code code hcode
  cases code with
  | ret result => exact absurd rfl (hret result)
  | lock l next =>
    cases hholder : s.holder l with
    | none => exact .inl ⟨_, (advance_lock_iff hcode).mpr ⟨hholder, rfl⟩⟩
    | some u => exact .inr ⟨u, l, next, hcode, hholder⟩
  | use l f next =>
    have hmine := (hheld.mem_iff l).mp (List.mem_of_head? hdisciplined.1)
    exact .inl ⟨_, (advance_use_iff hcode).mpr ⟨hmine, rfl⟩⟩
  | unlock l next =>
    have hmine := (hheld.mem_iff l).mp (List.mem_of_head? hdisciplined.1)
    exact .inl ⟨_, (advance_unlock_iff hcode).mpr ⟨hmine, rfl⟩⟩

/-- No deadlock: whoever has something left to do can move, or waits, through others that
wait, for one that can. -/
theorem Disciplined.exists_advance (h : s.Disciplined rank) (ht : s.Busy t) :
    ∃ u, Relation.ReflTransGen s.Waits t u ∧ ∃ s', s.advance u = some s' := by
  rcases h.advance_or_waits ht with hmoves | ⟨u, l, next, hcode, hholder⟩
  · exact ⟨t, .refl, hmoves⟩
  · induction hn : rank l using Nat.strongRecOn generalizing t l next u with
    | ind n ih =>
      have hwaits : s.Waits t u := ⟨l, next, hcode, hholder⟩
      have hbusy := h.busy_of_holder hholder
      rcases h.advance_or_waits hbusy with hmoves | ⟨w, m, next', hcode', hholder'⟩
      · exact ⟨u, .single hwaits, hmoves⟩
      · have hlt := h.rank_lt hholder hcode'
        obtain ⟨v, hpath, hmoves⟩ := ih (rank m) (hn ▸ hlt) hbusy w m next' hcode' hholder' rfl
        exact ⟨v, .head hwaits hpath, hmoves⟩

/-! ## Sections take effect at once -/

/-- One step of a thread, where what it does while it holds a lock of the lowest rank is
one step. -/
inductive Atomic (rank : L → Nat) (s : System T V R) (t : T) : System T V R → Prop
  | whole {l : L} {code next : Code V R} {v : V l} (hleaf : rank l = 0)
    (hfree : s.holder l = none) (hcode : s.code t = some (.lock l code))
    (hsection : Section l code (s.value l) (.unlock l next) v) :
    Atomic rank s t ((s.setValue l v).setCode t (some next))
  | move {code : Code V R} {l : L} {s' : System T V R} (hcode : s.code t = some code)
    (htarget : code.target = some l) (hrank : rank l ≠ 0) (hstep : s.advance t = some s') :
    Atomic rank s t s'

/-- A system where no section of a lock of the lowest rank has begun, and one where such
sections may be under way: the one shows what the other has committed. -/
structure Commits (rank : L → Nat) (s c : System T V R) : Prop where
  holder : ∀ l, rank l ≠ 0 → c.holder l = s.holder l
  free : ∀ l, rank l = 0 → c.holder l = none
  value : ∀ l, (rank l = 0 → s.holder l = none) → c.value l = s.value l
  outside : ∀ t, (∀ l, rank l = 0 → s.holder l ≠ some t) → c.code t = s.code t
  inside : ∀ l t, rank l = 0 → s.holder l = some t → ∃ start now,
    c.code t = some (.lock l start) ∧ s.code t = some now ∧
      Section l start (c.value l) now (s.value l)

namespace Atomic

variable {l : L} {code : Code V R}

/-- A thread that locks a lock of the lowest rank does the whole section. -/
theorem of_lock (h : Atomic rank s t s') (hcode : s.code t = some (.lock l code))
    (hleaf : rank l = 0) : s.holder l = none ∧ ∃ next v,
      Section l code (s.value l) (.unlock l next) v ∧
        s' = (s.setValue l v).setCode t (some next) := by
  cases h with
  | whole _ hfree hcode' hsection =>
    cases hcode.symm.trans hcode'
    exact ⟨hfree, _, _, hsection, rfl⟩
  | move hcode' htarget hrank _ =>
    cases hcode.symm.trans hcode'
    cases htarget
    exact absurd hleaf hrank

/-- A move on a lock of a higher rank is a step by itself. -/
theorem of_target (h : Atomic rank s t s') (hcode : s.code t = some code)
    (htarget : code.target = some l) (hrank : rank l ≠ 0) : s.advance t = some s' := by
  cases h with
  | whole hleaf _ hcode' _ =>
    cases hcode.symm.trans hcode'
    cases htarget
    exact absurd hleaf hrank
  | move _ _ _ hstep => exact hstep

/-- A thread that has returned does not move. -/
theorem not_ret (h : Atomic rank s t s') (result : R) : s.code t ≠ some (.ret result) := by
  intro hcode
  cases h with
  | whole _ _ hcode' _ => cases hcode.symm.trans hcode'
  | move hcode' htarget _ _ =>
    cases hcode.symm.trans hcode'
    cases htarget

end Atomic

omit [DecidableEq T] [DecidableEq L] in
/-- A thread that is idle or has returned holds nothing. -/
theorem Disciplined.holds_nothing (h : s.Disciplined rank)
    (hrest : s.code t = none ∨ ∃ result, s.code t = some (.ret result)) (l : L) :
    s.holder l ≠ some t := by
  intro hl
  obtain ⟨held, hheld⟩ := h t
  have hnil : held = [] := by
    rcases hrest with hidle | ⟨result, hret⟩
    · exact hheld.idle hidle
    · exact hheld.code _ hret
  exact List.not_mem_nil (hnil ▸ (hheld.mem_iff l).mpr hl)

omit [DecidableEq T] [DecidableEq L] in
/-- A thread that moves on a lock of a higher rank is in no section. -/
theorem Disciplined.outside (h : s.Disciplined rank) {code : Code V R} {l : L}
    (hcode : s.code t = some code) (htarget : code.target = some l)
    (hrank : rank l ≠ 0 ∨ ∃ next, code = .lock l next) {m : L} (hleaf : rank m = 0) :
    s.holder m ≠ some t := by
  intro hm
  obtain ⟨held, hheld⟩ := h t
  have hmem := (hheld.mem_iff m).mpr hm
  have hhead := hheld.head_of_leaf hleaf hmem
  have hdisciplined := hheld.code code hcode
  cases code with
  | ret result => cases htarget
  | lock l' next =>
    have hlt := hdisciplined.1 m hmem
    omega
  | use l' f next =>
    obtain rfl : l' = l := Option.some.inj htarget
    obtain rfl : l' = m := Option.some.inj (hdisciplined.1.symm.trans hhead)
    exact hrank.elim (fun hne => hne hleaf) nofun
  | unlock l' next =>
    obtain rfl : l' = l := Option.some.inj htarget
    obtain rfl : l' = m := Option.some.inj (hdisciplined.1.symm.trans hhead)
    exact hrank.elim (fun hne => hne hleaf) nofun

omit [DecidableEq T] [DecidableEq L] in
/-- A thread is in one section at a time. -/
theorem Disciplined.leaf_unique (h : s.Disciplined rank) {l m : L} (hl : rank l = 0)
    (hlt : s.holder l = some t) (hm : rank m = 0) (hmt : s.holder m = some t) : m = l := by
  obtain ⟨held, hheld⟩ := h t
  have hhead := hheld.head_of_leaf hl ((hheld.mem_iff l).mpr hlt)
  have hhead' := hheld.head_of_leaf hm ((hheld.mem_iff m).mpr hmt)
  exact Option.some.inj (hhead'.symm.trans hhead)

namespace Commits

variable {l : L} {next : Code V R}

omit [DecidableEq T] [DecidableEq L] in
/-- Where no lock is held, everything is committed. -/
theorem self (h : ∀ l, s.holder l = none) : Commits rank s s :=
  ⟨fun _ _ => rfl, fun l _ => h l, fun _ _ => rfl, fun _ _ => rfl,
    fun l t _ hl => by cases (h l).symm.trans hl⟩

/-- A section begins without effect. -/
theorem enter (h : Commits rank s c) (hcode : s.code t = some (.lock l next))
    (hleaf : rank l = 0) (hfree : s.holder l = none)
    (hnone : ∀ m, rank m = 0 → s.holder m ≠ some t) :
    Commits rank ((s.setHolder l (some t)).setCode t (some next)) c := by
  have hsame := h.outside t hnone
  refine ⟨fun m hm => ?_, h.free, fun m hm => ?_, fun u hu => ?_, fun m u hm hu => ?_⟩
  · have hml : m ≠ l := fun hml => hm (hml ▸ hleaf)
    simpa [hml] using h.holder m hm
  · by_cases hml : m = l
    · subst hml
      simpa using hm hleaf
    · exact h.value m (by simpa [hml] using hm)
  · have hut : u ≠ t := by
      rintro rfl
      exact hu l hleaf (by simp)
    have hout : ∀ m, rank m = 0 → s.holder m ≠ some u := by
      intro m hm hmu
      have hml : m ≠ l := by
        rintro rfl
        rw [hfree] at hmu
        cases hmu
      exact hu m hm (by simpa [hml] using hmu)
    simpa [hut] using h.outside u hout
  · by_cases hml : m = l
    · subst hml
      obtain rfl : t = u := by simpa using hu
      refine ⟨next, next, hsame.trans hcode, by simp, ?_⟩
      rw [h.value m fun _ => hfree]
      exact .refl
    · have hmu : s.holder m = some u := by simpa [hml] using hu
      have hut : u ≠ t := by
        rintro rfl
        exact hnone m hm hmu
      simpa [hut] using h.inside m u hm hmu

/-- Inside a section, nothing is committed. -/
theorem use (h : Commits rank s c) {f : V l → V l} {next : V l → Code V R}
    (hcode : s.code t = some (.use l f next)) (hleaf : rank l = 0)
    (hmine : s.holder l = some t) (honly : ∀ m, rank m = 0 → s.holder m = some t → m = l) :
    Commits rank ((s.setValue l (f (s.value l))).setCode t (some (next (s.value l)))) c := by
  obtain ⟨start, now, hstart, hnow, hsection⟩ := h.inside l t hleaf hmine
  obtain rfl : now = .use l f next := Option.some.inj (hnow.symm.trans hcode)
  refine ⟨h.holder, h.free, fun m hm => ?_, fun u hu => ?_, fun m u hm hu => ?_⟩
  · have hml : m ≠ l := by
      rintro rfl
      have hnone := hm hleaf
      simp [hmine] at hnone
    simpa [hml] using h.value m hm
  · have hut : u ≠ t := by
      rintro rfl
      exact hu l hleaf hmine
    simpa [hut] using h.outside u hu
  · by_cases hml : m = l
    · subst hml
      obtain rfl : t = u := Option.some.inj (hmine.symm.trans hu)
      exact ⟨start, next (s.value m), hstart, by simp, by simpa using hsection.use⟩
    · have hut : u ≠ t := by
        rintro rfl
        exact hml (honly m hm hu)
      simpa [hut, hml] using h.inside m u hm hu

/-- The end of a section commits it. -/
theorem leave (h : Commits rank s c) (hcode : s.code t = some (.unlock l next))
    (hleaf : rank l = 0) (hmine : s.holder l = some t)
    (honly : ∀ m, rank m = 0 → s.holder m = some t → m = l) :
    ∃ c', Atomic rank c t c' ∧
      Commits rank ((s.setHolder l none).setCode t (some next)) c' := by
  obtain ⟨start, now, hstart, hnow, hsection⟩ := h.inside l t hleaf hmine
  obtain rfl : now = .unlock l next := Option.some.inj (hnow.symm.trans hcode)
  refine ⟨_, .whole hleaf (h.free l hleaf) hstart hsection, ?_⟩
  refine ⟨fun m hm => ?_, h.free, fun m hm => ?_, fun u hu => ?_, fun m u hm hu => ?_⟩
  · have hml : m ≠ l := fun hml => hm (hml ▸ hleaf)
    simpa [hml] using h.holder m hm
  · by_cases hml : m = l
    · subst hml
      simp
    · simpa [hml] using h.value m (by simpa [hml] using hm)
  · by_cases hut : u = t
    · simp [hut]
    · have hout : ∀ m, rank m = 0 → s.holder m ≠ some u := by
        intro m hm hmu
        have hml : m ≠ l := by
          rintro rfl
          exact hut (Option.some.inj (hmu.symm.trans hmine))
        exact hu m hm (by simpa [hml] using hmu)
      simpa [hut] using h.outside u hout
  · have hml : m ≠ l := by
      rintro rfl
      simp at hu
    have hmu : s.holder m = some u := by simpa [hml] using hu
    have hut : u ≠ t := by
      rintro rfl
      exact hml (honly m hm hmu)
    simpa [hut, hml] using h.inside m u hm hmu

omit [DecidableEq L] in
/-- Code of a thread that is in no section changes in both systems. -/
theorem setCode (h : Commits rank s c) (hnone : ∀ m, rank m = 0 → s.holder m ≠ some t)
    (code : Option (Code V R)) : Commits rank (s.setCode t code) (c.setCode t code) := by
  refine ⟨h.holder, h.free, h.value, fun u hu => ?_, fun m u hm hu => ?_⟩
  · by_cases hut : u = t
    · simp [hut]
    · simpa [hut] using h.outside u hu
  · have hut : u ≠ t := by
      rintro rfl
      exact hnone m hm hu
    simpa [hut] using h.inside m u hm hu

omit [DecidableEq T] in
/-- The holder of a lock of a higher rank changes in both systems. -/
theorem setHolder (h : Commits rank s c) (hrank : rank l ≠ 0) (holder : Option T) :
    Commits rank (s.setHolder l holder) (c.setHolder l holder) := by
  have hne : ∀ m, rank m = 0 → m ≠ l := fun m hm hml => hrank (hml ▸ hm)
  refine ⟨fun m hm => ?_, fun m hm => ?_, fun m hm => ?_, fun u hu => ?_, fun m u hm hu => ?_⟩
  · by_cases hml : m = l
    · simp [hml]
    · simpa [hml] using h.holder m hm
  · simpa [hne m hm] using h.free m hm
  · exact h.value m fun hleaf => by simpa [hne m hleaf] using hm hleaf
  · exact h.outside u fun m hm => by simpa [hne m hm] using hu m hm
  · exact h.inside m u hm (by simpa [hne m hm] using hu)

omit [DecidableEq T] in
/-- The value of a lock that is in no section changes in both systems. -/
theorem setValue (h : Commits rank s c) (hfree : rank l = 0 → s.holder l = none) (v : V l) :
    Commits rank (s.setValue l v) (c.setValue l v) := by
  refine ⟨h.holder, h.free, fun m hm => ?_, h.outside, fun m u hm hu => ?_⟩
  · by_cases hml : m = l
    · subst hml
      simp
    · simpa [hml] using h.value m hm
  · have hml : m ≠ l := by
      rintro rfl
      have hnone := hfree hm
      have hsome : s.holder m = some u := hu
      rw [hnone] at hsome
      cases hsome
    simpa [hml] using h.inside m u hm hu

/-- A move on a lock of a higher rank is made in both systems. -/
theorem outer (h : Commits rank s c) {code : Code V R} (hcode : s.code t = some code)
    (htarget : code.target = some l) (hrank : rank l ≠ 0)
    (hnone : ∀ m, rank m = 0 → s.holder m ≠ some t) (hstep : s.advance t = some s') :
    ∃ c', Atomic rank c t c' ∧ Commits rank s' c' := by
  have hsame := (h.outside t hnone).trans hcode
  have hholder := h.holder l hrank
  have hvalue := h.value l fun hleaf => absurd hleaf hrank
  have hstays : ∀ holder m, rank m = 0 → (s.setHolder l holder).holder m ≠ some t := by
    intro holder m hm
    have hml : m ≠ l := fun hml => hrank (hml ▸ hm)
    simpa [hml] using hnone m hm
  obtain ⟨l', next, hcode', hfree, rfl⟩ | ⟨l', f, next, hcode', hmine, rfl⟩ |
    ⟨l', next, hcode', hmine, rfl⟩ := advance_cases hstep
  · obtain rfl : code = .lock l' next := Option.some.inj (hcode.symm.trans hcode')
    obtain rfl : l' = l := Option.some.inj htarget
    have hmove := (advance_lock_iff hsame).mpr ⟨hholder.trans hfree, rfl⟩
    have hset := h.setHolder hrank (some t)
    exact ⟨_, .move hsame htarget hrank hmove, hset.setCode (hstays (some t)) _⟩
  · obtain rfl : code = .use l' f next := Option.some.inj (hcode.symm.trans hcode')
    obtain rfl : l' = l := Option.some.inj htarget
    have hmove : c.advance t =
        some ((c.setValue l' (f (s.value l'))).setCode t (some (next (s.value l')))) := by
      rw [← hvalue]
      exact (advance_use_iff hsame).mpr ⟨hholder.trans hmine, rfl⟩
    have hset := h.setValue (fun hleaf => absurd hleaf hrank) (f (s.value l'))
    exact ⟨_, .move hsame htarget hrank hmove, hset.setCode hnone _⟩
  · obtain rfl : code = .unlock l' next := Option.some.inj (hcode.symm.trans hcode')
    obtain rfl : l' = l := Option.some.inj htarget
    have hmove := (advance_unlock_iff hsame).mpr ⟨hholder.trans hmine, rfl⟩
    have hset := h.setHolder hrank none
    exact ⟨_, .move hsame htarget hrank hmove, hset.setCode (hstays none) _⟩

end Commits

/-- Whatever a thread does has no effect yet, or the effect of one step in which sections
of locks of the lowest rank are whole. -/
theorem Commits.advance (h : Commits rank s c) (hs : s.Disciplined rank)
    (hstep : s.advance t = some s') :
    Commits rank s' c ∨ ∃ c', Atomic rank c t c' ∧ Commits rank s' c' := by
  obtain ⟨l, next, hcode, hfree, rfl⟩ | ⟨l, f, next, hcode, hmine, rfl⟩ |
    ⟨l, next, hcode, hmine, rfl⟩ := advance_cases hstep
  · by_cases hleaf : rank l = 0
    · exact .inl (h.enter hcode hleaf hfree fun m hm => hs.outside hcode rfl (.inr ⟨_, rfl⟩) hm)
    · exact .inr (h.outer hcode rfl hleaf
        (fun m hm => hs.outside hcode rfl (.inl hleaf) hm) hstep)
  · by_cases hleaf : rank l = 0
    · exact .inl (h.use hcode hleaf hmine fun m hm hmt => hs.leaf_unique hleaf hmine hm hmt)
    · exact .inr (h.outer hcode rfl hleaf
        (fun m hm => hs.outside hcode rfl (.inl hleaf) hm) hstep)
  · by_cases hleaf : rank l = 0
    · exact .inr (h.leave hcode hleaf hmine fun m hm hmt => hs.leaf_unique hleaf hmine hm hmt)
    · exact .inr (h.outer hcode rfl hleaf
        (fun m hm => hs.outside hcode rfl (.inl hleaf) hm) hstep)

end System

end Cyanotype.Mutex
