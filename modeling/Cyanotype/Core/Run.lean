import Mathlib.Data.List.Induction

/-!
# Runs of a machine

A machine is a step function that is undefined where an action is not enabled.
An invariant may speak of the actions taken so far. A history takes note of a run
without changing it. Where two classes of actions commute, a run depends on the order
inside each class only.
-/

namespace Cyanotype

variable {σ α : Type*}

/-- Take some actions one after another. -/
def run (step : σ → α → Option σ) (s : σ) (as : List α) : Option σ := as.foldlM step s

variable {step : σ → α → Option σ} {s s' : σ}

@[simp] theorem run_nil : run step s [] = some s := rfl

theorem run_cons (a : α) (as : List α) :
    run step s (a :: as) = (step s a).bind fun s' => run step s' as := rfl

@[simp] theorem run_singleton (a : α) : run step s [a] = step s a := Option.bind_fun_some _

theorem run_append (as bs : List α) :
    run step s (as ++ bs) = (run step s as).bind fun s' => run step s' bs :=
  List.foldlM_append

theorem run_concat (as : List α) (a : α) :
    run step s (as ++ [a]) = (run step s as).bind fun s' => step s' a := by
  simp only [run_append, run_singleton]

/-- The last action of a run. -/
theorem run_concat_eq_some_iff {as : List α} {a : α} :
    run step s (as ++ [a]) = some s' ↔ ∃ t, run step s as = some t ∧ step t a = some s' := by
  rw [run_concat, Option.bind_eq_some_iff]

/-- What holds at the start and is kept by every step, holds after every run. -/
theorem run_invariant {P : List α → σ → Prop} (hinit : P [] s)
    (hstep : ∀ as t a t', run step s as = some t → P as t → step t a = some t' →
      P (as ++ [a]) t') {as : List α} (hrun : run step s as = some s') : P as s' := by
  induction as using List.reverseRecOn generalizing s' with
  | nil =>
    obtain rfl := Option.some.inj hrun
    exact hinit
  | append_singleton as a ih =>
    obtain ⟨t, ht, hlast⟩ := run_concat_eq_some_iff.mp hrun
    exact hstep as t a s' ht (ih ht) hlast

/-! ## Histories -/

section

variable {γ : Type*} {note : σ → γ → α → γ}

/-- The machine with a value beside its state, which takes note of every step and
has no influence on it. -/
def withHistory (step : σ → α → Option σ) (note : σ → γ → α → γ) (p : σ × γ) (a : α) :
    Option (σ × γ) :=
  (step p.1 a).map fun s' => (s', note p.1 p.2 a)

/-- A step with a history is the step, with a note made of it. -/
theorem withHistory_eq_some_iff {p p' : σ × γ} {a : α} :
    withHistory step note p a = some p' ↔ step p.1 a = some p'.1 ∧ p'.2 = note p.1 p.2 a := by
  rw [withHistory, Option.map_eq_some_iff]
  constructor
  · rintro ⟨t, ht, rfl⟩
    exact ⟨ht, rfl⟩
  · rintro ⟨ht, hnote⟩
    exact ⟨p'.1, ht, by rw [← hnote]⟩

/-- Without its history, a run is a run of the machine. -/
theorem run_of_run_withHistory {as : List α} {p p' : σ × γ}
    (hrun : run (withHistory step note) p as = some p') : run step p.1 as = some p'.1 :=
  run_invariant (P := fun as t => run step p.1 as = some t.1) rfl
    (fun _ t _ _ _ ih hstep =>
      run_concat_eq_some_iff.mpr ⟨t.1, ih, (withHistory_eq_some_iff.mp hstep).1⟩) hrun

/-- Every run of the machine has a history. -/
theorem exists_run_withHistory (note : σ → γ → α → γ) {as : List α}
    (hrun : run step s as = some s') (g : γ) :
    ∃ g', run (withHistory step note) (s, g) as = some (s', g') :=
  run_invariant (P := fun as t => ∃ g', run (withHistory step note) (s, g) as = some (t, g'))
    ⟨g, rfl⟩
    (fun _ _ _ _ _ ⟨_, ih⟩ hstep =>
      ⟨_, run_concat_eq_some_iff.mpr ⟨_, ih, withHistory_eq_some_iff.mpr ⟨hstep, rfl⟩⟩⟩) hrun

end

/-! ## Commuting actions -/

section

variable {K : α → Bool}
  (hcomm : ∀ s a b, K a = true → K b = false →
    ((step s a).bind fun t => step t b) = (step s b).bind fun t => step t a)

include hcomm

/-- An action of the second class may wait for actions of the first. -/
theorem run_comm_cons {b : α} (hb : K b = false) {as : List α} (has : ∀ a ∈ as, K a = true) :
    run step s (b :: as) = run step s (as ++ [b]) := by
  induction as generalizing s with
  | nil => rfl
  | cons a as ih =>
    rw [List.forall_mem_cons] at has
    calc run step s (b :: a :: as)
        = ((step s b).bind fun t => step t a).bind fun t => run step t as :=
          (Option.bind_assoc ..).symm
      _ = ((step s a).bind fun t => step t b).bind fun t => run step t as := by
          rw [hcomm s a b has.1 hb]
      _ = (step s a).bind fun t => run step t (b :: as) := Option.bind_assoc ..
      _ = (step s a).bind fun t => run step t (as ++ [b]) := by simp only [ih has.2]

/-- All actions of the first class may be taken before those of the second. -/
theorem run_eq_run_sorted (as : List α) :
    run step s as = run step s (as.filter K ++ as.filter fun a => !K a) := by
  induction as generalizing s with
  | nil => rfl
  | cons c as ih =>
    cases hc : K c with
    | true => simp [hc, run_cons, ih]
    | false =>
      have hfirst : ∀ a ∈ as.filter K, K a = true := fun a ha => (List.mem_filter.mp ha).2
      calc run step s (c :: as)
          = run step s ((c :: as.filter K) ++ as.filter fun a => !K a) := by
            simp only [List.cons_append, run_cons, ih]
        _ = run step s ((as.filter K ++ [c]) ++ as.filter fun a => !K a) := by
            rw [run_append, run_comm_cons hcomm hc hfirst, ← run_append]
        _ = run step s ((c :: as).filter K ++ (c :: as).filter fun a => !K a) := by
            simp [hc]

/-- Runs with the same actions of each class in the same order have the same result. -/
theorem run_eq_of_shuffle {as bs : List α} (hK : as.filter K = bs.filter K)
    (hrest : (as.filter fun a => !K a) = bs.filter fun a => !K a) :
    run step s as = run step s bs := by
  rw [run_eq_run_sorted hcomm as, run_eq_run_sorted hcomm bs, hK, hrest]

end

end Cyanotype
