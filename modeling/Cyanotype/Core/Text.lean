import Mathlib.Data.Nat.Digits.Defs
import Mathlib.Data.List.Basic

/-!
# Texts put together

Texts are appended to each other and joined with separators. A part can be read back out of
the whole if the separator next to it is not inside it, and joined parts are all there.
-/

namespace Cyanotype

/-- A text splits at the first place of a character in one way. -/
theorem eq_of_append_cons {c : Char} {a a' b b' : List Char} (h : c ∉ a) (h' : c ∉ a')
    (heq : a ++ c :: b = a' ++ c :: b') : a = a' ∧ b = b' := by
  induction a generalizing a' with
  | nil =>
    cases a' with
    | nil => exact ⟨rfl, (List.cons.inj heq).2⟩
    | cons d a' => exact absurd ((List.cons.inj heq).1 ▸ List.mem_cons_self) h'
  | cons d a ih =>
    cases a' with
    | nil => exact absurd ((List.cons.inj heq).1 ▸ List.mem_cons_self) h
    | cons d' a' =>
      obtain ⟨rfl, hrest⟩ := List.cons.inj heq
      obtain ⟨rfl, rfl⟩ := ih (fun hmem => h (List.mem_cons_of_mem _ hmem))
        (fun hmem => h' (List.mem_cons_of_mem _ hmem)) hrest
      exact ⟨rfl, rfl⟩

/-- A text splits at the last place of a character in one way. -/
theorem eq_of_append_cons_last {c : Char} {a a' b b' : List Char} (h : c ∉ b) (h' : c ∉ b')
    (heq : a ++ c :: b = a' ++ c :: b') : a = a' ∧ b = b' := by
  have hreverse := congrArg List.reverse heq
  rw [List.reverse_append, List.reverse_append, List.reverse_cons, List.reverse_cons,
    List.append_assoc, List.append_assoc] at hreverse
  obtain ⟨hb, ha⟩ := eq_of_append_cons (fun hmem => h (List.mem_reverse.mp hmem))
    (fun hmem => h' (List.mem_reverse.mp hmem)) hreverse
  exact ⟨List.reverse_injective ha, List.reverse_injective hb⟩

/-- Every part of joined parts is in the whole. -/
theorem infix_intercalate {α : Type*} {sep l : List α} {ls : List (List α)} (h : l ∈ ls) :
    l <:+: sep.intercalate ls := by
  induction ls with
  | nil => exact absurd h List.not_mem_nil
  | cons a ls ih =>
    cases ls with
    | nil =>
      rw [List.intercalate_singleton]
      exact List.mem_singleton.mp h ▸ List.infix_rfl
    | cons b ls =>
      rw [List.intercalate_cons_cons]
      rcases List.mem_cons.mp h with rfl | hmem
      · exact ((List.prefix_append l sep).trans (List.prefix_append _ _)).isInfix
      · exact (ih hmem).trans (List.suffix_append _ _).isInfix

/-- A number is written in digits. -/
theorem isDigit_of_mem_toString {n : Nat} {c : Char} (h : c ∈ (toString n).toList) :
    c.isDigit = true := by
  rw [Nat.toString_eq_ofList_toDigits, String.toList_ofList] at h
  exact Nat.isDigit_of_mem_toDigits (by decide) (by decide) h

end Cyanotype
