import Cyanotype.Document.Positions
import Mathlib.Data.List.Induction

/-!
# Null on evidence

A sub-schema with a `type` admits null exactly when a null was observed at its path
or nothing was. Nothing was observed below arrays that were all empty.
-/

namespace Cyanotype

open JsonSchema

variable {vs samples : List Value}

/-- The `type` keyword is or contains `"null"`. -/
def NamesNull (type : Value) : Prop :=
  type = .string "null" ∨ ∃ types, type = .array types ∧ .string "null" ∈ types

/-- A `type` names null when a null was observed. -/
theorem namesNull_typeValue_iff {name : String} (hname : name ≠ "null") :
    NamesNull (typeValue vs name) ↔ .null ∈ vs := by
  rw [← any_isNull_iff]
  by_cases hnull : vs.any Value.isNull = true
  · rw [typeValue, if_pos hnull]
    exact iff_of_true (.inr ⟨_, rfl, by simp⟩) hnull
  · rw [typeValue, if_neg hnull]
    refine iff_of_false ?_ hnull
    rintro (h | ⟨types, h, -⟩)
    · exact hname (Value.string.inj h)
    · cases h

/-- Where nothing but null was seen, a null was seen or nothing at all. -/
theorem null_mem_or_eq_nil (hs : shapeOf vs = .nulls) : .null ∈ vs ∨ vs = [] := by
  cases vs with
  | nil => exact .inr rfl
  | cons v vs =>
    refine .inl (List.mem_cons.mpr (.inl ?_))
    by_contra hv
    have hnone := shapeOf_eq_nulls_iff.mp hs
    rw [nonNulls_cons_of_ne (Ne.symm hv)] at hnone
    cases hnone

/-- At one place, the `type` names null exactly for an observed null or no value at all. -/
theorem namesNull_iff {type : Value} (h : (inferSchema vs).get "type" = some type) :
    NamesNull type ↔ .null ∈ vs ∨ vs = [] := by
  have hne : shapeOf vs ≠ .nulls → vs ≠ [] := by
    rintro hs rfl
    exact hs rfl
  rw [inferSchema_get_type, fragmentOf] at h
  cases hs : shapeOf vs with
  | nulls =>
    rw [hs] at h
    obtain rfl := Option.some.inj h
    exact iff_of_true (.inl rfl) (null_mem_or_eq_nil hs)
  | objects =>
    rw [hs] at h
    obtain rfl := Option.some.inj h
    rw [namesNull_typeValue_iff (by decide), or_iff_left (hne (by simp [hs]))]
  | arrays =>
    rw [hs] at h
    obtain rfl := Option.some.inj h
    rw [namesNull_typeValue_iff (by decide), or_iff_left (hne (by simp [hs]))]
  | primitive kind =>
    rw [hs] at h
    obtain rfl := Option.some.inj h
    rw [namesNull_typeValue_iff (by cases kind <;> decide), or_iff_left (hne (by simp [hs]))]
  | mixed =>
    rw [hs] at h
    rw [or_iff_left (hne (by simp [hs])), ← any_isNull_iff]
    by_cases hnull : vs.any Value.isNull = true
    · simp only [hnull, if_true] at h
      obtain rfl := Option.some.inj h
      exact iff_of_true (.inr ⟨_, rfl, by simp⟩) hnull
    · simp [hnull] at h

/-- Every observed place of arrays saw an element. -/
def ElementsSeen (samples : List Value) : Prop :=
  ∀ p, Observed samples p → shapeOf (valuesAt samples p) = .arrays →
    childValues .items (valuesAt samples p) ≠ []

/-- Apart from the elements of empty arrays, something was observed at every place. -/
theorem valuesAt_ne_nil_iff (hne : samples ≠ []) :
    (∀ p, Observed samples p → valuesAt samples p ≠ []) ↔ ElementsSeen samples := by
  constructor
  · intro h p hp hs
    have hopens : Opens (valuesAt samples p) .items := hs
    have hbelow := h (p ++ [.items]) (observed_concat_iff.mpr ⟨hp, hopens⟩)
    rwa [valuesAt_concat] at hbelow
  · intro h p hp
    induction p using List.reverseRecOn with
    | nil => exact hne
    | append_singleton p st _ =>
      obtain ⟨hbefore, hopens⟩ := observed_concat_iff.mp hp
      rw [valuesAt_concat]
      cases st with
      | key k =>
        obtain ⟨-, v, hv, hget⟩ := hopens
        obtain ⟨x, hx⟩ := Option.ne_none_iff_exists'.mp hget
        exact List.ne_nil_of_mem (List.mem_filterMap.mpr ⟨v, hv, hx⟩)
      | items => exact h p hbefore hopens

/-- For one or more samples, every `type` at any depth names null exactly where a null
was observed, if and only if no arrays at a place were all empty. -/
theorem null_on_evidence_iff (hne : samples ≠ []) :
    (∀ p schema type, subschemaAt (inferSchema samples) p = some schema →
      schema.get "type" = some type → (NamesNull type ↔ .null ∈ valuesAt samples p)) ↔
    ElementsSeen samples := by
  rw [← valuesAt_ne_nil_iff hne]
  constructor
  · intro h p hp hnil
    have hat := subschemaAt_inferSchema_iff.mpr ⟨hp, rfl⟩
    rw [hnil] at hat
    have hnull := (h p _ (.string "null") hat rfl).mp (.inl rfl)
    rw [hnil] at hnull
    exact List.not_mem_nil hnull
  · intro h p schema type hat htype
    obtain ⟨hp, rfl⟩ := subschemaAt_inferSchema_iff.mp hat
    rw [namesNull_iff htype, or_iff_left (h p hp)]

/-- The elements of an array that was always empty are said to be null. -/
theorem null_without_evidence :
    ¬ ∀ p schema type, subschemaAt (inferSchema [.array []]) p = some schema →
      schema.get "type" = some type → (NamesNull type ↔ .null ∈ valuesAt [.array []] p) := by
  intro h
  have hnull := (h [.items] _ (.string "null") rfl rfl).mp (.inl rfl)
  exact List.not_mem_nil hnull

/-- A null beside a number is named. -/
theorem null_on_evidence_example : ∃ type,
    (inferSchema [.ofNat 1, .null]).get "type" = some type ∧ NamesNull type := by
  have hseen : ElementsSeen [.ofNat 1, .null] := by
    rintro p (_ | ⟨hopens, -⟩) hs
    · cases hs
    · exact absurd hopens (not_opens_of_shapeOf_ne (by decide) (by decide) _)
  exact ⟨_, rfl, ((null_on_evidence_iff (List.cons_ne_nil _ _)).mpr hseen [] _ _ rfl rfl).mpr
    (by simp [valuesAt])⟩

end Cyanotype
