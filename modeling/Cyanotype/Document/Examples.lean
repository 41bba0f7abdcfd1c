import Cyanotype.Document.Emission

/-!
# Examples

The examples of a sub-schema are the first ten distinct values that were observed at
its path, nulls apart. Where there are only objects, only arrays or nothing, there
are none.
-/

namespace Cyanotype

open JsonSchema

/-! ## First occurrences -/

/-- The values that no earlier one equals, in order. -/
def firstSeen (vs : List Value) : List Value :=
  (vs.zipIdx.filter fun e => !(vs.take e.2).any (·.beq e.1)).map Prod.fst

/-- The last value is seen first there if it equals none before it. -/
theorem firstSeen_concat (vs : List Value) (v : Value) :
    firstSeen (vs ++ [v]) = firstSeen vs ++ if vs.any (·.beq v) then [] else [v] := by
  have hearlier : ∀ e ∈ vs.zipIdx, (vs ++ [v]).take e.2 = vs.take e.2 := fun e he =>
    List.take_append_of_le_length (List.snd_lt_of_mem_zipIdx he).le
  have hold : (vs.zipIdx.filter fun e => !((vs ++ [v]).take e.2).any (·.beq e.1)) =
      vs.zipIdx.filter fun e => !(vs.take e.2).any (·.beq e.1) :=
    List.filter_congr fun e he => by rw [hearlier e he]
  unfold firstSeen
  rw [List.zipIdx_append, List.filter_append, List.map_append, hold, List.zipIdx_singleton,
    List.filter_singleton, Nat.zero_add, List.take_left]
  cases vs.any (·.beq v) <;> rfl

/-- First occurrences keep their order. -/
theorem firstSeen_sublist (vs : List Value) : (firstSeen vs).Sublist vs := by
  have hsublist := (List.filter_sublist (p := fun e : Value × Nat =>
    !(vs.take e.2).any (·.beq e.1)) (l := vs.zipIdx)).map Prod.fst
  rwa [List.zipIdx_map_fst] at hsublist

/-- Every value equals a first occurrence. -/
theorem exists_firstSeen_beq {vs : List Value} {v : Value} (h : v ∈ vs) :
    ∃ x ∈ firstSeen vs, x.beq v = true := by
  induction vs using List.reverseRecOn generalizing v with
  | nil => exact absurd h List.not_mem_nil
  | append_singleton vs w ih =>
    simp only [firstSeen_concat, List.mem_append]
    rcases List.mem_append.mp h with h | h
    · obtain ⟨x, hx, heq⟩ := ih h
      exact ⟨x, .inl hx, heq⟩
    · obtain rfl := List.mem_singleton.mp h
      by_cases hany : vs.any (·.beq v) = true
      · -- An earlier value equals this one, and a first occurrence equals that.
        obtain ⟨u, hu, huv⟩ := List.any_eq_true.mp hany
        obtain ⟨x, hx, hxu⟩ := ih hu
        exact ⟨x, .inl hx, Value.beq_trans hxu huv⟩
      · exact ⟨v, .inr (by simp [hany]), v.beq_refl⟩

/-- First occurrences differ from each other. -/
theorem pairwise_firstSeen (vs : List Value) :
    (firstSeen vs).Pairwise fun a b => a.beq b = false := by
  induction vs using List.reverseRecOn with
  | nil => exact List.Pairwise.nil
  | append_singleton vs v ih =>
    rw [firstSeen_concat]
    split_ifs with hany
    · rwa [List.append_nil]
    · refine List.pairwise_append.mpr ⟨ih, List.pairwise_singleton _ v, fun a ha b hb => ?_⟩
      obtain rfl := List.mem_singleton.mp hb
      exact Bool.eq_false_iff.mpr fun hab =>
        hany (List.any_eq_true.mpr ⟨a, (firstSeen_sublist vs).subset ha, hab⟩)

/-- The loop's list holds the first occurrences: a value that equals any earlier one
equals a kept one. -/
theorem distinctValues_eq_firstSeen (vs : List Value) : distinctValues vs = firstSeen vs := by
  induction vs using List.reverseRecOn with
  | nil => rfl
  | append_singleton vs v ih =>
    have hkept : (firstSeen vs).any (·.beq v) = vs.any (·.beq v) := by
      rw [Bool.eq_iff_iff, List.any_eq_true, List.any_eq_true]
      constructor
      · rintro ⟨x, hx, hxv⟩
        exact ⟨x, (firstSeen_sublist vs).subset hx, hxv⟩
      · rintro ⟨w, hw, hwv⟩
        obtain ⟨x, hx, hxw⟩ := exists_firstSeen_beq hw
        exact ⟨x, hx, Value.beq_trans hxw hwv⟩
    have hpush : distinctValues (vs ++ [v]) = pushDistinct (distinctValues vs) v :=
      List.foldl_concat ..
    rw [hpush, ih, firstSeen_concat, pushDistinct, hkept]
    cases vs.any (·.beq v) <;> simp

/-! ## The examples of a place -/

variable {vs : List Value}

/-- There is a first occurrence as soon as there is a value. -/
theorem firstSeen_eq_nil_iff : firstSeen vs = [] ↔ vs = [] := by
  constructor
  · intro h
    refine List.eq_nil_iff_forall_not_mem.mpr fun v hv => ?_
    obtain ⟨x, hx, -⟩ := exists_firstSeen_beq hv
    rw [h] at hx
    exact List.not_mem_nil hx
  · rintro rfl
    rfl

/-- Examples are kept at the places of scalars and of mixed values. -/
theorem inferSchema_examples_eq (vs : List Value) :
    (inferSchema vs).get "examples" =
      if nonNulls vs ≠ [] ∧ (¬ ∀ v ∈ nonNulls vs, v.isObject = true) ∧
        ¬ ∀ v ∈ nonNulls vs, v.isArray = true
      then some (.array ((firstSeen (nonNulls vs)).take maxExamples)) else none := by
  rw [inferSchema_get_examples, fragmentOf]
  have hkept : nonNulls vs ≠ [] →
      ((firstSeen (nonNulls vs)).take maxExamples).isEmpty = false := by
    intro hne
    have hfirst := mt firstSeen_eq_nil_iff.mp hne
    simpa [List.isEmpty_eq_false_iff, List.take_eq_nil_iff, maxExamples] using hfirst
  have hshape : nonNulls vs ≠ [] ∧ (¬ ∀ v ∈ nonNulls vs, v.isObject = true) ∧
      (¬ ∀ v ∈ nonNulls vs, v.isArray = true) ↔
      shapeOf vs ≠ .nulls ∧ shapeOf vs ≠ .objects ∧ shapeOf vs ≠ .arrays := by
    rw [ne_eq (shapeOf vs), ne_eq (shapeOf vs), ne_eq (shapeOf vs), shapeOf_eq_nulls_iff,
      shapeOf_eq_objects_iff, shapeOf_eq_arrays_iff]
    refine and_congr_right fun hne => ?_
    simp only [hne, not_false_eq_true, ne_eq, true_and]
  simp only [hshape, collectExamples_eq, distinctValues_eq_firstSeen]
  cases hs : shapeOf vs with
  | primitive kind =>
    have hne := (hshape.mpr (by simp [hs])).1
    simp [hkept hne]
  | mixed =>
    have hne := (hshape.mpr (by simp [hs])).1
    simp [hkept hne]
  | _ => simp

/-- The examples of any sub-schema are the first ten, or all if there are fewer, of the
distinct values observed at its path apart from null. It has examples exactly when there
is such a value and they are neither all objects nor all arrays. -/
theorem examples_earliest_distinct {samples : List Value} {p : List Step} {schema : Value}
    (h : subschemaAt (inferSchema samples) p = some schema) :
    (∀ examples, schema.get "examples" = some examples → ∃ xs, examples = .array xs ∧
      xs = (firstSeen (nonNulls (valuesAt samples p))).take
        (min 10 (firstSeen (nonNulls (valuesAt samples p))).length) ∧
      xs ≠ [] ∧ xs.Pairwise (fun a b => a.beq b = false) ∧ xs.length ≤ 10 ∧
      ∀ x ∈ xs, x ∈ nonNulls (valuesAt samples p)) ∧
    (schema.get "examples" ≠ none ↔ nonNulls (valuesAt samples p) ≠ [] ∧
      (¬ ∀ v ∈ nonNulls (valuesAt samples p), v.isObject = true) ∧
      ¬ ∀ v ∈ nonNulls (valuesAt samples p), v.isArray = true) := by
  obtain ⟨-, rfl⟩ := subschemaAt_inferSchema_iff.mp h
  generalize valuesAt samples p = vs
  rw [inferSchema_examples_eq]
  split_ifs with hshape
  · refine ⟨?_, iff_of_true (Option.some_ne_none _) hshape⟩
    rintro examples ⟨⟩
    have hsublist := List.take_sublist maxExamples (firstSeen (nonNulls vs))
    refine ⟨_, rfl, ?_, ?_, (pairwise_firstSeen _).sublist hsublist, List.length_take_le .., ?_⟩
    · rw [← List.take_eq_take_min]
      rfl
    · have hfirst := mt firstSeen_eq_nil_iff.mp hshape.1
      simpa [List.take_eq_nil_iff, maxExamples] using hfirst
    · exact fun x hx => (firstSeen_sublist _).subset (hsublist.subset hx)
  · exact ⟨fun examples hnone => absurd hnone (by simp), iff_of_false (fun hne => hne rfl) hshape⟩

/-- A number seen twice, a null and a text. -/
def repeatedValues : List Value := [.ofNat 1, .null, .ofNat 1, .string "a"]

/-- The number is kept once. -/
theorem examples_earliest_distinct_example : ∃ xs,
    (inferSchema repeatedValues).get "examples" = some (.array xs) ∧
      xs = [.ofNat 1, .string "a"] := by
  have hroot : subschemaAt (inferSchema repeatedValues) [] = some (inferSchema repeatedValues) :=
    rfl
  obtain ⟨hexamples, hcarried⟩ := examples_earliest_distinct hroot
  have hvalues : nonNulls (valuesAt repeatedValues []) = [.ofNat 1, .ofNat 1, .string "a"] := rfl
  rw [hvalues] at hexamples hcarried
  have hsome := hcarried.mpr ⟨by simp, by simp [Value.ofNat, Value.isObject],
    by simp [Value.ofNat, Value.isArray]⟩
  obtain ⟨examples, hget⟩ := Option.ne_none_iff_exists'.mp hsome
  obtain ⟨xs, rfl, hxs, -⟩ := hexamples examples hget
  exact ⟨xs, hget, hxs⟩

end Cyanotype
