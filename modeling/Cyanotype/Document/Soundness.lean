import Cyanotype.Document.Evidence

/-!
# Soundness of inference for its own evidence

Every sample validates against the inferred schema exactly when no observed
place holds a null beside values of irreconcilable shapes. Such a place gets no
`type` from its other values, and making it nullable then leaves `["null"]` as
the only type, which rejects them.
-/

namespace Cyanotype

open JsonSchema

variable {resolve : String → Option Value}

/-- A null among values without a common type. -/
def Clash (vs : List Value) : Prop := .null ∈ vs ∧ shapeOf vs = .mixed

/-- The test for nulls finds a null. -/
theorem any_isNull_iff {vs : List Value} : vs.any Value.isNull = true ↔ .null ∈ vs := by
  simp [Value.isNull_iff]

/-- A widened type name admits nulls that were observed and values of the named type. -/
theorem typeAdmits_typeValue {vs : List Value} {name : String} {v : Value} (hv : v ∈ vs)
    (h : v ≠ .null → hasType name v = true) : typeAdmits (typeValue vs name) v = true := by
  unfold typeValue
  by_cases hnull : v = .null
  · subst hnull
    rw [if_pos (any_isNull_iff.mpr hv)]
    simp [typeAdmits, hasType]
  · by_cases hany : vs.any Value.isNull = true
    · rw [if_pos hany]
      simp [typeAdmits, h hnull]
    · rw [if_neg hany]
      exact h hnull

/-- A value of a covered primitive type is of the emitted type name. -/
theorem HasPrimitive.hasType {k : PrimitiveType} {v : Value} (h : HasPrimitive k v) :
    hasType k.typeName v = true := by
  obtain ⟨p, hp, hw⟩ := h
  cases v with
  | string s =>
    obtain rfl : PrimitiveType.string = p := by simpa [primitiveType] using hp
    rcases hw with rfl | ⟨h, -⟩
    · rfl
    · cases h
  | bool b =>
    obtain rfl : PrimitiveType.boolean = p := by simpa [primitiveType] using hp
    rcases hw with rfl | ⟨h, -⟩
    · rfl
    · cases h
  | number n =>
    by_cases hi : (n.isI64 || n.isU64) = true
    · obtain rfl : PrimitiveType.integer = p := by simpa [primitiveType, hi] using hp
      rcases hw with rfl | ⟨-, rfl⟩
      · simp [PrimitiveType.typeName, JsonSchema.hasType, Number.isWhole_of_isInteger hi]
      · rfl
    · obtain rfl : PrimitiveType.number = p := by simpa [primitiveType, hi] using hp
      rcases hw with rfl | ⟨h, -⟩
      · rfl
      · cases h
  | _ => simp [primitiveType] at hp

/-- The required keys of at least two objects are those that every object has. -/
theorem mem_requiredKeys_iff {vs : List Value} {k : String} :
    k ∈ requiredKeys vs ↔ minSamplesForRequired ≤ (nonNulls vs).length ∧
      ∀ v ∈ nonNulls vs, v.get k ≠ none := by
  simp only [requiredKeys, isRequiredKey, List.mem_filter, decide_eq_true_iff,
    List.filterMap_length_eq_length, Option.isSome_iff_ne_none]
  apply and_iff_right_of_imp
  rintro ⟨henough, hall⟩
  -- two samples are enough for one of them to show the key
  have hne : nonNulls vs ≠ [] := List.ne_nil_of_length_pos ((Nat.succ_pos 1).trans_le henough)
  obtain ⟨v, hv⟩ := List.exists_mem_of_ne_nil _ hne
  exact mem_collectKeys.mpr ⟨v, hv, hall v hv⟩

/-- The property schemas of an object place are those of its opened steps. -/
theorem get_properties_iff {vs : List Value} (hs : shapeOf vs = .objects) {k : String}
    {s : Value} :
    (inferProperties inferSchema (nonNulls vs)).get k = some s ↔
      Opens vs (.key k) ∧ s = inferSchema (childValues (.key k) vs) := by
  rw [get_inferProperties, ← childValues_nonNulls (.key k) vs]
  by_cases hk : k ∈ collectKeys (nonNulls vs)
  · have hopen : Opens vs (.key k) := by
      obtain ⟨v, hv, hget⟩ := mem_collectKeys.mp hk
      exact ⟨hs, v, (mem_nonNulls.mp hv).1, hget⟩
    rw [if_pos hk]
    simp only [Option.some.injEq, hopen, true_and, childValues, eq_comm]
  · rw [if_neg hk]
    refine iff_of_false (by simp) ?_
    rintro ⟨⟨-, v, hv, hget⟩, -⟩
    refine hk (mem_collectKeys.mpr ⟨v, mem_nonNulls.mpr ⟨hv, ?_⟩, hget⟩)
    rintro rfl
    exact hget rfl

/-- Only values of irreconcilable shapes clash with a null. -/
theorem not_clash_of_shapeOf_ne {vs : List Value} (hs : shapeOf vs ≠ .mixed) : ¬ Clash vs :=
  fun h => hs h.2

/-- Only places of objects and of arrays have places below them. -/
theorem not_opens_of_shapeOf_ne {vs : List Value} (hobjects : shapeOf vs ≠ .objects)
    (harrays : shapeOf vs ≠ .arrays) (st : Step) : ¬ Opens vs st := by
  intro h
  cases st with
  | key k => exact hobjects h.1
  | items => exact harrays h

/-! ## One place, by its shape -/

section

variable {vs : List Value}

private theorem validates_nulls (hs : shapeOf vs = .nulls) :
    ∀ v ∈ vs, Validates resolve (inferSchema vs) v := by
  intro v hv
  have hnull : v = .null := by
    by_contra hne
    have hmem := mem_nonNulls.mpr ⟨hv, hne⟩
    rw [shapeOf_eq_nulls_iff.mp hs] at hmem
    exact List.not_mem_nil hmem
  rw [inferSchema_eq, fragmentOf, hs, hnull, Fragment.validates_render_iff]
  simp [typeAdmits, hasType]

private theorem validates_primitive {kind : PrimitiveType} (hs : shapeOf vs = .primitive kind) :
    ∀ v ∈ vs, Validates resolve (inferSchema vs) v := by
  intro v hv
  have hprim := (commonPrimitiveType_some_iff.mp (commonPrimitiveType_of_shapeOf hs)).1
  rw [inferSchema_eq, fragmentOf, hs]
  simp only [Fragment.validates_render_iff, Option.mem_def, Option.some.injEq, forall_eq',
    reduceCtorEq, false_implies, implies_true, and_true, List.not_mem_nil]
  exact typeAdmits_typeValue hv fun hne => (hprim v (mem_nonNulls.mpr ⟨hv, hne⟩)).hasType

/-- Objects validate when the values of each key do. -/
private theorem validates_objects_iff (hs : shapeOf vs = .objects) :
    (∀ v ∈ vs, Validates resolve (inferSchema vs) v) ↔
      ∀ st, Opens vs st → ∀ x ∈ childValues st vs,
        Validates resolve (inferSchema (childValues st vs)) x := by
  have hobj := (shapeOf_eq_objects_iff.mp hs).2
  rw [inferSchema_eq, fragmentOf, hs]
  simp only [Fragment.validates_render_iff, Option.mem_def, Option.some.injEq, forall_eq',
    reduceCtorEq, false_implies, implies_true, and_true]
  constructor
  · intro h st hst x hx
    cases st with
    | key k =>
      obtain ⟨v, hv, hget⟩ := List.mem_filterMap.mp hx
      exact (h v hv).2.2 k _ x ((get_properties_iff hs).mpr ⟨hst, rfl⟩) hget
    | items => simp [Opens, hs] at hst
  · intro h v hv
    refine ⟨typeAdmits_typeValue hv fun hne => ?_, fun ho k hk => ?_, fun k s x hps hx => ?_⟩
    · obtain ⟨m, rfl⟩ := Value.isObject_iff.mp (hobj v (mem_nonNulls.mpr ⟨hv, hne⟩))
      rfl
    · apply (mem_requiredKeys_iff.mp hk).2
      refine mem_nonNulls.mpr ⟨hv, ?_⟩
      rintro rfl
      simp [Value.isObject] at ho
    · obtain ⟨hopen, rfl⟩ := (get_properties_iff hs).mp hps
      exact h (.key k) hopen x (List.mem_filterMap.mpr ⟨v, hv, hx⟩)

/-- Arrays validate when their elements do. -/
private theorem validates_arrays_iff (hs : shapeOf vs = .arrays) :
    (∀ v ∈ vs, Validates resolve (inferSchema vs) v) ↔
      ∀ st, Opens vs st → ∀ x ∈ childValues st vs,
        Validates resolve (inferSchema (childValues st vs)) x := by
  have harr := (shapeOf_eq_arrays_iff.mp hs).2
  rw [inferSchema_eq, fragmentOf, hs]
  simp only [Fragment.validates_render_iff, Option.mem_def, Option.some.injEq, forall_eq',
    reduceCtorEq, false_implies, implies_true, true_and, List.not_mem_nil]
  constructor
  · intro h st hst x hx
    cases st with
    | key k => simp [Opens, hs] at hst
    | items =>
      obtain ⟨v, hv, hvx⟩ := List.mem_flatMap.mp hx
      cases v with
      | array xs => exact (h _ hv).2 xs rfl x hvx
      | _ => exact absurd hvx List.not_mem_nil
  · intro h v hv
    refine ⟨typeAdmits_typeValue hv fun hne => ?_, fun xs hxs x hx => ?_⟩
    · obtain ⟨xs, rfl⟩ := Value.isArray_iff.mp (harr v (mem_nonNulls.mpr ⟨hv, hne⟩))
      rfl
    · subst hxs
      exact h .items hs x (List.mem_flatMap.mpr ⟨_, hv, hx⟩)

/-- Values without a common type validate when no null adds the type `"null"`. -/
private theorem validates_mixed_iff (hs : shapeOf vs = .mixed) :
    (∀ v ∈ vs, Validates resolve (inferSchema vs) v) ↔ .null ∉ vs := by
  have hne : nonNulls vs ≠ [] := by
    intro he
    rw [shapeOf_eq_nulls_iff.mpr he] at hs
    cases hs
  rw [inferSchema_eq, fragmentOf, hs]
  simp only [Fragment.validates_render_iff, Option.mem_def, reduceCtorEq, false_implies,
    implies_true, and_true, List.not_mem_nil]
  by_cases hnull : vs.any Value.isNull = true
  · simp only [hnull, if_true, Option.some.injEq, forall_eq', any_isNull_iff.mp hnull,
      not_true_eq_false, iff_false, not_forall]
    -- Any observed non-null value is rejected by the lone `"null"` type.
    obtain ⟨v, hv⟩ := List.exists_mem_of_ne_nil _ hne
    obtain ⟨hmem, hvn⟩ := mem_nonNulls.mp hv
    refine ⟨v, hmem, fun h => hvn ?_⟩
    cases v <;> simp [typeAdmits, hasType] at h ⊢
  · have hn := any_isNull_iff.not.mp hnull
    simp [hnull, hn]

end

/-- One level of soundness: the samples of a place validate exactly when the
place has no clash and the values of every opened step validate in turn. -/
theorem validates_place_iff (vs : List Value) :
    (∀ v ∈ vs, Validates resolve (inferSchema vs) v) ↔
      ¬ Clash vs ∧ ∀ st, Opens vs st → ∀ x ∈ childValues st vs,
        Validates resolve (inferSchema (childValues st vs)) x := by
  cases hs : shapeOf vs with
  | nulls =>
    have hclosed := not_opens_of_shapeOf_ne (by simp [hs]) (by simp [hs] : shapeOf vs ≠ .arrays)
    exact iff_of_true (validates_nulls hs)
      ⟨not_clash_of_shapeOf_ne (by simp [hs]), fun st hst => absurd hst (hclosed st)⟩
  | primitive kind =>
    have hclosed := not_opens_of_shapeOf_ne (by simp [hs]) (by simp [hs] : shapeOf vs ≠ .arrays)
    exact iff_of_true (validates_primitive hs)
      ⟨not_clash_of_shapeOf_ne (by simp [hs]), fun st hst => absurd hst (hclosed st)⟩
  | objects =>
    rw [validates_objects_iff hs]
    exact (and_iff_right (not_clash_of_shapeOf_ne (by simp [hs]))).symm
  | arrays =>
    rw [validates_arrays_iff hs]
    exact (and_iff_right (not_clash_of_shapeOf_ne (by simp [hs]))).symm
  | mixed =>
    have hclosed := not_opens_of_shapeOf_ne (by simp [hs]) (by simp [hs] : shapeOf vs ≠ .arrays)
    rw [validates_mixed_iff hs, Clash, and_iff_left hs]
    exact (and_iff_left fun st hst => absurd hst (hclosed st)).symm

/-- Every sample validates against the schema inferred from the samples exactly
when no observed place mixes null with values of irreconcilable shapes. -/
theorem inferSchema_validates_iff (resolve : String → Option Value) (samples : List Value) :
    (∀ v ∈ samples, Validates resolve (inferSchema samples) v) ↔
      ∀ p, Observed samples p → ¬ Clash (valuesAt samples p) := by
  induction samples using evidence_induction with
  | h vs ih =>
    rw [validates_place_iff, forall_observed_iff (fun vs => ¬ Clash vs)]
    refine and_congr_right fun _ => forall_congr' fun st => forall_congr' fun hst => ?_
    exact ih st hst

/-- A number, a string and a null at one place: the inferred schema rejects the number. -/
theorem inferSchema_rejects_mixed_null :
    ¬ ∀ v ∈ [Value.ofNat 1, .string "a", .null],
      Validates (fun _ => none) (inferSchema [Value.ofNat 1, .string "a", .null]) v := by
  intro h
  have hv := h (Value.ofNat 1) List.mem_cons_self
  have ht := Validates.typeAdmits (t := .array [.string "null"]) hv rfl
  exact absurd ht (by decide)

end Cyanotype
