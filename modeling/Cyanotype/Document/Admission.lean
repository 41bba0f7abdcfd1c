import Cyanotype.Document.Soundness

/-!
# What an inferred schema admits

An inferred schema speaks of a value only at the observed paths. There it asks for the
type of what was observed, and of an object for the keys that two or more observed objects
all have. It asks for nothing else, so these are exactly the values it admits.
-/

namespace Cyanotype

open JsonSchema

variable {resolve : String → Option Value} {vs : List Value} {v : Value}

/-- The type that the values of a shape have in common. -/
def Shape.typeName : Shape → Option String
  | nulls => some "null"
  | objects => some "object"
  | arrays => some "array"
  | primitive kind => some kind.typeName
  | mixed => none

/-- A value is like the values observed at a place. -/
structure Resembles (vs : List Value) (v : Value) : Prop where
  /-- It has their common type, or is null where null was observed. -/
  type : ∀ name, (shapeOf vs).typeName = some name →
    hasType name v = true ∨ v = .null ∧ .null ∈ vs
  /-- Null beside values without a common type leaves null only. -/
  mixed : Clash vs → v = .null
  /-- An object has the keys that they all have, if there are at least two. -/
  required : 2 ≤ (nonNulls vs).length → ∀ k, (∀ w ∈ nonNulls vs, w.get k ≠ none) →
    v.isObject = true → v.get k ≠ none

/-! ## One place -/

/-- The `type` of a fragment admits the common type, and null if one was observed. -/
theorem typeAdmits_typeValue_iff {name : String} :
    typeAdmits (typeValue vs name) v = true ↔
      hasType name v = true ∨ v = .null ∧ .null ∈ vs := by
  unfold typeValue
  by_cases hnull : vs.any Value.isNull = true
  · have hmem := any_isNull_iff.mp hnull
    rw [if_pos hnull]
    cases v <;> simp [typeAdmits, hasType, hmem]
  · have hmem : .null ∉ vs := any_isNull_iff.not.mp hnull
    rw [if_neg hnull]
    simp [typeAdmits, hmem]

/-- A key is required of two or more objects that all have it. -/
theorem isRequiredKey_iff {objects : List Value} {k : String} :
    isRequiredKey objects k ↔ 2 ≤ objects.length ∧ ∀ o ∈ objects, o.get k ≠ none := by
  simp only [isRequiredKey, List.filterMap_length_eq_length, Option.isSome_iff_ne_none,
    minSamplesForRequired]

/-- Only object places require keys. -/
theorem requiredKeys_eq_nil (hs : shapeOf vs ≠ .objects) : requiredKeys vs = [] := by
  refine List.eq_nil_iff_forall_not_mem.mpr fun k hk => hs ?_
  obtain ⟨henough, hall⟩ := mem_requiredKeys_iff.mp hk
  have hne : nonNulls vs ≠ [] := List.ne_nil_of_length_pos ((Nat.succ_pos 1).trans_le henough)
  refine shapeOf_eq_objects_iff.mpr ⟨hne, fun w hw => ?_⟩
  have hget := hall w hw
  cases w with
  | object m => rfl
  | _ => exact absurd rfl hget

/-- Required are the keys that all objects of the evidence have, whatever the shape. -/
theorem fragmentOf_required (infer : List Value → Value) (vs : List Value) :
    (fragmentOf infer vs).required = requiredKeys vs := by
  unfold fragmentOf
  cases hs : shapeOf vs with
  | objects => rfl
  | _ => exact (requiredKeys_eq_nil (by simp [hs])).symm

/-- To fit is to satisfy the keywords that look at the value alone. -/
theorem resembles_iff : Resembles vs v ↔
    (∀ t ∈ (fragmentOf inferSchema vs).type, typeAdmits t v = true) ∧
      (v.isObject = true → ∀ k ∈ requiredKeys vs, v.get k ≠ none) := by
  have hrequired : (2 ≤ (nonNulls vs).length → ∀ k, (∀ w ∈ nonNulls vs, w.get k ≠ none) →
      v.isObject = true → v.get k ≠ none) ↔
        (v.isObject = true → ∀ k ∈ requiredKeys vs, v.get k ≠ none) := by
    simp only [mem_requiredKeys_iff, and_imp, minSamplesForRequired]
    exact ⟨fun h hobject k henough hall => h henough k hall hobject,
      fun h henough k hall hobject => h hobject k henough hall⟩
  have htype : (∀ t ∈ (fragmentOf inferSchema vs).type, typeAdmits t v = true) ↔
      (∀ name, (shapeOf vs).typeName = some name →
        hasType name v = true ∨ v = .null ∧ .null ∈ vs) ∧ (Clash vs → v = .null) := by
    unfold fragmentOf
    cases hs : shapeOf vs with
    | nulls =>
      have hnone : ¬ Clash vs := not_clash_of_shapeOf_ne (by simp [hs])
      simp only [Option.mem_def, Option.some.injEq, forall_eq', Shape.typeName, hnone,
        false_imp_iff, and_true, typeAdmits]
      refine (or_iff_left_of_imp ?_).symm
      rintro ⟨rfl, -⟩
      rfl
    | mixed =>
      have hclash : Clash vs ↔ .null ∈ vs := and_iff_left hs
      by_cases hnull : vs.any Value.isNull = true
      · have hmem := any_isNull_iff.mp hnull
        cases v <;> simp [hnull, hclash, hmem, Shape.typeName, typeAdmits, hasType]
      · have hmem : .null ∉ vs := any_isNull_iff.not.mp hnull
        simp [hnull, hclash, hmem, Shape.typeName]
    | _ =>
      have hnone : ¬ Clash vs := not_clash_of_shapeOf_ne (by simp [hs])
      simp only [Option.mem_def, Option.some.injEq, forall_eq', Shape.typeName, hnone,
        false_imp_iff, and_true, typeAdmits_typeValue_iff]
  rw [htype, ← hrequired]
  exact ⟨fun h => ⟨⟨h.type, h.mixed⟩, h.required⟩, fun h => ⟨h.1.1, h.1.2, h.2⟩⟩

/-- A value validates when it fits and what it has below every opened step validates. -/
theorem validates_inferSchema_iff : Validates resolve (inferSchema vs) v ↔
    Resembles vs v ∧ ∀ st, Opens vs st → ∀ x ∈ childValues st [v],
      Validates resolve (inferSchema (childValues st vs)) x := by
  have hkey : (∀ k, Opens vs (.key k) → ∀ x, v.get k = some x →
      Validates resolve (inferSchema (childValues (.key k) vs)) x) ↔
        ∀ ps ∈ (fragmentOf inferSchema vs).properties, ∀ k s x, SortedMap.get ps k = some s →
          v.get k = some x → Validates resolve s x := by
    unfold fragmentOf
    cases hs : shapeOf vs with
    | objects =>
      simp only [Option.mem_def, Option.some.injEq, forall_eq', BTreeMap.get_entries,
        get_properties_iff hs]
      refine ⟨fun h k s x hopen hx => ?_, fun h k hopen x hx => h k _ x ⟨hopen, rfl⟩ hx⟩
      obtain ⟨hopen, rfl⟩ := hopen
      exact h k hopen x hx
    | _ => simp [Opens, hs]
  have hitems : (Opens vs .items → ∀ xs, v = .array xs → ∀ x ∈ xs,
      Validates resolve (inferSchema (childValues .items vs)) x) ↔
        ∀ s ∈ (fragmentOf inferSchema vs).items, ∀ xs, v = .array xs → ∀ x ∈ xs,
          Validates resolve s x := by
    unfold fragmentOf
    cases hs : shapeOf vs <;> simp [Opens, hs]
  rw [resembles_iff, inferSchema_eq, Fragment.validates_render_iff, fragmentOf_required, ← hkey,
    ← hitems, and_assoc]
  refine and_congr_right fun _ => and_congr_right fun _ => ?_
  constructor
  · rintro ⟨hkeys, helements⟩ (k | _) hopen x hx
    · exact hkeys k hopen x (by simpa [childValues] using hx)
    · cases v with
      | array xs =>
        refine helements hopen xs rfl x ?_
        simpa [childValues, Value.elements, Value.asArray] using hx
      | _ => simp [childValues, Value.elements, Value.asArray] at hx
  · intro h
    refine ⟨fun k hopen x hx => h (.key k) hopen x (by simp [childValues, hx]), ?_⟩
    rintro hopen xs rfl x hx
    exact h .items hopen x (by simpa [childValues, Value.elements, Value.asArray] using hx)

/-! ## Every place -/

/-- What some values have at a path is what each of them has there. -/
theorem mem_valuesAt_iff (ws : List Value) (p : List Step) {x : Value} :
    x ∈ valuesAt ws p ↔ ∃ w ∈ ws, x ∈ valuesAt [w] p := by
  have hchild : ∀ (st : Step) (ws : List Value) (y : Value),
      y ∈ childValues st ws ↔ ∃ w ∈ ws, y ∈ childValues st [w] := by
    intro st ws y
    cases st <;> simp [childValues]
  induction p generalizing ws with
  | nil => simp [valuesAt]
  | cons st p ih =>
    constructor
    · intro hx
      obtain ⟨y, hy, hxy⟩ := (ih (childValues st ws)).mp hx
      obtain ⟨w, hw, hyw⟩ := (hchild st ws y).mp hy
      exact ⟨w, hw, (ih (childValues st [w])).mpr ⟨y, hyw, hxy⟩⟩
    · rintro ⟨w, hw, hx⟩
      obtain ⟨y, hyw, hxy⟩ := (ih (childValues st [w])).mp hx
      exact (ih (childValues st ws)).mpr ⟨y, (hchild st ws y).mpr ⟨w, hw, hyw⟩, hxy⟩

/-- An inferred schema admits exactly the values that fit what was observed, at every
observed path. -/
theorem admits_iff (resolve : String → Option Value) (samples : List Value) (v : Value) :
    Validates resolve (inferSchema samples) v ↔
      ∀ p, Observed samples p → ∀ x ∈ valuesAt [v] p, Resembles (valuesAt samples p) x := by
  induction samples using evidence_induction generalizing v with
  | h vs ih =>
    rw [validates_inferSchema_iff]
    constructor
    · rintro ⟨hlike, hbelow⟩ p (_ | ⟨hopen, hobserved⟩) x hx
      · obtain rfl : x = v := by simpa [valuesAt] using hx
        exact hlike
      · obtain ⟨y, hy, hxy⟩ := (mem_valuesAt_iff (childValues _ [v]) _).mp hx
        exact (ih _ hopen y).mp (hbelow _ hopen y hy) _ hobserved x hxy
    · intro h
      refine ⟨h [] (.here vs) v (List.mem_singleton_self v), fun st hopen y hy => ?_⟩
      refine (ih st hopen y).mpr fun p hobserved x hx => ?_
      exact h (st :: p) (.under hopen hobserved) x
        ((mem_valuesAt_iff (childValues st [v]) p).mpr ⟨y, hy, hx⟩)

end Cyanotype
