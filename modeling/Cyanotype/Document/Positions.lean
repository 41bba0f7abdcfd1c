import Cyanotype.Document.Soundness

/-!
# Schemas below a schema

The sub-schema at a path is what inference gives for the values observed there.
So each rule of inference holds at every depth: the properties of a place are the
keys of all its objects, and the required ones those of every object.
-/

namespace Cyanotype

open JsonSchema

/-- The sub-schema at a path of property names and array steps. -/
def subschemaAt (schema : Value) : List Step → Option Value
  | [] => some schema
  | .key k :: p => ((schema.get "properties").bind (·.get k)).bind (subschemaAt · p)
  | .items :: p => (schema.get "items").bind (subschemaAt · p)

/-- The schema one step below. -/
def childSchema (schema : Value) : Step → Option Value
  | .key k => (schema.get "properties").bind (·.get k)
  | .items => schema.get "items"

theorem subschemaAt_cons (schema : Value) (st : Step) (p : List Step) :
    subschemaAt schema (st :: p) = (childSchema schema st).bind (subschemaAt · p) := by
  cases st <;> rfl

/-! ## Paths -/

theorem valuesAt_concat (vs : List Value) (p : List Step) (st : Step) :
    valuesAt vs (p ++ [st]) = childValues st (valuesAt vs p) := by
  induction p generalizing vs with
  | nil => rfl
  | cons st' p ih => exact ih (childValues st' vs)

/-- A path is observed when its last step opens something there. -/
theorem observed_concat_iff {vs : List Value} {p : List Step} {st : Step} :
    Observed vs (p ++ [st]) ↔ Observed vs p ∧ Opens (valuesAt vs p) st := by
  induction p generalizing vs with
  | nil =>
    constructor
    · rintro (_ | ⟨hopens, _⟩)
      exact ⟨.here vs, hopens⟩
    · rintro ⟨-, hopens⟩
      exact .under hopens (.here _)
  | cons st' p ih =>
    constructor
    · rintro (_ | ⟨hopens, hbelow⟩)
      obtain ⟨hp, hst⟩ := ih.mp hbelow
      exact ⟨.under hopens hp, hst⟩
    · rintro ⟨_ | ⟨hopens, hp⟩, hst⟩
      exact .under hopens (ih.mpr ⟨hp, hst⟩)

/-! ## Sub-schemas -/

variable {vs : List Value}

/-- One step below there is a schema exactly where the step opens, inferred from the
values there. -/
theorem childSchema_inferSchema_iff {st : Step} {schema : Value} :
    childSchema (inferSchema vs) st = some schema ↔
      Opens vs st ∧ schema = inferSchema (childValues st vs) := by
  cases st with
  | key k =>
    rw [childSchema, inferSchema_get_properties, fragmentOf]
    cases hs : shapeOf vs with
    | objects => exact get_properties_iff hs
    | _ => simp [Opens, hs]
  | items =>
    rw [childSchema, inferSchema_get_items, fragmentOf]
    cases hs : shapeOf vs with
    | arrays => simp [Opens, hs, eq_comm]
    | _ => simp [Opens, hs]

/-- The sub-schemas of an inferred schema are at the observed paths, each inferred
from the values observed there. -/
theorem subschemaAt_inferSchema_iff {p : List Step} {schema : Value} :
    subschemaAt (inferSchema vs) p = some schema ↔
      Observed vs p ∧ schema = inferSchema (valuesAt vs p) := by
  induction p generalizing vs with
  | nil =>
    rw [subschemaAt, Option.some.injEq, eq_comm]
    exact ⟨fun h => ⟨.here vs, h⟩, fun h => h.2⟩
  | cons st p ih =>
    rw [subschemaAt_cons, Option.bind_eq_some_iff]
    constructor
    · rintro ⟨child, hchild, hschema⟩
      obtain ⟨hopens, rfl⟩ := childSchema_inferSchema_iff.mp hchild
      obtain ⟨hobserved, rfl⟩ := ih.mp hschema
      exact ⟨.under hopens hobserved, rfl⟩
    · rintro ⟨_ | ⟨hopens, hobserved⟩, rfl⟩
      exact ⟨_, childSchema_inferSchema_iff.mpr ⟨hopens, rfl⟩, ih.mpr ⟨hobserved, rfl⟩⟩

/-! ## Object places -/

/-- The keys of the property map are those of any object. -/
theorem mem_inferProperties_iff {infer : List Value → Value} {k : String} :
    k ∈ (inferProperties infer (nonNulls vs)).entries.map Prod.fst ↔
      ∃ v ∈ vs, v.get k ≠ none := by
  rw [← SortedMap.get_ne_none_iff, BTreeMap.get_entries, get_inferProperties, ne_eq,
    ite_eq_right_iff, not_forall]
  simp only [reduceCtorEq, not_false_eq_true, exists_prop, and_true, mem_collectKeys]
  constructor
  · rintro ⟨v, hv, hget⟩
    exact ⟨v, (mem_nonNulls.mp hv).1, hget⟩
  · rintro ⟨v, hv, hget⟩
    refine ⟨v, mem_nonNulls.mpr ⟨hv, ?_⟩, hget⟩
    rintro rfl
    exact hget rfl

/-- The keywords of an inferred schema. -/
theorem keywords_inferSchema {k : String} (h : (inferSchema vs).get k ≠ none) :
    k ∈ ["type", "properties", "required", "items", "examples"] := by
  rw [inferSchema_eq, Fragment.get_render] at h
  by_contra hother
  simp only [List.mem_cons, List.not_mem_nil, or_false, not_or] at hother
  simp [hother] at h

/-- Only objects were observed, at least one of them, beside nulls. -/
def OnlyObjects (vs : List Value) : Prop :=
  nonNulls vs ≠ [] ∧ ∀ v ∈ nonNulls vs, v.isObject = true

/-- The property map of an object place has the keys of all its objects, each once. -/
theorem properties_of_onlyObjects (h : OnlyObjects vs) :
    ∃ properties, (inferSchema vs).get "properties" = some (.object properties) ∧
      (properties.map Prod.fst).Nodup ∧
      ∀ k, k ∈ properties.map Prod.fst ↔ ∃ v ∈ vs, v.get k ≠ none := by
  refine ⟨(inferProperties inferSchema (nonNulls vs)).entries, ?_, BTreeMap.nodup_keys _,
    fun k => mem_inferProperties_iff⟩
  rw [inferSchema_get_properties, fragmentOf, shapeOf_eq_objects_iff.mpr h]
  rfl

/-- Where only objects were observed, `required` lists the keys that all have. -/
theorem required_of_onlyObjects (h : OnlyObjects vs) :
    (inferSchema vs).get "required" =
      if (requiredKeys vs).isEmpty then none
      else some (.array ((requiredKeys vs).map .string)) := by
  rw [inferSchema_get_required, fragmentOf, shapeOf_eq_objects_iff.mpr h]

/-- Every sub-schema is inferred from the values observed at its path. At an object
place the properties are the keys of any object, and the required ones, listed once
each, those of every object if there are at least two; otherwise, and where no key is
common to them, nothing is required. No other keywords than these five are used. -/
theorem inferred_at_every_depth {samples : List Value} {p : List Step} {schema : Value}
    (h : subschemaAt (inferSchema samples) p = some schema) :
    schema = inferSchema (valuesAt samples p) ∧
    (OnlyObjects (valuesAt samples p) →
      (∃ properties, schema.get "properties" = some (.object properties) ∧
        (properties.map Prod.fst).Nodup ∧
        ∀ k, k ∈ properties.map Prod.fst ↔ ∃ v ∈ valuesAt samples p, v.get k ≠ none) ∧
      (2 ≤ (nonNulls (valuesAt samples p)).length →
        (∃ k, ∀ v ∈ nonNulls (valuesAt samples p), v.get k ≠ none) →
        ∃ names : List String, schema.get "required" = some (.array (names.map .string)) ∧
          names.Nodup ∧
          ∀ k, k ∈ names ↔ ∀ v ∈ nonNulls (valuesAt samples p), v.get k ≠ none) ∧
      ((nonNulls (valuesAt samples p)).length < 2 ∨
        (¬ ∃ k, ∀ v ∈ nonNulls (valuesAt samples p), v.get k ≠ none) →
        schema.get "required" = none)) ∧
    ∃ m, schema = .object m ∧
      ∀ k ∈ m.map Prod.fst, k ∈ ["type", "properties", "required", "items", "examples"] := by
  obtain ⟨-, rfl⟩ := subschemaAt_inferSchema_iff.mp h
  generalize valuesAt samples p = vs
  refine ⟨rfl, fun hobjects => ⟨properties_of_onlyObjects hobjects, ?_, ?_⟩, ?_⟩
  · rintro henough ⟨k, hk⟩
    have hrequired := required_of_onlyObjects hobjects
    have hmem : k ∈ requiredKeys vs := mem_requiredKeys_iff.mpr ⟨henough, hk⟩
    rw [if_neg fun hempty => List.ne_nil_of_mem hmem (List.isEmpty_iff.mp hempty)] at hrequired
    refine ⟨requiredKeys vs, hrequired, (nodup_collectKeys _).filter _, fun j => ?_⟩
    exact mem_requiredKeys_iff.trans (and_iff_right henough)
  · intro hnone
    have hempty : requiredKeys vs = [] := by
      refine List.eq_nil_iff_forall_not_mem.mpr fun k hk => ?_
      obtain ⟨henough, hall⟩ := mem_requiredKeys_iff.mp hk
      rcases hnone with hfew | hnone
      · exact absurd henough (Nat.not_le.mpr hfew)
      · exact hnone ⟨k, hall⟩
    rw [required_of_onlyObjects hobjects, hempty]
    rfl
  · refine ⟨(fragmentOf inferSchema vs).entries, inferSchema_eq vs, fun k hk => ?_⟩
    have hget := SortedMap.get_ne_none_iff.mpr hk
    rw [← Value.get_object, ← Fragment.render, ← inferSchema_eq] at hget
    exact keywords_inferSchema hget

/-- Two objects below a key, one of them without `b`. -/
def nestedObjects : List Value :=
  [.object [("x", .object [("a", .ofNat 1), ("b", .ofNat 2)])],
    .object [("x", .object [("a", .ofNat 3)])]]

/-- Below the key, only what both objects have is required. -/
theorem inferred_at_every_depth_example : ∃ schema,
    subschemaAt (inferSchema nestedObjects) [.key "x"] = some schema ∧
    ∃ names : List String, schema.get "required" = some (.array (names.map .string)) ∧
      "a" ∈ names ∧ "b" ∉ names := by
  have hobserved : Observed nestedObjects [.key "x"] :=
    .under ⟨rfl, _, List.mem_cons_self, by decide⟩ (.here _)
  have hat := subschemaAt_inferSchema_iff.mpr ⟨hobserved, rfl⟩
  obtain ⟨-, hobjects, -⟩ := inferred_at_every_depth hat
  have hvalues : nonNulls (valuesAt nestedObjects [.key "x"]) =
      [.object [("a", .ofNat 1), ("b", .ofNat 2)], .object [("a", .ofNat 3)]] := rfl
  rw [OnlyObjects, hvalues] at hobjects
  obtain ⟨-, hrequired, -⟩ := hobjects ⟨by simp, by simp [Value.isObject]⟩
  obtain ⟨names, hget, -, hnames⟩ := hrequired (Nat.le_refl 2) ⟨"a", by simp⟩
  refine ⟨_, hat, names, hget, (hnames "a").mpr (by simp), fun hb => ?_⟩
  simpa [SortedMap.get_cons] using (hnames "b").mp hb

end Cyanotype
