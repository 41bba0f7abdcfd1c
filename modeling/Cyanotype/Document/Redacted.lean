import Cyanotype.Document.Admission
import Cyanotype.Document.Emission
import Cyanotype.Recorder.Redaction

/-!
# Schemas of redacted bodies

Redaction happens before inference, and replaces values but neither keys nor the roots of
other values. So it keeps the structure of the inferred schema: outside declared keys the
same places are described, with the same types and the same required keys. A declared key
is described as a string with the marker as its only example, whatever was there.
-/

namespace Cyanotype

open JsonSchema

/-! ## Values that keep their roots -/

section

variable {f : Value → Value} (hlabel : ∀ v, (f v).label = v.label)

include hlabel

theorem isNull_of_label (v : Value) : (f v).isNull = v.isNull := by
  have h := hlabel v
  cases v <;> cases hf : f _ <;> simp_all [Value.label, Value.isNull]

theorem isObject_of_label (v : Value) : (f v).isObject = v.isObject := by
  have h := hlabel v
  cases v <;> cases hf : f _ <;> simp_all [Value.label, Value.isObject]

theorem isArray_of_label (v : Value) : (f v).isArray = v.isArray := by
  have h := hlabel v
  cases v <;> cases hf : f _ <;> simp_all [Value.label, Value.isArray]

theorem keys_of_label (v : Value) : (f v).keys = v.keys := by
  have h := hlabel v
  cases v <;> cases hf : f _ <;> simp_all [Value.label, Value.keys, Value.asObject]

theorem primitiveType_of_label (v : Value) : primitiveType (f v) = primitiveType v := by
  have h := hlabel v
  cases v <;> cases hf : f _ <;> simp_all [Value.label, primitiveType]

/-- A value with a primitive type is its root. -/
theorem eq_of_label {v : Value} (hv : primitiveType v ≠ none) : f v = v := by
  have h := hlabel v
  cases v <;> cases hf : f _ <;> simp_all [Value.label, primitiveType]

theorem nonNulls_map (vs : List Value) : nonNulls (vs.map f) = (nonNulls vs).map f := by
  simp only [nonNulls, List.filter_map, Function.comp_def, isNull_of_label hlabel]

theorem any_isNull_map (vs : List Value) : (vs.map f).any Value.isNull = vs.any Value.isNull := by
  simp only [List.any_map, Function.comp_def, isNull_of_label hlabel]

theorem commonPrimitiveTypeFrom_map (kind : Option PrimitiveType) (vs : List Value) :
    commonPrimitiveTypeFrom kind (vs.map f) = commonPrimitiveTypeFrom kind vs := by
  induction vs generalizing kind with
  | nil => rfl
  | cons v vs ih =>
    simp only [List.map_cons, commonPrimitiveTypeFrom, primitiveType_of_label hlabel, ih]

/-- The shape of a place depends on the roots of its values. -/
theorem shapeOf_map (vs : List Value) : shapeOf (vs.map f) = shapeOf vs := by
  simp only [shapeOf, nonNulls_map hlabel, commonPrimitiveType, commonPrimitiveTypeFrom_map hlabel,
    List.isEmpty_map, List.all_map, Function.comp_def, isObject_of_label hlabel,
    isArray_of_label hlabel]

theorem get_ne_none_of_label (v : Value) (k : String) : (f v).get k ≠ none ↔ v.get k ≠ none := by
  rw [← Value.mem_keys_iff, ← Value.mem_keys_iff, keys_of_label hlabel]

/-- So do its steps. -/
theorem opens_map_iff (vs : List Value) (st : Step) : Opens (vs.map f) st ↔ Opens vs st := by
  cases st with
  | key k => simp [Opens, shapeOf_map hlabel, get_ne_none_of_label hlabel]
  | items => simp only [Opens, shapeOf_map hlabel]

/-- So do the keys it requires. -/
theorem requiredKeys_map (vs : List Value) : requiredKeys (vs.map f) = requiredKeys vs := by
  have hcollect : ∀ objects : List Value, collectKeys (objects.map f) = collectKeys objects := by
    intro objects
    rw [collectKeys_eq_foldl, collectKeys_eq_foldl, List.flatMap_map]
    simp only [keys_of_label hlabel]
  have hrequired : ∀ (objects : List Value) (k : String),
      isRequiredKey (objects.map f) k ↔ isRequiredKey objects k := by
    intro objects k
    simp only [isRequiredKey_iff, List.length_map, List.forall_mem_map,
      get_ne_none_of_label hlabel]
  simp only [requiredKeys, nonNulls_map hlabel, hcollect, hrequired]

/-- Values that keep their roots prescribe the same `type`. -/
theorem fragmentOf_type_map (infer : List Value → Value) (vs : List Value) :
    (fragmentOf infer (vs.map f)).type = (fragmentOf infer vs).type := by
  unfold fragmentOf typeValue
  rw [shapeOf_map hlabel, any_isNull_map hlabel]
  cases shapeOf vs <;> rfl

/-- They require the same keys. -/
theorem fragmentOf_required_map (infer : List Value → Value) (vs : List Value) :
    (fragmentOf infer (vs.map f)).required = (fragmentOf infer vs).required := by
  unfold fragmentOf
  rw [shapeOf_map hlabel, requiredKeys_map hlabel]
  cases shapeOf vs <;> rfl

/-- Where the values have a common type, they are their roots. -/
theorem fragmentOf_examples_map (infer : List Value → Value) {vs : List Value}
    (hshape : shapeOf vs ≠ .mixed) :
    (fragmentOf infer (vs.map f)).examples = (fragmentOf infer vs).examples := by
  unfold fragmentOf
  rw [shapeOf_map hlabel, nonNulls_map hlabel]
  cases hs : shapeOf vs with
  | primitive kind =>
    have hprimitive := (commonPrimitiveType_some_iff.mp (commonPrimitiveType_of_shapeOf hs)).1
    have hsame : (nonNulls vs).map f = nonNulls vs := by
      refine (List.map_congr_left fun v hv => ?_).trans (List.map_id _)
      obtain ⟨p, hp, -⟩ := hprimitive v hv
      exact eq_of_label hlabel (hp ▸ Option.some_ne_none p)
    simp only [hsame]
  | mixed => exact absurd hs hshape
  | _ => rfl

end

/-! ## Redaction -/

variable {config : Redactions} {samples : List Value} {p : List Step}

/-- The schema of a declared field. -/
def redactedSchema : Value :=
  Fragment.render { type := some (.string "string"), examples := [.string redactedValue] }

/-- Redacted values have one schema. -/
theorem inferSchema_redacted (n : Nat) :
    inferSchema (List.replicate (n + 1) (.string redactedValue)) = redactedSchema := by
  have hdistinct : ∀ n, (List.replicate n (Value.string redactedValue)).foldl pushDistinct
      [.string redactedValue] = [.string redactedValue] := by
    intro n
    induction n with
    | zero => rfl
    | succ n ih => simpa [List.replicate_succ, pushDistinct, Value.beq] using ih
  have hkind : ∀ n, commonPrimitiveTypeFrom (some .string)
      (List.replicate n (Value.string redactedValue)) = some .string := by
    intro n
    induction n with
    | zero => rfl
    | succ n ih => simpa [List.replicate_succ, commonPrimitiveTypeFrom, primitiveType] using ih
  have hnonNulls : nonNulls (List.replicate (n + 1) (.string redactedValue)) =
      List.replicate (n + 1) (.string redactedValue) := by
    simp [nonNulls, Value.isNull]
  have hshape : shapeOf (List.replicate (n + 1) (.string redactedValue)) =
      .primitive .string := by
    rw [shapeOf, hnonNulls]
    simp [List.replicate_succ, Value.isObject, Value.isArray, commonPrimitiveType,
      commonPrimitiveTypeFrom, primitiveType, hkind n]
  have hexamples : collectExamples [] (List.replicate (n + 1) (.string redactedValue)) =
      [.string redactedValue] := by
    rw [collectExamples_eq, distinctValues, List.replicate_succ, List.foldl_cons]
    exact congrArg (List.take maxExamples) (hdistinct n)
  have htype : typeValue (List.replicate (n + 1) (.string redactedValue)) "string" =
      .string "string" := by
    simp [typeValue, Value.isNull]
  rw [inferSchema_eq, fragmentOf, hshape]
  simp only [hnonNulls, hexamples, PrimitiveType.typeName, htype]
  rfl

/-- The values one step below redacted values. -/
theorem childValues_redactWith (vs : List Value) (st : Step) :
    childValues st (vs.map (redactWith config)) = (childValues st vs).map fun x =>
      match st with
      | .key k => redactField config k x
      | .items => redactWith config x := by
  cases st with
  | key k =>
    have hget : ∀ v : Value,
        (redactWith config v).get k = (v.get k).map (redactField config k) := fun v =>
      child_redactWith config v (.key k)
    simp only [childValues, List.filterMap_map, Function.comp_def, hget, List.map_filterMap]
  | items =>
    have helements : ∀ v : Value,
        (redactWith config v).elements = v.elements.map (redactWith config) := by
      intro v
      cases v with
      | array xs => exact redactItems_eq_map config xs
      | _ => rfl
    simp only [childValues, List.flatMap_map, helements, List.map_flatMap]

/-- Where no key of the path is declared, the values are redacted. -/
theorem valuesAt_redactWith (hp : ∀ k ∈ config.fields, Step.key k ∉ p) (vs : List Value) :
    valuesAt (vs.map (redactWith config)) p = (valuesAt vs p).map (redactWith config) := by
  induction p generalizing vs with
  | nil => rfl
  | cons st p ih =>
    have hrest : ∀ k ∈ config.fields, Step.key k ∉ p := fun k hk hmem =>
      hp k hk (List.mem_cons_of_mem _ hmem)
    have hchild : childValues st (vs.map (redactWith config)) =
        (childValues st vs).map (redactWith config) := by
      rw [childValues_redactWith]
      cases st with
      | key k =>
        have hk : k ∉ config.fields := fun hk => hp k hk (List.mem_cons_self ..)
        simp only [redactField, hk, if_false]
      | items => rfl
    rw [valuesAt, hchild, ih hrest, valuesAt]

/-- There the same places are observed. -/
theorem observed_redactWith_iff (hp : ∀ k ∈ config.fields, Step.key k ∉ p) :
    Observed (samples.map (redactWith config)) p ↔ Observed samples p := by
  induction p using List.reverseRecOn with
  | nil => exact iff_of_true (.here _) (.here _)
  | append_singleton p st ih =>
    have hinit : ∀ k ∈ config.fields, Step.key k ∉ p := fun k hk hmem =>
      hp k hk (List.mem_append_left _ hmem)
    rw [observed_concat_iff, observed_concat_iff, ih hinit, valuesAt_redactWith hinit,
      opens_map_iff (label_redactWith config)]

/-- Redaction keeps the structure of the inferred schema. Where no key on the path is
declared, the same sub-schemas exist, with the same types and the same required keys, and
where the values have a common type, with the same examples. A declared key has a schema
where it had one, which says that it is a string and shows the marker. -/
theorem redaction_keeps_structure (config : Redactions) (samples : List Value) {p : List Step}
    (hp : ∀ k ∈ config.fields, Step.key k ∉ p) :
    ((subschemaAt (inferSchema (samples.map (redactWith config))) p).isSome =
      (subschemaAt (inferSchema samples) p).isSome) ∧
    (∀ schema schema', subschemaAt (inferSchema samples) p = some schema →
      subschemaAt (inferSchema (samples.map (redactWith config))) p = some schema' →
        schema'.get "type" = schema.get "type" ∧
          schema'.get "required" = schema.get "required" ∧
          (shapeOf (valuesAt samples p) ≠ .mixed →
            schema'.get "examples" = schema.get "examples")) ∧
    ∀ k ∈ config.fields,
      subschemaAt (inferSchema (samples.map (redactWith config))) (p ++ [.key k]) =
        (subschemaAt (inferSchema samples) (p ++ [.key k])).map fun _ => redactedSchema := by
  have hlabel := label_redactWith config
  have hvalues := valuesAt_redactWith hp samples
  refine ⟨?_, ?_, fun k hk => ?_⟩
  · rw [Bool.eq_iff_iff, Option.isSome_iff_exists, Option.isSome_iff_exists]
    simp only [subschemaAt_inferSchema_iff, observed_redactWith_iff hp, exists_and_left,
      exists_eq, and_true]
  · intro schema schema' hschema hschema'
    obtain ⟨-, rfl⟩ := subschemaAt_inferSchema_iff.mp hschema
    obtain ⟨-, rfl⟩ := subschemaAt_inferSchema_iff.mp hschema'
    rw [hvalues]
    generalize valuesAt samples p = vs
    refine ⟨?_, ?_, fun hshape => ?_⟩
    · rw [inferSchema_get_type, inferSchema_get_type, fragmentOf_type_map hlabel]
    · rw [inferSchema_eq, inferSchema_eq, Fragment.get_render, Fragment.get_render,
        fragmentOf_required_map hlabel]
      rfl
    · rw [inferSchema_eq, inferSchema_eq, Fragment.get_render, Fragment.get_render,
        fragmentOf_examples_map hlabel _ hshape]
      rfl
  · have hopen : Opens ((valuesAt samples p).map (redactWith config)) (.key k) ↔
        Opens (valuesAt samples p) (.key k) := opens_map_iff hlabel _ _
    have hobserved : Observed (samples.map (redactWith config)) (p ++ [.key k]) ↔
        Observed samples (p ++ [.key k]) := by
      rw [observed_concat_iff, observed_concat_iff, observed_redactWith_iff hp, hvalues, hopen]
    have hmarker : Observed samples (p ++ [.key k]) →
        inferSchema (valuesAt (samples.map (redactWith config)) (p ++ [.key k])) =
          redactedSchema := by
      intro h
      obtain ⟨-, -, v, hv, hget⟩ := observed_concat_iff.mp h
      obtain ⟨x, hx⟩ := Option.ne_none_iff_exists'.mp hget
      have hne : childValues (.key k) (valuesAt samples p) ≠ [] :=
        List.ne_nil_of_mem (List.mem_filterMap.mpr ⟨v, hv, hx⟩)
      obtain ⟨n, hn⟩ := Nat.exists_eq_succ_of_ne_zero (mt List.length_eq_zero_iff.mp hne)
      rw [valuesAt_concat, hvalues, childValues_redactWith]
      simp only [redactField, hk, if_true, List.map_const', hn]
      exact inferSchema_redacted n
    ext schema
    rw [subschemaAt_inferSchema_iff, hobserved, Option.map_eq_some_iff]
    simp only [subschemaAt_inferSchema_iff]
    constructor
    · rintro ⟨h, rfl⟩
      exact ⟨_, ⟨h, rfl⟩, (hmarker h).symm⟩
    · rintro ⟨_, ⟨h, rfl⟩, rfl⟩
      exact ⟨h, (hmarker h).symm⟩

/-- A null and a number below a declared key, and an object beside them. -/
def logins : List Value :=
  [.object [("password", .null), ("user", .object [("id", .ofNat 1)])],
    .object [("password", .ofNat 7), ("user", .object [("id", .ofNat 2)])]]

/-- The null does not show, and the object is described as before. -/
theorem redaction_keeps_structure_example :
    subschemaAt (inferSchema (logins.map (redactWith (Redactions.new.field "password"))))
        [.key "password"] = some redactedSchema ∧
      (subschemaAt (inferSchema (logins.map (redactWith (Redactions.new.field "password"))))
        [.key "user", .key "id"]).isSome = true := by
  have hobserved : ∀ k ∈ ["password", "user"], Observed logins [.key k] := by
    intro k hk
    refine .under ⟨rfl, _, List.mem_cons_self, ?_⟩ (.here _)
    rcases List.mem_pair.mp hk with rfl | rfl <;> decide
  have hid : Observed logins [.key "user", .key "id"] :=
    .under ⟨rfl, _, List.mem_cons_self, by decide⟩
      (.under ⟨rfl, _, List.mem_cons_self, by decide⟩ (.here _))
  obtain ⟨-, -, hdeclared⟩ := redaction_keeps_structure (Redactions.new.field "password")
    logins (p := []) (by simp)
  obtain ⟨hsame, -, -⟩ := redaction_keeps_structure (Redactions.new.field "password")
    logins (p := [.key "user", .key "id"]) (by simp [Redactions.field, Redactions.new])
  refine ⟨(hdeclared "password" (by decide)).trans ?_, hsame.trans ?_⟩
  · rw [List.nil_append, subschemaAt_inferSchema_iff.mpr ⟨hobserved _ (by simp), rfl⟩]
    rfl
  · rw [subschemaAt_inferSchema_iff.mpr ⟨hid, rfl⟩]
    rfl

end Cyanotype
