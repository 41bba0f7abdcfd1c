import Cyanotype.Core.JsonSchema
import Cyanotype.Document.Infer

/-!
# Evidence at a position

The values of one place decide the shape of its schema (`shapeOf`), and the
shape decides which places below it have a schema of their own (`Opens`).
`valuesAt` gathers the values observed along a path. One equation,
`inferSchema_eq`, states the whole inference as the fragment that the shape
prescribes, with `inferSchema` again for every opened step; `evidence_induction`
is the induction that goes with it.
-/

namespace Cyanotype

open JsonSchema (Fragment)

/-- A step from a place to one below it: into a member or into the elements. -/
inductive Step where
  | key (k : String)
  | items
  deriving DecidableEq

/-- The values one step below, in sample order; array elements are concatenated. -/
def childValues : Step → List Value → List Value
  | .key k, vs => vs.filterMap (·.get k)
  | .items, vs => vs.flatMap Value.elements

/-- The values observed at a path. -/
def valuesAt (vs : List Value) : List Step → List Value
  | [] => vs
  | st :: p => valuesAt (childValues st vs) p

/-- The evidence without its nulls. -/
def nonNulls (vs : List Value) : List Value := vs.filter fun v => !v.isNull

theorem nonNulls_cons_null (vs : List Value) : nonNulls (.null :: vs) = nonNulls vs := rfl

theorem nonNulls_cons_of_ne {v : Value} (h : v ≠ .null) (vs : List Value) :
    nonNulls (v :: vs) = v :: nonNulls vs := by
  cases v with
  | null => exact absurd rfl h
  | _ => rfl

/-- What is left is what is not null. -/
theorem mem_nonNulls {vs : List Value} {v : Value} :
    v ∈ nonNulls vs ↔ v ∈ vs ∧ v ≠ .null := by
  rw [nonNulls, List.mem_filter, Bool.not_eq_true', ← Bool.not_eq_true, Value.isNull_iff]

/-- Nulls contribute nothing below themselves. -/
theorem childValues_nonNulls (st : Step) (vs : List Value) :
    childValues st (nonNulls vs) = childValues st vs := by
  induction vs with
  | nil => rfl
  | cons v vs ih =>
    by_cases hv : v = .null
    · subst hv
      rw [nonNulls_cons_null, ih]
      cases st <;> rfl
    · rw [nonNulls_cons_of_ne hv]
      cases st with
      | key k =>
        simp only [childValues, List.filterMap_cons] at ih ⊢
        rw [ih]
      | items =>
        simp only [childValues, List.flatMap_cons] at ih ⊢
        rw [ih]

/-! ## Shapes -/

/-- The branch that inference takes on a list of values. -/
inductive Shape where
  | nulls
  | objects
  | arrays
  | primitive (kind : PrimitiveType)
  | mixed
  deriving DecidableEq

/-- The shape of the evidence, by its values that are not null. -/
def shapeOf (vs : List Value) : Shape :=
  if (nonNulls vs).isEmpty then .nulls
  else if (nonNulls vs).all Value.isObject then .objects
  else if (nonNulls vs).all Value.isArray then .arrays
  else match commonPrimitiveType (nonNulls vs) with
    | some kind => .primitive kind
    | none => .mixed

/-- Only nulls were observed, or nothing. -/
theorem shapeOf_eq_nulls_iff {vs : List Value} : shapeOf vs = .nulls ↔ nonNulls vs = [] := by
  unfold shapeOf
  by_cases h : (nonNulls vs).isEmpty
  · rw [if_pos h]
    exact iff_of_true rfl (List.isEmpty_iff.mp h)
  · rw [if_neg h]
    refine iff_of_false ?_ fun hs => h (List.isEmpty_iff.mpr hs)
    intro hs
    split_ifs at hs
    split at hs <;> cases hs

/-- Besides nulls only objects were observed. -/
theorem shapeOf_eq_objects_iff {vs : List Value} :
    shapeOf vs = .objects ↔ nonNulls vs ≠ [] ∧ ∀ v ∈ nonNulls vs, v.isObject = true := by
  rw [← List.all_eq_true]
  unfold shapeOf
  by_cases h : (nonNulls vs).isEmpty
  · simp_all
  · rw [if_neg h]
    by_cases ho : (nonNulls vs).all Value.isObject = true
    · simpa [ho] using h
    · rw [if_neg ho]
      refine iff_of_false ?_ fun hs => ho hs.2
      intro hs
      split_ifs at hs
      split at hs <;> cases hs

/-- Besides nulls only arrays were observed. -/
theorem shapeOf_eq_arrays_iff {vs : List Value} :
    shapeOf vs = .arrays ↔ nonNulls vs ≠ [] ∧ ∀ v ∈ nonNulls vs, v.isArray = true := by
  rw [← List.all_eq_true]
  unfold shapeOf
  by_cases h : (nonNulls vs).isEmpty
  · simp_all
  · have hne : nonNulls vs ≠ [] := by simpa using h
    rw [if_neg h]
    by_cases ho : (nonNulls vs).all Value.isObject = true
    · rw [if_pos ho]
      refine iff_of_false (by simp) fun hs => ?_
      obtain ⟨v, hv⟩ := List.exists_mem_of_ne_nil _ hne
      obtain ⟨m, rfl⟩ := Value.isObject_iff.mp (List.all_eq_true.mp ho v hv)
      simpa [Value.isArray] using List.all_eq_true.mp hs.2 _ hv
    · rw [if_neg ho]
      by_cases ha : (nonNulls vs).all Value.isArray = true
      · simp [ha, hne]
      · rw [if_neg ha]
        refine iff_of_false ?_ fun hs => ha hs.2
        split <;> simp

/-- Values of a primitive shape have a common primitive type. -/
theorem commonPrimitiveType_of_shapeOf {vs : List Value} {kind : PrimitiveType}
    (hs : shapeOf vs = .primitive kind) : commonPrimitiveType (nonNulls vs) = some kind := by
  unfold shapeOf at hs
  split_ifs at hs
  cases hc : commonPrimitiveType (nonNulls vs) with
  | none =>
    rw [hc] at hs
    cases hs
  | some k =>
    rw [hc] at hs
    exact congrArg some (Shape.primitive.inj hs)

/-- The steps that lead to a schema of their own. -/
def Opens (vs : List Value) : Step → Prop
  | .key k => shapeOf vs = .objects ∧ ∃ v ∈ vs, v.get k ≠ none
  | .items => shapeOf vs = .arrays

/-- The paths that lead to a schema of their own. -/
inductive Observed : List Value → List Step → Prop
  | here (vs : List Value) : Observed vs []
  | under {vs : List Value} {st : Step} {p : List Step} (h : Opens vs st)
      (hp : Observed (childValues st vs) p) : Observed vs (st :: p)

/-- A property of all observed places: here, and below every opened step. -/
theorem forall_observed_iff (P : List Value → Prop) {vs : List Value} :
    (∀ p, Observed vs p → P (valuesAt vs p)) ↔
      P vs ∧ ∀ st, Opens vs st →
        ∀ p, Observed (childValues st vs) p → P (valuesAt (childValues st vs) p) := by
  constructor
  · exact fun h => ⟨h [] (.here vs), fun st hst p hp => h (st :: p) (.under hst hp)⟩
  · rintro ⟨hhere, hbelow⟩ p hp
    cases hp with
    | here => exact hhere
    | under hst hp => exact hbelow _ hst _ hp

/-- Opened steps lead to shallower values. -/
theorem depth_childValues_lt {vs : List Value} {st : Step} (h : Opens vs st) :
    Value.depthList (childValues st vs) < Value.depthList vs := by
  have below : 0 < Value.depthList vs → (∀ y ∈ childValues st vs,
      y.depth < Value.depthList vs) → Value.depthList (childValues st vs) < Value.depthList vs := by
    intro hpos hall
    have hle : Value.depthList (childValues st vs) ≤ Value.depthList vs - 1 :=
      Value.depthList_le_iff.mpr fun y hy => by have := hall y hy; omega
    omega
  cases st with
  | key k =>
    have hall : ∀ y ∈ childValues (.key k) vs, y.depth < Value.depthList vs := by
      intro y hy
      obtain ⟨v, hv, hvy⟩ := List.mem_filterMap.mp hy
      exact (Value.depth_lt_of_get hvy).trans_le (Value.depth_le_depthList hv)
    obtain ⟨-, v, hv, hne⟩ := h
    obtain ⟨x, hx⟩ := Option.ne_none_iff_exists'.mp hne
    exact below ((Nat.zero_le _).trans_lt (hall x (List.mem_filterMap.mpr ⟨v, hv, hx⟩))) hall
  | items =>
    obtain ⟨hne, harr⟩ := shapeOf_eq_arrays_iff.mp h
    obtain ⟨v, hv⟩ := List.exists_mem_of_ne_nil _ hne
    obtain ⟨xs, rfl⟩ := Value.isArray_iff.mp (harr v hv)
    refine below ?_ ?_
    · have := Value.depth_le_depthList (mem_nonNulls.mp hv).1
      rw [Value.depth] at this
      omega
    · intro y hy
      obtain ⟨w, hw, hyw⟩ := List.mem_flatMap.mp hy
      cases w with
      | array ys => exact (Value.depth_lt_of_mem hyw).trans_le (Value.depth_le_depthList hw)
      | _ => exact absurd hyw List.not_mem_nil

/-- Induction on evidence: a place follows from the places it opens. -/
theorem evidence_induction {P : List Value → Prop}
    (h : ∀ vs, (∀ st, Opens vs st → P (childValues st vs)) → P vs) (vs : List Value) : P vs := by
  induction hn : Value.depthList vs using Nat.strong_induction_on generalizing vs with
  | _ n ih =>
    subst hn
    exact h vs fun st hst => ih _ (depth_childValues_lt hst) _ rfl

/-! ## The inferred fragment -/

/-- A type name, widened by `null` when a null was observed. -/
def typeValue (vs : List Value) (name : String) : Value :=
  if vs.any Value.isNull then .array [.string name, .string "null"] else .string name

/-- The keys required of the objects at a place. -/
def requiredKeys (vs : List Value) : List String :=
  (collectKeys (nonNulls vs)).filter (isRequiredKey (nonNulls vs) ·)

/-- The keywords that the shape of the values prescribes. -/
def fragmentOf (infer : List Value → Value) (vs : List Value) : Fragment :=
  match shapeOf vs with
  | .nulls => { type := some (.string "null") }
  | .objects =>
    { type := some (typeValue vs "object")
      properties := some (inferProperties infer (nonNulls vs)).entries
      required := requiredKeys vs }
  | .arrays =>
    { type := some (typeValue vs "array")
      items := some (infer (childValues .items vs)) }
  | .primitive kind =>
    { type := some (typeValue vs kind.typeName)
      examples := collectExamples [] (nonNulls vs) }
  | .mixed =>
    { type := if vs.any Value.isNull then some (.array [.string "null"]) else none
      examples := collectExamples [] (nonNulls vs) }

/-- Making a rendered fragment nullable touches its `type` only. -/
theorem setField_type_render (f : Fragment) (t : Value) :
    f.render.setField "type" t = { f with type := some t }.render := by
  have hlt : ∀ e ∈ (if f.examples.isEmpty then [] else [("examples", Value.array f.examples)]) ++
      ((f.items.toList.map fun s => ("items", s)) ++
      ((f.properties.toList.map fun ps => ("properties", .object ps)) ++
      (if f.required.isEmpty then [] else [("required", .array (f.required.map .string))]))),
      e.1 < "type" := by
    intro e he
    have hkey : e.1 ∈ ["examples", "items", "properties", "required"] := by
      simp only [List.mem_append, List.mem_map] at he
      rcases he with he | ⟨s, -, rfl⟩ | ⟨ps, -, rfl⟩ | he
      · split_ifs at he <;> simp_all
      · simp
      · simp
      · split_ifs at he <;> simp_all
    revert hkey
    generalize e.1 = k
    intro hk
    simp only [List.mem_cons, List.not_mem_nil, or_false] at hk
    rcases hk with rfl | rfl | rfl | rfl <;> decide
  have htype : SortedMap.insert "type" t (f.type.toList.map fun t => ("type", t)) =
      [("type", t)] := by
    cases f.type <;> simp [SortedMap.insert]
  have hinsert := SortedMap.insert_append hlt t (f.type.toList.map fun t => ("type", t))
  rw [htype] at hinsert
  simp only [List.append_assoc] at hinsert
  simp only [Fragment.render, Value.setField, Fragment.entries, hinsert, Option.toList_some,
    List.map_cons, List.map_nil]

/-- Adding examples to a fragment that has only a type. -/
theorem addExamples_render (type : Option Value) (vs : List Value) :
    addExamples (Fragment.render { type := type }) vs =
      Fragment.render { type := type, examples := collectExamples [] vs } := by
  unfold addExamples
  cases h : collectExamples [] vs with
  | nil => rfl
  | cons x xs => cases type <;> rfl

/-- A nullable schema widens its `type` by the observed null. -/
theorem widen_render (vs : List Value) (f : Fragment) (name : String)
    (h : f.type = some (.string name)) :
    (if vs.any Value.isNull then makeNullable f.render else f.render) =
      { f with type := some (typeValue vs name) }.render := by
  have hget : f.render.get "type" = some (.string name) := by simp [Fragment.get_render, h]
  by_cases hnull : vs.any Value.isNull = true
  · simp only [hnull, if_true, makeNullable, hget, setField_type_render, typeValue]
  · rw [if_neg hnull, typeValue, if_neg hnull, ← h]

/-- `infer_object` writes a fragment of type `object`. -/
theorem inferObject_render (infer : List Value → Value) (vs : List Value) :
    inferObject infer (nonNulls vs) = Fragment.render
      { type := some (.string "object")
        properties := some (inferProperties infer (nonNulls vs)).entries
        required := requiredKeys vs } := by
  simp only [inferObject_eq, ← requiredKeys.eq_def, Value.ofFields, List.foldl_cons,
    List.foldl_nil]
  cases requiredKeys vs <;> rfl

/-- `infer_array` writes a fragment of type `array`. -/
theorem inferArray_render (infer : List Value → Value) (vs : List Value) :
    inferArray infer (nonNulls vs) = Fragment.render
      { type := some (.string "array"), items := some (infer (childValues .items vs)) } := by
  rw [inferArray_eq, ← childValues_nonNulls .items vs]
  simp only [Value.ofFields, List.foldl_cons, List.foldl_nil]
  rfl

/-- The body of the inference renders the prescribed fragment. -/
theorem inferBody_eq_render (infer : List Value → Value) (vs : List Value) :
    inferBody infer vs = (fragmentOf infer vs).render := by
  have hnn : (vs.filter fun v => !v.isNull) = nonNulls vs := rfl
  unfold inferBody fragmentOf shapeOf
  simp only [hnn]
  by_cases hempty : (nonNulls vs).isEmpty = true
  · simp only [hempty, if_true]
    rfl
  simp only [hempty, Bool.false_eq_true, if_false]
  by_cases ho : (nonNulls vs).all Value.isObject = true
  · simp only [ho, if_true, inferObject_render]
    exact widen_render vs _ "object" rfl
  simp only [ho, Bool.false_eq_true, if_false]
  by_cases ha : (nonNulls vs).all Value.isArray = true
  · simp only [ha, if_true, inferArray_render]
    exact widen_render vs _ "array" rfl
  simp only [ha, Bool.false_eq_true, if_false]
  cases commonPrimitiveType (nonNulls vs) with
  | some kind =>
    simp only [inferPrimitive]
    rw [show Value.ofFields [("type", .string kind.typeName)] =
      Fragment.render { type := some (.string kind.typeName) } from rfl, addExamples_render]
    exact widen_render vs _ kind.typeName rfl
  | none =>
    simp only
    rw [show Value.ofFields [] = Fragment.render {} from rfl, addExamples_render]
    by_cases hnull : vs.any Value.isNull = true
    · simp only [hnull, if_true, makeNullable, Fragment.get_render, setField_type_render]
      rfl
    · simp only [hnull, Bool.false_eq_true, if_false]

/-- The fragment depends on the recursion at the opened steps only. -/
theorem fragmentOf_congr {f g : List Value → Value} {vs : List Value}
    (h : ∀ st, Opens vs st → f (childValues st vs) = g (childValues st vs)) :
    fragmentOf f vs = fragmentOf g vs := by
  unfold fragmentOf
  cases hs : shapeOf vs with
  | objects =>
    have hprops : inferProperties f (nonNulls vs) = inferProperties g (nonNulls vs) := by
      apply BTreeMap.ext
      intro k
      rw [get_inferProperties, get_inferProperties]
      by_cases hk : k ∈ collectKeys (nonNulls vs)
      · obtain ⟨v, hv, hget⟩ := mem_collectKeys.mp hk
        have hc := h (.key k) ⟨hs, v, (mem_nonNulls.mp hv).1, hget⟩
        rw [← childValues_nonNulls] at hc
        rw [if_pos hk, if_pos hk]
        exact congrArg some hc
      · rw [if_neg hk, if_neg hk]
    simp only [hprops]
  | arrays => simp only [h .items hs]
  | _ => rfl

/-- More fuel than the depth changes nothing. -/
theorem inferSchemaFuel_eq {n m : Nat} {vs : List Value} (hn : Value.depthList vs < n)
    (hm : Value.depthList vs < m) : inferSchemaFuel n vs = inferSchemaFuel m vs := by
  induction n generalizing m vs with
  | zero => omega
  | succ n ih =>
    obtain ⟨m, rfl⟩ : ∃ m', m = m' + 1 := ⟨m - 1, by omega⟩
    rw [inferSchemaFuel, inferSchemaFuel, inferBody_eq_render, inferBody_eq_render,
      fragmentOf_congr fun st hst => ?_]
    have hlt := depth_childValues_lt hst
    exact ih (by omega) (by omega)

/-- Inference satisfies the recursion of the source: the fuel always suffices. -/
theorem inferSchema_eq_inferBody (vs : List Value) :
    inferSchema vs = inferBody inferSchema vs := by
  rw [inferBody_eq_render, inferSchema, inferSchemaFuel, inferBody_eq_render,
    fragmentOf_congr fun st hst => ?_]
  exact inferSchemaFuel_eq (depth_childValues_lt hst) (Nat.lt_succ_self _)

/-- The inferred schema is the prescribed fragment, inferred again below every opened step. -/
theorem inferSchema_eq (vs : List Value) :
    inferSchema vs = (fragmentOf inferSchema vs).render := by
  rw [inferSchema_eq_inferBody, inferBody_eq_render]

/-! ## The keywords of an inferred schema -/

/-- The `type` of an inferred schema. -/
theorem inferSchema_get_type (vs : List Value) :
    (inferSchema vs).get "type" = (fragmentOf inferSchema vs).type := by
  rw [inferSchema_eq, Fragment.get_render]
  rfl

/-- The `properties` of an inferred schema. -/
theorem inferSchema_get_properties (vs : List Value) :
    (inferSchema vs).get "properties" = (fragmentOf inferSchema vs).properties.map .object := by
  rw [inferSchema_eq, Fragment.get_render]
  rfl

/-- The `required` of an inferred schema, left out when no key is. -/
theorem inferSchema_get_required (vs : List Value) :
    (inferSchema vs).get "required" =
      if (fragmentOf inferSchema vs).required.isEmpty then none
      else some (.array ((fragmentOf inferSchema vs).required.map .string)) := by
  rw [inferSchema_eq, Fragment.get_render]
  rfl

/-- The `items` of an inferred schema. -/
theorem inferSchema_get_items (vs : List Value) :
    (inferSchema vs).get "items" = (fragmentOf inferSchema vs).items := by
  rw [inferSchema_eq, Fragment.get_render]
  rfl

/-- The `examples` of an inferred schema, left out when there are none. -/
theorem inferSchema_get_examples (vs : List Value) :
    (inferSchema vs).get "examples" =
      if (fragmentOf inferSchema vs).examples.isEmpty then none
      else some (.array (fragmentOf inferSchema vs).examples) := by
  rw [inferSchema_eq, Fragment.get_render]
  rfl

end Cyanotype
