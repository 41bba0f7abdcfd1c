import Cyanotype.Core.Json
import Mathlib.Data.List.Nodup

/-!
# Schema inference

`infer_schema` turns the observed values of one place into a schema fragment.
The functions it calls take the recursive call as an argument, so each reads as
its source does; `inferSchemaFuel` ties the knot with explicit fuel and
`inferSchema` supplies the nesting depth of the samples, which is always enough.
The second half says what the loops collect.
-/

namespace Cyanotype

/-- `MAX_EXAMPLES`. -/
def maxExamples : Nat := 10

/-- The `required` threshold, shared with the notice about operations below it. -/
def minSamplesForRequired : Nat := 2

/-! ## The inference functions -/

/-- Append a key unless it was seen before. -/
def pushKey (keys : List String) (key : String) : List String :=
  if key ∈ keys then keys else keys ++ [key]

/-- The keys of all objects, in first-seen order. -/
def collectKeys (objects : List Value) : List String :=
  objects.foldl (fun keys obj =>
    match obj.asObject with
    | some map => (map.map Prod.fst).foldl pushKey keys
    | none => keys) []

/-- The presence count and the values of one key, in sample order. -/
def collectValues (key : String) (objects : List Value) : Nat × List Value :=
  objects.foldl (fun (acc : Nat × List Value) obj =>
    match obj.get key with
    | some v => (acc.1 + 1, acc.2 ++ [v])
    | none => acc) (0, [])

/-- One round of the loop over the keys: the properties and the required keys so far. -/
def inferProperty (infer : List Value → Value) (objects : List Value)
    (acc : BTreeMap String Value × List String) (key : String) :
    BTreeMap String Value × List String :=
  let (presentCount, values) := collectValues key objects
  let required :=
    if objects.length ≥ minSamplesForRequired ∧ presentCount = objects.length then
      acc.2 ++ [key]
    else acc.2
  (acc.1.insert key (infer values), required)

/-- `infer_object`: a schema for each key, and the keys that all objects have. -/
def inferObject (infer : List Value → Value) (objects : List Value) : Value :=
  let (properties, required) :=
    (collectKeys objects).foldl (inferProperty infer objects) (.empty, [])
  let schema := Value.ofFields
    [("type", .string "object"), ("properties", .object properties.entries)]
  if required.isEmpty then schema
  else schema.setField "required" (.array (required.map .string))

/-- `infer_array`: one schema for the elements of all arrays. -/
def inferArray (infer : List Value → Value) (arrays : List Value) : Value :=
  let elements := arrays.foldl (fun elements arr =>
    match arr.asArray with
    | some items => elements ++ items
    | none => elements) []
  Value.ofFields [("type", .string "array"), ("items", infer elements)]

/-- The types of values that are neither null nor have parts. -/
inductive PrimitiveType where
  | string
  | boolean
  | integer
  | number
  deriving DecidableEq

/-- The primitive type of one value; null, arrays and objects have none. -/
def primitiveType : Value → Option PrimitiveType
  | .string _ => some .string
  | .bool _ => some .boolean
  | .number n => if n.isI64 || n.isU64 then some .integer else some .number
  | _ => none

/-- The loop of `common_primitive_type` from a given `kind`: integer and number
widen to number, any other disagreement gives up. -/
def commonPrimitiveTypeFrom (kind : Option PrimitiveType) : List Value → Option PrimitiveType
  | [] => kind
  | v :: vs =>
    match primitiveType v with
    | none => none
    | some this =>
      match kind with
      | none => commonPrimitiveTypeFrom (some this) vs
      | some existing =>
        if existing = .integer ∧ this = .number then
          commonPrimitiveTypeFrom (some .number) vs
        else if existing = .number ∧ this = .integer then
          commonPrimitiveTypeFrom (some existing) vs
        else if existing = this then commonPrimitiveTypeFrom (some existing) vs
        else none

/-- `common_primitive_type`. -/
def commonPrimitiveType (values : List Value) : Option PrimitiveType :=
  commonPrimitiveTypeFrom none values

/-- The loop of `add_examples`: distinct values until there are enough. -/
def collectExamples (examples : List Value) : List Value → List Value
  | [] => examples
  | v :: vs =>
    let examples := if examples.any (·.beq v) then examples else examples ++ [v]
    if examples.length ≥ maxExamples then examples else collectExamples examples vs

/-- `add_examples`. -/
def addExamples (schema : Value) (values : List Value) : Value :=
  let examples := collectExamples [] values
  if examples.isEmpty then schema else schema.setField "examples" (.array examples)

/-- The name of a type in a schema. -/
def PrimitiveType.typeName : PrimitiveType → String
  | string => "string"
  | boolean => "boolean"
  | integer => "integer"
  | number => "number"

/-- `infer_primitive`. -/
def inferPrimitive (values : List Value) (kind : PrimitiveType) : Value :=
  addExamples (Value.ofFields [("type", .string kind.typeName)]) values

/-- Whether a `type` entry is the string `"null"`. -/
def isNullName (t : Value) : Bool := t.beq (.string "null")

/-- Widen `type` by `"null"`. A schema without `type` gets `["null"]`. -/
def makeNullable (schema : Value) : Value :=
  match schema.get "type" with
  | some existing =>
    let types := match existing with
      | .string s => [.string s, .string "null"]
      | .array arr => if arr.any isNullName then arr else arr ++ [.string "null"]
      | other => [other, .string "null"]
    schema.setField "type" (.array types)
  | none => schema.setField "type" (.array [.string "null"])

/-- The body of `infer_schema`, with the recursive call as an argument. -/
def inferBody (infer : List Value → Value) (samples : List Value) : Value :=
  let nullable := samples.any Value.isNull
  let nonNull := samples.filter fun v => !v.isNull
  if nonNull.isEmpty then Value.ofFields [("type", .string "null")]
  else
    let schema :=
      if nonNull.all Value.isObject then inferObject infer nonNull
      else if nonNull.all Value.isArray then inferArray infer nonNull
      else match commonPrimitiveType nonNull with
        | some kind => inferPrimitive nonNull kind
        | none => addExamples (Value.ofFields []) nonNull
    if nullable then makeNullable schema else schema

/-- `infer_schema` cut off at a recursion depth. -/
def inferSchemaFuel : Nat → List Value → Value
  | 0, _ => .null
  | fuel + 1, samples => inferBody (inferSchemaFuel fuel) samples

/-- Infer a schema for every value in `samples`. -/
def inferSchema (samples : List Value) : Value :=
  inferSchemaFuel (Value.depthList samples + 1) samples

/-! ## What the loops collect -/

/-- Keys are collected from both sides. -/
theorem mem_foldl_pushKey {keys seen : List String} {k : String} :
    k ∈ keys.foldl pushKey seen ↔ k ∈ seen ∨ k ∈ keys := by
  induction keys generalizing seen with
  | nil => simp
  | cons key keys ih =>
    rw [List.foldl_cons, ih, pushKey]
    by_cases h : key ∈ seen
    · rw [if_pos h, List.mem_cons]
      constructor
      · exact Or.imp_right Or.inr
      · rintro (hk | rfl | hk)
        · exact Or.inl hk
        · exact Or.inl h
        · exact Or.inr hk
    · simp [h, or_assoc]

/-- Keys are collected once. -/
theorem nodup_foldl_pushKey {keys seen : List String} (h : seen.Nodup) :
    (keys.foldl pushKey seen).Nodup := by
  induction keys generalizing seen with
  | nil => exact h
  | cons key keys ih =>
    rw [List.foldl_cons]
    apply ih
    unfold pushKey
    split_ifs with hk
    · exact h
    · rw [← List.concat_eq_append]
      exact List.Nodup.concat hk h

/-- The keys of one value, none for a value that is not an object. -/
def Value.keys (v : Value) : List String := (v.asObject.getD []).map Prod.fst

/-- The keys of a value are those that can be read. -/
theorem Value.mem_keys_iff {v : Value} {k : String} : k ∈ v.keys ↔ v.get k ≠ none := by
  cases v <;> simp [keys, get, asObject, SortedMap.get_ne_none_iff]

/-- Keys of several objects are collected from one object after the other. -/
theorem collectKeys_eq_foldl (objects : List Value) :
    collectKeys objects = (objects.flatMap Value.keys).foldl pushKey [] := by
  have step : ∀ (keys : List String) (obj : Value),
      (match obj.asObject with
        | some map => (map.map Prod.fst).foldl pushKey keys
        | none => keys) = obj.keys.foldl pushKey keys := by
    intro keys obj
    cases h : obj.asObject <;> simp [Value.keys, h]
  rw [List.foldl_flatMap, collectKeys]
  simp only [step]

/-- The collected keys are those of any object. -/
theorem mem_collectKeys {objects : List Value} {k : String} :
    k ∈ collectKeys objects ↔ ∃ obj ∈ objects, obj.get k ≠ none := by
  rw [collectKeys_eq_foldl, mem_foldl_pushKey]
  simp only [List.not_mem_nil, false_or, List.mem_flatMap, Value.mem_keys_iff]

/-- No key is collected twice. -/
theorem nodup_collectKeys (objects : List Value) : (collectKeys objects).Nodup := by
  rw [collectKeys_eq_foldl]
  exact nodup_foldl_pushKey List.nodup_nil

/-- The values of a key and their number. -/
theorem collectValues_eq (key : String) (objects : List Value) :
    collectValues key objects =
      ((objects.filterMap (·.get key)).length, objects.filterMap (·.get key)) := by
  suffices h : ∀ acc : Nat × List Value,
      objects.foldl (fun (acc : Nat × List Value) obj =>
        match obj.get key with
        | some v => (acc.1 + 1, acc.2 ++ [v])
        | none => acc) acc =
      (acc.1 + (objects.filterMap (·.get key)).length,
        acc.2 ++ objects.filterMap (·.get key)) by
    rw [collectValues, h, Nat.zero_add, List.nil_append]
  induction objects with
  | nil => simp
  | cons obj objects ih =>
    intro acc
    rw [List.foldl_cons, ih]
    cases hv : obj.get key with
    | none => simp [hv]
    | some v => simp [hv, Nat.add_assoc, Nat.add_comm 1]

/-- The elements of one value, none for a value that is not an array. -/
def Value.elements (v : Value) : List Value := v.asArray.getD []

/-- Elements are gathered in the order of the arrays. -/
theorem foldl_elements (arrays acc : List Value) :
    arrays.foldl (fun elements arr =>
      match arr.asArray with
      | some items => elements ++ items
      | none => elements) acc = acc ++ arrays.flatMap Value.elements := by
  induction arrays generalizing acc with
  | nil => simp
  | cons arr arrays ih =>
    rw [List.foldl_cons, ih, List.flatMap_cons]
    cases h : arr.asArray <;> simp [Value.elements, h]

/-- The schema of arrays, from the elements of all of them. -/
theorem inferArray_eq (infer : List Value → Value) (arrays : List Value) :
    inferArray infer arrays = Value.ofFields
      [("type", .string "array"), ("items", infer (arrays.flatMap Value.elements))] := by
  rw [inferArray, foldl_elements, List.nil_append]

/-- A key is required when there are enough objects and all of them carry it. -/
def isRequiredKey (objects : List Value) (key : String) : Prop :=
  minSamplesForRequired ≤ objects.length ∧
    (objects.filterMap (·.get key)).length = objects.length

instance (objects : List Value) : DecidablePred (isRequiredKey objects) :=
  fun _ => inferInstanceAs (Decidable (_ ∧ _))

/-- The property map of an inferred object schema. -/
def inferProperties (infer : List Value → Value) (objects : List Value) :
    BTreeMap String Value :=
  (collectKeys objects).foldl
    (fun m key => m.insert key (infer (objects.filterMap (·.get key)))) .empty

/-- The loop over the keys fills `properties` and `required`. -/
theorem foldl_inferProperty (infer : List Value → Value) (objects : List Value)
    (keys : List String) (acc : BTreeMap String Value × List String) :
    keys.foldl (inferProperty infer objects) acc =
      (keys.foldl (fun m key => m.insert key (infer (objects.filterMap (·.get key)))) acc.1,
        acc.2 ++ keys.filter (isRequiredKey objects ·)) := by
  induction keys generalizing acc with
  | nil => simp
  | cons key keys ih =>
    rw [List.foldl_cons, ih, List.foldl_cons, inferProperty, collectValues_eq]
    rw [List.filter_cons]
    by_cases h : isRequiredKey objects key
    · rw [if_pos (decide_eq_true h)]
      simp only [isRequiredKey] at h
      simp only [ge_iff_le, h, and_self, if_true, List.append_assoc, List.singleton_append]
    · rw [if_neg (by simpa using h)]
      simp only [isRequiredKey] at h
      simp only [ge_iff_le, h, if_false]

/-- The two loops over the keys give the property map and the required keys. -/
theorem inferObject_eq (infer : List Value → Value) (objects : List Value) :
    inferObject infer objects =
      let required := (collectKeys objects).filter (isRequiredKey objects ·)
      let schema := Value.ofFields [("type", .string "object"),
        ("properties", .object (inferProperties infer objects).entries)]
      if required.isEmpty then schema
      else schema.setField "required" (.array (required.map .string)) := by
  rw [inferObject, foldl_inferProperty]
  rfl

/-- Every key of an object has its property, inferred from the values of that key. -/
theorem get_inferProperties (infer : List Value → Value) (objects : List Value) (k : String) :
    (inferProperties infer objects).get k =
      if k ∈ collectKeys objects then some (infer (objects.filterMap (·.get k))) else none := by
  suffices h : ∀ (keys : List String) (m : BTreeMap String Value),
      (keys.foldl (fun m key => m.insert key (infer (objects.filterMap (·.get key)))) m).get k =
        if k ∈ keys then some (infer (objects.filterMap (·.get k))) else m.get k by
    rw [inferProperties, h, BTreeMap.get_empty]
  intro keys
  induction keys with
  | nil => simp
  | cons key keys ih =>
    intro m
    rw [List.foldl_cons, ih, BTreeMap.get_insert]
    by_cases hk : k ∈ keys
    · simp [hk]
    · by_cases he : k = key <;> simp [hk, he]

/-! ## The common primitive type -/

/-- A primitive type is covered by itself, and integers are numbers. -/
def PrimitiveType.WidensTo (p k : PrimitiveType) : Prop := p = k ∨ p = .integer ∧ k = .number

/-- A value has a primitive type covered by `k`. -/
def HasPrimitive (k : PrimitiveType) (v : Value) : Prop :=
  ∃ p, primitiveType v = some p ∧ p.WidensTo k

/-- From a given kind, the loop finds the least type that covers the kind and every value. -/
theorem commonPrimitiveTypeFrom_some_iff {e k : PrimitiveType} {vs : List Value} :
    commonPrimitiveTypeFrom (some e) vs = some k ↔
      e.WidensTo k ∧ (∀ v ∈ vs, HasPrimitive k v) ∧
        (e = k ∨ ∃ v ∈ vs, primitiveType v = some k) := by
  induction vs generalizing e with
  | nil =>
    simp only [commonPrimitiveTypeFrom, Option.some.injEq, PrimitiveType.WidensTo]
    constructor
    · rintro rfl
      exact ⟨Or.inl rfl, fun v hv => absurd hv List.not_mem_nil, Or.inl rfl⟩
    · rintro ⟨-, -, h | ⟨v, hv, -⟩⟩
      · exact h
      · exact absurd hv List.not_mem_nil
  | cons v vs ih =>
    rw [List.forall_mem_cons, List.exists_mem_cons_iff]
    cases hp : primitiveType v with
    | none => simp [commonPrimitiveTypeFrom, HasPrimitive, hp]
    | some this =>
      simp only [commonPrimitiveTypeFrom, hp, HasPrimitive, Option.some.injEq, exists_eq_left']
      cases e <;> cases this <;> cases k <;>
        simp [ih, PrimitiveType.WidensTo, HasPrimitive]

/-- The common primitive type is the least one that covers every value. -/
theorem commonPrimitiveType_some_iff {k : PrimitiveType} {vs : List Value} :
    commonPrimitiveType vs = some k ↔
      (∀ v ∈ vs, HasPrimitive k v) ∧ ∃ v ∈ vs, primitiveType v = some k := by
  cases vs with
  | nil => simp [commonPrimitiveType, commonPrimitiveTypeFrom]
  | cons v vs =>
    rw [commonPrimitiveType, List.forall_mem_cons, List.exists_mem_cons_iff]
    cases hp : primitiveType v with
    | none => simp [commonPrimitiveTypeFrom, HasPrimitive, hp]
    | some p =>
      simp only [commonPrimitiveTypeFrom, hp, commonPrimitiveTypeFrom_some_iff, HasPrimitive,
        Option.some.injEq, exists_eq_left', and_assoc]

end Cyanotype
