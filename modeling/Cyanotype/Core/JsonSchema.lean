import Cyanotype.Core.Json

/-!
# JSON Schema 2020-12

A schema is itself a JSON value. `Validates` gives the meaning of the keywords
used by inferred and generated schemas (`type`, `properties`, `required`,
`items`, `minimum`, `minLength`, `maxLength`, `allOf`, `$ref`); every other
keyword is an annotation and constrains nothing. `$ref` texts are read through
a parameter, so the same relation serves any document. `schemaObjects` lists the
places of a value that are read as schemas, as opposed to data such as
`examples` or a property that happens to be named like a keyword.
-/

namespace Cyanotype.JsonSchema

open SortedMap (get)

/-! ## Types -/

/-- A value is of a named type. `integer` accepts every whole number and
`number` every number. -/
def hasType (name : String) : Value → Bool
  | .null => name == "null"
  | .bool _ => name == "boolean"
  | .number n => name == "number" || (name == "integer" && n.isWhole)
  | .string _ => name == "string"
  | .array _ => name == "array"
  | .object _ => name == "object"

/-- The `type` keyword holds one type name or a list of alternatives. -/
def typeAdmits (type v : Value) : Bool :=
  match type with
  | .string name => hasType name v
  | .array names => names.any fun
    | .string name => hasType name v
    | _ => false
  | _ => false

/-! ## Validation -/

/-- The keywords of a schema object that look at the value alone. -/
structure Asserts (m : List (String × Value)) (v : Value) : Prop where
  type : ∀ t, get m "type" = some t → typeAdmits t v = true
  required : ∀ names k, get m "required" = some (.array names) → .string k ∈ names →
    v.isObject = true → v.get k ≠ none
  minimum : ∀ limit n, get m "minimum" = some (.number limit) → v = .number n →
    limit.toRat ≤ n.toRat
  minLength : ∀ n s, get m "minLength" = some (.number (.posInt n)) → v = .string s →
    n ≤ s.length
  maxLength : ∀ n s, get m "maxLength" = some (.number (.posInt n)) → v = .string s →
    s.length ≤ n

/-- A value validates against a schema whose references are read by `resolve`. -/
inductive Validates (resolve : String → Option Value) : Value → Value → Prop
  | any (v : Value) : Validates resolve (.bool true) v
  | object (m : List (String × Value)) (v : Value) (asserts : Asserts m v)
      (properties : ∀ ps k s x, get m "properties" = some (.object ps) → get ps k = some s →
        v.get k = some x → Validates resolve s x)
      (items : ∀ s xs x, get m "items" = some s → v = .array xs → x ∈ xs →
        Validates resolve s x)
      (allOf : ∀ ss s, get m "allOf" = some (.array ss) → s ∈ ss → Validates resolve s v)
      (refDefined : ∀ r, get m "$ref" = some (.string r) → resolve r ≠ none)
      (ref : ∀ r s, get m "$ref" = some (.string r) → resolve r = some s →
        Validates resolve s v) : Validates resolve (.object m) v

variable {resolve : String → Option Value}

/-- Validation against a schema object is the conjunction of its keywords. -/
theorem validates_object_iff {m : List (String × Value)} {v : Value} :
    Validates resolve (.object m) v ↔ Asserts m v ∧
      (∀ ps k s x, get m "properties" = some (.object ps) → get ps k = some s →
        v.get k = some x → Validates resolve s x) ∧
      (∀ s xs x, get m "items" = some s → v = .array xs → x ∈ xs → Validates resolve s x) ∧
      (∀ ss s, get m "allOf" = some (.array ss) → s ∈ ss → Validates resolve s v) ∧
      ∀ r, get m "$ref" = some (.string r) → ∃ s, resolve r = some s ∧ Validates resolve s v := by
  constructor
  · intro h
    cases h with
    | object _ _ asserts properties items allOf refDefined ref =>
      refine ⟨asserts, properties, items, allOf, fun r hr => ?_⟩
      obtain ⟨s, hs⟩ := Option.ne_none_iff_exists'.mp (refDefined r hr)
      exact ⟨s, hs, ref r s hr hs⟩
  · rintro ⟨asserts, properties, items, allOf, ref⟩
    refine .object m v asserts properties items allOf (fun r hr => ?_) (fun r s hr hs => ?_)
    · obtain ⟨s, hs, _⟩ := ref r hr
      simp [hs]
    · obtain ⟨s', hs', hv⟩ := ref r hr
      obtain rfl := Option.some.inj (hs.symm.trans hs')
      exact hv

/-- The keywords that can reject a value. -/
def assertions : List String :=
  ["type", "required", "minimum", "minLength", "maxLength", "properties", "items", "allOf", "$ref"]

private theorem Asserts.congr {m n : List (String × Value)} {v : Value} (hm : Asserts m v)
    (h : ∀ k ∈ assertions, get n k = get m k) : Asserts n v where
  type := by
    rw [h "type" (by decide)]
    exact hm.type
  required := by
    rw [h "required" (by decide)]
    exact hm.required
  minimum := by
    rw [h "minimum" (by decide)]
    exact hm.minimum
  minLength := by
    rw [h "minLength" (by decide)]
    exact hm.minLength
  maxLength := by
    rw [h "maxLength" (by decide)]
    exact hm.maxLength

/-- Schema objects that differ in annotations only admit the same values. -/
theorem validates_congr {m n : List (String × Value)}
    (h : ∀ k ∈ assertions, get m k = get n k) {v : Value} :
    Validates resolve (.object m) v ↔ Validates resolve (.object n) v := by
  have hasserts : Asserts m v ↔ Asserts n v :=
    ⟨fun hm => hm.congr fun k hk => (h k hk).symm, fun hn => hn.congr h⟩
  rw [validates_object_iff, validates_object_iff, hasserts, h "properties" (by decide),
    h "items" (by decide), h "allOf" (by decide), h "$ref" (by decide)]

/-- A schema object without applicators only asserts. -/
theorem validates_of_asserts {m : List (String × Value)} {v : Value} (h : Asserts m v)
    (hp : get m "properties" = none) (hi : get m "items" = none) (ha : get m "allOf" = none)
    (hr : get m "$ref" = none) : Validates resolve (.object m) v := by
  refine validates_object_iff.mpr ⟨h, ?_, ?_, ?_, ?_⟩ <;> simp [hp, hi, ha, hr]

/-- A violated `type` rejects the value whatever the other keywords say. -/
theorem Validates.typeAdmits {m : List (String × Value)} {v t : Value}
    (h : Validates resolve (.object m) v) (ht : get m "type" = some t) :
    typeAdmits t v = true := (validates_object_iff.mp h).1.type t ht

/-! ## Single keywords -/

/-- A schema that has only a `type` asks for the type. -/
theorem validates_type_iff {name : String} {v : Value} :
    Validates resolve (.object [("type", .string name)]) v ↔ hasType name v = true := by
  constructor
  · exact fun h => h.typeAdmits rfl
  · intro h
    refine validates_of_asserts ⟨?_, ?_, ?_, ?_, ?_⟩ rfl rfl rfl rfl
    · intro t ht
      obtain rfl := Option.some.inj ht
      exact h
    all_goals simp [SortedMap.get_cons]

/-- A schema that has only an `allOf` asks for all its parts. -/
theorem validates_allOf_iff {ss : List Value} {v : Value} :
    Validates resolve (.object [("allOf", .array ss)]) v ↔ ∀ s ∈ ss, Validates resolve s v := by
  constructor
  · exact fun h s hs => (validates_object_iff.mp h).2.2.2.1 ss s rfl hs
  · intro h
    refine validates_object_iff.mpr ⟨⟨?_, ?_, ?_, ?_, ?_⟩, ?_, ?_, ?_, ?_⟩
    case refine_8 =>
      intro ss' s hss hs
      obtain rfl := Value.array.inj (Option.some.inj hss)
      exact h s hs
    all_goals simp [SortedMap.get_cons]

/-- A schema that is a reference asks for what it refers to. -/
theorem validates_ref_iff {r : String} {v : Value} :
    Validates resolve (.object [("$ref", .string r)]) v ↔
      ∃ s, resolve r = some s ∧ Validates resolve s v := by
  constructor
  · exact fun h => (validates_object_iff.mp h).2.2.2.2 r rfl
  · intro h
    refine validates_object_iff.mpr ⟨⟨?_, ?_, ?_, ?_, ?_⟩, ?_, ?_, ?_, ?_⟩
    case refine_9 =>
      intro r' hr
      obtain rfl := Value.string.inj (Option.some.inj hr)
      exact h
    all_goals simp [SortedMap.get_cons]

/-! ## Fragments -/

/-- The keywords an inferred schema can carry; an empty `required` or `examples`
stands for an absent keyword. -/
structure Fragment where
  type : Option Value := none
  properties : Option (List (String × Value)) := none
  required : List String := []
  items : Option Value := none
  examples : List Value := []

namespace Fragment

/-- The entries of a fragment in key order. -/
def entries (f : Fragment) : List (String × Value) :=
  (if f.examples.isEmpty then [] else [("examples", .array f.examples)]) ++
  ((f.items.toList.map fun s => ("items", s)) ++
  ((f.properties.toList.map fun ps => ("properties", .object ps)) ++
  ((if f.required.isEmpty then [] else [("required", .array (f.required.map .string))]) ++
  (f.type.toList.map fun t => ("type", t)))))

/-- The schema object with exactly the keywords of a fragment. -/
def render (f : Fragment) : Value := .object f.entries

private theorem get_optional (b : Bool) (k : String) (x : Value)
    (rest : List (String × Value)) (j : String) :
    get ((if b then [] else [(k, x)]) ++ rest) j =
      if j = k ∧ b = false then some x else get rest j := by
  cases b
  · by_cases h : j = k <;> simp [SortedMap.get_cons, h]
  · simp

private theorem get_toList {α : Type} (o : Option α) (k : String) (f : α → Value)
    (rest : List (String × Value)) (j : String) :
    get ((o.toList.map fun a => (k, f a)) ++ rest) j =
      if j = k ∧ o.isSome then o.map f else get rest j := by
  cases o
  · simp
  · by_cases h : j = k <;> simp [SortedMap.get_cons, h]

/-- Reading a rendered fragment gives back its keywords and nothing else. -/
theorem get_render (f : Fragment) (k : String) :
    f.render.get k =
      if k = "examples" then (if f.examples.isEmpty then none else some (.array f.examples))
      else if k = "items" then f.items
      else if k = "properties" then f.properties.map .object
      else if k = "required" then
        (if f.required.isEmpty then none else some (.array (f.required.map .string)))
      else if k = "type" then f.type
      else none := by
  have hlast : get (f.type.toList.map fun t => ("type", t)) k =
      if k = "type" then f.type else none := by
    cases f.type <;> simp [SortedMap.get_cons]
  rw [render, Value.get_object, entries, get_optional, get_toList, get_toList, get_optional, hlast]
  by_cases h₁ : k = "examples"
  · subst h₁
    cases f.examples.isEmpty <;> simp
  by_cases h₂ : k = "items"
  · subst h₂
    cases f.items <;> simp
  by_cases h₃ : k = "properties"
  · subst h₃
    cases f.properties <;> simp
  by_cases h₄ : k = "required"
  · subst h₄
    cases f.required.isEmpty <;> simp
  simp [h₁, h₂, h₃, h₄]

private theorem nodup_entries (f : Fragment) : (f.entries.map Prod.fst).Nodup := by
  have hsub : (f.entries.map Prod.fst).Sublist
      (["examples"] ++ (["items"] ++ (["properties"] ++ (["required"] ++ ["type"])))) := by
    simp only [entries, List.map_append, List.map_map]
    refine .append ?_ (.append ?_ (.append ?_ (.append ?_ ?_)))
    · split_ifs <;> simp
    · cases f.items <;> simp
    · cases f.properties <;> simp
    · split_ifs <;> simp
    · cases f.type <;> simp
  exact hsub.nodup (by decide)

/-- The entries of a fragment are its readings. -/
theorem mem_entries_iff {f : Fragment} {k : String} {x : Value} :
    (k, x) ∈ f.entries ↔ f.render.get k = some x :=
  (SortedMap.get_eq_some_iff_of_nodup f.nodup_entries).symm

/-- Validation against a rendered fragment, keyword by keyword. -/
theorem validates_render_iff {f : Fragment} {v : Value} :
    Validates resolve f.render v ↔
      (∀ t ∈ f.type, JsonSchema.typeAdmits t v = true) ∧
      (v.isObject = true → ∀ k ∈ f.required, v.get k ≠ none) ∧
      (∀ ps ∈ f.properties, ∀ k s x, get ps k = some s → v.get k = some x →
        Validates resolve s x) ∧
      (∀ s ∈ f.items, ∀ xs, v = .array xs → ∀ x ∈ xs, Validates resolve s x) := by
  have hget : ∀ k, get f.entries k = f.render.get k := fun _ => rfl
  rw [render, validates_object_iff]
  simp only [hget, get_render]
  constructor
  · rintro ⟨hasserts, hprops, hitems, -, -⟩
    refine ⟨fun t ht => hasserts.type t (by simpa [hget, get_render] using ht), ?_, ?_, ?_⟩
    · intro hobj k hk
      have hne : f.required ≠ [] := List.ne_nil_of_mem hk
      refine hasserts.required (f.required.map .string) k ?_
        (List.mem_map_of_mem hk) hobj
      simp [hget, get_render, hne]
    · exact fun ps hps k s x hs hx => hprops ps k s x (by simpa using hps) hs hx
    · exact fun s hs xs hv x hx => hitems s xs x (by simpa using hs) hv hx
  · rintro ⟨htype, hreq, hprops, hitems⟩
    refine ⟨⟨?_, ?_, ?_, ?_, ?_⟩, ?_, ?_, ?_, ?_⟩
    · intro t ht
      exact htype t (by simpa [hget, get_render] using ht)
    · intro names k hnames hk hobj
      rw [hget, get_render] at hnames
      by_cases he : f.required.isEmpty <;> simp [he] at hnames
      subst hnames
      obtain ⟨k', hk', heq⟩ := List.mem_map.mp hk
      obtain rfl := Value.string.inj heq
      exact hreq hobj k' hk'
    · intro limit n hlimit
      simp [hget, get_render] at hlimit
    · intro n s hlen
      simp [hget, get_render] at hlen
    · intro n s hlen
      simp [hget, get_render] at hlen
    · exact fun ps k s x hps hs hx => hprops ps (by simpa using hps) k s x hs hx
    · exact fun s xs x hs hv hx => hitems s (by simpa using hs) xs hv x hx
    · simp
    · simp

end Fragment

/-! ## Schema positions -/

/-- How a keyword's value is read. -/
inductive Role where
  /-- A schema. -/
  | schema
  /-- A list of schemas. -/
  | list
  /-- A map from names to schemas. -/
  | map
  /-- A schema, or the older list form. -/
  | either
  /-- Not a schema. -/
  | data

mutual

/-- The schema objects found in a value read in a given role, itself included. -/
def schemaObjects (vocabulary : String → Role) :
    Role → Value → List (List (String × Value))
  | .schema, .object m => m :: fieldObjects vocabulary m
  | .either, .object m => m :: fieldObjects vocabulary m
  | .either, .array xs => listObjects vocabulary xs
  | .list, .array xs => listObjects vocabulary xs
  | .map, .object m => mapObjects vocabulary m
  | _, _ => []

/-- The schema objects below the keywords of one schema object. -/
def fieldObjects (vocabulary : String → Role) :
    List (String × Value) → List (List (String × Value))
  | [] => []
  | (k, x) :: m => schemaObjects vocabulary (vocabulary k) x ++ fieldObjects vocabulary m

/-- The schema objects of a list of schemas. -/
def listObjects (vocabulary : String → Role) : List Value → List (List (String × Value))
  | [] => []
  | x :: xs => schemaObjects vocabulary .schema x ++ listObjects vocabulary xs

/-- The schema objects of a map of schemas. -/
def mapObjects (vocabulary : String → Role) :
    List (String × Value) → List (List (String × Value))
  | [] => []
  | (_, x) :: m => schemaObjects vocabulary .schema x ++ mapObjects vocabulary m

end

/-- Schema objects below the fields of an object are below one of them. -/
theorem mem_fieldObjects_iff {vocabulary : String → Role} {m o : List (String × Value)} :
    o ∈ fieldObjects vocabulary m ↔
      ∃ e ∈ m, o ∈ schemaObjects vocabulary (vocabulary e.1) e.2 := by
  induction m with
  | nil => simp [fieldObjects]
  | cons e m ih => simp [fieldObjects, ih]

/-- Schema objects below a map of schemas are below one of them. -/
theorem mem_mapObjects_iff {vocabulary : String → Role} {m o : List (String × Value)} :
    o ∈ mapObjects vocabulary m ↔ ∃ e ∈ m, o ∈ schemaObjects vocabulary .schema e.2 := by
  induction m with
  | nil => simp [mapObjects]
  | cons e m ih => simp [mapObjects, ih]

/-- The keywords of the full vocabulary that hold schemas. -/
def applicators (keyword : String) : Role :=
  if keyword ∈ ["properties", "patternProperties", "definitions", "$defs"] then .map
  else if keyword ∈ ["allOf", "anyOf", "oneOf", "prefixItems"] then .list
  else if keyword = "items" then .either
  else if keyword ∈ ["additionalProperties", "additionalItems", "not", "if", "then", "else",
      "contains", "propertyNames"] then .schema
  else .data

/-- Only the steps into members and elements. -/
def structural (keyword : String) : Role :=
  if keyword = "properties" then .map else if keyword = "items" then .either else .data

/-- The places of a rendered fragment: the fragment itself, its properties and its items. -/
theorem Fragment.forall_structural_iff {P : List (String × Value) → Prop} {f : Fragment} :
    (∀ o ∈ schemaObjects structural .schema f.render, P o) ↔
      P f.entries ∧
      (∀ ps ∈ f.properties, ∀ e ∈ ps, ∀ o ∈ schemaObjects structural .schema e.2, P o) ∧
      ∀ s ∈ f.items, ∀ o ∈ schemaObjects structural .either s, P o := by
  rw [Fragment.render, schemaObjects, List.forall_mem_cons]
  refine and_congr_right fun _ => ?_
  constructor
  · intro h
    refine ⟨fun ps hps e he o ho => h o (mem_fieldObjects_iff.mpr
      ⟨("properties", .object ps), ?_, mem_mapObjects_iff.mpr ⟨e, he, ho⟩⟩),
      fun s hs o ho => h o (mem_fieldObjects_iff.mpr ⟨("items", s), ?_, ho⟩)⟩
    · simp [Fragment.mem_entries_iff, Fragment.get_render, Option.mem_def.mp hps]
    · simp [Fragment.mem_entries_iff, Fragment.get_render, Option.mem_def.mp hs]
  · rintro ⟨hproperties, hitems⟩ o ho
    obtain ⟨⟨k, x⟩, he, ho⟩ := mem_fieldObjects_iff.mp ho
    rw [Fragment.mem_entries_iff] at he
    by_cases hp : k = "properties"
    · subst hp
      obtain ⟨ps, hps, rfl⟩ : ∃ ps, f.properties = some ps ∧ Value.object ps = x := by
        simpa [Fragment.get_render] using he
      obtain ⟨e, he, ho⟩ := mem_mapObjects_iff.mp ho
      exact hproperties ps hps e he o ho
    · by_cases hi : k = "items"
      · subst hi
        exact hitems x (by simpa [Fragment.get_render] using he) o ho
      · simp [structural, hp, hi, schemaObjects] at ho

/-! ## References -/

/-- The `$ref` texts of a schema, at every schema position. -/
def refs (schema : Value) : List String :=
  (schemaObjects applicators .schema schema).filterMap fun (m : List (String × Value)) =>
    match get m "$ref" with
    | some (.string r) => some r
    | _ => none

/-- A reference occurs in a schema or in a definition the schema's references lead to. -/
inductive Reaches (resolve : String → Option Value) (schema : Value) : String → Prop
  | here {r : String} (h : r ∈ refs schema) : Reaches resolve schema r
  | through {r r' : String} {s : Value} (h : Reaches resolve schema r) (hs : resolve r = some s)
      (hr : r' ∈ refs s) : Reaches resolve schema r'

/-- A reading that agrees with another on what both reach follows the same references. -/
theorem Reaches.congr {resolve resolve' : String → Option Value} {schema : Value} {r : String}
    (h : Reaches resolve schema r)
    (hagree : ∀ r s, Reaches resolve schema r → Reaches resolve' schema r →
      resolve r = some s → resolve' r = some s) :
    Reaches resolve' schema r := by
  induction h with
  | here hr => exact .here hr
  | through hr hs hr' ih => exact .through ih (hagree _ _ hr ih hs) hr'

end Cyanotype.JsonSchema
