import Cyanotype.Core.JsonSchema

/-!
# Well-formed objects and schemas

A format says of each object which members it may have, with which values, and which
it must have. Objects are written member by member, so one rule for each way of writing
is enough. A JSON schema is well-formed when its keywords have the values that the
vocabulary prescribes, at every place that is read as a schema.
-/

namespace Cyanotype

open SortedMap (get)

/-! ## Objects -/

/-- An object with the members `required`, all of whose members `P` allows. -/
structure ObjectOf (required : List String) (P : String → Value → Prop) (v : Value) : Prop where
  isObject : v.isObject = true
  members : ∀ k x, v.get k = some x → P k x
  present : ∀ k ∈ required, v.get k ≠ none

/-- An array of values that satisfy `P`. -/
def ArrayOf (P : Value → Prop) (v : Value) : Prop := ∃ xs, v = .array xs ∧ ∀ x ∈ xs, P x

/-- A string of any text. -/
def IsString (v : Value) : Prop := ∃ s, v = .string s

/-- One of the two truth values. -/
def IsBool (v : Value) : Prop := ∃ b, v = .bool b

/-- The field is listed, and the value is one for it. -/
def FieldOf (fields : List (String × (Value → Prop))) (k : String) (x : Value) : Prop :=
  ∃ P, get fields k = some P ∧ P x

/-- The value of a listed field is one that the list asks for. -/
theorem fieldOf_iff {fields : List (String × (Value → Prop))} {k : String} {P : Value → Prop}
    (h : get fields k = some P) {x : Value} : FieldOf fields k x ↔ P x := by
  simp [FieldOf, h]

namespace ObjectOf

variable {required : List String} {P : String → Value → Prop} {v : Value} {k : String} {x : Value}

/-- Members written at once. -/
theorem ofFields {fields : List (String × Value)} (hnodup : (fields.map Prod.fst).Nodup)
    (hmembers : ∀ e ∈ fields, P e.1 e.2) (hpresent : required ⊆ fields.map Prod.fst) :
    ObjectOf required P (.ofFields fields) where
  isObject := Value.isObject_ofFields fields
  members := fun k x hget => by
    rw [Value.get_ofFields hnodup] at hget
    exact hmembers (k, x) (SortedMap.mem_of_get hget)
  present := fun k hk => by
    rw [Value.get_ofFields hnodup]
    exact SortedMap.get_ne_none_iff.mpr (hpresent hk)

/-- A member assigned afterwards. -/
theorem setField (h : ObjectOf required P v) (hx : P k x) :
    ObjectOf required P (v.setField k x) where
  isObject := Value.isObject_setField v k x h.isObject
  members := fun j y hget => by
    rw [Value.get_setField h.isObject] at hget
    split_ifs at hget with hj
    · obtain rfl := Option.some.inj hget
      exact hj ▸ hx
    · exact h.members j y hget
  present := fun j hj => by
    rw [Value.get_setField h.isObject]
    split_ifs
    · exact Option.some_ne_none x
    · exact h.present j hj

/-- A member that is left out under a condition. -/
theorem unless_setField (h : ObjectOf required P v) (c : Prop) [Decidable c]
    (hx : ¬ c → P k x) : ObjectOf required P (if c then v else v.setField k x) := by
  split_ifs with hc
  · exact h
  · exact h.setField (hx hc)

/-- The entries of a map. -/
theorem of_map {m : BTreeMap String Value} (hmembers : ∀ k x, m.get k = some x → P k x) :
    ObjectOf [] P (.object m.entries) :=
  ⟨rfl, hmembers, fun _ hk => absurd hk List.not_mem_nil⟩

end ObjectOf

namespace JsonSchema

/-! ## Schemas -/

/-- The type names of JSON Schema. -/
def typeNames : List String :=
  ["null", "boolean", "object", "array", "number", "string", "integer"]

/-- A type name, or a list of distinct ones that is not empty. -/
def IsType (v : Value) : Prop :=
  (∃ name ∈ typeNames, v = .string name) ∨
    ∃ names : List String, v = .array (names.map .string) ∧ names ≠ [] ∧ names.Nodup ∧
      names ⊆ typeNames

/-- A list of distinct names. -/
def IsNames (v : Value) : Prop :=
  ∃ names : List String, v = .array (names.map .string) ∧ names.Nodup

/-- What the values of the keywords look like. Schemas among them are looked at by `IsSchema`. -/
def keywords : List (String × (Value → Prop)) :=
  [("type", IsType), ("required", IsNames), ("minimum", fun v => ∃ n, v = .number n),
    ("minLength", fun v => ∃ n, v = .ofNat n), ("maxLength", fun v => ∃ n, v = .ofNat n),
    ("properties", fun v => v.isObject = true), ("allOf", fun v => ∃ ss, v = .array ss ∧ ss ≠ []),
    ("examples", fun v => v.isArray = true), ("$ref", IsString)]

/-- A schema of JSON Schema 2020-12. Other keywords than those of the vocabulary are
annotations of any form. -/
inductive IsSchema : Value → Prop
  | bool (b : Bool) : IsSchema (.bool b)
  | object {m : List (String × Value)}
      (keywords : ∀ k x P, get m k = some x → get keywords k = some P → P x)
      (properties : ∀ ps k s, get m "properties" = some (.object ps) → get ps k = some s →
        IsSchema s)
      (items : ∀ s, get m "items" = some s → IsSchema s)
      (allOf : ∀ ss s, get m "allOf" = some (.array ss) → s ∈ ss → IsSchema s) :
      IsSchema (.object m)

/-- A fragment is a schema when its parts are. -/
theorem isSchema_render {f : Fragment} (htype : ∀ t ∈ f.type, IsType t)
    (hrequired : f.required.Nodup)
    (hproperties : ∀ ps ∈ f.properties, ∀ k s, get ps k = some s → IsSchema s)
    (hitems : ∀ s ∈ f.items, IsSchema s) : IsSchema f.render := by
  have hget : ∀ k, get f.entries k = f.render.get k := fun _ => rfl
  refine .object (fun k x P hx hP => ?_) (fun ps k s hps hs => ?_) (fun s hs => ?_)
    (fun ss s hss _ => ?_)
  · rw [hget, Fragment.get_render] at hx
    split_ifs at hx with hexamples _ hitem hproperty hrequired' _ ht
    · subst hexamples
      obtain rfl := Option.some.inj hx
      obtain rfl := Option.some.inj hP
      rfl
    · subst hitem
      simp [keywords, SortedMap.get_cons] at hP
    · subst hproperty
      obtain ⟨ps, -, rfl⟩ := Option.map_eq_some_iff.mp hx
      obtain rfl := Option.some.inj hP
      rfl
    · subst hrequired'
      obtain rfl := Option.some.inj hx
      obtain rfl := Option.some.inj hP
      exact ⟨f.required, rfl, hrequired⟩
    · subst ht
      obtain rfl := Option.some.inj hP
      exact htype x hx
  · rw [hget, Fragment.get_render] at hps
    exact hproperties ps (by simpa using hps) k s hs
  · rw [hget, Fragment.get_render] at hs
    exact hitems s (by simpa using hs)
  · rw [hget, Fragment.get_render] at hss
    simp at hss

end JsonSchema

end Cyanotype
