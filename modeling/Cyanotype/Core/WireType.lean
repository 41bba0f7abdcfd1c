import Cyanotype.Core.JsonSchema
import Mathlib.Algebra.Order.Ring.Rat

/-!
# Wire types

Types built from primitives, options, sequences and named structs have two
readings: the values a derived deserializer accepts (`Fits`) and the schema
generated for the type (`Renders`), in which an option is its content with the
annotation `nullable`. Read as JSON Schema 2020-12, where that annotation means
nothing, the schema of a type admits an accepted value unless the value strays
from it: a null stands for an absent content, or a struct is written as an array.
-/

namespace Cyanotype.Wire

open SortedMap (get)
open JsonSchema (Validates validates_object_iff validates_congr validates_type_iff
  validates_allOf_iff validates_ref_iff hasType)

/-- A declared type. Structs are named, so a type can refer to itself. -/
inductive Ty where
  | unit
  | bool
  /-- An integer type, given by its least and its greatest number. -/
  | int (lo hi : Int)
  | float
  | char
  | string
  | option (t : Ty)
  | vec (t : Ty)
  | struct (name : String)
  deriving DecidableEq

namespace Ty

/-- The type is an `Option`. -/
def isOption : Ty → Bool
  | option _ => true
  | _ => false

/-- The unit type, possibly under options: null is its own value. -/
def isUnit : Ty → Bool
  | unit => true
  | option t => isUnit t
  | _ => false

end Ty

/-- The fields of every named struct. -/
abbrev Structs := String → List (String × Ty)

/-! ## Accepted values -/

/-- A deserializer for the type accepts the value. -/
inductive Fits (structs : Structs) : Ty → Value → Prop
  | unit : Fits structs .unit .null
  | bool (b : Bool) : Fits structs .bool (.bool b)
  | int {lo hi : Int} {n : Number} (integer : (n.isI64 || n.isU64) = true)
      (least : (lo : ℚ) ≤ n.toRat) (greatest : n.toRat ≤ hi) :
      Fits structs (.int lo hi) (.number n)
  /-- An integer beyond 64 bits is held as the nearest float. -/
  | wideInt {lo hi : Int} {x : F64} (whole : (Number.float x).isWhole = true)
      (least : (lo : ℚ) ≤ x.toRat) (wide : 2 ^ 64 ≤ hi) :
      Fits structs (.int lo hi) (.number (.float x))
  | float (n : Number) : Fits structs .float (.number n)
  | char {s : String} (single : s.length = 1) : Fits structs .char (.string s)
  | string (s : String) : Fits structs .string (.string s)
  | none (t : Ty) : Fits structs (.option t) .null
  | some {t : Ty} {v : Value} (content : Fits structs t v) : Fits structs (.option t) v
  | vec {t : Ty} {xs : List Value} (elements : ∀ x ∈ xs, Fits structs t x) :
      Fits structs (.vec t) (.array xs)
  /-- Members of other names are ignored. -/
  | object {name : String} {m : List (String × Value)}
      (present : ∀ f ∈ structs name, f.2.isOption = false → get m f.1 ≠ none)
      (members : ∀ f ∈ structs name, ∀ x, get m f.1 = some x → Fits structs f.2 x) :
      Fits structs (.struct name) (.object m)
  /-- A struct may also be written as the array of its fields. -/
  | positional {name : String} {xs : List Value} (length : xs.length = (structs name).length)
      (elements : ∀ e ∈ (structs name).zip xs, Fits structs e.1.2 e.2) :
      Fits structs (.struct name) (.array xs)

/-- Somewhere in the value a null stands at an option of other content than the
unit, or an array at a struct. -/
inductive Strays (structs : Structs) : Ty → Value → Prop
  | null {t : Ty} (h : t.isUnit = false) : Strays structs (.option t) .null
  | positional (name : String) (xs : List Value) : Strays structs (.struct name) (.array xs)
  | option {t : Ty} {v : Value} (h : Strays structs t v) : Strays structs (.option t) v
  | element {t : Ty} {xs : List Value} {x : Value} (hx : x ∈ xs) (h : Strays structs t x) :
      Strays structs (.vec t) (.array xs)
  | member {name : String} {m : List (String × Value)} {f : String × Ty} {x : Value}
      (hf : f ∈ structs name) (hx : get m f.1 = some x) (h : Strays structs f.2 x) :
      Strays structs (.struct name) (.object m)

/-! ## Generated schemas -/

/-- A schema object has the given keywords, and beside them only annotations. -/
def Carries (m fields : List (String × Value)) : Prop :=
  ∀ k ∈ JsonSchema.assertions, get m k = get fields k

/-- The lower bound of unsigned integers, as it is generated. -/
def zero : Number := .float ⟨false, 0, -1074, by decide⟩

theorem toRat_zero : zero.toRat = 0 := by
  simp only [zero, Number.toRat, F64.toRat, Int.reduceNeg, Int.reduceLE, if_false,
    Nat.cast_zero, Rat.zero_mkRat, Bool.false_eq_true]

/-- The schema object generated where the type is used. A struct is referred to
by its name, below an `allOf` when annotations stand beside the reference. -/
def Ty.Renders (refTo : String → String) : Ty → List (String × Value) → Prop
  | .unit, m => Carries m [("type", .string "null")]
  | .bool, m => Carries m [("type", .string "boolean")]
  | .int lo _, m => Carries m
      (("type", .string "integer") :: if lo = 0 then [("minimum", .number zero)] else [])
  | .float, m => Carries m [("type", .string "number")]
  | .char, m => Carries m
      [("type", .string "string"), ("minLength", .ofNat 1), ("maxLength", .ofNat 1)]
  | .string, m => Carries m [("type", .string "string")]
  | .option t, m => t.Renders refTo m ∧ get m "nullable" = some (.bool true)
  | .vec t, m => ∃ item, t.Renders refTo item ∧
      Carries m [("type", .string "array"), ("items", .object item)]
  | .struct name, m => Carries m [("$ref", .string (refTo name))] ∨
      ∃ r, Carries r [("$ref", .string (refTo name))] ∧ Carries m [("allOf", .array [.object r])]

/-- The schema object generated for the definition of a struct. -/
structure RendersStruct (refTo : String → String) (fields : List (String × Ty))
    (m : List (String × Value)) : Prop where
  type : get m "type" = some (.string "object")
  /-- Optional fields are not required. -/
  required : ∀ names k, get m "required" = some (.array names) → .string k ∈ names →
    ∃ f ∈ fields, f.1 = k ∧ f.2.isOption = false
  described : ∀ f ∈ fields, ∃ ps s, get m "properties" = some (.object ps) ∧
    get ps f.1 = some (.object s) ∧ f.2.Renders refTo s
  known : ∀ ps k s, get m "properties" = some (.object ps) → get ps k = some s →
    ∃ f ∈ fields, f.1 = k ∧ ∃ o, s = .object o ∧ f.2.Renders refTo o
  rest : ∀ k ∈ ["minimum", "minLength", "maxLength", "items", "allOf", "$ref"], get m k = none

/-- A struct that the schema of a type refers to, directly or from a definition. -/
inductive Uses (structs : Structs) : Ty → String → Prop
  | struct (name : String) : Uses structs (.struct name) name
  | option {t : Ty} {name : String} (h : Uses structs t name) : Uses structs (.option t) name
  | vec {t : Ty} {name : String} (h : Uses structs t name) : Uses structs (.vec t) name
  | field {holder name : String} {f : String × Ty} (hf : f ∈ structs holder)
      (h : Uses structs f.2 name) : Uses structs (.struct holder) name

/-! ## Schemas against values -/

section

variable {refTo : String → String} {structs : Structs} {resolve : String → Option Value}
  {m : List (String × Value)} {v : Value} {name : String}

/-- A reference to the struct resolves to its definition. -/
def Defined (refTo : String → String) (structs : Structs) (resolve : String → Option Value)
    (name : String) : Prop :=
  ∃ o, resolve (refTo name) = some (.object o) ∧ RendersStruct refTo (structs name) o

/-- A schema object that carries some keywords asks for what these ask for. -/
theorem Carries.validates_iff {fields : List (String × Value)} (h : Carries m fields) :
    Validates resolve (.object m) v ↔ Validates resolve (.object fields) v := validates_congr h

theorem Carries.type {rest : List (String × Value)}
    (h : Carries m (("type", .string name) :: rest)) : get m "type" = some (.string name) := by
  rw [h "type" (by decide), SortedMap.get_cons_self]

/-- A value that validates has the type that is named. -/
theorem hasType_of_validates (h : Validates resolve (.object m) v)
    (ht : get m "type" = some (.string name)) : hasType name v = true := h.typeAdmits ht

/-- The schema of a use of a struct has the meaning of the struct's definition. -/
theorem validates_struct_iff {o : List (String × Value)} (h : (Ty.struct name).Renders refTo m)
    (ho : resolve (refTo name) = some (.object o)) :
    Validates resolve (.object m) v ↔ Validates resolve (.object o) v := by
  have href : ∀ r, Carries r [("$ref", .string (refTo name))] →
      (Validates resolve (.object r) v ↔ Validates resolve (.object o) v) := by
    intro r hr
    rw [hr.validates_iff, validates_ref_iff, ho]
    simp
  rcases h with h | ⟨r, hr, h⟩
  · exact href m h
  · rw [h.validates_iff, validates_allOf_iff, List.forall_mem_singleton, href r hr]

namespace RendersStruct

variable {fields : List (String × Ty)} {o : List (String × Value)}

/-- A struct's definition admits objects only. -/
theorem isObject (h : RendersStruct refTo fields o) (hv : Validates resolve (.object o) v) :
    v.isObject = true := by
  have htype := hasType_of_validates hv h.type
  cases v with
  | object m => rfl
  | _ => simp [hasType] at htype

/-- The members of an object that a struct's definition admits have the fields' types. -/
theorem member (h : RendersStruct refTo fields o) (hv : Validates resolve (.object o) v)
    {f : String × Ty} (hf : f ∈ fields) {x : Value} (hx : v.get f.1 = some x) :
    ∃ s, f.2.Renders refTo s ∧ Validates resolve (.object s) x := by
  obtain ⟨ps, s, hps, hs, hrenders⟩ := h.described f hf
  exact ⟨s, hrenders, (validates_object_iff.mp hv).2.1 ps f.1 (.object s) x hps hs hx⟩

/-- An object with the required fields, whose members are admitted, is admitted. -/
theorem validates (h : RendersStruct refTo fields o)
    (present : ∀ f ∈ fields, f.2.isOption = false → get m f.1 ≠ none)
    (members : ∀ f ∈ fields, ∀ s x, f.2.Renders refTo s → get m f.1 = some x →
      Validates resolve (.object s) x) : Validates resolve (.object o) (.object m) := by
  have hrest := h.rest
  simp only [List.forall_mem_cons] at hrest
  obtain ⟨hminimum, hminLength, hmaxLength, hitems, hallOf, href, -⟩ := hrest
  refine validates_object_iff.mpr ⟨⟨?_, ?_, ?_, ?_, ?_⟩, ?_, ?_, ?_, ?_⟩
  · intro t ht
    obtain rfl := Option.some.inj (h.type.symm.trans ht)
    rfl
  · intro names k hnames hk _
    obtain ⟨f, hf, rfl, hoption⟩ := h.required names k hnames hk
    exact present f hf hoption
  · simp [hminimum]
  · simp [hminLength]
  · simp [hmaxLength]
  · intro ps k s x hps hs hx
    obtain ⟨f, hf, rfl, s', rfl, hrenders⟩ := h.known ps k s hps hs
    exact members f hf s' x hrenders hx
  · simp [hitems]
  · simp [hallOf]
  · simp [href]

end RendersStruct

/-- The schema of a type rejects null, unless it is the unit type. -/
theorem not_validates_null {t : Ty} (hunit : t.isUnit = false) (hrenders : t.Renders refTo m)
    (hdefined : ∀ name, Uses structs t name → Defined refTo structs resolve name) :
    ¬ Validates resolve (.object m) .null := by
  induction t with
  | unit => exact absurd hunit (by decide)
  | option t ih => exact ih hunit hrenders.1 fun name h => hdefined name (.option h)
  | struct name =>
    obtain ⟨o, ho, hdef⟩ := hdefined name (.struct name)
    rw [validates_struct_iff hrenders ho]
    exact fun h => absurd (hdef.isObject h) (by decide)
  | vec t ih =>
    obtain ⟨item, -, hcarries⟩ := hrenders
    exact fun h => absurd (hasType_of_validates h hcarries.type) (by decide)
  | bool => exact fun h => absurd (hasType_of_validates h (Carries.type hrenders)) (by decide)
  | int lo hi => exact fun h => absurd (hasType_of_validates h (Carries.type hrenders)) (by decide)
  | float => exact fun h => absurd (hasType_of_validates h (Carries.type hrenders)) (by decide)
  | char => exact fun h => absurd (hasType_of_validates h (Carries.type hrenders)) (by decide)
  | string => exact fun h => absurd (hasType_of_validates h (Carries.type hrenders)) (by decide)

/-- Null is admitted by the schema of a unit type, under any options. -/
theorem validates_null_of_isUnit {t : Ty} (hunit : t.isUnit = true)
    (hrenders : t.Renders refTo m) : Validates resolve (.object m) .null := by
  induction t with
  | unit => exact (Carries.validates_iff hrenders).mpr (validates_type_iff.mpr rfl)
  | option t ih => exact ih hunit hrenders.1
  | _ => exact absurd hunit (by simp [Ty.isUnit])

/-- The schema of a type rejects every value that strays from it. -/
theorem not_validates_of_strays {t : Ty} (hstrays : Strays structs t v)
    (hrenders : t.Renders refTo m)
    (hdefined : ∀ name, Uses structs t name → Defined refTo structs resolve name) :
    ¬ Validates resolve (.object m) v := by
  induction hstrays generalizing m with
  | null hunit =>
    exact not_validates_null hunit hrenders.1 fun name h => hdefined name (.option h)
  | positional name xs =>
    obtain ⟨o, ho, hdef⟩ := hdefined name (.struct name)
    rw [validates_struct_iff hrenders ho]
    exact fun h => absurd (hdef.isObject h) Bool.false_ne_true
  | option _ ih => exact ih hrenders.1 fun name h => hdefined name (.option h)
  | @element t xs x hx _ ih =>
    obtain ⟨item, hitem, hcarries⟩ := hrenders
    intro h
    refine ih hitem (fun name h => hdefined name (.vec h)) ?_
    exact (validates_object_iff.mp (hcarries.validates_iff.mp h)).2.2.1 _ xs x rfl rfl hx
  | @member name m' f x hf hx _ ih =>
    obtain ⟨o, ho, hdef⟩ := hdefined name (.struct name)
    rw [validates_struct_iff hrenders ho]
    intro h
    obtain ⟨s, hs, hvalid⟩ := hdef.member h hf hx
    exact ih hs (fun name h => hdefined name (.field hf h)) hvalid

/-- An integer from its type's range is admitted, an unsigned one against its bound. -/
theorem validates_int {lo hi : Int} {n : Number} (hrenders : (Ty.int lo hi).Renders refTo m)
    (hwhole : n.isWhole = true) (hleast : (lo : ℚ) ≤ n.toRat) :
    Validates resolve (.object m) (.number n) := by
  refine (Carries.validates_iff hrenders).mpr ?_
  have htype : hasType "integer" (.number n) = true := by simp [hasType, hwhole]
  by_cases hlo : lo = 0
  · subst hlo
    rw [if_pos rfl]
    refine JsonSchema.validates_of_asserts ⟨?_, ?_, ?_, ?_, ?_⟩ rfl rfl rfl rfl
    · intro t ht
      obtain rfl := Option.some.inj ht
      exact htype
    · simp [SortedMap.get_cons]
    · intro limit n' hlimit hn
      obtain rfl := Value.number.inj (Option.some.inj hlimit)
      obtain rfl := Value.number.inj hn
      calc zero.toRat = 0 := toRat_zero
        _ = ((0 : Int) : ℚ) := by simp
        _ ≤ n.toRat := hleast
    · simp [SortedMap.get_cons]
    · simp [SortedMap.get_cons]
  · rw [if_neg hlo]
    exact validates_type_iff.mpr htype

/-- A single character meets both length bounds. -/
theorem validates_char {s : String} (hrenders : Ty.char.Renders refTo m) (hsingle : s.length = 1) :
    Validates resolve (.object m) (.string s) := by
  refine (Carries.validates_iff hrenders).mpr ?_
  refine JsonSchema.validates_of_asserts ⟨?_, ?_, ?_, ?_, ?_⟩ rfl rfl rfl rfl
  · intro t ht
    obtain rfl := Option.some.inj ht
    rfl
  · simp [SortedMap.get_cons]
  · simp [SortedMap.get_cons]
  · intro n s' hn hs
    obtain rfl := Number.posInt.inj (Value.number.inj (Option.some.inj hn))
    obtain rfl := Value.string.inj hs
    exact hsingle.ge
  · intro n s' hn hs
    obtain rfl := Number.posInt.inj (Value.number.inj (Option.some.inj hn))
    obtain rfl := Value.string.inj hs
    exact hsingle.le

/-- A sequence is admitted when its elements are. -/
theorem validates_vec {t : Ty} {xs : List Value} (hrenders : t.vec.Renders refTo m)
    (helements : ∀ item, t.Renders refTo item → ∀ x ∈ xs, Validates resolve (.object item) x) :
    Validates resolve (.object m) (.array xs) := by
  obtain ⟨item, hitem, hcarries⟩ := hrenders
  refine hcarries.validates_iff.mpr (validates_object_iff.mpr
    ⟨⟨?_, ?_, ?_, ?_, ?_⟩, ?_, ?_, ?_, ?_⟩)
  · intro t' ht
    obtain rfl := Option.some.inj ht
    rfl
  case refine_7 =>
    intro s ys x hs hxs hx
    obtain rfl := Option.some.inj hs
    obtain rfl := Value.array.inj hxs
    exact helements item hitem x hx
  all_goals simp [SortedMap.get_cons]

/-- The schema of a type admits every accepted value that does not stray from it. -/
theorem validates_of_fits {t : Ty} (hfits : Fits structs t v) (hstrays : ¬ Strays structs t v)
    (hrenders : t.Renders refTo m)
    (hdefined : ∀ name, Uses structs t name → Defined refTo structs resolve name) :
    Validates resolve (.object m) v := by
  induction hfits generalizing m with
  | unit => exact (Carries.validates_iff hrenders).mpr (validates_type_iff.mpr rfl)
  | bool b => exact (Carries.validates_iff hrenders).mpr (validates_type_iff.mpr rfl)
  | int integer least _ =>
    exact validates_int hrenders (Number.isWhole_of_isInteger integer) least
  | wideInt whole least _ => exact validates_int hrenders whole least
  | float n => exact (Carries.validates_iff hrenders).mpr (validates_type_iff.mpr rfl)
  | char single => exact validates_char hrenders single
  | string s => exact (Carries.validates_iff hrenders).mpr (validates_type_iff.mpr rfl)
  | none t =>
    by_cases hunit : t.isUnit = true
    · exact validates_null_of_isUnit hunit hrenders.1
    · exact absurd (.null (by simpa using hunit)) hstrays
  | some _ ih =>
    exact ih (fun h => hstrays (.option h)) hrenders.1 fun name h => hdefined name (.option h)
  | vec _ ih =>
    refine validates_vec hrenders fun item hitem x hx => ?_
    exact ih x hx (fun h => hstrays (.element hx h)) hitem fun name h => hdefined name (.vec h)
  | @object name m' present _ ih =>
    obtain ⟨o, ho, hdef⟩ := hdefined name (.struct name)
    rw [validates_struct_iff hrenders ho]
    refine hdef.validates present fun f hf s x hs hx => ?_
    exact ih f hf x hx (fun h => hstrays (.member hf hx h)) hs
      fun name h => hdefined name (.field hf h)
  | positional => exact absurd (.positional _ _) hstrays

/-! ## Root schemas -/

/-- The root schema of a type: a struct's definition stands in place. -/
def RendersRoot (refTo : String → String) (structs : Structs) :
    Ty → List (String × Value) → Prop
  | .struct name, m => RendersStruct refTo (structs name) m
  | t, m => t.Renders refTo m

/-- A struct that the root schema of a type refers to. -/
def UsesRoot (structs : Structs) (t : Ty) (name : String) : Prop :=
  match t with
  | .struct holder => ∃ f ∈ structs holder, Uses structs f.2 name
  | t => Uses structs t name

/-- The root schema of a type admits an accepted value exactly when the value
does not stray from the type. -/
theorem validates_root_iff {t : Ty} (hfits : Fits structs t v)
    (hrenders : RendersRoot refTo structs t m)
    (hdefined : ∀ name, UsesRoot structs t name → Defined refTo structs resolve name) :
    Validates resolve (.object m) v ↔ ¬ Strays structs t v := by
  cases t with
  | struct name =>
    have hfield : ∀ f ∈ structs name, ∀ name', Uses structs f.2 name' →
        Defined refTo structs resolve name' := fun f hf name' h => hdefined name' ⟨f, hf, h⟩
    have hdef : RendersStruct refTo (structs name) m := hrenders
    constructor
    · intro h hstrays
      cases hstrays with
      | positional => exact absurd (hdef.isObject h) Bool.false_ne_true
      | member hf hx hbelow =>
        obtain ⟨s, hs, hvalid⟩ := hdef.member h hf hx
        exact not_validates_of_strays hbelow hs (hfield _ hf) hvalid
    · intro hstrays
      cases hfits with
      | positional => exact absurd (.positional _ _) hstrays
      | object present members =>
        refine hdef.validates present fun f hf s x hs hx => ?_
        exact validates_of_fits (members f hf x hx) (fun h => hstrays (.member hf hx h)) hs
          (hfield f hf)
  | _ =>
    exact ⟨fun h hstrays => not_validates_of_strays hstrays hrenders hdefined h,
      fun hstrays => validates_of_fits hfits hstrays hrenders hdefined⟩

end

end Cyanotype.Wire
