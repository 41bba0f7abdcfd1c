import Cyanotype.Core.WireType
import Cyanotype.Document.References
import Cyanotype.Recorder.Declare

/-!
# Declared schemas and accepted bodies

The schema of a declared type is generated for OpenAPI 3.0, where `nullable`
admits null, and emitted in a document of version 3.1, where it is no keyword.
An accepted body is admitted by the emitted schema when it does not stray from
the declared type.
-/

namespace Cyanotype

open JsonSchema (Validates)
open Wire (Ty Structs Fits Strays Carries RendersStruct RendersRoot UsesRoot Defined)

/-- The deserializer and the root schema of a declared type are the generated ones. -/
structure WireType.Derives (T : WireType) (structs : Structs) (ty : Ty)
    (parse : List UInt8 → Option Value) : Prop where
  /-- Bytes are deserialized only when their value fits. -/
  fits : ∀ bytes v, T.accepts bytes = true → parse bytes = some v → Fits structs ty v
  schema : ∃ o, T.rootSchema.schema = .object o ∧ RendersRoot refTo structs ty o
  definitions : ∀ name, UsesRoot structs ty name → Defined refTo structs T.rootSchema.ref name

/-- The version of a built document. -/
theorem buildDocument_get_openapi (exchanges : List Exchange) (warnings : List String) :
    (buildDocument exchanges warnings).1.get "openapi" = some (.string "3.1.0") := by
  rw [buildDocument_eq, documentOf_get_openapi]

/-- Where a declaration is the one emitted, its schema in the document of version
3.1 admits a body it was accepted for exactly when the body has no null at an
option of other content than the unit and no array at a struct. -/
theorem declared_schema_admits_iff (parse : List UInt8 → Option Value) {structs : Structs}
    {ty : Ty} {T : WireType} (hT : T.Derives structs ty parse) {bytes : List UInt8} {v : Value}
    (hparse : parse bytes = some v) {exchange exchange' : Exchange}
    (hdeclared : T.declareResponse bytes exchange = .ok exchange') (exchanges : List Exchange)
    (warnings : List String) {status : Nat}
    (hemits : Emits exchanges exchange'.operationKey status T.rootSchema) :
    (buildDocument exchanges warnings).1.get "openapi" = some (.string "3.1.0") ∧
    ((∃ schema, (responseAt (buildDocument exchanges warnings).1 exchange'.operationKey.route
        exchange'.operationKey.method (toString status)).bind contentSchema = some schema ∧
        Validates T.rootSchema.ref schema v) ↔ ¬ Strays structs ty v) := by
  refine ⟨buildDocument_get_openapi exchanges warnings, ?_⟩
  have hfits : Fits structs ty v :=
    hT.fits bytes v (WireType.declareResponse_eq_ok_iff.mp hdeclared).1 hparse
  obtain ⟨o, hschema, hrenders⟩ := hT.schema
  have hemitted : (responseAt (buildDocument exchanges warnings).1 exchange'.operationKey.route
      exchange'.operationKey.method (toString status)).bind contentSchema = some (.object o) :=
    hschema ▸ (hemits.contentSchema_eq warnings).2
  rw [hemitted, ← Wire.validates_root_iff hfits hrenders hT.definitions]
  simp

/-- A struct with one optional integer. -/
def rowStructs : Structs := fun name =>
  if name = "Row" then [("a", .option (.int (-2 ^ 63) (2 ^ 63 - 1)))] else []

/-- The member `a` as a row with it is written. -/
def rowWith (a : List UInt8) : List UInt8 := [0x7b, 0x22, 0x61, 0x22, 0x3a] ++ a ++ [0x7d]

/-- The text `null` of the member. -/
def nullText : List UInt8 := [0x6e, 0x75, 0x6c, 0x6c]

/-- The text `1` of the member. -/
def oneText : List UInt8 := [0x31]

/-- A parser that knows two rows. -/
def parseRow (bytes : List UInt8) : Option Value :=
  if bytes = rowWith nullText then some (.object [("a", .null)])
  else if bytes = rowWith oneText then some (.object [("a", .ofNat 1)])
  else none

/-- The schema of an optional integer, as it is generated for OpenAPI 3.0. -/
def optionalIntegerSchema : List (String × Value) :=
  [("format", .string "int64"), ("nullable", .bool true), ("type", .string "integer")]

/-- The schema of a row. -/
def rowSchema : List (String × Value) :=
  [("properties", .object [("a", .object optionalIntegerSchema)]), ("title", .string "Row"),
    ("type", .string "object")]

/-- The row as a declared type. -/
def rowType : WireType where
  typeName := "Row"
  fromSlice := fun bytes => if (parseRow bytes).isSome then .ok () else .error "expected value"
  rootSchema := ⟨.object rowSchema, .empty⟩

/-- A response whose body is a row. -/
def rowExchange (row : Value) : Exchange :=
  { exchangeWithJsonResponse "/rows" .get 200 row with
    declaredResponseSchema := some rowType.rootSchema }

/-- It is a rendering of the optional integer. -/
theorem optionalIntegerSchema_renders :
    (Ty.option (.int (-2 ^ 63) (2 ^ 63 - 1))).Renders refTo optionalIntegerSchema := by
  refine ⟨?_, rfl⟩
  unfold Ty.Renders
  simp [Carries, JsonSchema.assertions, optionalIntegerSchema, SortedMap.get_cons]

private theorem mem_rowFields {f : String × Ty} (h : f ∈ rowStructs "Row") :
    f = ("a", .option (.int (-2 ^ 63) (2 ^ 63 - 1))) := List.mem_singleton.mp h

private theorem fits_row {a : Value}
    (h : Fits rowStructs (.option (.int (-2 ^ 63) (2 ^ 63 - 1))) a) :
    Fits rowStructs (.struct "Row") (.object [("a", a)]) := by
  refine .object (fun f hf hoption => ?_) (fun f hf x hx => ?_)
  · obtain rfl := mem_rowFields hf
    exact absurd hoption (by decide)
  · obtain rfl := mem_rowFields hf
    obtain rfl := Option.some.inj hx
    exact h

/-- The declared type is derived from the struct. -/
theorem rowType_derives : rowType.Derives rowStructs (.struct "Row") parseRow where
  fits := by
    intro bytes v _ hv
    unfold parseRow at hv
    split_ifs at hv
    · obtain rfl := Option.some.inj hv
      exact fits_row (.none _)
    · obtain rfl := Option.some.inj hv
      exact fits_row (.some (.int rfl (by decide) (by decide)))
  schema := by
    refine ⟨rowSchema, rfl, ⟨rfl, ?_, fun f hf => ?_, fun ps k s hps hs => ?_, ?_⟩⟩
    · intro names k hnames
      exact absurd hnames (by simp [rowSchema, SortedMap.get_cons])
    · obtain rfl := mem_rowFields hf
      exact ⟨_, _, rfl, rfl, optionalIntegerSchema_renders⟩
    · obtain rfl := Value.object.inj (Option.some.inj hps)
      by_cases hk : k = "a"
      · subst hk
        obtain rfl := Option.some.inj hs
        exact ⟨_, List.mem_singleton_self _, rfl, _, rfl, optionalIntegerSchema_renders⟩
      · exact absurd hs (by simp [SortedMap.get_cons, hk])
    · simp [rowSchema, SortedMap.get_cons]
  definitions := by
    rintro name ⟨f, hf, huses⟩
    obtain rfl := mem_rowFields hf
    cases huses with
    | option huses => cases huses

/-- A row with a number is admitted. -/
theorem declared_schema_admits_example : ∃ schema,
    (responseAt (buildDocument [rowExchange (.object [("a", .ofNat 1)])] []).1 "/rows" "get"
      (toString 200)).bind contentSchema = some schema ∧
    Validates rowType.rootSchema.ref schema (.object [("a", .ofNat 1)]) := by
  have hparse : parseRow (rowWith oneText) = some (.object [("a", .ofNat 1)]) := rfl
  have hdeclared : rowType.declareResponse (rowWith oneText)
      (exchangeWithJsonResponse "/rows" .get 200 (.object [("a", .ofNat 1)])) =
        .ok (rowExchange (.object [("a", .ofNat 1)])) := rfl
  have hemits : Emits [rowExchange (.object [("a", .ofNat 1)])] ⟨"/rows", "get"⟩ 200
      rowType.rootSchema := rfl
  refine (declared_schema_admits_iff parseRow rowType_derives hparse hdeclared _ [] hemits).2.mpr
    fun h => ?_
  cases h with
  | member hf hx h =>
    obtain rfl := mem_rowFields hf
    obtain rfl := Option.some.inj hx
    cases h with
    | option h => cases h

/-- A row with a null is accepted, and rejected by the schema emitted for it. -/
theorem declared_schema_rejects_null :
    rowType.Derives rowStructs (.struct "Row") parseRow ∧
    parseRow (rowWith nullText) = some (.object [("a", .null)]) ∧
    rowType.declareResponse (rowWith nullText)
      (exchangeWithJsonResponse "/rows" .get 200 (.object [("a", .null)])) =
        .ok (rowExchange (.object [("a", .null)])) ∧
    ¬ ∃ schema, (responseAt (buildDocument [rowExchange (.object [("a", .null)])] []).1 "/rows"
        "get" (toString 200)).bind contentSchema = some schema ∧
      Validates rowType.rootSchema.ref schema (.object [("a", .null)]) := by
  refine ⟨rowType_derives, rfl, rfl, ?_⟩
  have hemits : Emits [rowExchange (.object [("a", .null)])] ⟨"/rows", "get"⟩ 200
      rowType.rootSchema := rfl
  obtain ⟨o, hschema, hrenders⟩ := rowType_derives.schema
  rintro ⟨schema, hemitted, hvalid⟩
  rw [(hemits.contentSchema_eq []).2, hschema] at hemitted
  obtain rfl := Option.some.inj hemitted
  refine (Wire.validates_root_iff (fits_row (.none _)) hrenders rowType_derives.definitions).mp
    hvalid ?_
  exact .member (List.mem_singleton_self _) rfl (.null rfl)

end Cyanotype
