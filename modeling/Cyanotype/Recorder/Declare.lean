import Cyanotype.Recorder.Exchange

/-!
# Declared response types

A receipt gives access to the exchange of a response. Declaring a type there
succeeds when the given bytes deserialize as the type, and then records the
type's schema; otherwise the exchange stays as it was.
-/

namespace Cyanotype

/-- A type that can be declared, with what is generated for it: the deserializer
behind `serde_json::from_slice` and the root schema. Its code runs while the exchange is
locked and is assumed not to call back into the crate; it does nothing but compute these. -/
structure WireType where
  /-- `std::any::type_name`. -/
  typeName : String
  /-- Deserialize, or say what is wrong. -/
  fromSlice : List UInt8 → Except String Unit
  /-- `into_root_schema_for`, under the settings for OpenAPI 3.0. -/
  rootSchema : Declaration

/-- `CyanotypeError::DeclarationMismatch`. -/
structure DeclarationMismatch where
  method : String
  route : String
  status : Option Nat
  typeName : String
  source : String
  deriving DecidableEq

/-- `Receipt::declare_response`. -/
def WireType.declareResponse (T : WireType) (bytes : List UInt8) (exchange : Exchange) :
    Except DeclarationMismatch Exchange :=
  match T.fromSlice bytes with
  | .error source => .error
      { method := exchange.method.asStr
        route := exchange.routeTemplate
        status := exchange.response.status
        typeName := T.typeName
        source := source }
  | .ok _ => .ok { exchange with declaredResponseSchema := some T.rootSchema }

/-- The bytes deserialize as the type. -/
def WireType.accepts (T : WireType) (bytes : List UInt8) : Bool :=
  match T.fromSlice bytes with
  | .ok _ => true
  | .error _ => false

/-- Accepted bytes change the declared schema only. -/
theorem WireType.declareResponse_of_accepts {T : WireType} {bytes : List UInt8}
    (h : T.accepts bytes = true) (exchange : Exchange) :
    T.declareResponse bytes exchange =
      .ok { exchange with declaredResponseSchema := some T.rootSchema } := by
  unfold accepts at h
  unfold declareResponse
  cases hslice : T.fromSlice bytes with
  | ok u => rfl
  | error source => simp [hslice] at h

/-- Other bytes are an error that names the response and the type. -/
theorem WireType.declareResponse_of_not_accepts {T : WireType} {bytes : List UInt8}
    (h : T.accepts bytes = false) (exchange : Exchange) :
    ∃ source, T.declareResponse bytes exchange = .error ⟨exchange.method.asStr,
      exchange.routeTemplate, exchange.response.status, T.typeName, source⟩ := by
  unfold accepts at h
  unfold declareResponse
  cases hslice : T.fromSlice bytes with
  | ok u => simp [hslice] at h
  | error source => exact ⟨source, rfl⟩

/-- A declaration succeeds exactly on bytes of the type, and then changes the
declared schema only. -/
theorem WireType.declareResponse_eq_ok_iff {T : WireType} {bytes : List UInt8}
    {exchange exchange' : Exchange} :
    T.declareResponse bytes exchange = .ok exchange' ↔ T.accepts bytes = true ∧
      exchange' = { exchange with declaredResponseSchema := some T.rootSchema } := by
  cases h : T.accepts bytes with
  | true => simp [WireType.declareResponse_of_accepts h, eq_comm]
  | false =>
    obtain ⟨source, herror⟩ := WireType.declareResponse_of_not_accepts h exchange
    simp [herror]

end Cyanotype
