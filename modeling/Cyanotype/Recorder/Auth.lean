import Cyanotype.Core.Json

/-!
# Derived security schemes

A scheme is derived from the `Authorization` header and carries its kind only;
the header value itself is never kept.
-/

namespace Cyanotype

/-- The kinds of scheme that a header can show. -/
inductive SchemeKind where
  /-- `Authorization: Bearer <token>`. -/
  | bearer
  /-- `Authorization: <anything else>`. -/
  | apiKey
  deriving DecidableEq

/-- A security scheme derived from a header. -/
structure SecurityScheme where
  headerName : String
  kind : SchemeKind
  /-- Schemes are built at one place of the source, always for this header. -/
  authorization : headerName = "Authorization"
  deriving DecidableEq

namespace SecurityScheme

/-- The key of this scheme in `components.securitySchemes`. -/
def componentName (scheme : SecurityScheme) : String :=
  match scheme.kind with
  | .bearer => "bearerAuth"
  | .apiKey => "apiKeyAuth"

/-- The definition of this scheme in `components.securitySchemes`. -/
def toJson (scheme : SecurityScheme) : Value :=
  match scheme.kind with
  | .bearer => Value.ofFields [("type", .string "http"), ("scheme", .string "bearer")]
  | .apiKey => Value.ofFields
      [("type", .string "apiKey"), ("in", .string "header"), ("name", .string scheme.headerName)]

/-- Schemes with the same component name are the same scheme. -/
theorem eq_of_componentName_eq {a b : SecurityScheme} (h : a.componentName = b.componentName) :
    a = b := by
  obtain ⟨na, ka, ha⟩ := a
  obtain ⟨nb, kb, hb⟩ := b
  subst ha hb
  cases ka <;> cases kb <;> simp_all [componentName]

end SecurityScheme

end Cyanotype
