import Cyanotype.Document.Account
import Cyanotype.Document.Parameters

/-!
# The paths as OpenAPI

Methods, statuses and routes become keys of the document as they are. The result has
the structure that OpenAPI prescribes exactly when every completed exchange has one of
the eight methods, a status below 600 and a route whose expressions in braces are whole
segments.
-/

namespace Cyanotype

/-- The fields of a path item that hold operations. -/
def operationFields : List String :=
  ["get", "put", "post", "delete", "options", "head", "patch", "trace"]

/-- Three digits, the first of them from 1 to 5. -/
def IsResponseCode (code : String) : Prop :=
  ∃ a b c : Char, code.toList = [a, b, c] ∧ ('1'.toNat ≤ a.toNat ∧ a.toNat ≤ '5'.toNat) ∧
    b.isDigit = true ∧ c.isDigit = true

/-- A name in braces occurs in the route. -/
def HasExpression (route : String) (name : List Char) : Prop :=
  '{' ∉ name ∧ '}' ∉ name ∧ braced name <:+: route.toList

/-- The operation has a path parameter of the name. -/
def HasPathParameter (operation : Value) (name : List Char) : Prop :=
  ∃ parameters, operation.get "parameters" = some (.array parameters) ∧
    ∃ parameter ∈ parameters, parameter.get "in" = some (.string "path") ∧
      parameter.get "name" = some (.string (String.ofList name))

/-- The paths have the structure of OpenAPI 3.1. -/
structure PathsValid (doc : Value) : Prop where
  /-- A path item has operation fields only. -/
  fields : ∀ route field, operationAt doc route field ≠ none → field ∈ operationFields
  /-- Responses are listed under codes. -/
  codes : ∀ route method code, responseAt doc route method code ≠ none → IsResponseCode code
  /-- Every expression of a path is a parameter of each operation under it. -/
  parameters : ∀ route method operation name, operationAt doc route method = some operation →
    HasExpression route name → HasPathParameter operation name

/-- What an exchange answered with a status may bring into the paths. -/
structure Documentable (e : Exchange) (status : Nat) : Prop where
  method : toAsciiLowercase e.method.asStr ∈ operationFields
  status_range : 100 ≤ status ∧ status ≤ 599
  /-- A name in braces is somewhere in the route a whole segment. -/
  expressions : ∀ name, HasExpression e.routeTemplate name →
    braced name ∈ e.routeTemplate.toList.splitOn '/'

/-! ## Codes -/

/-- A number is written in decimal digits. -/
theorem toString_toList (n : Nat) : (toString n).toList = Nat.toDigits 10 n := by
  rw [Nat.toString_eq_ofList_toDigits, String.toList_ofList]

/-- The text of a number with three digits. -/
theorem toDigits_three {a b c : Nat} (ha : 0 < a) (ha' : a < 10) (hb : b < 10) (hc : c < 10) :
    Nat.toDigits 10 (10 * (10 * a + b) + c) = [a.digitChar, b.digitChar, c.digitChar] := by
  rw [← Nat.toDigits_append_toDigits (by decide) (by omega) hc,
    ← Nat.toDigits_append_toDigits (by decide) ha hb, Nat.toDigits_of_lt_base ha',
    Nat.toDigits_of_lt_base hb, Nat.toDigits_of_lt_base hc]
  rfl

/-- The codes among the numbers are those from 100 to 599. -/
theorem isResponseCode_toString_iff (n : Nat) :
    IsResponseCode (toString n) ↔ 100 ≤ n ∧ n ≤ 599 := by
  unfold IsResponseCode
  rw [toString_toList]
  constructor
  · rintro ⟨a, b, c, hdigits, ⟨ha, ha'⟩, hb, hc⟩
    rw [Char.isDigit_iff_toNat] at hb hc
    have hn : Nat.ofDigitChars 10 [a, b, c] 0 = n := by
      rw [← hdigits, Nat.ofDigitChars_ten_toDigits]
    simp only [Nat.ofDigitChars_cons, Nat.ofDigitChars_nil, Char.reduceToNat] at hn ha ha' hb hc
    omega
  · rintro ⟨hlow, hhigh⟩
    obtain ⟨a, b, c, rfl, ha, ha', hb, hc⟩ : ∃ a b c : Nat, n = 10 * (10 * a + b) + c ∧
        0 < a ∧ a < 6 ∧ b < 10 ∧ c < 10 :=
      ⟨n / 100, n / 10 % 10, n % 10, by omega, by omega, by omega, by omega, by omega⟩
    refine ⟨_, _, _, toDigits_three ha (by omega) hb hc, ?_, ?_, ?_⟩
    · rw [Nat.toNat_digitChar_of_lt_ten (by omega)]
      simp only [Char.reduceToNat]
      omega
    · simpa using hb
    · simpa using hc

/-! ## Parameters -/

/-- The listed parameters are those of the segments in braces. -/
theorem mem_pathParameters_iff {route : String} {parameter : Value} :
    parameter ∈ pathParameters route ↔
      ∃ name, braced name ∈ route.toList.splitOn '/' ∧ parameter = pathParameter name := by
  rw [pathParameters_eq_map, List.mem_map]
  simp only [List.mem_filterMap, stripBraces_eq_some_iff, exists_eq_right, eq_comm]

/-- Every listed parameter is one of the path. -/
theorem pathParameter_get_in (name : List Char) :
    (pathParameter name).get "in" = some (.string "path") := by
  rw [pathParameter, Value.get_ofFields (by simp)]
  simp [SortedMap.get_cons]

/-- A parameter tells its name. -/
theorem pathParameter_get_name_iff {name name' : List Char} :
    (pathParameter name).get "name" = some (.string (String.ofList name')) ↔ name = name' := by
  rw [pathParameter_get_name, Option.some.injEq, Value.string.injEq, String.ofList_inj]

/-- The parameters of an operation are the segments of its route in braces. -/
theorem hasPathParameter_operationOf_iff {key : OperationKey} {acc : OperationAcc}
    {name : List Char} :
    HasPathParameter (operationOf key acc) name ↔
      braced name ∈ key.route.toList.splitOn '/' := by
  have hget : (operationOf key acc).get "parameters" =
      if (pathParameters key.route).isEmpty then none
      else some (.array (pathParameters key.route)) := operationOf_get key acc "parameters"
  unfold HasPathParameter
  rw [hget]
  constructor
  · rintro ⟨parameters, hparameters, parameter, hmem, -, hname⟩
    split_ifs at hparameters
    obtain rfl := Value.array.inj (Option.some.inj hparameters)
    obtain ⟨name', hsegment, rfl⟩ := mem_pathParameters_iff.mp hmem
    rwa [← pathParameter_get_name_iff.mp hname]
  · intro hsegment
    have hmem := mem_pathParameters_iff.mpr ⟨name, hsegment, rfl⟩
    rw [if_neg fun hempty => List.ne_nil_of_mem hmem (List.isEmpty_iff.mp hempty)]
    exact ⟨_, rfl, _, hmem, pathParameter_get_in name, pathParameter_get_name_iff.mpr rfl⟩

/-! ## The paths -/

/-- The paths have the structure of OpenAPI exactly when every completed exchange has one of
its methods, a status it knows and a route whose names in braces are whole segments. -/
theorem paths_valid_iff (exchanges : List Exchange) (warnings : List String) :
    PathsValid (buildDocument exchanges warnings).1 ↔
      ∀ e ∈ exchanges, ∀ status, e.response.status = some status → Documentable e status := by
  constructor
  · rintro ⟨hfields, hcodes, hparameters⟩ e he status hstatus
    have hcompleted : e.response.status ≠ none := by simp [hstatus]
    have hoperation := (operationAt_ne_none_iff exchanges warnings _ _).mpr
      ⟨e, he, hcompleted, rfl, rfl⟩
    have hresponse := (responseAt_ne_none_iff exchanges warnings _ _ _).mpr
      ⟨e, he, status, hstatus, rfl, rfl, rfl⟩
    have hrange := (isResponseCode_toString_iff status).mp (hcodes _ _ _ hresponse)
    refine ⟨hfields _ _ hoperation, hrange, fun name hname => ?_⟩
    obtain ⟨operation, hget⟩ := Option.ne_none_iff_exists'.mp hoperation
    have hparameter := hparameters _ _ _ name hget hname
    rwa [eq_operationOf_of_operationAt hget, hasPathParameter_operationOf_iff] at hparameter
  · intro h
    constructor
    case fields =>
      intro route field hne
      obtain ⟨e, he, hcompleted, -, rfl⟩ := (operationAt_ne_none_iff exchanges warnings _ _).mp hne
      obtain ⟨status, hstatus⟩ := Option.ne_none_iff_exists'.mp hcompleted
      exact (h e he status hstatus).method
    case codes =>
      intro route method code hne
      obtain ⟨e, he, status, hstatus, rfl, -, -⟩ :=
        (responseAt_ne_none_iff exchanges warnings _ _ _).mp hne
      exact (isResponseCode_toString_iff status).mpr (h e he status hstatus).status_range
    case parameters =>
      intro route method operation name hget hname
      obtain ⟨e, he, hcompleted, rfl, -⟩ := (operationAt_ne_none_iff exchanges warnings _ _).mp
        (Option.ne_none_iff_exists'.mpr ⟨operation, hget⟩)
      obtain ⟨status, hstatus⟩ := Option.ne_none_iff_exists'.mp hcompleted
      rw [eq_operationOf_of_operationAt hget, hasPathParameter_operationOf_iff]
      exact (h e he status hstatus).expressions name hname

/-- `PROPFIND`, an extension method. -/
def Method.propfind : Method := ⟨"PROPFIND", by decide, by decide⟩

/-- A method, a status and a route that the recorder admits and OpenAPI does not. -/
theorem paths_not_valid :
    ¬ PathsValid (buildDocument
      [exchangeWithJsonResponse "/dav" Method.propfind 207 .null] []).1 ∧
    ¬ PathsValid (buildDocument [exchangeWithJsonResponse "/" Method.get 600 .null] []).1 ∧
    ¬ PathsValid (buildDocument
      [exchangeWithJsonResponse "/user_{name}" Method.get 200 .null] []).1 := by
  refine ⟨fun h => ?_, fun h => ?_, fun h => ?_⟩
  · have hfield := h.fields "/dav" "propfind" ((operationAt_ne_none_iff _ _ _ _).mpr
      ⟨_, List.mem_singleton_self _, Option.some_ne_none _, rfl, by decide⟩)
    revert hfield
    decide
  · have hcode := h.codes "/" "get" "600" ((responseAt_ne_none_iff _ _ _ _ _).mpr
      ⟨_, List.mem_singleton_self _, 600, rfl, by decide, rfl, by decide⟩)
    have hrange := (isResponseCode_toString_iff 600).mp hcode
    omega
  · obtain ⟨operation, hget⟩ := Option.ne_none_iff_exists'.mp
      ((operationAt_ne_none_iff [exchangeWithJsonResponse "/user_{name}" Method.get 200 .null] []
        "/user_{name}" "get").mpr
        ⟨_, List.mem_singleton_self _, Option.some_ne_none _, rfl, by decide⟩)
    have hparameter := h.parameters _ _ _ "name".toList hget
      ⟨by decide, by decide, "/user_".toList, [], by decide⟩
    rw [eq_operationOf_of_operationAt hget, hasPathParameter_operationOf_iff] at hparameter
    revert hparameter
    decide

end Cyanotype
