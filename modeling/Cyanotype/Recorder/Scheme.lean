import Cyanotype.Recorder.Headers

/-!
# The scheme of a header map

Each `Authorization` value overwrites the scheme of the one before it, and a value is
only read when it is visible ASCII. So the scheme is that of the last value, as far as
it can be read.
-/

namespace Cyanotype

/-- The `Authorization` values, in order. -/
def authorizationValues (headers : HeaderMap) : List HeaderValue :=
  (headers.filter (·.1 = .authorization)).map Prod.snd

/-- The bytes of `Bearer` and a blank. -/
def bearerBytes : List UInt8 := [66, 101, 97, 114, 101, 114, 32]

/-- The value begins with `Bearer` and a blank. -/
def HeaderValue.BeginsBearer (value : HeaderValue) : Prop := bearerBytes <+: value.bytes

instance (value : HeaderValue) : Decidable value.BeginsBearer :=
  inferInstanceAs (Decidable (_ <+: _))

/-- The kind derived from one value. -/
def HeaderValue.kind (value : HeaderValue) : SchemeKind :=
  if value.bytes.all isVisibleAscii = true ∧ value.BeginsBearer then .bearer else .apiKey

/-- A header is `Authorization` by its lowercase name. -/
theorem eq_authorization_iff {name : HeaderName} :
    name = .authorization ↔ name.asStr = "authorization" := by
  cases name
  simp [HeaderName.authorization]

/-- The text begins with `Bearer` and a blank when the bytes do. -/
theorem isPrefixOf_charOf_iff {bytes : List UInt8} :
    "Bearer ".toList.isPrefixOf (bytes.map charOf) = true ↔ bearerBytes <+: bytes := by
  have hinjective : Function.Injective charOf := fun a b h => by
    rw [← UInt8.toNat_inj, ← charOf_toNat a, h, charOf_toNat]
  have hbytes : "Bearer ".toList = bearerBytes.map charOf := by decide
  rw [hbytes, List.isPrefixOf_iff_prefix, List.prefix_map_iff_of_injective hinjective]

/-- One `Authorization` value decides the scheme; any other header leaves it. -/
theorem captureHeader_snd (acc : List (String × String) × Option SecurityScheme)
    (header : HeaderName × HeaderValue) :
    (captureHeader acc header).2 =
      if header.1 = .authorization then some ⟨"Authorization", header.2.kind, rfl⟩ else acc.2 := by
  simp only [captureHeader, header.1.lower, eq_authorization_iff]
  split_ifs
  · rw [Option.some.injEq, SecurityScheme.mk.injEq]
    refine ⟨rfl, ?_⟩
    unfold HeaderValue.toStr HeaderValue.kind HeaderValue.BeginsBearer
    by_cases hreadable : header.2.bytes.all isVisibleAscii = true
    · simp only [hreadable, if_true, true_and, textOf_toList, isPrefixOf_charOf_iff]
    · simp only [hreadable, if_false, false_and, Bool.false_eq_true]
  · rfl

/-- The scheme is that of the last `Authorization` value. -/
theorem captureHeaders_snd (headers : HeaderMap) :
    (captureHeaders headers).2 =
      (authorizationValues headers).getLast?.map fun value =>
        ⟨"Authorization", value.kind, rfl⟩ := by
  induction headers using List.reverseRecOn with
  | nil => rfl
  | append_singleton headers header ih =>
    have hstep : captureHeaders (headers ++ [header]) =
        captureHeader (captureHeaders headers) header := List.foldl_concat ..
    rw [hstep, captureHeader_snd, ih]
    unfold authorizationValues
    rw [List.filter_append, List.map_append, List.filter_singleton]
    by_cases hname : header.1 = .authorization
    · simp [hname]
    · simp [hname]

/-- The kind of the derived scheme. -/
def derivedKind (headers : HeaderMap) : Option SchemeKind := (captureHeaders headers).2.map (·.kind)

/-- The derived scheme follows the `Authorization` values and nothing else. -/
structure FollowsAuthorization (headers : HeaderMap) : Prop where
  /-- Bearer, exactly when some value begins so. -/
  bearer_iff : derivedKind headers = some .bearer ↔
    ∃ value ∈ authorizationValues headers, value.BeginsBearer
  /-- An API key, exactly when there are values and none begins so. -/
  apiKey_iff : derivedKind headers = some .apiKey ↔
    authorizationValues headers ≠ [] ∧ ∀ value ∈ authorizationValues headers, ¬ value.BeginsBearer
  none_iff : derivedKind headers = none ↔ authorizationValues headers = []
  /-- Other headers do not matter. -/
  others : ∀ headers', authorizationValues headers' = authorizationValues headers →
    (captureHeaders headers').2 = (captureHeaders headers).2

/-- The kind is that of the last value. -/
theorem derivedKind_eq (headers : HeaderMap) :
    derivedKind headers = (authorizationValues headers).getLast?.map HeaderValue.kind := by
  rw [derivedKind, captureHeaders_snd, Option.map_map]
  rfl

/-- There is no kind exactly without a value. -/
theorem derivedKind_eq_none_iff {headers : HeaderMap} :
    derivedKind headers = none ↔ authorizationValues headers = [] := by
  rw [derivedKind_eq, Option.map_eq_none_iff, List.getLast?_eq_none_iff]

/-- A value is a token when it is readable and begins so. -/
theorem HeaderValue.kind_eq_bearer_iff {value : HeaderValue} :
    value.kind = .bearer ↔ value.bytes.all isVisibleAscii = true ∧ value.BeginsBearer := by
  unfold kind
  split_ifs with h
  · exact iff_of_true rfl h
  · exact iff_of_false (by simp) h

/-- Bearer is derived from a readable token at the end. -/
theorem derivedKind_eq_bearer_iff {headers : HeaderMap} :
    derivedKind headers = some .bearer ↔
      ∃ value, (authorizationValues headers).getLast? = some value ∧ value.BeginsBearer ∧
        value.bytes.all isVisibleAscii = true := by
  rw [derivedKind_eq, Option.map_eq_some_iff]
  simp only [HeaderValue.kind_eq_bearer_iff, and_comm (a := HeaderValue.BeginsBearer _)]

/-- What is neither absent nor bearer is an API key. -/
theorem derivedKind_eq_apiKey_iff {headers : HeaderMap} :
    derivedKind headers = some .apiKey ↔
      authorizationValues headers ≠ [] ∧ derivedKind headers ≠ some .bearer := by
  rw [ne_eq, ← derivedKind_eq_none_iff]
  cases derivedKind headers with
  | none => simp
  | some kind => cases kind <;> simp

/-- Headers of other names do not change the scheme. -/
theorem captureHeaders_snd_congr {headers headers' : HeaderMap}
    (h : authorizationValues headers' = authorizationValues headers) :
    (captureHeaders headers').2 = (captureHeaders headers).2 := by
  rw [captureHeaders_snd, captureHeaders_snd, h]

/-- The scheme follows the `Authorization` values exactly when none begins with `Bearer`
and a blank, or the last one does and is visible ASCII. -/
theorem follows_authorization_iff (headers : HeaderMap) :
    FollowsAuthorization headers ↔
      (∀ value ∈ authorizationValues headers, ¬ value.BeginsBearer) ∨
        ∃ value, (authorizationValues headers).getLast? = some value ∧ value.BeginsBearer ∧
          value.bytes.all isVisibleAscii = true := by
  rw [← derivedKind_eq_bearer_iff]
  constructor
  · intro h
    by_cases hbearer : ∃ value ∈ authorizationValues headers, value.BeginsBearer
    · exact .inr (h.bearer_iff.mpr hbearer)
    · exact .inl fun value hvalue hbegins => hbearer ⟨value, hvalue, hbegins⟩
  · intro h
    have hbearer : derivedKind headers = some .bearer ↔
        ∃ value ∈ authorizationValues headers, value.BeginsBearer := by
      constructor
      · -- The last value decides, so what is bearer comes from some value.
        intro hkind
        obtain ⟨value, hlast, hbegins, -⟩ := derivedKind_eq_bearer_iff.mp hkind
        exact ⟨value, List.mem_of_getLast? hlast, hbegins⟩
      · rintro ⟨value, hvalue, hbegins⟩
        exact h.resolve_left fun hno => hno value hvalue hbegins
    constructor
    case bearer_iff => exact hbearer
    case apiKey_iff =>
      rw [derivedKind_eq_apiKey_iff, ne_eq (derivedKind headers), hbearer]
      simp only [not_exists, not_and]
    case none_iff => exact derivedKind_eq_none_iff
    case others => exact fun headers' => captureHeaders_snd_congr

/-- `Bearer é`, with the last letter in Latin-1. -/
def latinBearer : HeaderValue := ⟨bearerBytes ++ [0xE9], by decide⟩

/-- `Bearer t`. -/
def plainBearer : HeaderValue := ⟨bearerBytes ++ [0x74], by decide⟩

/-- `key`. -/
def plainKey : HeaderValue := ⟨[0x6B, 0x65, 0x79], by decide⟩

/-- A token with a letter outside ASCII, and a token before another value, are both taken
for API keys. -/
theorem bearer_not_followed :
    derivedKind [(.authorization, latinBearer)] = some .apiKey ∧
    ¬ FollowsAuthorization [(.authorization, latinBearer)] ∧
    derivedKind [(.authorization, plainBearer), (.authorization, plainKey)] = some .apiKey ∧
    ¬ FollowsAuthorization [(.authorization, plainBearer), (.authorization, plainKey)] := by
  refine ⟨by decide, fun h => ?_, by decide, fun h => ?_⟩
  · have hkind := h.bearer_iff.mpr ⟨latinBearer, by decide, by decide⟩
    revert hkind
    decide
  · have hkind := h.bearer_iff.mpr ⟨plainBearer, by decide, by decide⟩
    revert hkind
    decide

end Cyanotype
