import Cyanotype.Recorder.Auth

/-!
# Recorded exchanges

One request/response pair as the recorder holds it, and the decision what to
keep of a captured body. Parsing is `serde_json::from_slice`, a parameter.
-/

namespace Cyanotype

/-- A character of an HTTP token. -/
def isTokenChar (c : Char) : Bool :=
  c.isAlphanum || c ∈ "!#$%&'*+-.^_`|~".toList

/-- `http::Method`: a non-empty token, standard or extension. -/
structure Method where
  asStr : String
  /-- Only token characters occur. -/
  token : asStr.toList.all isTokenChar = true
  nonempty : asStr ≠ ""
  deriving DecidableEq

/-- `Method::GET`. -/
def Method.get : Method := ⟨"GET", by decide, by decide⟩

/-- `Method::POST`. -/
def Method.post : Method := ⟨"POST", by decide, by decide⟩

/-- `str::to_ascii_lowercase`. -/
def toAsciiLowercase (s : String) : String := String.ofList (s.toList.map Char.toLower)

/-- The upper case letters move up by 32, and nothing else moves. -/
theorem toNat_toLower (c : Char) :
    c.toLower.toNat = if 65 ≤ c.toNat ∧ c.toNat ≤ 90 then c.toNat + 32 else c.toNat := by
  unfold Char.toLower
  split
  · next h =>
    have hupper : 65 ≤ c.toNat ∧ c.toNat ≤ 90 := h
    rw [if_pos hupper]
    change (c.val + 32).toNat = _
    rw [UInt32.toNat_add]
    change (c.toNat + 32) % _ = _
    omega
  · next h =>
    have hupper : ¬ (65 ≤ c.toNat ∧ c.toNat ≤ 90) := h
    rw [if_neg hupper]

/-- `str::to_ascii_uppercase`. -/
def toAsciiUppercase (s : String) : String := String.ofList (s.toList.map Char.toUpper)

/-- The captured part of a body. -/
structure CapturedBody where
  bytes : List UInt8
  truncated : Bool
  deriving DecidableEq

/-- What is kept of a body. -/
inductive BodyCapture where
  | empty
  /-- Fully captured and parsed as JSON. -/
  | json (value : Value)
  /-- Not JSON, or not parsable: only its shape is kept. -/
  | opaqueBody (contentType : Option String) (len : Nat)
  /-- JSON by content type, but larger than the capture cap. -/
  | truncated (contentType : Option String)

namespace BodyCapture

/-- The value of a JSON capture. -/
def json? : BodyCapture → Option Value
  | json value => some value
  | _ => none

/-- Characters removed by `str::trim`. -/
def isWhiteSpace (c : Char) : Bool :=
  (9 ≤ c.toNat && c.toNat ≤ 13) || c.toNat ∈ [0x20, 0x85, 0xA0, 0x1680, 0x2028, 0x2029,
    0x202F, 0x205F, 0x3000] || (0x2000 ≤ c.toNat && c.toNat ≤ 0x200A)

/-- `str::trim`. -/
def trim (s : List Char) : List Char :=
  ((s.dropWhile isWhiteSpace).reverse.dropWhile isWhiteSpace).reverse

/-- The media type of a content type: what precedes the first `;`, trimmed. -/
def mediaType (contentType : String) : String :=
  String.ofList (trim (contentType.toList.takeWhile (· ≠ ';')))

/-- The content type names JSON. The `+json` suffix is compared with case. -/
def looksLikeJson (contentType : Option String) : Bool :=
  contentType.any fun ct =>
    toAsciiLowercase (mediaType ct) == "application/json" ||
      "+json".toList.isSuffixOf (mediaType ct).toList

/-- Decide what to keep of a captured body. -/
def fromCaptured (fromSlice : List UInt8 → Option Value) (contentType : Option String)
    (captured : CapturedBody) : BodyCapture :=
  let bytes := captured.bytes
  if bytes.isEmpty && !captured.truncated then .empty
  else if captured.truncated then
    if looksLikeJson contentType then .truncated contentType
    else .opaqueBody contentType bytes.length
  else
    -- An absent content type is sniffed; an explicit one is taken at its word.
    let sample :=
      if looksLikeJson contentType then fromSlice bytes
      else if contentType.isNone then fromSlice bytes
      else none
    match sample with
    | some value => .json value
    | none => .opaqueBody contentType bytes.length

/-- A JSON capture comes from a complete, non-empty body that parses, and whose
content type is JSON or absent. -/
theorem fromCaptured_eq_json_iff {fromSlice : List UInt8 → Option Value}
    {contentType : Option String} {captured : CapturedBody} {value : Value} :
    fromCaptured fromSlice contentType captured = .json value ↔
      captured.truncated = false ∧ captured.bytes ≠ [] ∧
        (looksLikeJson contentType = true ∨ contentType = none) ∧
        fromSlice captured.bytes = some value := by
  obtain ⟨bytes, truncated⟩ := captured
  unfold fromCaptured
  cases truncated
  · cases bytes with
    | nil => simp
    | cons b bytes =>
      by_cases hj : looksLikeJson contentType = true
      · cases hs : fromSlice (b :: bytes) <;> simp [hj, hs]
      · cases contentType with
        | none => cases hs : fromSlice (b :: bytes) <;> simp [hj, hs]
        | some ct => simp [hj]
  · by_cases hj : looksLikeJson contentType = true <;> simp [hj]

end BodyCapture

/-- Captured headers and body of one side of an exchange. -/
structure MessageCapture where
  /-- Absent until the response's status line arrived, and for requests. -/
  status : Option Nat := none
  /-- Lowercased name and value; `authorization` is already redacted. -/
  headers : List (String × String) := []
  body : BodyCapture := .empty

/-- A declared response schema with the named subschemas it refers to. Both are
`schemars` schemas, held as the JSON they serialize to. -/
structure Declaration where
  schema : Value
  definitions : BTreeMap String Value

/-- One recorded request/response pair. -/
structure Exchange where
  method : Method
  routeTemplate : String
  request : MessageCapture
  response : MessageCapture
  security : Option SecurityScheme
  declaredResponseSchema : Option Declaration

/-- `Exchange::new`. -/
def Exchange.new (method : Method) (routeTemplate : String)
    (security : Option SecurityScheme) : Exchange where
  method := method
  routeTemplate := routeTemplate
  request := {}
  response := {}
  security := security
  declaredResponseSchema := none

end Cyanotype
