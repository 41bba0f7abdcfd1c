import Cyanotype.Recorder.Exchange
import Cyanotype.Recorder.Redact

/-!
# Recording one side of an exchange

When a body is finished, what was captured of it is decided, redacted and
scanned, and then stored on its side of the exchange. The parts are separate
because the recorder takes a lock for each of them.
-/

namespace Cyanotype

/-- What the recorder uses from outside: the JSON parser and the entropy test. -/
structure Externals where
  /-- `serde_json::from_slice::<Value>`. -/
  fromSlice : List UInt8 → Option Value
  /-- Whether the Shannon entropy of a string reaches the floor. -/
  entropic : String → Bool

/-- A parser that knows the texts `1` and `12`. -/
def parseDigits : Externals where
  fromSlice := fun bytes =>
    if bytes = [0x31] then some (.ofNat 1)
    else if bytes = [0x31, 0x32] then some (.ofNat 12)
    else none
  entropic := fun _ => false

/-- `CAPTURE_CAP_BYTES`. -/
def captureCapBytes : Nat := 64 * 1024

/-- A side of an exchange. -/
inductive Side where
  | request
  | response
  deriving DecidableEq

namespace Side

/-- The name of a side in the context of a warning. -/
def which : Side → String
  | request => "request"
  | response => "response"

end Side

namespace Exchange

/-- The message of a side. -/
def message (exchange : Exchange) : Side → MessageCapture
  | .request => exchange.request
  | .response => exchange.response

/-- Store headers and body on a side; its status stays. -/
def setMessage (exchange : Exchange) (side : Side) (headers : List (String × String))
    (body : BodyCapture) : Exchange :=
  match side with
  | .request => { exchange with
      request := { exchange.request with headers := headers, body := body } }
  | .response => { exchange with
      response := { exchange.response with headers := headers, body := body } }

@[simp] theorem message_setMessage_body (exchange : Exchange) (side : Side)
    (headers : List (String × String)) (body : BodyCapture) :
    ((exchange.setMessage side headers body).message side).body = body := by cases side <;> rfl

end Exchange

/-- The body that a side stores: a JSON value is redacted first. -/
def sideBody (env : Externals) (config : Redactions) (contentType : Option String)
    (captured : CapturedBody) : BodyCapture :=
  match BodyCapture.fromCaptured env.fromSlice contentType captured with
  | .json value => .json (redactWith config value)
  | body => body

/-- The warnings about a body to be stored, in the order raised. -/
def sideWarnings (env : Externals) (side : Side) (method : Method) (route : String)
    (body : BodyCapture) : List String :=
  match body with
  | .json value => warnUndeclaredHighEntropy env.entropic value
      (side.which ++ " " ++ method.asStr ++ " " ++ route)
  | .truncated _ => [side.which ++ " body for " ++ method.asStr ++ " " ++ route ++ " exceeded " ++
      toString (captureCapBytes / 1024) ++ "KiB and was not sampled"]
  | _ => []

/-- An exchange and the warnings raised so far. -/
structure Recording where
  exchange : Exchange
  warnings : List String

/-- Record a finished body, as one step. -/
def recordSide (env : Externals) (config : Redactions) (side : Side) (method : Method)
    (route : String) (contentType : Option String) (headers : List (String × String))
    (captured : CapturedBody) (recording : Recording) : Recording :=
  let body := sideBody env config contentType captured
  { exchange := recording.exchange.setMessage side headers body
    warnings := recording.warnings ++ sideWarnings env side method route body }

/-- A side stores a JSON value exactly when it is the redaction of a complete,
non-empty body that parses, under a content type that is JSON or absent. -/
theorem sideBody_eq_json_iff {env : Externals} {config : Redactions}
    {contentType : Option String} {captured : CapturedBody} {value : Value} :
    sideBody env config contentType captured = .json value ↔
      captured.truncated = false ∧ captured.bytes ≠ [] ∧
        (BodyCapture.looksLikeJson contentType = true ∨ contentType = none) ∧
        ∃ parsed, env.fromSlice captured.bytes = some parsed ∧
          value = redactWith config parsed := by
  have hjson : sideBody env config contentType captured = .json value ↔
      ∃ parsed, BodyCapture.fromCaptured env.fromSlice contentType captured = .json parsed ∧
        value = redactWith config parsed := by
    unfold sideBody
    cases BodyCapture.fromCaptured env.fromSlice contentType captured <;> simp [eq_comm]
  rw [hjson]
  simp only [BodyCapture.fromCaptured_eq_json_iff]
  constructor
  · rintro ⟨parsed, ⟨htruncated, hbytes, htype, hparse⟩, hvalue⟩
    exact ⟨htruncated, hbytes, htype, parsed, hparse, hvalue⟩
  · rintro ⟨htruncated, hbytes, htype, parsed, hparse, hvalue⟩
    exact ⟨parsed, ⟨htruncated, hbytes, htype, hparse⟩, hvalue⟩

end Cyanotype
