import Cyanotype.Core.Grouping
import Cyanotype.Document.Infer
import Cyanotype.Recorder.Exchange
import Mathlib.Data.Prod.Lex

/-!
# Assembling the document

`build_document` groups the completed exchanges by operation and status in one
pass, then writes one operation object for each group in key order and collects
the pairs that fall below the sample threshold for the notice.
-/

namespace Cyanotype

/-- `GENERATOR_VERSION`. -/
def generatorVersion : String := "0.1.0"

/-- A route template and a lowercased method. -/
structure OperationKey where
  route : String
  method : String

/-- Keys are ordered by route, then method. -/
instance : LinearOrder OperationKey :=
  LinearOrder.lift' (fun k => toLex (k.route, k.method)) fun ⟨_, _⟩ ⟨_, _⟩ h => by
    obtain ⟨rfl, rfl⟩ := Prod.mk.inj (toLex_inj.mp h)
    rfl

/-- What was observed of a status. -/
structure StatusAcc where
  /-- Every response observed at this status, JSON or not. -/
  sampleCount : Nat := 0
  jsonSamples : List Value := []
  declaredSchema : Option Value := none

/-- What was observed of an operation. -/
structure OperationAcc where
  byStatus : BTreeMap Nat StatusAcc := .empty
  securitySchemes : BTreeMap String Unit := .empty
  /-- Every request observed at this operation, whatever its body. -/
  requestsObserved : Nat := 0
  requestSamples : List Value := []

/-! ## Operation objects -/

/-- The name inside a `{name}` segment. -/
def stripBraces : List Char → Option (List Char)
  | [] => none
  | c :: rest => if c = '{' ∧ rest.getLast? = some '}' then some rest.dropLast else none

/-- One untyped string parameter for each templated segment of a route. -/
def pathParameters (route : String) : List Value :=
  ((route.toList.splitOn '/').filterMap stripBraces).map fun name =>
    Value.ofFields [("name", .string (String.ofList name)), ("in", .string "path"),
      ("required", .bool true), ("schema", Value.ofFields [("type", .string "string")])]

/-- The one notice that lists every pair below the threshold. -/
def belowThresholdNotice (below : List String) : String :=
  toString below.length ++ " (operation, status) pair(s) observed fewer than " ++
    toString minSamplesForRequired ++ " samples — `required` is not asserted for these: " ++
    ", ".intercalate below ++
    " (each one's sample count is its response's `x-cyanotype-samples`)"

/-- How the notice names a pair. -/
def noticeEntry (key : OperationKey) (status : Nat) : String :=
  toAsciiUppercase key.method ++ " " ++ key.route ++ " " ++ toString status

/-- `application/json` content with a schema. -/
def jsonContent (schema : Value) : Value :=
  Value.ofFields [("application/json", Value.ofFields [("schema", schema)])]

/-- The schema emitted for a status: a declared one takes precedence over inference. -/
def StatusAcc.schema (acc : StatusAcc) : Option Value :=
  acc.declaredSchema.orElse fun _ =>
    if acc.jsonSamples.isEmpty then none else some (inferSchema acc.jsonSamples)

/-- The response object of a status. -/
def responseObject (status : Nat) (acc : StatusAcc) : Value :=
  let response := Value.ofFields
    [("description", .string ("Observed " ++ toString status ++ " response.")),
      ("x-cyanotype-samples", .ofNat acc.sampleCount)]
  match acc.schema with
  | some schema => response.setField "content" (jsonContent schema)
  | none => response

/-- The request body object of an operation. -/
def requestBodyObject (acc : OperationAcc) : Value :=
  let requestBody := Value.ofFields
    [("content", jsonContent (inferSchema acc.requestSamples)),
      ("x-cyanotype-samples", .ofNat acc.requestSamples.length)]
  if acc.requestsObserved ≥ minSamplesForRequired ∧
      acc.requestSamples.length = acc.requestsObserved then
    requestBody.setField "required" (.bool true)
  else requestBody

/-- One round of the loop over the statuses of an operation. -/
def recordStatus (key : OperationKey) (acc : BTreeMap String Value × List String)
    (entry : Nat × StatusAcc) : BTreeMap String Value × List String :=
  let (status, statusAcc) := entry
  let below :=
    if statusAcc.sampleCount < minSamplesForRequired then acc.2 ++ [noticeEntry key status]
    else acc.2
  (acc.1.insert (toString status) (responseObject status statusAcc), below)

/-- One operation object, with the notice entries its evidence adds. -/
def operationObject (key : OperationKey) (acc : OperationAcc) (belowThreshold : List String) :
    Value × List String :=
  let (responses, belowThreshold) :=
    acc.byStatus.entries.foldl (recordStatus key) (.empty, belowThreshold)
  let operation := Value.ofFields [("responses", .object responses.entries)]
  let operation :=
    if acc.requestSamples.isEmpty then operation
    else operation.setField "requestBody" (requestBodyObject acc)
  let params := pathParameters key.route
  let operation :=
    if params.isEmpty then operation else operation.setField "parameters" (.array params)
  let operation :=
    if acc.securitySchemes.isEmpty then operation
    else operation.setField "security" (.array
      (acc.securitySchemes.entries.map fun e => Value.ofFields [(e.1, .array [])]))
  (operation, belowThreshold)

/-! ## The grouping pass -/

/-- Count a response at its status. -/
def StatusAcc.observe (exchange : Exchange) (acc : StatusAcc) : StatusAcc :=
  let acc := { acc with sampleCount := acc.sampleCount + 1 }
  let acc := match exchange.response.body with
    | .json value => { acc with jsonSamples := acc.jsonSamples ++ [value] }
    | _ => acc
  match exchange.declaredResponseSchema with
  | some declaration =>
    if acc.declaredSchema.isNone then { acc with declaredSchema := some declaration.schema }
    else acc
  | none => acc

/-- Count an exchange at its operation. -/
def OperationAcc.observe (completed : Exchange × Nat) (acc : OperationAcc) : OperationAcc :=
  let (exchange, status) := completed
  let acc := { acc with requestsObserved := acc.requestsObserved + 1 }
  let acc := match exchange.request.body with
    | .json value => { acc with requestSamples := acc.requestSamples ++ [value] }
    | _ => acc
  let acc := { acc with
    byStatus := acc.byStatus.upsert status {} (StatusAcc.observe exchange) }
  match exchange.security with
  | some scheme =>
    { acc with securitySchemes := acc.securitySchemes.insert scheme.componentName () }
  | none => acc

/-- What the pass over the exchanges accumulates. -/
structure DocumentAcc where
  operations : BTreeMap OperationKey OperationAcc := .empty
  securitySchemeDefs : BTreeMap String Value := .empty
  componentSchemas : BTreeMap String Value := .empty

/-- The operation an exchange belongs to. -/
def Exchange.operationKey (exchange : Exchange) : OperationKey where
  route := exchange.routeTemplate
  method := toAsciiLowercase exchange.method.asStr

/-- One round of the grouping pass; an exchange without a response status is skipped. -/
def DocumentAcc.record (acc : DocumentAcc) (exchange : Exchange) : DocumentAcc :=
  match exchange.response.status with
  | none => acc
  | some status =>
    let acc := { acc with
      operations := acc.operations.upsert exchange.operationKey {}
        (OperationAcc.observe (exchange, status)) }
    let acc := match exchange.declaredResponseSchema with
      | some declaration => { acc with
          componentSchemas := declaration.definitions.entries.foldl
            (fun m e => m.orInsert e.1 e.2) acc.componentSchemas }
      | none => acc
    match exchange.security with
    | some scheme => { acc with
        securitySchemeDefs := acc.securitySchemeDefs.orInsert scheme.componentName scheme.toJson }
    | none => acc

/-- The grouping pass. -/
def groupExchanges (exchanges : List Exchange) : DocumentAcc :=
  exchanges.foldl DocumentAcc.record {}

/-! ## The document -/

/-- One round of the loop over the operations. -/
def addOperation (acc : BTreeMap String Value × List String)
    (entry : OperationKey × OperationAcc) : BTreeMap String Value × List String :=
  let (key, operationAcc) := entry
  let (operation, below) := operationObject key operationAcc acc.2
  (acc.1.upsert key.route (Value.ofFields []) (·.setField key.method operation), below)

/-- The paths and the notice entries of the grouped exchanges. -/
def assemblePaths (acc : DocumentAcc) : BTreeMap String Value × List String :=
  acc.operations.entries.foldl addOperation (.empty, [])

/-- The `components` of the document, if there are any. -/
def components (acc : DocumentAcc) : Option Value :=
  if acc.securitySchemeDefs.isEmpty && acc.componentSchemas.isEmpty then none
  else
    let components := Value.ofFields []
    let components :=
      if acc.securitySchemeDefs.isEmpty then components
      else components.setField "securitySchemes" (.object acc.securitySchemeDefs.entries)
    some <|
      if acc.componentSchemas.isEmpty then components
      else components.setField "schemas" (.object acc.componentSchemas.entries)

/-- Assemble the document from the exchanges, and append the notice to the warnings. -/
def buildDocument (exchanges : List Exchange) (warnings : List String) : Value × List String :=
  let acc := groupExchanges exchanges
  let (paths, belowThreshold) := assemblePaths acc
  let warnings :=
    if belowThreshold.isEmpty then warnings
    else warnings ++ [belowThresholdNotice belowThreshold]
  let doc := Value.ofFields
    [("openapi", .string "3.1.0"),
      ("info", Value.ofFields
        [("title", .string "Recorded API"), ("version", .string "0.0.0"),
          ("x-cyanotype-generator", .string ("cyanotype/" ++ generatorVersion))]),
      ("paths", .object paths.entries)]
  let doc :=
    if warnings.isEmpty then doc
    else doc.updateField "info"
      (·.setField "x-cyanotype-warnings" (.array (warnings.map .string)))
  let doc := match components acc with
    | some components => doc.setField "components" components
    | none => doc
  (doc, warnings)

/-- The recorded exchange of the tests: a JSON response and nothing else. -/
def exchangeWithJsonResponse (route : String) (method : Method) (status : Nat) (body : Value) :
    Exchange :=
  { Exchange.new method route none with
    response := { status := some status, headers := [], body := .json body } }

/-! ## Reading a document -/

/-- The operation object of a route and method. -/
def operationAt (doc : Value) (route method : String) : Option Value :=
  ((doc.get "paths").bind (·.get route)).bind (·.get method)

/-- The response object of a route, method and status code. -/
def responseAt (doc : Value) (route method code : String) : Option Value :=
  ((operationAt doc route method).bind (·.get "responses")).bind (·.get code)

/-- The schema of the JSON content of a response or request body. -/
def contentSchema (message : Value) : Option Value :=
  ((message.get "content").bind (·.get "application/json")).bind (·.get "schema")

/-- The definition of a name in the document's components. -/
def componentSchema (doc : Value) (name : String) : Option Value :=
  ((doc.get "components").bind (·.get "schemas")).bind (·.get name)

end Cyanotype
