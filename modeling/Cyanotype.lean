import Cyanotype.Core.SortedMap
import Cyanotype.Core.Text
import Cyanotype.Core.Json
import Cyanotype.Core.JsonPath
import Cyanotype.Core.JsonSchema
import Cyanotype.Core.Metaschema
import Cyanotype.Core.Grouping
import Cyanotype.Core.Nested
import Cyanotype.Core.WireType
import Cyanotype.Core.Run
import Cyanotype.Core.Mutex
import Cyanotype.Recorder.Auth
import Cyanotype.Recorder.Exchange
import Cyanotype.Recorder.Headers
import Cyanotype.Recorder.Scheme
import Cyanotype.Recorder.MediaType
import Cyanotype.Recorder.Redact
import Cyanotype.Recorder.Redaction
import Cyanotype.Recorder.Reports
import Cyanotype.Recorder.Scan
import Cyanotype.Recorder.Layer
import Cyanotype.Recorder.Silenced
import Cyanotype.Recorder.Body
import Cyanotype.Recorder.Transparency
import Cyanotype.Recorder.Stacks
import Cyanotype.Recorder.Declare
import Cyanotype.Recorder.Shared
import Cyanotype.Recorder.Store
import Cyanotype.Recorder.Raised
import Cyanotype.Recorder.Tally
import Cyanotype.Recorder.Growth
import Cyanotype.Recorder.Threads
import Cyanotype.Recorder.Duties
import Cyanotype.Recorder.Others
import Cyanotype.Recorder.Stages
import Cyanotype.Recorder.Sections
import Cyanotype.Recorder.Linearization
import Cyanotype.Recorder.Panics
import Cyanotype.Recorder.Template
import Cyanotype.Recorder.Service
import Cyanotype.Recorder.History
import Cyanotype.Recorder.Isolation
import Cyanotype.Document.Infer
import Cyanotype.Document.Evidence
import Cyanotype.Document.Soundness
import Cyanotype.Document.Positions
import Cyanotype.Document.Admission
import Cyanotype.Document.Nullability
import Cyanotype.Document.Emission
import Cyanotype.Document.Examples
import Cyanotype.Document.Saturation
import Cyanotype.Document.Redacted
import Cyanotype.Document.Openapi
import Cyanotype.Document.Parameters
import Cyanotype.Document.Paths
import Cyanotype.Document.Accumulate
import Cyanotype.Document.Reading
import Cyanotype.Document.Warnings
import Cyanotype.Document.Account
import Cyanotype.Document.Conservation
import Cyanotype.Document.Security
import Cyanotype.Document.Structure
import Cyanotype.Document.Routes
import Cyanotype.Document.Validity
import Cyanotype.Document.Completion
import Cyanotype.Document.Notice
import Cyanotype.Document.References
import Cyanotype.Document.Declared
import Cyanotype.Document.Precedence
import Cyanotype.Document.Order
import Cyanotype.Document.Schedules
import Cyanotype.Document.Growth
import Cyanotype.Document.Widening
import Cyanotype.Document.Conformance
import Cyanotype.Document.NonInterference
import Cyanotype.Document.Credentials
