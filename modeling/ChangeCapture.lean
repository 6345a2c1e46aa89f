import ChangeCapture.Avro.Decimal
import ChangeCapture.Avro.Declaration
import ChangeCapture.Avro.Decoder
import ChangeCapture.Avro.Description
import ChangeCapture.Avro.Name
import ChangeCapture.Avro.Rendering
import ChangeCapture.Avro.Resolution
import ChangeCapture.Avro.Schema
import ChangeCapture.Avro.Value
import ChangeCapture.Avro.Varint
import ChangeCapture.Change.Basic
import ChangeCapture.Change.Canonical
import ChangeCapture.Change.Columns
import ChangeCapture.Change.Fields
import ChangeCapture.Change.Inbound
import ChangeCapture.Change.Normalizer
import ChangeCapture.Change.Record
import ChangeCapture.Change.Row
import ChangeCapture.Change.SchemaCache
import ChangeCapture.Error
import ChangeCapture.Json.Basic
import ChangeCapture.Json.Printer
import ChangeCapture.Json.Reading
import ChangeCapture.Json.Slots
import ChangeCapture.Json.Token
import ChangeCapture.Json.Written
import ChangeCapture.Keyed
import ChangeCapture.Mining.Config
import ChangeCapture.Mining.Database
import ChangeCapture.Mining.Error
import ChangeCapture.Mining.Session
import ChangeCapture.Number.Binary
import ChangeCapture.Number.Shortest
import ChangeCapture.Text.Bytes
import ChangeCapture.Text.Characters
import ChangeCapture.Text.Integer
import ChangeCapture.Proofs.Mining.Protocol
import ChangeCapture.Proofs.Mining.Registration
import ChangeCapture.Proofs.Avro.Extension
import ChangeCapture.Proofs.Avro.Truncation
import ChangeCapture.Proofs.Change.Rows
import ChangeCapture.Proofs.Change.Truncation
import ChangeCapture.Proofs.Change.Documents
import ChangeCapture.Proofs.Avro.Definitions
import ChangeCapture.Proofs.Avro.Declarations
import ChangeCapture.Proofs.Avro.Records
import ChangeCapture.Proofs.Avro.Scales
import ChangeCapture.Proofs.Avro.Decimals
import ChangeCapture.Proofs.Change.Columns
import ChangeCapture.Proofs.Change.Images
import ChangeCapture.Proofs.Change.Coverage
import ChangeCapture.Proofs.Keyed
import ChangeCapture.Proofs.Text.Utf8
import ChangeCapture.Proofs.Number.Shortest
import ChangeCapture.Proofs.Json.Numerals
import ChangeCapture.Proofs.Json.Tokens
import ChangeCapture.Proofs.Json.RoundTrip
import ChangeCapture.Proofs.Avro.Varint
import ChangeCapture.Proofs.Avro.DistinctFields
import ChangeCapture.Proofs.Change.Wrappers
import ChangeCapture.Proofs.Change.Caches
import ChangeCapture.Proofs.Change.StateRecords
import ChangeCapture.Proofs.Change.Outcomes
import ChangeCapture.Proofs.Change.WrappedRows
import ChangeCapture.Proofs.Change.Membership
import ChangeCapture.Proofs.Change.Accounting
import ChangeCapture.Proofs.Change.Isolation
import ChangeCapture.Proofs.Change.Tables
import ChangeCapture.Proofs.Change.DecimalColumns
import ChangeCapture.Proofs.Change.Idempotence
import ChangeCapture.Proofs.Mining.Failures
import ChangeCapture.Proofs.Mining.Secrecy
import ChangeCapture.Proofs.Change.Selections
import ChangeCapture.Proofs.Mining.Establishment
import ChangeCapture.Proofs.Mining.Codes
import ChangeCapture.Proofs.Json.Nearness
import ChangeCapture.Proofs.Avro.NearValues
import ChangeCapture.Proofs.Avro.Likeness
import ChangeCapture.Proofs.Avro.Readings
import ChangeCapture.Proofs.Avro.Mentions
import ChangeCapture.Proofs.Avro.Rereading
import ChangeCapture.Proofs.Avro.SelfContained
import ChangeCapture.Proofs.Change.Sources
import ChangeCapture.Proofs.Change.CanonicalSchemas
import ChangeCapture.Proofs.Change.FieldOrder
import ChangeCapture.Proofs.Change.FailureOrder
import ChangeCapture.Proofs.Change.CutWrappers
import ChangeCapture.Proofs.Avro.Padding
import ChangeCapture.Proofs.Avro.TypedValues
import ChangeCapture.Proofs.Avro.NestedDecimals
import ChangeCapture.Proofs.Text.Bytes
import ChangeCapture.Proofs.Avro.Lossless
import ChangeCapture.Proofs.Change.ColumnOrder
import ChangeCapture.Proofs.Avro.BareFields
import ChangeCapture.Proofs.Change.ChangeSchemas
import ChangeCapture.Proofs.Change.StateKeys
