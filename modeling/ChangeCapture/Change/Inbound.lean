import ChangeCapture.Avro.Decoder
import ChangeCapture.Change.Fields
import ChangeCapture.Error

/-!
# Inbound records and wrappers
-/

namespace ChangeCapture.Change

/-! ## Inbound records

A record comes with a name, which tells what its payload is: a marker without data, the schema
document of a table, or the wrapper of a row. -/

structure InboundRecord where
  name : Option String
  fields : List (String × List UInt8)
  deriving DecidableEq, Repr

namespace InboundRecord

def field? (r : InboundRecord) (name : String) : Option (List UInt8) := r.fields.lookup name

end InboundRecord

inductive Envelope
  | marker
  | ddl (payload : List UInt8)
  | row (wrapper : List UInt8)
  deriving DecidableEq, Repr

namespace Envelope

def markerName : String := "GenericWrapperSchema"

def ddlName : String := "DDLRecord"

/-- The record's payload as what its name says. A marker needs the payload field too. -/
def classify (r : InboundRecord) (inputField : String) : Except Error Envelope :=
  match r.field? inputField with
  | none => .error (.missingInputField inputField)
  | some payload =>
      if r.name = some markerName then .ok marker
      else if r.name = some ddlName then .ok (ddl payload)
      else .ok (row payload)

def kind : Envelope → String
  | marker => "marker"
  | ddl _ => "ddl"
  | row _ => "dml"

def payload? : Envelope → Option (List UInt8)
  | marker => none
  | ddl payload => some payload
  | row wrapper => some wrapper

end Envelope

/-! ## Wrappers

A row travels inside a wrapper, which names its table and the schema it was written with. -/

structure Wrapper where
  tableName : String
  fingerprint : Fingerprint
  payload : List UInt8
  deriving DecidableEq, Repr

namespace Wrapper

def schema : Avro.Schema :=
  .record ⟨"generic_wrapper", some "oracle.goldengate"⟩
    [⟨"table_name", .string, none⟩, ⟨"schema_fingerprint", .long, none⟩,
      ⟨"payload", .bytes, none⟩]

def ofValue (v : Avro.Value) : Except DataFault Wrapper := do
  let fields ← Fields.ofValue "generic wrapper" v
  let (tableName, fields) ← fields.takeString "table_name"
  let (fingerprint, fields) ← fields.takeLong "schema_fingerprint"
  let (payload, _) ← fields.takeBytes "payload"
  return ⟨tableName, ⟨fingerprint⟩, payload⟩

/-- The wrapper at the front of the input. -/
def decode (bytes : List UInt8) : Except DataFault Wrapper :=
  match schema.decode? bytes with
  | none => .error .notAvro
  | some v => ofValue v

/-- Bytes with their length in front. -/
def encodeBlob (data : List UInt8) : List UInt8 :=
  Avro.Varint.writeLong (Int64.ofNat data.length) ++ data

def encode (w : Wrapper) : List UInt8 :=
  encodeBlob (Text.Utf8.encode w.tableName.toList)
    ++ Avro.Varint.writeLong w.fingerprint.value
    ++ encodeBlob w.payload

end Wrapper

end ChangeCapture.Change
