import ChangeCapture.Avro.Description
import ChangeCapture.Change.Basic
import ChangeCapture.Mining.Config
import ChangeCapture.Mining.Error
import ChangeCapture.Text.Bytes

/-!
# Errors

Everything that can fail, as causes. An error has a message for people, and a category and a code
for alerts. The reasons for which a document is no JSON and data is no Avro are not told apart; a
mark stands for them in messages.
-/

namespace ChangeCapture

/-- Stands for the reason why something is no Avro. -/
def avroMark : String := "<avro>"

/-- Stands for the reason why something is no JSON. -/
def jsonMark : String := "<json>"

/-- What is wrong with a schema document. -/
inductive SchemaFault
  | notAvro (fingerprint : Change.Fingerprint)
  | notJson
  | notRecord
  | noBefore
  | beforeNotRecord
  | unnamedColumn
  | noNamespace
  | noName
  /-- A schema was delivered whose document has a fault. -/
  | unusable (fingerprint : Change.Fingerprint) (cause : SchemaFault)
  | other (text : String)
  deriving DecidableEq, Repr

namespace SchemaFault

def title : String := "Schema error: "

def message : SchemaFault → String
  | notAvro fingerprint => "schema " ++ fingerprint.toText ++ " is not valid Avro: " ++ avroMark
  | notJson => "schema document is not valid JSON: " ++ jsonMark
  | notRecord => "schema document is not a record"
  | noBefore => "schema document has no 'before' field"
  | beforeNotRecord => "'before' field does not define a record"
  | unnamedColumn => "column definition without a name"
  | noNamespace => "DDL schema has no 'namespace'"
  | noName => "DDL schema has no 'name'"
  | unusable fingerprint cause =>
      "schema " ++ fingerprint.toText ++ " could not be loaded: " ++ title ++ cause.message
  | other text => text

end SchemaFault

/-- What is wrong with settings. -/
inductive SettingsFault
  | connection (fault : Mining.ConfigFault)
  | fingerprint (text : String) (fault : Text.IntegerFault)
  | other (text : String)
  deriving DecidableEq, Repr

def SettingsFault.message : SettingsFault → String
  | connection fault => fault.message
  | fingerprint text fault => "invalid schema fingerprint '" ++ text ++ "': " ++ fault.message
  | other text => text

/-- What is wrong with data. -/
inductive DataFault
  | notAvro
  | notRecord (what : String) (found : Avro.Value)
  | notString (field : String) (found : Avro.Value)
  | notLong (field : String) (found : Avro.Value)
  | notBytes (field : String) (found : Avro.Value)
  | notArray (field : String) (found : Avro.Value)
  | notStringItem (field : String) (found : Avro.Value)
  | missingField (field : String)
  | wideDecimal (bytes : Nat)
  | notUtf8 (fault : Text.Utf8.Fault)
  | other (text : String)

namespace DataFault

def ofDecimal : Avro.Decimal.Fault → DataFault
  | .empty => .notAvro
  | .wide bytes => .wideDecimal bytes

def message : DataFault → String
  | notAvro => avroMark
  | notRecord what found => "expected " ++ what ++ " to be a record, got " ++ found.describe
  | notString field found => "field '" ++ field ++ "' is not a string: " ++ found.describe
  | notLong field found => "field '" ++ field ++ "' is not a long: " ++ found.describe
  | notBytes field found => "field '" ++ field ++ "' is not bytes: " ++ found.describe
  | notArray field found => "field '" ++ field ++ "' is not an array: " ++ found.describe
  | notStringItem field found =>
      "field '" ++ field ++ "' contains a non-string item: " ++ found.describe
  | missingField field => "required field '" ++ field ++ "' is missing"
  | wideDecimal bytes => "decimal of " ++ Avro.describeNat bytes ++ " bytes exceeds 128 bits"
  | notUtf8 fault => "DDL payload is not UTF-8: " ++ fault.message
  | other text => text

end DataFault

inductive Category
  | database
  | schema
  | configuration
  | network
  | serialization
  deriving DecidableEq, Repr

namespace Category

def word : Category → String
  | database => "database"
  | schema => "schema"
  | configuration => "configuration"
  | network => "network"
  | serialization => "serialization"

def all : List Category := [database, schema, configuration, network, serialization]

def ofWord? (s : String) : Option Category := all.find? fun c => c.word == s

/-- A category in JSON: its word, or an object that gives null to its word. -/
def ofWritten? : Json.Written → Option Category
  | .text pieces => (Json.textOf? pieces).bind ofWord?
  | .object [(key, .null)] => (Json.textOf? key).bind ofWord?
  | _ => none

end Category

inductive Error
  | mining (cause : Mining.Error)
  | missingInputField (field : String)
  | schemaNotFound (fingerprint : Change.Fingerprint)
  | unrecognizedOperation (op : String)
  | schema (fault : SchemaFault)
  | settings (fault : SettingsFault)
  | data (fault : DataFault)
  | json

namespace Error

def message : Error → String
  | mining cause => "LogMiner error: " ++ cause.message
  | missingInputField field => "Input record does not contain the field '" ++ field ++ "'"
  | schemaNotFound fingerprint =>
      "Schema with fingerprint " ++ fingerprint.toText ++ " not found in schema cache"
  | unrecognizedOperation op => "Unrecognized operation type '" ++ op ++ "'"
  | schema fault => SchemaFault.title ++ fault.message
  | settings fault => "Configuration error: " ++ fault.message
  | data fault => "Serialization error: " ++ fault.message
  | json => "JSON error: " ++ jsonMark

def category : Error → Category
  | mining (.connection _ _) => .network
  | mining _ => .database
  | missingInputField _ => .configuration
  | schemaNotFound _ => .configuration
  | settings _ => .configuration
  | unrecognizedOperation _ => .serialization
  | schema _ => .schema
  | data _ => .serialization
  | json => .serialization

def code : Error → String
  | mining _ => "logminer_error"
  | missingInputField _ => "missing_input_field"
  | schemaNotFound _ => "schema_not_found"
  | unrecognizedOperation _ => "unrecognized_operation"
  | schema _ => "schema_error"
  | settings _ => "config_error"
  | data _ => "serialization_error"
  | json => "json_error"

/-- Whether another attempt may succeed. Only failures of mining ever pass. -/
def isRetriable : Error → Bool
  | mining cause => cause.isRetriable
  | _ => false

end Error

end ChangeCapture
