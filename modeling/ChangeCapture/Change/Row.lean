import ChangeCapture.Avro.Decoder
import ChangeCapture.Change.Columns
import ChangeCapture.Change.Fields

/-!
# Rows

A decoded row change: the table, the kind of operation, and the images of the row before and after
it.
-/

namespace ChangeCapture.Change

/-- The columns of a row with the flags that tell which of them are missing. -/
structure RowImage where
  fields : Fields

namespace RowImage

/-- The value of the first field of a name. -/
def get? (image : RowImage) (name : String) : Option Avro.Value := image.fields.lookup name

/-- Whether a column was not captured: only a flag that is true says so. -/
def isMissing (image : RowImage) (column : String) : Bool :=
  match (image.get? (column ++ missingSuffix)).map Avro.Value.unwrap with
  | some (.boolean true) => true
  | _ => false

end RowImage

structure Row where
  table : String
  primaryKeys : List String
  /-- The code of the operation, as it was captured. -/
  opType : String
  before : Option RowImage
  after : Option RowImage

namespace Row

/-- An image of a row; a field that is missing or null gives none. -/
def takeImage (name : String) (fields : Fields) : Except DataFault (Option RowImage × Fields) :=
  match fields.take? name with
  | none => .ok (none, fields)
  | some (v, rest) =>
      match v.unwrap with
      | .null => .ok (none, rest)
      | w => (Fields.ofValue name w).map fun image => (some ⟨image⟩, rest)

/-- The row that a decoded record holds. -/
def ofValue (v : Avro.Value) : Except DataFault Row := do
  let fields ← Fields.ofValue "row payload" v
  let (table, fields) ← fields.takeString "table"
  let (primaryKeys, fields) ← fields.takeStrings "primary_keys"
  let (opType, fields) ← fields.takeString "op_type"
  let (before, fields) ← takeImage beforeField fields
  let (after, _) ← takeImage "after" fields
  return ⟨table, primaryKeys, opType, before, after⟩

/-- The row that a payload holds, written with the given schema. -/
def decode (schema : Avro.Schema) (payload : List UInt8) : Except DataFault Row :=
  match schema.decode? payload with
  | none => .error .notAvro
  | some v => ofValue v

end Row

end ChangeCapture.Change
