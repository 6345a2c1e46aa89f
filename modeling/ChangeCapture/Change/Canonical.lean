import ChangeCapture.Change.Columns
import ChangeCapture.Change.Record
import ChangeCapture.Change.Row

/-!
# Canonical records of tables and rows
-/

namespace ChangeCapture.Change

/-! ## Table definitions

A schema document that announces the columns of a table, and the record made from it. -/

structure TableDefinition where
  /-- The namespace and the name of the document, joined by an underscore. -/
  table : String
  document : String
  deriving DecidableEq, Repr

namespace TableDefinition

def ofDocument (document : String) : Except Error TableDefinition :=
  match Json.parse? document with
  | none => .error .json
  | some v =>
      match v.text? "namespace" with
      | none => .error (.schema .noNamespace)
      | some space =>
          match v.text? "name" with
          | none => .error (.schema .noName)
          | some name => .ok ⟨space ++ "_" ++ name, document⟩

def parse (payload : List UInt8) : Except Error TableDefinition :=
  match Text.Utf8.decode payload with
  | .error fault => .error (.data (.notUtf8 fault))
  | .ok cs => ofDocument (String.ofList cs)

end TableDefinition

/-- The canonical document of a schema document. -/
def normalizeSchema (document : String) : Except SchemaFault String :=
  (Columns.ofDocument document).map Columns.document

/-- The record of an announced table. -/
def normalizeDdl (payload : List UInt8) : Except Error DdlRecord :=
  match TableDefinition.parse payload with
  | .error e => .error e
  | .ok d =>
      match normalizeSchema d.document with
      | .error fault => .error (.schema fault)
      | .ok schema => .ok ⟨d.table, schema⟩

/-! ## Selecting a change

Which columns of a row belong to its change: all columns after an insertion, those that were
captured after an update, all columns before a deletion, and none for any other operation. -/

/-- A table's name with its parts joined by underscores. -/
def flattenTable (table : String) : String :=
  String.ofList (table.toList.map fun c => if c = '.' then '_' else c)

namespace RowImage

/-- All columns of an image. -/
def columns (image : RowImage) : Fields := image.fields.filter fun f => !isMissingFlag f.1

/-- For each field of an image whether it is a column that was captured. -/
def captured (image : RowImage) : List Bool :=
  image.fields.map fun f => !isMissingFlag f.1 && !image.isMissing f.1

/-- The columns of an image that were captured. -/
def presentColumns (image : RowImage) : Fields :=
  (image.fields.zip image.captured).filterMap fun p => if p.2 then some p.1 else none

end RowImage

namespace Row

/-- The columns that an operation selects. -/
def selected (row : Row) : Operation → Fields
  | .insert => (row.after.map RowImage.columns).getD []
  | .update => (row.after.map RowImage.presentColumns).getD []
  | .delete => (row.before.map RowImage.columns).getD []
  | .other _ => []

end Row

/-- The fields of columns that the table has, with their declared types. -/
def typedFields (columns : Columns) (fields : Fields) : List ChangeField :=
  fields.filterMap fun f => (columns.find? f.1).map fun c => ⟨f.1, c.type, f.2⟩

/-- The change of a row. In strict mode an operation that is not known is an error. -/
def normalizeRow (row : Row) (columns : Columns) (strict : Bool) : Except Error DmlRecord :=
  let op := Operation.ofCode row.opType
  if strict && !op.isKnown then .error (.unrecognizedOperation op.code)
  else
    .ok {
      table := flattenTable row.table
      schema := columns.document
      opType := row.opType
      primaryKeys := row.primaryKeys
      change := ⟨typedFields columns (row.selected op)⟩ }

end ChangeCapture.Change
