import ChangeCapture.Avro.Rendering
import ChangeCapture.Change.Basic
import ChangeCapture.Error
import ChangeCapture.Json.Slots

/-!
# Canonical records

What comes out for downstream: the new columns of a table, or the change of one of its rows.
-/

namespace ChangeCapture.Change

/-- A column of a change, with the type that the schema declares for it. -/
structure ChangeField where
  name : String
  type : Json
  value : Avro.Value

/-- The columns that a row change touches. -/
structure ChangeSet where
  fields : List ChangeField

namespace ChangeSet

def empty : ChangeSet := ⟨[]⟩

def push (c : ChangeSet) (field : ChangeField) : ChangeSet := ⟨c.fields ++ [field]⟩

/-- The first field of a name. -/
def get? (c : ChangeSet) (name : String) : Option ChangeField :=
  c.fields.find? fun f => f.name == name

def names (c : ChangeSet) : List String := c.fields.map ChangeField.name

def size (c : ChangeSet) : Nat := c.fields.length

def isEmpty (c : ChangeSet) : Bool := c.fields.isEmpty

/-- A record type with exactly these columns. -/
def schemaJson (c : ChangeSet) : Json :=
  .ofMembers [("type", .str "record"), ("name", .str "change"),
    ("fields", .arr (c.fields.map fun f =>
      .ofMembers [("name", .str f.name), ("type", f.type)]))]

/-- The names and values in JSON, each value with the scale of its declared type. -/
def members : List ChangeField → Except DataFault (List (String × Json))
  | [] => .ok []
  | f :: rest =>
      match f.value.columnToJson? f.type with
      | .error fault => .error (.ofDecimal fault)
      | .ok v => (members rest).map ((f.name, v) :: ·)

/-- The values by column; of columns with one name the last counts. -/
def toJson (c : ChangeSet) : Except DataFault Json := (members c.fields).map .ofMembers

end ChangeSet

/-- A change of a table's columns. -/
structure DdlRecord where
  table : String
  schema : String
  deriving DecidableEq, Repr

namespace DdlRecord

def members (r : DdlRecord) : List (String × Json) :=
  [("table", .str r.table), ("schema", .str r.schema)]

def toJson (r : DdlRecord) : Json := .ofMembers r.members

open Json.Written in
def ofWritten? (w : Json.Written) : Option DdlRecord :=
  match w.slots? ["table", "schema"] with
  | some [some table, some schema] => do return ⟨← table.text?, ← schema.text?⟩
  | _ => none

end DdlRecord

/-- A change of a row. -/
structure DmlRecord where
  table : String
  schema : String
  opType : String
  primaryKeys : List String
  change : ChangeSet

namespace DmlRecord

def operation (r : DmlRecord) : Operation := .ofCode r.opType

def members (r : DmlRecord) : Except DataFault (List (String × Json)) :=
  r.change.toJson.map fun change =>
    [("table", .str r.table), ("schema", .str r.schema), ("op_type", .str r.opType),
      ("primary_keys", .strings r.primaryKeys), ("change", change)]

end DmlRecord

inductive CanonicalRecord
  | ddl (record : DdlRecord)
  | dml (record : DmlRecord)

namespace CanonicalRecord

def table : CanonicalRecord → String
  | ddl r => r.table
  | dml r => r.table

def schema : CanonicalRecord → String
  | ddl r => r.schema
  | dml r => r.schema

def kind : CanonicalRecord → String
  | ddl _ => "ddl"
  | dml _ => "dml"

def members : CanonicalRecord → Except DataFault (List (String × Json))
  | ddl r => .ok r.members
  | dml r => r.members

/-- The record in JSON, with its kind. -/
def toJson (r : CanonicalRecord) : Except DataFault Json :=
  r.members.map fun members => .ofMembers (members ++ [("kind", .str r.kind)])

end CanonicalRecord

end ChangeCapture.Change
