import ChangeCapture.Error
import ChangeCapture.Json.Printer
import ChangeCapture.Json.Reading

/-!
# Columns of a table

A schema document either describes a row change, in which the type of the field `before` has a field
for each column, or it is a list of columns already: a record called `columns` without a namespace.
Fields that only tell whether a column was captured are no columns.
-/

namespace ChangeCapture.Change

/-- The end of the name of the flag that tells whether a column is missing. -/
def missingSuffix : String := "_isMissing"

/-- The field that holds the image before the change. -/
def beforeField : String := "before"

/-- The name of a record that is a list of columns. -/
def columnsName : String := "columns"

/-- Whether a field is the flag of a column. -/
def isMissingFlag (name : String) : Bool := missingSuffix.toList.isSuffixOf name.toList

structure Column where
  name : String
  /-- The declared type; null if none is declared. -/
  type : Json
  /-- The field as it is written in the document. -/
  definition : Json

structure Columns where
  list : List Column

namespace Columns

/-- The fields of a record type. -/
def recordFields? (v : Json) : Option (List Json) :=
  if v.text? "type" = some "record" then (v.get? "fields").bind Json.asArr? else none

mutual

/-- The fields of the first record in a type, which may be a union of unions. -/
def firstRecord? : Json → Option (List Json)
  | .obj members => recordFields? (.obj members)
  | .arr branches => firstRecordOf? branches
  | _ => none

def firstRecordOf? : List Json → Option (List Json)
  | [] => none
  | v :: rest =>
      match firstRecord? v with
      | some fields => some fields
      | none => firstRecordOf? rest

end

/-- A list of columns already. -/
def isColumnList (v : Json) : Bool :=
  v.text? "name" == some columnsName && (v.get? "namespace").isNone

/-- The fields among which the columns are. -/
def sourceFields (v : Json) : Except SchemaFault (List Json) :=
  match recordFields? v with
  | none => .error .notRecord
  | some fields =>
      if isColumnList v then .ok fields
      else
        match fields.find? fun f => f.text? "name" == some beforeField with
        | none => .error .noBefore
        | some f =>
            match (f.get? "type").bind firstRecord? with
            | none => .error .beforeNotRecord
            | some columns => .ok columns

/-- The columns among fields. All of them need a name, the flags too. -/
def ofFields : List Json → Except SchemaFault (List Column)
  | [] => .ok []
  | f :: rest =>
      match f.text? "name" with
      | none => .error .unnamedColumn
      | some name =>
          match ofFields rest with
          | .error fault => .error fault
          | .ok columns =>
              if isMissingFlag name then .ok columns
              else .ok (⟨name, (f.get? "type").getD .null, f⟩ :: columns)

def ofJson (v : Json) : Except SchemaFault Columns :=
  match sourceFields v with
  | .error fault => .error fault
  | .ok fields => (ofFields fields).map Columns.mk

def ofDocument (document : String) : Except SchemaFault Columns :=
  match Json.parse? document with
  | none => .error .notJson
  | some v => ofJson v

/-- The record that lists the columns. -/
def toJson (c : Columns) : Json :=
  .ofMembers [("type", .str "record"), ("name", .str columnsName),
    ("fields", .arr (c.list.map Column.definition))]

/-- The text of that record. -/
def document (c : Columns) : String := c.toJson.compress

def names (c : Columns) : List String := c.list.map Column.name

/-- The first column of a name. -/
def find? (c : Columns) (name : String) : Option Column := c.list.find? fun x => x.name == name

end Columns

end ChangeCapture.Change
