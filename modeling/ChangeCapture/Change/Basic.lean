import ChangeCapture.Json.Slots
import ChangeCapture.Text.Characters

/-!
# Fingerprints, operations, settings and counters

The plain data of a normalizer, with its written forms.
-/

namespace ChangeCapture.Change

/-! ## Fingerprints

A version of a table's schema goes by a signed number of 64 bits. -/

structure Fingerprint where
  value : Int64
  deriving DecidableEq, Repr

namespace Fingerprint

def toText (f : Fingerprint) : String := String.ofList (Text.writeInt f.value.toInt)

/-- The fingerprint written by a text; blanks around it do not matter. -/
def ofText (s : String) : Except Text.IntegerFault Fingerprint :=
  (Text.readInt64 (Text.trim s.toList)).map Fingerprint.mk

def toJson (f : Fingerprint) : Json := .int f.value.toInt

def ofWritten? (w : Json.Written) : Option Fingerprint := w.int64?.map Fingerprint.mk

end Fingerprint

/-! ## Operations

What a row change does, known by a code of one letter. -/

inductive Operation
  | insert
  | update
  | delete
  /-- Any other code, kept as it is. -/
  | other (code : String)
  deriving DecidableEq, Repr

namespace Operation

def ofCode (code : String) : Operation :=
  if code = "I" then insert
  else if code = "U" then update
  else if code = "D" then delete
  else other code

def code : Operation → String
  | insert => "I"
  | update => "U"
  | delete => "D"
  | other code => code

def isKnown : Operation → Bool
  | other _ => false
  | _ => true

end Operation

/-! ## Settings of a normalizer -/

structure Settings where
  /-- The field of a record that holds its payload, as it was given. -/
  inputField : String
  /-- Whether operations that are not known are errors. -/
  strictOpTypes : Bool
  deriving DecidableEq, Repr

namespace Settings

def defaultInputField : String := "message"

def default : Settings := ⟨defaultInputField, false⟩

/-- The field that is read. A blank name stands for the default; any other is taken as it is. -/
def effectiveField (s : Settings) : String :=
  if Text.isBlankText s.inputField then defaultInputField else s.inputField

def toJson (s : Settings) : Json :=
  .ofMembers [("input_field", .str s.inputField), ("strict_op_types", .bool s.strictOpTypes)]

open Json.Written in
def ofWritten? (w : Json.Written) : Option Settings :=
  match w.slots? ["input_field", "strict_op_types"] with
  | some [field, strict] => do
      return ⟨← orElse? text? default.inputField field,
        ← orElse? bool? default.strictOpTypes strict⟩
  | _ => none

/-- The settings of a JSON text; what it does not mention keeps its default. -/
def parse? (text : String) : Option Settings :=
  (Json.Written.ofChars? text.toList).bind ofWritten?

end Settings

/-! ## Counters

How many records a normalizer has seen and what became of them. The counters have 64 bits and
wrap. -/

structure Counters where
  received : UInt64
  ddl : UInt64
  dml : UInt64
  markers : UInt64
  /-- Rows whose operation is not known. -/
  unknownOps : UInt64
  errors : UInt64
  deriving DecidableEq, Repr

namespace Counters

def zero : Counters := ⟨0, 0, 0, 0, 0, 0⟩

def countReceived (c : Counters) : Counters := { c with received := c.received + 1 }

def countDdl (c : Counters) : Counters := { c with ddl := c.ddl + 1 }

def countDml (c : Counters) : Counters := { c with dml := c.dml + 1 }

def countMarker (c : Counters) : Counters := { c with markers := c.markers + 1 }

def countUnknownOp (c : Counters) : Counters := { c with unknownOps := c.unknownOps + 1 }

def countError (c : Counters) : Counters := { c with errors := c.errors + 1 }

/-- The records that came out. -/
def emitted (c : Counters) : UInt64 := c.ddl + c.dml

def fieldNames : List String :=
  ["records_received", "ddl_emitted", "dml_emitted", "markers_dropped", "unrecognized_op_types",
    "errors"]

def values (c : Counters) : List UInt64 :=
  [c.received, c.ddl, c.dml, c.markers, c.unknownOps, c.errors]

def toJson (c : Counters) : Json :=
  .ofMembers (fieldNames.zip (c.values.map fun n => .int n.toNat))

open Json.Written in
def ofWritten? (w : Json.Written) : Option Counters :=
  match w.slots? fieldNames with
  | some [some received, some ddl, some dml, some markers, some unknownOps, some errors] => do
      return ⟨← received.uint64?, ← ddl.uint64?, ← dml.uint64?, ← markers.uint64?,
        ← unknownOps.uint64?, ← errors.uint64?⟩
  | _ => none

end Counters

end ChangeCapture.Change
