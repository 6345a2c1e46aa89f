import ChangeCapture.Error

/-!
# Taking records apart

The fields of a decoded record are taken out one by one, each with the type it has to have. Taking a
field moves the last field into its place.
-/

namespace ChangeCapture.Change

/-- Fields that have not been taken yet. -/
abbrev Fields := List (String × Avro.Value)

namespace Fields

/-- The last field in front of the others. -/
def lastFirst (fields : Fields) : Fields :=
  match fields.getLast? with
  | none => []
  | some last => last :: fields.dropLast

/-- The first field of a name, and the fields that are left. -/
def take? (name : String) : Fields → Option (Avro.Value × Fields)
  | [] => none
  | (n, v) :: rest =>
      if n = name then some (v, lastFirst rest)
      else (take? name rest).map fun p => (p.1, (n, v) :: p.2)

/-- The fields of a record value, called `what` if it is none. -/
def ofValue (what : String) (v : Avro.Value) : Except DataFault Fields :=
  match v.unwrap with
  | .record fields => .ok fields
  | other => .error (.notRecord what other)

def takeString (name : String) (fields : Fields) : Except DataFault (String × Fields) :=
  match take? name fields with
  | none => .error (.missingField name)
  | some (v, rest) =>
      match v.unwrap with
      | .string s => .ok (s, rest)
      | .enumeration _ s => .ok (s, rest)
      | other => .error (.notString name other)

def takeLong (name : String) (fields : Fields) : Except DataFault (Int64 × Fields) :=
  match take? name fields with
  | none => .error (.missingField name)
  | some (v, rest) =>
      match v.unwrap with
      | .long n => .ok (n, rest)
      | .int n => .ok (n.toInt64, rest)
      | other => .error (.notLong name other)

def takeBytes (name : String) (fields : Fields) : Except DataFault (List UInt8 × Fields) :=
  match take? name fields with
  | none => .error (.missingField name)
  | some (v, rest) =>
      match v.unwrap with
      | .bytes data => .ok (data, rest)
      | .fixed _ data => .ok (data, rest)
      | other => .error (.notBytes name other)

/-- The texts of an array. -/
def strings (name : String) : List Avro.Value → Except DataFault (List String)
  | [] => .ok []
  | v :: rest =>
      match v.unwrap with
      | .string s => (strings name rest).map (s :: ·)
      | other => .error (.notStringItem name other)

/-- An array of texts; a field that is missing or null gives none. -/
def takeStrings (name : String) (fields : Fields) : Except DataFault (List String × Fields) :=
  match take? name fields with
  | none => .ok ([], fields)
  | some (v, rest) =>
      match v.unwrap with
      | .array items => (strings name items).map (·, rest)
      | .null => .ok ([], rest)
      | other => .error (.notArray name other)

end Fields

end ChangeCapture.Change
