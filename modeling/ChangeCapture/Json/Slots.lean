import ChangeCapture.Json.Reading

/-!
# Records in JSON

A record with fixed fields is written as an object, or as an array of its fields in their order. A
field may not be given twice. Members that belong to no field are passed over unread.
-/

namespace ChangeCapture.Json

namespace Written

/-- The values of fields that an array gives by position. -/
def byPosition? : List String → List Written → Option (List (Option Written))
  | [], [] => some []
  | [], _ :: _ => none
  | _ :: names, [] => (byPosition? names []).map (none :: ·)
  | _ :: names, v :: rest => (byPosition? names rest).map (some v :: ·)

/-- The keys of an object, read as text. -/
def keyed? : List (List Piece × Written) → Option (List (String × Written))
  | [] => some []
  | (key, v) :: rest =>
      match textOf? key, keyed? rest with
      | some k, some pairs => some ((k, v) :: pairs)
      | _, _ => none

def byName? (names : List String) (pairs : List (String × Written)) :
    Option (List (Option Written)) :=
  names.mapM fun name =>
    match pairs.filter fun p => p.1 == name with
    | [] => some none
    | [p] => some (some p.2)
    | _ => none

/-- What a tree gives for each of the named fields. -/
def slots? (names : List String) : Written → Option (List (Option Written))
  | .array items => byPosition? names items
  | .object members => (keyed? members).bind (byName? names)
  | _ => none

def text? : Written → Option String
  | .text pieces => textOf? pieces
  | _ => none

def bool? : Written → Option Bool
  | .bool b => some b
  | _ => none

/-- An integer between two bounds, both included. -/
def int? (low high : Int) : Written → Option Int
  | .number n =>
      match n.value? with
      | some (.int i) => if low ≤ i ∧ i ≤ high then some i else none
      | _ => none
  | _ => none

def uint64? (v : Written) : Option UInt64 := (v.int? 0 0xffffffffffffffff).map UInt64.ofInt

def int64? (v : Written) : Option Int64 :=
  (v.int? (-0x8000000000000000) 0x7fffffffffffffff).map Int64.ofInt

/-- A value that may be absent, written as `null`. -/
def nullable? {α : Type} (read : Written → Option α) : Written → Option (Option α)
  | .null => some none
  | v => (read v).map some

/-- A field that takes a default value when it is not given. -/
def orElse? {α : Type} (read : Written → Option α) (default : α) : Option Written → Option α
  | none => some default
  | some v => read v

end Written

end ChangeCapture.Json
