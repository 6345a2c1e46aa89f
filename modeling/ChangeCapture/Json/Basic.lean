import ChangeCapture.Keyed

/-!
# JSON values

Integers are kept apart from doubles, as they are written. The members of an object stand in
ascending order of key, each key once.
-/

namespace ChangeCapture

inductive Json
  | null
  | bool (b : Bool)
  | int (n : Int)
  | double (x : Float)
  | str (s : String)
  | arr (items : List Json)
  | obj (members : List (String × Json))
  deriving Inhabited

namespace Json

/-- An object with the given members, of which the last counts for each key. -/
def ofMembers (members : List (String × Json)) : Json := .obj (Keyed.ofList members)

def strings (texts : List String) : Json := .arr (texts.map .str)

/-- The member of an object; other values have none. -/
def get? (key : String) : Json → Option Json
  | .obj members => Keyed.get? key members
  | _ => none

def asStr? : Json → Option String
  | .str s => some s
  | _ => none

def asArr? : Json → Option (List Json)
  | .arr items => some items
  | _ => none

def asObj? : Json → Option (List (String × Json))
  | .obj members => some members
  | _ => none

def asBool? : Json → Option Bool
  | .bool b => some b
  | _ => none

/-- An integer from 0 up that fits 64 bits. -/
def asNat? : Json → Option Nat
  | .int n => if 0 ≤ n ∧ n < 0x10000000000000000 then some n.toNat else none
  | _ => none

/-- The text member of an object. -/
def text? (key : String) (v : Json) : Option String := (v.get? key).bind asStr?

mutual

/-- How deep values nest; a value that holds no other has height one. -/
def height : Json → Nat
  | .arr items => heightItems items + 1
  | .obj members => heightMembers members + 1
  | _ => 1

def heightItems : List Json → Nat
  | [] => 0
  | v :: rest => max v.height (heightItems rest)

def heightMembers : List (String × Json) → Nat
  | [] => 0
  | (_, v) :: rest => max v.height (heightMembers rest)

end

mutual

/-- The number of values within a value, itself included. -/
def size : Json → Nat
  | .arr items => sizeItems items + 1
  | .obj members => sizeMembers members + 1
  | _ => 1

def sizeItems : List Json → Nat
  | [] => 0
  | v :: rest => v.size + sizeItems rest

def sizeMembers : List (String × Json) → Nat
  | [] => 0
  | (_, v) :: rest => v.size + sizeMembers rest

end

end Json

end ChangeCapture
