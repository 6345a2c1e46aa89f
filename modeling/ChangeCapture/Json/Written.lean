import ChangeCapture.Json.Token

/-!
# Written JSON

The tree of a JSON text: members in their order, repeated keys and all, numbers and strings as they
are written. The tree is built from tokens with a stack of the arrays and objects that are open.
-/

namespace ChangeCapture.Json

inductive Written
  | null
  | bool (b : Bool)
  | number (numeral : Numeral)
  | text (pieces : List Piece)
  | array (items : List Written)
  | object (members : List (List Piece × Written))

namespace Written

/-- An open array, or an open object in which the value of a key is due. What it holds so far is in
reverse. -/
inductive Frame
  | items (done : List Written)
  | members (done : List (List Piece × Written)) (key : List Piece)

/-- What may come next. -/
inductive Expectation
  | value (stack : List Frame)
  | firstItem (stack : List Frame)
  | firstKey (stack : List Frame)
  | key (done : List (List Piece × Written)) (stack : List Frame)
  | colon (done : List (List Piece × Written)) (key : List Piece) (stack : List Frame)
  | afterItem (done : List Written) (stack : List Frame)
  | afterMember (done : List (List Piece × Written)) (stack : List Frame)
  | nothing (whole : Written)

/-- Hands a complete value to what is open. -/
def close (v : Written) : List Frame → Expectation
  | [] => .nothing v
  | .items done :: stack => .afterItem (v :: done) stack
  | .members done key :: stack => .afterMember ((key, v) :: done) stack

/-- A token where a value is due. -/
def begin? (stack : List Frame) : Token → Option Expectation
  | .null => some (close .null stack)
  | .bool b => some (close (.bool b) stack)
  | .number n => some (close (.number n) stack)
  | .text pieces => some (close (.text pieces) stack)
  | .arrayOpen => some (.firstItem stack)
  | .objectOpen => some (.firstKey stack)
  | _ => none

def step? : Expectation → Token → Option Expectation
  | .value stack, t => begin? stack t
  | .firstItem stack, .arrayClose => some (close (.array []) stack)
  | .firstItem stack, t => begin? (.items [] :: stack) t
  | .firstKey stack, .objectClose => some (close (.object []) stack)
  | .firstKey stack, .text key => some (.colon [] key stack)
  | .key done stack, .text key => some (.colon done key stack)
  | .colon done key stack, .colon => some (.value (.members done key :: stack))
  | .afterItem done stack, .comma => some (.value (.items done :: stack))
  | .afterItem done stack, .arrayClose => some (close (.array done.reverse) stack)
  | .afterMember done stack, .comma => some (.key done stack)
  | .afterMember done stack, .objectClose => some (close (.object done.reverse) stack)
  | _, _ => none

def build? : Expectation → List Token → Option Written
  | .nothing v, [] => some v
  | _, [] => none
  | e, t :: ts =>
      match step? e t with
      | none => none
      | some next => build? next ts

/-- The tree of a text. -/
def ofChars? (cs : List Char) : Option Written := (Token.ofChars? cs).bind (build? (.value []))

end Written

end ChangeCapture.Json
