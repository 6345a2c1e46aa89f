import ChangeCapture.Avro.Value
import ChangeCapture.Number.Binary
import ChangeCapture.Text.Bytes

/-!
# Values as JSON

Unions give way to the value inside them, bytes are written in base64, decimals as text. A decimal
on its own has no fraction; in a column it takes the scale that the column's type declares.
-/

namespace ChangeCapture.Avro

/-- The JSON form of a floating point number that may be none or infinite. -/
def doubleJson : Option Float → Json
  | some x => .double x
  | none => .null

def Decimal.toJson? (d : Decimal) (scale : Nat) : Except Decimal.Fault Json :=
  (d.write scale).map fun cs => .str (String.ofList cs)

def Duration.toJson (d : Duration) : Json :=
  .ofMembers [("months", .int d.months.toNat), ("days", .int d.days.toNat),
    ("millis", .int d.millis.toNat)]

namespace Value

mutual

def toJson? : Value → Except Decimal.Fault Json
  | .null => .ok .null
  | .boolean b => .ok (.bool b)
  | .int n => .ok (.int n.toInt)
  | .long n => .ok (.int n.toInt)
  | .float bits => .ok (doubleJson (Number.widen? bits))
  | .double bits => .ok (doubleJson (Number.finiteDouble? bits))
  | .bytes data => .ok (.str (String.ofList (Text.Base64.encode data)))
  | .string s => .ok (.str s)
  | .fixed _ data => .ok (.str (String.ofList (Text.Base64.encode data)))
  | .enumeration _ symbol => .ok (.str symbol)
  | .union _ inner => inner.toJson?
  | .array items =>
      match itemsToJson? items with
      | .ok xs => .ok (.arr xs)
      | .error e => .error e
  | .map entries =>
      match membersToJson? entries with
      | .ok xs => .ok (.ofMembers xs)
      | .error e => .error e
  | .record fields =>
      match membersToJson? fields with
      | .ok xs => .ok (.ofMembers xs)
      | .error e => .error e
  | .date days => .ok (.int days.toInt)
  | .timeMillis n => .ok (.int n.toInt)
  | .instant _ n => .ok (.int n.toInt)
  | .decimal d => d.toJson? 0
  | .bigDecimal d => .ok (.str (String.ofList d.write))
  | .duration d => .ok d.toJson
  | .uuid u => .ok (.str (String.ofList u.write))

def itemsToJson? : List Value → Except Decimal.Fault (List Json)
  | [] => .ok []
  | v :: rest =>
      match v.toJson? with
      | .error e => .error e
      | .ok x =>
          match itemsToJson? rest with
          | .ok xs => .ok (x :: xs)
          | .error e => .error e

def membersToJson? : List (String × Value) → Except Decimal.Fault (List (String × Json))
  | [] => .ok []
  | (k, v) :: rest =>
      match v.toJson? with
      | .error e => .error e
      | .ok x =>
          match membersToJson? rest with
          | .ok xs => .ok ((k, x) :: xs)
          | .error e => .error e

end

end Value

/-- The scale that the attributes of a type declare, if it is a natural number of 32 bits. -/
def attributeScale (members : List (String × Json)) : Nat :=
  match (Keyed.get? "scale" members).bind Json.asNat? with
  | some n => if n < UInt32.size then n else 0
  | none => 0

mutual

/-- The scale that a column's type declares for decimals, looking into the types of its attributes
and the greatest of all branches of a union. -/
def decimalScale : Json → Nat
  | .obj members =>
      if (Keyed.get? "logicalType" members).bind Json.asStr? = some "decimal" then
        attributeScale members
      else typeScale members
  | .arr items => greatestScale items
  | _ => 0

def typeScale : List (String × Json) → Nat
  | [] => 0
  | (k, v) :: rest => if k = "type" then decimalScale v else typeScale rest

def greatestScale : List Json → Nat
  | [] => 0
  | v :: rest => max (decimalScale v) (greatestScale rest)

end

/-- The JSON form of a column of the given type. -/
def Value.columnToJson? (v : Value) (type : Json) : Except Decimal.Fault Json :=
  match v.unwrap with
  | .decimal d => d.toJson? (decimalScale type)
  | w => w.toJson?

end ChangeCapture.Avro
