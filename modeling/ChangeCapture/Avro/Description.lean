import ChangeCapture.Avro.Value
import ChangeCapture.Number.Shortest
import ChangeCapture.Text.Characters

/-!
# Values in messages

The form in which error messages show a value: the name of its kind with what it holds in
parentheses.
-/

namespace ChangeCapture.Avro

/-- Floating point numbers are written in full from `1e-4` up to `1e16` and with an exponent
elsewhere. -/
def floatLayout : Number.Layout := ⟨.up, -3, 16, false⟩

def describeFloat : Number.Reading → String
  | .notANumber => "NaN"
  | .infinite negative => if negative then "-inf" else "inf"
  | .finite negative m =>
      String.ofList ((if negative then ['-'] else []) ++ floatLayout.magnitude m)

def describeList (items : List String) : String := "[" ++ ", ".intercalate items ++ "]"

def describeBytes (data : List UInt8) : String :=
  describeList (data.map fun b => String.ofList (Text.digits b.toNat))

def describeInt (n : Int) : String := String.ofList (Text.writeInt n)

def describeNat (n : Nat) : String := String.ofList (Text.digits n)

def Instant.describe : Instant → String
  | timeMicros => "TimeMicros"
  | timestampMillis => "TimestampMillis"
  | timestampMicros => "TimestampMicros"
  | timestampNanos => "TimestampNanos"
  | localTimestampMillis => "LocalTimestampMillis"
  | localTimestampMicros => "LocalTimestampMicros"
  | localTimestampNanos => "LocalTimestampNanos"

def BigDecimal.describe (d : BigDecimal) : String :=
  let sign := if d.unscaled < 0 then "Minus" else if d.unscaled = 0 then "NoSign" else "Plus"
  let words := describeList ((words d.unscaled.natAbs d.unscaled.natAbs).map describeNat)
  "BigDecimal(sign=" ++ sign ++ ", scale=" ++ describeInt d.scale.toInt ++ ", digits=" ++ words
    ++ ")"

def Duration.describe (d : Duration) : String :=
  "Duration \x7b months: Months(" ++ describeNat d.months.toNat ++ "), days: Days("
    ++ describeNat d.days.toNat ++ "), millis: Millis(" ++ describeNat d.millis.toNat ++ ") \x7d"

namespace Value

mutual

def describe : Value → String
  | .null => "Null"
  | .boolean b => if b then "Boolean(true)" else "Boolean(false)"
  | .int n => "Int(" ++ describeInt n.toInt ++ ")"
  | .long n => "Long(" ++ describeInt n.toInt ++ ")"
  | .float bits => "Float(" ++ describeFloat (Number.readSingle bits) ++ ")"
  | .double bits => "Double(" ++ describeFloat (Number.readDouble bits) ++ ")"
  | .bytes data => "Bytes(" ++ describeBytes data ++ ")"
  | .string s => "String(" ++ Text.quoted s ++ ")"
  | .fixed size data => "Fixed(" ++ describeNat size ++ ", " ++ describeBytes data ++ ")"
  | .enumeration index symbol =>
      "Enum(" ++ describeNat index ++ ", " ++ Text.quoted symbol ++ ")"
  | .union index inner => "Union(" ++ describeNat index ++ ", " ++ inner.describe ++ ")"
  | .array items => "Array(" ++ describeList (describeItems items) ++ ")"
  | .map entries =>
      "Map(\x7b" ++ ", ".intercalate (describeEntries entries) ++ "\x7d)"
  | .record fields => "Record(" ++ describeList (describeFields fields) ++ ")"
  | .date days => "Date(" ++ describeInt days.toInt ++ ")"
  | .timeMillis n => "TimeMillis(" ++ describeInt n.toInt ++ ")"
  | .instant unit n => unit.describe ++ "(" ++ describeInt n.toInt ++ ")"
  | .decimal d =>
      "Decimal(Decimal \x7b value: " ++ describeInt d.value ++ ", len: "
        ++ describeNat d.bytes.length ++ " \x7d)"
  | .bigDecimal d => "BigDecimal(" ++ d.describe ++ ")"
  | .duration d => "Duration(" ++ d.describe ++ ")"
  | .uuid u => "Uuid(" ++ String.ofList u.write ++ ")"

def describeItems : List Value → List String
  | [] => []
  | v :: rest => v.describe :: describeItems rest

def describeEntries : List (String × Value) → List String
  | [] => []
  | (k, v) :: rest => (Text.quoted k ++ ": " ++ v.describe) :: describeEntries rest

def describeFields : List (String × Value) → List String
  | [] => []
  | (k, v) :: rest => ("(" ++ Text.quoted k ++ ", " ++ v.describe ++ ")") :: describeFields rest

end

end Value

end ChangeCapture.Avro
