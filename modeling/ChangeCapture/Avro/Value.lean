import ChangeCapture.Avro.Decimal
import ChangeCapture.Avro.Schema
import ChangeCapture.Text.Integer

/-!
# Values

Data of the Avro types. Floating point numbers are kept as bits, maps as pairs in ascending order of
key, each key once.
-/

namespace ChangeCapture.Avro

/-! ## Universally unique identifiers

Sixteen bytes, written as hexadecimal digits in groups. -/

structure Uuid where
  bytes : List UInt8
  length_bytes : bytes.length = 16
  deriving DecidableEq, Repr

namespace Uuid

def ofBytes? (bytes : List UInt8) : Option Uuid :=
  if h : bytes.length = 16 then some ⟨bytes, h⟩ else none

/-- Groups of 8, 4, 4, 4 and 12 lower-case digits. -/
def write (u : Uuid) : List Char :=
  let ds := Text.writeHex u.bytes
  ds.take 8 ++ '-' :: (ds.drop 8).take 4 ++ '-' :: (ds.drop 12).take 4 ++ '-' :: (ds.drop 16).take 4
    ++ '-' :: ds.drop 20

/-- Thirty-two digits without hyphens. -/
def ofDigits? (cs : List Char) : Option Uuid := (Text.readHex? cs).bind ofBytes?

/-- The digits of a text of 36 characters with hyphens after 8, 12, 16 and 20 of them. -/
def dehyphenate? (cs : List Char) : Option (List Char) :=
  if cs[8]? = some '-' ∧ cs[13]? = some '-' ∧ cs[18]? = some '-' ∧ cs[23]? = some '-' then
    some (cs.take 8 ++ (cs.drop 9).take 4 ++ (cs.drop 14).take 4 ++ (cs.drop 19).take 4
      ++ cs.drop 24)
  else none

def ofHyphenated? (cs : List Char) : Option Uuid :=
  if cs.length = 36 then (dehyphenate? cs).bind ofDigits? else none

/-- The mark in front of an identifier that is written as a name, in letters of either case. -/
def urnMark : List Char := ['u', 'r', 'n', ':', 'u', 'u', 'i', 'd', ':']

/-- The digits alone, with hyphens, with hyphens between braces, or with hyphens after a mark. -/
def ofChars? (cs : List Char) : Option Uuid :=
  if cs.length = 32 then ofDigits? cs
  else if cs.length = 36 then ofHyphenated? cs
  else if cs.length = 38 ∧ cs.head? = some '\x7b' ∧ cs.getLast? = some '\x7d' then
    ofHyphenated? (cs.drop 1).dropLast
  else if cs.length = 45 ∧ (cs.take 9).map Char.toLower = urnMark then ofHyphenated? (cs.drop 9)
  else none

end Uuid

/-! ## Values and their kinds -/

structure Duration where
  months : UInt32
  days : UInt32
  millis : UInt32
  deriving DecidableEq, Repr

inductive Value
  | null
  | boolean (b : Bool)
  | int (n : Int32)
  | long (n : Int64)
  | float (bits : UInt32)
  | double (bits : UInt64)
  | bytes (data : List UInt8)
  | string (s : String)
  | fixed (size : Nat) (data : List UInt8)
  | enumeration (index : Nat) (symbol : String)
  | union (index : Nat) (inner : Value)
  | array (items : List Value)
  | map (entries : List (String × Value))
  | record (fields : List (String × Value))
  | date (days : Int32)
  | timeMillis (n : Int32)
  | instant (unit : Instant) (n : Int64)
  | decimal (d : Decimal)
  | bigDecimal (d : BigDecimal)
  | duration (d : Duration)
  | uuid (u : Uuid)
  deriving Inhabited

namespace Value

def kind : Value → Kind
  | .null => .null
  | .boolean _ => .boolean
  | .int _ => .int
  | .long _ => .long
  | .float _ => .float
  | .double _ => .double
  | .bytes _ => .bytes
  | .string _ => .string
  | .fixed _ _ => .fixed
  | .enumeration _ _ => .enumeration
  | .union _ _ => .union
  | .array _ => .array
  | .map _ => .map
  | .record _ => .record
  | .date _ => .date
  | .timeMillis _ => .timeMillis
  | .instant unit _ => .instant unit
  | .decimal _ => .decimal
  | .bigDecimal _ => .bigDecimal
  | .duration _ => .duration
  | .uuid _ => .uuid

/-- The value inside any number of unions. -/
def unwrap : Value → Value
  | .union _ inner => inner.unwrap
  | v => v

end Value

end ChangeCapture.Avro
