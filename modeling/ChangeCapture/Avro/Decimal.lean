import ChangeCapture.Text.Integer

/-!
# Decimals

Decimal numbers as two's-complement bytes with a scale that is declared elsewhere, and decimal
numbers that bring their scale with them.
-/

namespace ChangeCapture.Avro

/-- The number written by bytes from the most significant one on. -/
def unsigned (bytes : List UInt8) : Nat := bytes.foldl (fun acc b => acc * 256 + b.toNat) 0

/-- The number written by bytes in two's complement. -/
def twosComplement : List UInt8 → Int
  | [] => 0
  | b :: rest =>
      if b.toNat < 128 then unsigned (b :: rest)
      else Int.ofNat (unsigned (b :: rest)) - Int.ofNat (Nat.pow 256 (rest.length + 1))

/-- An integer with its point moved to the left by `scale` places; at least one digit stands in
front of the point. -/
def writeScaled (n : Int) (scale : Nat) : List Char :=
  let sign := if n < 0 then ['-'] else []
  let ds := Text.digits n.natAbs
  if scale = 0 then sign ++ ds
  else
    let ds := List.replicate (scale + 1 - ds.length) '0' ++ ds
    let whole := ds.length - scale
    sign ++ ds.take whole ++ '.' :: ds.drop whole

/-- A decimal as it is held: the bytes of its unscaled value. -/
structure Decimal where
  bytes : List UInt8
  deriving DecidableEq, Repr

namespace Decimal

/-- The unscaled value. -/
def value (d : Decimal) : Int := twosComplement d.bytes

/-- Why a decimal has no text. -/
inductive Fault
  /-- It holds no bytes at all. -/
  | empty
  /-- It holds more than 128 bits. -/
  | wide (bytes : Nat)
  deriving DecidableEq, Repr

/-- Whether as many bytes have room for every number of `precision` digits. It is not counted out
beyond 128 bytes, and a length has to fit 31 bits. -/
def hasRoom (bytes precision : Nat) : Bool :=
  if 128 < bytes then bytes < 0x80000000
  else precision < (Text.digits (Nat.pow 2 (8 * bytes - 1) - 1)).length

/-- The text of a decimal, of which `scale` digits stand after the point. Zeros are padded to any
width, which is taken for granted where a formatter holds its width in 16 bits: there a scale has to
be below 65535. -/
def write (d : Decimal) (scale : Nat) : Except Fault (List Char) :=
  if d.bytes.isEmpty then .error .empty
  else if 16 < d.bytes.length then .error (.wide d.bytes.length)
  else .ok (writeScaled d.value scale)

end Decimal

/-- A decimal `unscaled / 10 ^ scale`. -/
structure BigDecimal where
  unscaled : Int
  scale : Int64
  deriving DecidableEq, Repr

namespace BigDecimal

/-- How many zeros may stand between the point and the first other digit. -/
def leadingZeros : Nat := 5

/-- How many zeros may be added at the end of a whole number. -/
def trailingZeros : Nat := 15

/-- Digits with a point after the first one, if there are more. -/
def pointed : List Char → List Char
  | d :: e :: rest => d :: '.' :: e :: rest
  | ds => ds

/-- All digits if they take few zeros more. Otherwise a whole number is written as its unscaled
digits with an exponent, and a fraction with one digit in front of the point. Zero is written
without its scale. -/
def write (d : BigDecimal) : List Char :=
  let sign := if d.unscaled < 0 then ['-'] else []
  let ds := Text.digits d.unscaled.natAbs
  let scale := d.scale.toInt
  if d.unscaled = 0 then ['0']
  else if scale < -trailingZeros then sign ++ ds ++ 'e' :: '+' :: Text.writeInt (-scale)
  else if scale < 0 then sign ++ ds ++ List.replicate (-scale).toNat '0'
  else if scale ≤ ds.length + leadingZeros then writeScaled d.unscaled scale.toNat
  else sign ++ pointed ds ++ 'E' :: Text.writeInt (ds.length - 1 - scale)

/-- Magnitudes from here on do not fit 128 bits with a sign. -/
def int128Limit : Nat := 0x80000000000000000000000000000000

def isExponentMark (c : Char) : Bool := c = 'e' || c = 'E'

/-- The exponent that a mark and an integer of 128 bits give; without a mark it is zero. -/
def exponent? : List Char → Option Int
  | [] => some 0
  | _ :: cs => (Text.readSigned int128Limit (int128Limit - 1) cs).toOption

/-- Digits with an optional sign. Underscores after the first digit do not count. -/
def unscaled? (cs : List Char) : Option Int :=
  let (negative, cs) :=
    match cs with
    | '-' :: rest => (true, rest)
    | '+' :: rest => (false, rest)
    | rest => (false, rest)
  let ds := cs.filter (· ≠ '_')
  if cs.head? = some '_' || ds.isEmpty || !ds.all fun c => (Text.digit? c).isSome then none
  else
    let n := ds.foldl (fun acc c => acc * 10 + (c.toNat - 0x30)) 0
    some (if negative then -Int.ofNat n else n)

/-- An unscaled value that may hold a point, and an optional exponent. The scale, which has to fit
64 bits, counts the digits after the point. -/
def ofChars? (cs : List Char) : Option BigDecimal :=
  let mantissa := cs.takeWhile (!isExponentMark ·)
  let whole := mantissa.takeWhile (· ≠ '.')
  let fraction := (mantissa.dropWhile (· ≠ '.')).drop 1
  match unscaled? (whole ++ fraction), exponent? (cs.dropWhile (!isExponentMark ·)) with
  | some n, some e =>
      let scale := (fraction.filter (· ≠ '_')).length - e
      if -0x8000000000000000 ≤ scale ∧ scale < 0x8000000000000000 then
        some ⟨n, Int64.ofInt scale⟩
      else none
  | _, _ => none

/-- The words of 64 bits of a magnitude, the least significant first. -/
def words : Nat → Nat → List Nat
  | 0, _ => []
  | fuel + 1, n => if n = 0 then [] else n % UInt64.size :: words fuel (n / UInt64.size)

end BigDecimal

end ChangeCapture.Avro
