/-!
# Decimal integers

Reading a signed decimal integer that has to fit a range, with the reason when it does not, and
writing one.
-/

namespace ChangeCapture.Text

/-- Why a text is no integer of the wanted range. -/
inductive IntegerFault
  | empty
  | invalidDigit
  | tooLarge
  | tooSmall
  deriving DecidableEq, Repr

namespace IntegerFault

def message : IntegerFault → String
  | empty => "cannot parse integer from empty string"
  | invalidDigit => "invalid digit found in string"
  | tooLarge => "number too large to fit in target type"
  | tooSmall => "number too small to fit in target type"

end IntegerFault

/-- The value of an ASCII digit. -/
def digit? (c : Char) : Option Nat :=
  if 0x30 ≤ c.toNat ∧ c.toNat ≤ 0x39 then some (c.toNat - 0x30) else none

/-- The magnitude written by the digits, read after `acc`. It may not pass `limit`; a character that
is no digit is noticed before the range is. -/
def readMagnitude (limit : Nat) (outside : IntegerFault) : Nat → List Char → Except IntegerFault Nat
  | acc, [] => .ok acc
  | acc, c :: cs =>
      match digit? c with
      | none => .error .invalidDigit
      | some d =>
          if acc * 10 + d ≤ limit then readMagnitude limit outside (acc * 10 + d) cs
          else .error outside

/-- An optional sign and one or more digits, between `-low` and `high`. -/
def readSigned (low high : Nat) : List Char → Except IntegerFault Int
  | [] => .error .empty
  | ['+'] => .error .invalidDigit
  | ['-'] => .error .invalidDigit
  | '+' :: cs => (readMagnitude high .tooLarge 0 cs).map Int.ofNat
  | '-' :: cs => (readMagnitude low .tooSmall 0 cs).map fun n => -Int.ofNat n
  | cs => (readMagnitude high .tooLarge 0 cs).map Int.ofNat

def readInt64 (cs : List Char) : Except IntegerFault Int64 :=
  (readSigned 0x8000000000000000 0x7fffffffffffffff cs).map Int64.ofInt

/-- Digits only, as a word of 32 bits. -/
def readUInt32? (cs : List Char) : Option UInt32 :=
  match cs with
  | [] => none
  | _ => (readMagnitude 0xffffffff .tooLarge 0 cs).toOption.map UInt32.ofNat

/-- The decimal digits of a natural number, without superfluous zeros. -/
def digits (n : Nat) : List Char := Nat.toDigits 10 n

/-- The decimal form of an integer. -/
def writeInt (n : Int) : List Char :=
  match n with
  | .ofNat n => digits n
  | .negSucc n => '-' :: digits (n + 1)

def hexDigit (n : Nat) : Char := Nat.digitChar n

/-- The lower-case hexadecimal digits of a number. -/
def hexDigits (n : Nat) : List Char := Nat.toDigits 16 n

def hexValue? (c : Char) : Option Nat :=
  let n := c.toNat
  if 0x30 ≤ n ∧ n ≤ 0x39 then some (n - 0x30)
  else if 0x41 ≤ n ∧ n ≤ 0x46 then some (n - 0x37)
  else if 0x61 ≤ n ∧ n ≤ 0x66 then some (n - 0x57)
  else none

/-- Two lower-case hexadecimal digits for each byte. -/
def writeHex (bytes : List UInt8) : List Char :=
  bytes.flatMap fun b => [hexDigit (b.toNat / 16), hexDigit (b.toNat % 16)]

/-- The bytes written by pairs of hexadecimal digits. -/
def readHex? : List Char → Option (List UInt8)
  | [] => some []
  | [_] => none
  | a :: b :: cs =>
      match hexValue? a, hexValue? b, readHex? cs with
      | some x, some y, some rest => some ((16 * x + y).toUInt8 :: rest)
      | _, _, _ => none

end ChangeCapture.Text
