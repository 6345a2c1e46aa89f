/-!
# Binary floating point

What the bits of a floating point number of 32 or 64 bits stand for, as an exact integer times a
power of two. Everything is done on the bits, so that payloads of numbers that are none survive.
-/

namespace ChangeCapture.Number

/-- The widths of a binary floating point format. -/
structure Format where
  fractionBits : Nat
  exponentBits : Nat
  deriving DecidableEq, Repr

namespace Format

def single : Format := ⟨23, 8⟩

def double : Format := ⟨52, 11⟩

/-- The exponent field of infinities and of numbers that are none. -/
def topExponent (f : Format) : Nat := Nat.pow 2 f.exponentBits - 1

/-- The exponent of the unit of the fraction in the smallest numbers. -/
def leastExponent (f : Format) : Int :=
  2 - Int.ofNat (Nat.pow 2 (f.exponentBits - 1)) - f.fractionBits

end Format

/-- A finite magnitude `mantissa * 2 ^ exponent`. At the lower end of a binade the numbers below lie
twice as close as those above. -/
structure Magnitude where
  mantissa : Nat
  exponent : Int
  closerBelow : Bool
  deriving DecidableEq, Repr

inductive Reading
  | notANumber
  | infinite (negative : Bool)
  | finite (negative : Bool) (magnitude : Magnitude)
  deriving DecidableEq, Repr

/-- What `bits` stand for in a format. -/
def Format.read (f : Format) (bits : Nat) : Reading :=
  let fraction := bits % Nat.pow 2 f.fractionBits
  let field := bits / Nat.pow 2 f.fractionBits % Nat.pow 2 f.exponentBits
  let negative := bits / Nat.pow 2 (f.fractionBits + f.exponentBits) % 2 == 1
  if field = f.topExponent then
    if fraction = 0 then .infinite negative else .notANumber
  else if field = 0 then .finite negative ⟨fraction, f.leastExponent, false⟩
  else
    .finite negative
      ⟨Nat.pow 2 f.fractionBits + fraction, f.leastExponent + (field - 1),
        fraction = 0 && field ≠ 1⟩

def readSingle (bits : UInt32) : Reading := Format.single.read bits.toNat

def readDouble (bits : UInt64) : Reading := Format.double.read bits.toNat

/-- The power of two with an exponent of the normal range of doubles. -/
def twoPower (e : Int) : Float :=
  Float.ofBits (UInt64.ofNat (((e + 1023).toNat % 2048) * 0x10000000000000))

/-- The double equal to a number of 32 bits; absent for infinities and what is no number. -/
def widen? (bits : UInt32) : Option Float :=
  match readSingle bits with
  | .finite negative m =>
      let x := m.mantissa.toUInt64.toFloat * twoPower m.exponent
      some (if negative then -x else x)
  | _ => none

/-- The double with the given bits; absent for infinities and what is no number. -/
def finiteDouble? (bits : UInt64) : Option Float :=
  match readDouble bits with
  | .finite _ _ => some (Float.ofBits bits)
  | _ => none

end ChangeCapture.Number
