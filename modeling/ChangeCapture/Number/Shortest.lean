import ChangeCapture.Number.Binary
import ChangeCapture.Text.Integer

/-!
# Shortest decimals

The decimal of fewest digits that lies nearer to a binary floating point number than to any other,
found by exact arithmetic on natural numbers, and the layouts in which it is written.
-/

namespace ChangeCapture.Number

/-- A positive decimal `digits * 10 ^ exponent`. -/
structure Decimal where
  digits : Nat
  exponent : Int
  deriving DecidableEq, Repr

/-- Which of two equally near decimals is taken. -/
inductive Tie
  | up
  | even
  deriving DecidableEq, Repr

/-- The numbers that round to a magnitude: from `low` to `high` in units of `1 / denominator`, the
ends included for an even mantissa. -/
structure Neighbourhood where
  value : Nat
  low : Nat
  high : Nat
  denominator : Nat
  closed : Bool

namespace Neighbourhood

def ofMagnitude (m : Magnitude) : Neighbourhood :=
  let below := if m.closerBelow then 1 else 2
  let e := m.exponent - 2
  let scale := Nat.pow 2 e.toNat
  ⟨4 * m.mantissa * scale, (4 * m.mantissa - below) * scale, (4 * m.mantissa + 2) * scale,
    Nat.pow 2 (-e).toNat, m.mantissa % 2 == 0⟩

/-- The same numbers in units of `10 ^ exponent`. -/
def scaled (n : Neighbourhood) (exponent : Int) : Neighbourhood :=
  let factor := Nat.pow 10 (-exponent).toNat
  ⟨n.value * factor, n.low * factor, n.high * factor, n.denominator * Nat.pow 10 exponent.toNat,
    n.closed⟩

def holds (n : Neighbourhood) (k : Nat) : Bool :=
  let x := k * n.denominator
  if n.closed then n.low ≤ x && x ≤ n.high else n.low < x && x < n.high

/-- Of the two integers around the value, the nearer one that rounds to it. -/
def nearest? (n : Neighbourhood) (tie : Tie) : Option Nat :=
  let k := n.value / n.denominator
  let rest := n.value % n.denominator
  match n.holds k, n.holds (k + 1) with
  | false, false => none
  | true, false => some k
  | false, true => some (k + 1)
  | true, true =>
      if 2 * rest < n.denominator then some k
      else if n.denominator < 2 * rest then some (k + 1)
      else
        match tie with
        | .up => some (k + 1)
        | .even => some (k + k % 2)

end Neighbourhood

/-- The number of digits before the point of a positive `value / denominator`; it is zero or
negative for a number below one tenth or less. -/
def pointPlace (value denominator : Nat) : Int :=
  let binary := Int.ofNat value.log2 - Int.ofNat denominator.log2
  let guess := Int.fdiv ((binary - 1) * 30103) 100000
  let reaches (e : Int) : Bool := denominator * Nat.pow 10 e.toNat ≤ value * Nat.pow 10 (-e).toNat
  if reaches (guess + 2) then guess + 3
  else if reaches (guess + 1) then guess + 2
  else if reaches guess then guess + 1
  else guess

/-- Digits without the zeros at their end, with the exponent raised to match. -/
def dropZeros : Nat → Nat → Int → Decimal
  | 0, digits, exponent => ⟨digits, exponent⟩
  | fuel + 1, digits, exponent =>
      if digits % 10 = 0 ∧ digits ≠ 0 then dropZeros fuel (digits / 10) (exponent + 1)
      else ⟨digits, exponent⟩

/-- Tries grids of one digit, two digits and so on. -/
def searchGrids (n : Neighbourhood) (place : Int) (tie : Tie) : List Nat → Option Decimal
  | [] => none
  | count :: counts =>
      let exponent := place - Int.ofNat count
      match (n.scaled exponent).nearest? tie with
      | some k => some (dropZeros 20 k exponent)
      | none => searchGrids n place tie counts

/-- The shortest decimal of a positive magnitude. Seventeen digits tell all doubles apart. -/
def Magnitude.shortest? (m : Magnitude) (tie : Tie) : Option Decimal :=
  let n := Neighbourhood.ofMagnitude m
  searchGrids n (pointPlace n.value n.denominator) tie ((List.range 17).map (· + 1))

/-- How the floating point numbers of a format of text are written. -/
structure Layout where
  tie : Tie
  /-- The least and the greatest count of digits before the point, zero or negative below one, of
  numbers that are written without an exponent. -/
  leastPlace : Int
  greatestPlace : Int
  /-- Whether an exponent that is not negative has a sign. -/
  plusSign : Bool

namespace Layout

def zeros (n : Nat) : List Char := List.replicate n '0'

/-- All digits, with a fraction even if it is zero. -/
def positional (ds : List Char) (place : Int) : List Char :=
  if place ≤ 0 then ['0', '.'] ++ zeros (-place).toNat ++ ds
  else
    let whole := place.toNat
    if ds.length ≤ whole then ds ++ zeros (whole - ds.length) ++ ['.', '0']
    else ds.take whole ++ ['.'] ++ ds.drop whole

def exponential (l : Layout) (ds : List Char) (place : Int) : List Char :=
  let mantissa :=
    match ds with
    | [] => []
    | [d] => [d]
    | d :: rest => d :: '.' :: rest
  let sign := if l.plusSign && 1 ≤ place then ['+'] else []
  mantissa ++ ['e'] ++ sign ++ Text.writeInt (place - 1)

def decimal (l : Layout) (d : Decimal) : List Char :=
  let ds := Text.digits d.digits
  let place := d.exponent + ds.length
  if l.leastPlace ≤ place ∧ place ≤ l.greatestPlace then positional ds place
  else l.exponential ds place

def magnitude (l : Layout) (m : Magnitude) : List Char :=
  if m.mantissa = 0 then ['0', '.', '0']
  else
    match m.shortest? l.tie with
    | some d => l.decimal d
    | none => []

end Layout

end ChangeCapture.Number
