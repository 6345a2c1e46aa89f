import ChangeCapture.Json.Basic
import ChangeCapture.Json.Written

/-!
# Reading JSON

What written numbers, strings and trees stand for. A number is an integer if it is written without
fraction and exponent and fits 64 bits, otherwise a double. The double is computed from the leading
digits that fit 64 bits by one multiplication or division with a power of ten, so it may differ from
the nearest double in its last digits.
-/

namespace ChangeCapture.Json

namespace Numeral

/-- The greatest significand. -/
def significandLimit : Nat := 0xffffffffffffffff

/-- The number written by the digits as long as it fits 64 bits, and the digits left over. -/
def significand : Nat → List Char → Nat × List Char
  | acc, [] => (acc, [])
  | acc, c :: cs =>
      let next := acc * 10 + (c.toNat - 0x30)
      if next ≤ significandLimit then significand next cs else (acc, c :: cs)

/-- The number written by digits alone. -/
def magnitude (ds : List Char) : Nat := ds.foldl (fun acc c => acc * 10 + (c.toNat - 0x30)) 0

/-- The double ten to the power of `n`. -/
def tenPower (n : Nat) : Float := Float.ofScientific 1 false n

/-- `x * 10 ^ e` for a negative `e`, dividing by at most `10 ^ 308` at a time. -/
def divideByTens : Nat → Float → Int → Float
  | 0, x, _ => x
  | fuel + 1, x, e =>
      if -308 ≤ e then x / tenPower (-e).toNat
      else divideByTens fuel (x / tenPower 308) (e + 308)

/-- `s * 10 ^ e`, if it does not pass the range of doubles. A significand of 64 bits vanishes after
two divisions by `10 ^ 308`. -/
def scale? (s : Nat) (e : Int) : Option Float :=
  let x := s.toUInt64.toFloat
  if s = 0 then some 0
  else if e < 0 then some (divideByTens 4 x e)
  else if e ≤ 308 then
    let y := x * tenPower e.toNat
    if y.isInf then none else some y
  else none

def double? (negative : Bool) (s : Nat) (e : Int) : Option Json :=
  (scale? s e).map fun x => .double (if negative then -x else x)

/-- The value of a number. Digits of the whole part beyond the significand raise the exponent,
digits of the fraction beyond it are dropped. -/
def value? (n : Numeral) : Option Json :=
  let (s, more) := significand 0 n.whole
  match n.fraction, n.exponent with
  | none, none =>
      if more.isEmpty then
        if !n.negative then some (.int s)
        else if 0 < s ∧ s ≤ 0x8000000000000000 then some (.int (-s))
        else double? true s 0
      else double? n.negative s more.length
  | fraction, exponent =>
      let ds := fraction.getD []
      let (s, dropped) := significand s ds
      let e := Int.ofNat more.length - Int.ofNat (ds.length - dropped.length)
      match exponent with
      | none => double? n.negative s e
      | some (true, xs) => double? n.negative s (e - magnitude xs)
      | some (false, xs) => double? n.negative s (e + magnitude xs)

end Numeral

/-- The text of a written string. Escaped surrogates have to come in pairs. -/
def decodePieces? : List Piece → Option (List Char)
  | [] => some []
  | .char c :: rest => (decodePieces? rest).map (c :: ·)
  | .unit high :: .unit low :: rest =>
      if 0xD800 ≤ high ∧ high < 0xDC00 then
        if 0xDC00 ≤ low ∧ low < 0xE000 then
          (decodePieces? rest).map
            (Char.ofNat (0x10000 + (high - 0xD800) * 0x400 + (low - 0xDC00)) :: ·)
        else none
      else if 0xDC00 ≤ high ∧ high < 0xE000 then none
      else (decodePieces? (.unit low :: rest)).map (Char.ofNat high :: ·)
  | .unit n :: rest =>
      if 0xD800 ≤ n ∧ n < 0xE000 then none else (decodePieces? rest).map (Char.ofNat n :: ·)

def textOf? (pieces : List Piece) : Option String := (decodePieces? pieces).map String.ofList

namespace Written

mutual

/-- The value of a tree in which arrays and objects nest at most `depth` deep. Of members with one
key the last counts. -/
def toJson? (depth : Nat) : Written → Option Json
  | .null => some .null
  | .bool b => some (.bool b)
  | .number n => n.value?
  | .text pieces => (textOf? pieces).map .str
  | .array items => if depth = 0 then none else (itemsToJson? (depth - 1) items).map .arr
  | .object members =>
      if depth = 0 then none else (membersToJson? (depth - 1) members).map .ofMembers

def itemsToJson? (depth : Nat) : List Written → Option (List Json)
  | [] => some []
  | v :: rest =>
      match toJson? depth v, itemsToJson? depth rest with
      | some x, some xs => some (x :: xs)
      | _, _ => none

def membersToJson? (depth : Nat) : List (List Piece × Written) → Option (List (String × Json))
  | [] => some []
  | (key, v) :: rest =>
      match textOf? key, toJson? depth v, membersToJson? depth rest with
      | some k, some x, some xs => some ((k, x) :: xs)
      | _, _, _ => none

end

end Written

/-- The greatest depth to which arrays and objects of a document may nest. -/
def depthLimit : Nat := 127

/-- The value of a text in which arrays and objects nest at most `depth` deep. -/
def readWithin? (depth : Nat) (cs : List Char) : Option Json :=
  (Written.ofChars? cs).bind (Written.toJson? depth)

/-- The value of a document. -/
def parse? (document : String) : Option Json := readWithin? depthLimit document.toList

end ChangeCapture.Json
