/-!
# Variable-length integers

Seven bits a byte, the least significant first; the high bit says that another byte follows. Signed
integers are folded so that small magnitudes take few bytes. At most ten bytes are read, and what
does not fit 64 bits is dropped.
-/

namespace ChangeCapture.Avro.Varint

inductive Fault
  /-- The input ends before the number does. -/
  | truncated
  /-- Ten bytes are not enough. -/
  | overlong
  deriving DecidableEq, Repr

/-- Writes a number in at most `fuel` bytes. -/
def writeBytes : Nat → Nat → List UInt8
  | 0, _ => []
  | fuel + 1, n =>
      if n < 128 then [n.toUInt8] else (n % 128 + 128).toUInt8 :: writeBytes fuel (n / 128)

/-- Non-negative integers become even numbers, negative ones odd numbers. -/
def fold (n : Int64) : Nat :=
  if 0 ≤ n.toInt then (2 * n.toInt).toNat else (-2 * n.toInt - 1).toNat

def unfold (n : Nat) : Int64 :=
  if n % 2 = 0 then Int64.ofInt (n / 2) else Int64.ofInt (-(n / 2 : Nat) - 1)

def writeLong (n : Int64) : List UInt8 := writeBytes 10 (fold n)

/-- Reads a number of at most `fuel` bytes, and what follows it. -/
def readBytes : Nat → List UInt8 → Except Fault (Nat × List UInt8)
  | 0, _ => .error .overlong
  | _ + 1, [] => .error .truncated
  | fuel + 1, b :: rest =>
      if b.toNat < 128 then .ok (b.toNat, rest)
      else
        match readBytes fuel rest with
        | .error fault => .error fault
        | .ok (n, rest) => .ok (b.toNat % 128 + 128 * n, rest)

def readLong (bytes : List UInt8) : Except Fault (Int64 × List UInt8) :=
  match readBytes 10 bytes with
  | .error fault => .error fault
  | .ok (n, rest) => .ok (unfold (n % UInt64.size), rest)

end ChangeCapture.Avro.Varint
