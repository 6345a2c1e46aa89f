/-!
# Texts as bytes and bytes as text
-/

namespace ChangeCapture.Text.Utf8

/-! ## UTF-8

Encoding characters as bytes, and decoding bytes one at a time. A failure to decode says where the
faulty sequence starts and how many of its bytes could have begun a character. -/

/-- The bytes of one character. -/
def encodeChar (c : Char) : List UInt8 :=
  let v := c.toNat
  if v < 0x80 then [v.toUInt8]
  else if v < 0x800 then [(0xC0 + v / 0x40).toUInt8, (0x80 + v % 0x40).toUInt8]
  else if v < 0x10000 then
    [(0xE0 + v / 0x1000).toUInt8, (0x80 + v / 0x40 % 0x40).toUInt8, (0x80 + v % 0x40).toUInt8]
  else
    [(0xF0 + v / 0x40000).toUInt8, (0x80 + v / 0x1000 % 0x40).toUInt8,
      (0x80 + v / 0x40 % 0x40).toUInt8, (0x80 + v % 0x40).toUInt8]

def encode (cs : List Char) : List UInt8 := cs.flatMap encodeChar

/-- A sequence that cannot be decoded. -/
structure Fault where
  /-- Where the sequence starts. -/
  index : Nat
  /-- How many of its bytes could begin a character, at least one; absent when the input ends inside
  a sequence that is well formed so far. -/
  length : Option Nat
  deriving DecidableEq, Repr

def Fault.message (f : Fault) : String :=
  match f.length with
  | some n => s!"invalid utf-8 sequence of {n} bytes from index {f.index}"
  | none => s!"incomplete utf-8 byte sequence from index {f.index}"

/-- A sequence of which some bytes have been read and at least one is missing. -/
structure Partial where
  seen : Nat
  missing : Nat
  /-- The bits collected so far. -/
  bits : Nat
  /-- The least and the greatest value of the next byte. -/
  low : Nat
  high : Nat
  deriving DecidableEq, Repr

/-- The sequence that a byte from 0x80 up begins. -/
def lead? (b : Nat) : Option Partial :=
  if b < 0xC2 then none
  else if b ≤ 0xDF then some ⟨1, 1, b - 0xC0, 0x80, 0xBF⟩
  else if b = 0xE0 then some ⟨1, 2, 0, 0xA0, 0xBF⟩
  else if b = 0xED then some ⟨1, 2, 0xD, 0x80, 0x9F⟩
  else if b ≤ 0xEF then some ⟨1, 2, b - 0xE0, 0x80, 0xBF⟩
  else if b = 0xF0 then some ⟨1, 3, 0, 0x90, 0xBF⟩
  else if b ≤ 0xF3 then some ⟨1, 3, b - 0xF0, 0x80, 0xBF⟩
  else if b = 0xF4 then some ⟨1, 3, 4, 0x80, 0x8F⟩
  else none

/-- Decodes from a position on; `open?` is the sequence that starts there, if one has been begun. -/
def decodeFrom (start : Nat) : Option Partial → List UInt8 → Except Fault (List Char)
  | none, [] => .ok []
  | some _, [] => .error ⟨start, none⟩
  | none, b :: bs =>
      if b.toNat < 0x80 then (decodeFrom (start + 1) none bs).map (Char.ofNat b.toNat :: ·)
      else
        match lead? b.toNat with
        | none => .error ⟨start, some 1⟩
        | some p => decodeFrom start (some p) bs
  | some p, b :: bs =>
      if p.low ≤ b.toNat ∧ b.toNat ≤ p.high then
        let bits := p.bits * 0x40 + (b.toNat - 0x80)
        if p.missing ≤ 1 then
          (decodeFrom (start + p.seen + 1) none bs).map (Char.ofNat bits :: ·)
        else decodeFrom start (some ⟨p.seen + 1, p.missing - 1, bits, 0x80, 0xBF⟩) bs
      else .error ⟨start, some p.seen⟩

def decode (bytes : List UInt8) : Except Fault (List Char) := decodeFrom 0 none bytes

end ChangeCapture.Text.Utf8

namespace ChangeCapture.Text.Base64

/-! ## Base64

The standard alphabet, with padding. -/

/-- The sign of a number below 64. -/
def sign (n : Nat) : Char :=
  if n < 26 then Char.ofNat (0x41 + n)
  else if n < 52 then Char.ofNat (0x61 + (n - 26))
  else if n < 62 then Char.ofNat (0x30 + (n - 52))
  else if n = 62 then '+'
  else '/'

def encode : List UInt8 → List Char
  | [] => []
  | [a] => [sign (a.toNat / 4), sign (a.toNat % 4 * 16), '=', '=']
  | [a, b] =>
      [sign (a.toNat / 4), sign (a.toNat % 4 * 16 + b.toNat / 16), sign (b.toNat % 16 * 4), '=']
  | a :: b :: c :: rest =>
      sign (a.toNat / 4) :: sign (a.toNat % 4 * 16 + b.toNat / 16)
        :: sign (b.toNat % 16 * 4 + c.toNat / 64) :: sign (c.toNat % 64) :: encode rest

end ChangeCapture.Text.Base64
