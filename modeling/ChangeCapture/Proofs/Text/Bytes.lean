import ChangeCapture.Text.Bytes
import ChangeCapture.Text.Integer

/-!
# Bytes as text

Bytes are shown as base64 or as hexadecimal digits. From either form they can be read back.
-/

namespace ChangeCapture.Text

theorem toUInt8_eq {n : Nat} {b : UInt8} (h : n = b.toNat) : n.toUInt8 = b := by
  rw [h, Nat.toUInt8_eq, UInt8.ofNat_toNat]

namespace Base64

/-- The number below 64 with the given sign. Padding is the sign of none. -/
def value? (c : Char) : Option Nat := (List.range 64).find? fun n => sign n = c

theorem value?_sign {n : Nat} (h : n < 64) : value? (sign n) = some n := by
  have hall : ∀ n < 64, value? (sign n) = some n := by decide +kernel
  exact hall n h

theorem value?_padding : value? '=' = none := by decide +kernel

/-- The bytes of a text, four signs at a time. Nothing follows padding. -/
def decode? : List Char → Option (List UInt8)
  | [] => some []
  | w :: x :: y :: z :: rest =>
      match value? w, value? x, value? y, value? z with
      | some k, some l, some m, some n =>
          (decode? rest).map fun bytes =>
            (k * 4 + l / 16).toUInt8 :: (l % 16 * 16 + m / 4).toUInt8 :: (m % 4 * 64 + n).toUInt8
              :: bytes
      | some k, some l, some m, none =>
          some [(k * 4 + l / 16).toUInt8, (l % 16 * 16 + m / 4).toUInt8]
      | some k, some l, none, _ => some [(k * 4 + l / 16).toUInt8]
      | _, _, _, _ => none
  | _ => none

theorem decode?_encode : ∀ bytes : List UInt8, decode? (encode bytes) = some bytes
  | [] => rfl
  | [a] => by
      have ha := a.toNat_lt
      rw [encode, decode?, value?_sign (by omega), value?_sign (by omega), value?_padding]
      dsimp only
      rw [toUInt8_eq (b := a) (by omega)]
  | [a, b] => by
      have ha := a.toNat_lt
      have hb := b.toNat_lt
      rw [encode, decode?, value?_sign (by omega), value?_sign (by omega),
        value?_sign (by omega), value?_padding]
      dsimp only
      rw [toUInt8_eq (b := a) (by omega), toUInt8_eq (b := b) (by omega)]
  | a :: b :: c :: rest => by
      have ha := a.toNat_lt
      have hb := b.toNat_lt
      have hc := c.toNat_lt
      rw [encode, decode?, value?_sign (by omega), value?_sign (by omega),
        value?_sign (by omega), value?_sign (by omega), decode?_encode rest]
      dsimp only [Option.map_some]
      rw [toUInt8_eq (b := a) (by omega), toUInt8_eq (b := b) (by omega),
        toUInt8_eq (b := c) (by omega)]

theorem encode_injective : Function.Injective encode := by
  intro xs ys h
  have hread := decode?_encode xs
  rw [h, decode?_encode] at hread
  exact (Option.some.inj hread).symm

end Base64

theorem hexValue?_hexDigit {n : Nat} (h : n < 16) : hexValue? (hexDigit n) = some n := by
  have hall : ∀ n < 16, hexValue? (hexDigit n) = some n := by decide
  exact hall n h

theorem writeHex_cons (b : UInt8) (bytes : List UInt8) :
    writeHex (b :: bytes) = hexDigit (b.toNat / 16) :: hexDigit (b.toNat % 16) :: writeHex bytes :=
  rfl

theorem length_writeHex (bytes : List UInt8) : (writeHex bytes).length = 2 * bytes.length := by
  induction bytes with
  | nil => rfl
  | cons b bytes ih =>
      rw [writeHex_cons, List.length_cons, List.length_cons, List.length_cons, ih]
      omega

theorem readHex?_writeHex (bytes : List UInt8) : readHex? (writeHex bytes) = some bytes := by
  induction bytes with
  | nil => rfl
  | cons b bytes ih =>
      have hb := b.toNat_lt
      have hbyte : (16 * (b.toNat / 16) + b.toNat % 16).toUInt8 = b := toUInt8_eq (by omega)
      simp only [writeHex_cons, readHex?, hexValue?_hexDigit (show b.toNat / 16 < 16 by omega),
        hexValue?_hexDigit (show b.toNat % 16 < 16 by omega), ih, hbyte]

end ChangeCapture.Text
