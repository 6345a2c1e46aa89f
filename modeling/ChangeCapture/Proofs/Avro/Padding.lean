import ChangeCapture.Proofs.Avro.Decimals
import ChangeCapture.Proofs.Avro.Truncation
import Mathlib.Algebra.Ring.Int.Defs

/-!
# Padding of decimals

An integer is held by bytes of any length from its shortest one on: the longer ones are padded with
its sign. The padding changes no text, but it counts when the bytes of a decimal are counted.
-/

namespace ChangeCapture.Avro

/-! ## Encodings of an integer -/

theorem unsigned_injective {xs ys : List UInt8} (hlength : xs.length = ys.length)
    (h : unsigned xs = unsigned ys) : xs = ys := by
  induction xs generalizing ys with
  | nil => exact (List.length_eq_zero_iff.mp hlength.symm).symm
  | cons b xs ih =>
      cases ys with
      | nil => exact nomatch hlength
      | cons c ys =>
          have hrest : xs.length = ys.length := Nat.succ.inj hlength
          have hx := unsigned_lt xs
          have hy := unsigned_lt ys
          rw [unsigned_cons, unsigned_cons, ← hrest] at h
          rw [← hrest] at hy
          -- the first byte is the quotient by the weight of its place
          have hquotient : ∀ (a : UInt8) (u : Nat), u < 256 ^ xs.length →
              (a.toNat * 256 ^ xs.length + u) / 256 ^ xs.length = a.toNat := by
            intro a u hu
            rw [Nat.mul_comm, Nat.mul_add_div (Nat.pow_pos (by decide)), Nat.div_eq_of_lt hu,
              Nat.add_zero]
          have hb : b.toNat = c.toNat := by
            rw [← hquotient b _ hx, h, hquotient c _ hy]
          rw [hb] at h
          rw [UInt8.toNat_inj.mp hb, ih hrest (Nat.add_left_cancel h)]

theorem twosComplement_injective {xs ys : List UInt8} (hlength : xs.length = ys.length)
    (h : twosComplement xs = twosComplement ys) : xs = ys := by
  apply unsigned_injective hlength
  have hpow : ∀ zs : List UInt8, 2 ^ (8 * zs.length) = 256 ^ zs.length := by
    intro zs
    rw [Nat.pow_mul]
  have hword : ∀ zs : List UInt8,
      (BitVec.ofNat (8 * zs.length) (unsigned zs)).toNat = unsigned zs := by
    intro zs
    rw [BitVec.toNat_ofNat, hpow, Nat.mod_eq_of_lt (unsigned_lt zs)]
  rw [twosComplement_eq_toInt, twosComplement_eq_toInt, ← hlength, BitVec.toInt_inj] at h
  have hys := hword ys
  rw [← hlength, ← h, hword xs] at hys
  exact hys

/-- The lowest `length` bytes of a number, the most significant one first. -/
def bigEndian : Nat → Nat → List UInt8
  | 0, _ => []
  | length + 1, n => UInt8.ofNat (n / 256 ^ length) :: bigEndian length n

theorem length_bigEndian (length n : Nat) : (bigEndian length n).length = length := by
  induction length with
  | zero => rfl
  | succ length ih => rw [bigEndian, List.length_cons, ih]

theorem unsigned_bigEndian (length n : Nat) :
    unsigned (bigEndian length n) = n % 256 ^ length := by
  induction length with
  | zero => exact (Nat.mod_one n).symm
  | succ length ih =>
      have hbyte : (UInt8.ofNat (n / 256 ^ length)).toNat = n / 256 ^ length % 256 :=
        UInt8.toNat_ofNat'
      rw [bigEndian, unsigned_cons, length_bigEndian, ih, hbyte, Nat.pow_succ, Nat.mod_mul,
        Nat.add_comm, Nat.mul_comm]

/-- Bytes that hold an integer in two's complement, with or without padding. -/
structure Encodes (bytes : List UInt8) (n : Int) : Prop where
  ne_nil : bytes ≠ []
  value : twosComplement bytes = n

/-- So many bytes have room for an integer. -/
def FitsBytes (length : Nat) (n : Int) : Prop :=
  -2 ^ (8 * length - 1) ≤ n ∧ n < 2 ^ (8 * length - 1)

theorem Encodes.fitsBytes {bytes : List UInt8} {n : Int} (h : Encodes bytes n) :
    FitsBytes bytes.length n := by
  rw [← h.value, twosComplement_eq_toInt]
  exact ⟨BitVec.le_toInt _, BitVec.toInt_lt⟩

theorem FitsBytes.mono {length length' : Nat} {n : Int} (h : FitsBytes length n)
    (hle : length ≤ length') : FitsBytes length' n := by
  have hpow : (2 : Int) ^ (8 * length - 1) ≤ 2 ^ (8 * length' - 1) :=
    mod_cast Nat.pow_le_pow_right Nat.two_pos (by omega)
  obtain ⟨hlow, hhigh⟩ := h
  exact ⟨by omega, by omega⟩

theorem FitsBytes.exists_encodes {length : Nat} {n : Int} (h : FitsBytes length n)
    (hpos : 0 < length) : ∃ bytes, Encodes bytes n ∧ bytes.length = length := by
  have hlength := length_bigEndian length (BitVec.ofInt (8 * length) n).toNat
  refine ⟨_, ⟨List.ne_nil_of_length_pos (by omega), ?_⟩, hlength⟩
  rw [twosComplement_eq_toInt, hlength, unsigned_bigEndian]
  have hlt : (BitVec.ofInt (8 * length) n).toNat < 256 ^ length := by
    have hbound := (BitVec.ofInt (8 * length) n).isLt
    rwa [Nat.pow_mul] at hbound
  rw [Nat.mod_eq_of_lt hlt, BitVec.ofNat_toNat, BitVec.setWidth_eq]
  exact BitVec.toInt_ofInt_eq_self (by omega) h.1 h.2

/-- Which integers can be held in so many bytes at most, however they are padded. -/
theorem exists_encodes_iff {length : Nat} (hpos : 0 < length) {n : Int} :
    (∃ bytes, Encodes bytes n ∧ bytes.length ≤ length) ↔ FitsBytes length n := by
  constructor
  · rintro ⟨bytes, hbytes, hle⟩
    exact hbytes.fitsBytes.mono hle
  · intro h
    obtain ⟨bytes, hbytes, hlength⟩ := h.exists_encodes hpos
    exact ⟨bytes, hbytes, Nat.le_of_eq hlength⟩

/-- Of two encodings of an integer the longer one is the shorter one with padding. -/
theorem Encodes.eq_padded {bytes bytes' : List UInt8} {n : Int} (h : Encodes bytes n)
    (h' : Encodes bytes' n) (hle : bytes.length ≤ bytes'.length) :
    bytes' = List.replicate (bytes'.length - bytes.length) (signByte bytes) ++ bytes := by
  apply twosComplement_injective
  · rw [List.length_append, List.length_replicate, Nat.sub_add_cancel hle]
  · rw [twosComplement_replicate_signByte, h.value, h'.value]

/-! ## Texts of padded decimals -/

theorem Decimal.toJson?_of_encodes {d : Decimal} {n : Int} (h : Encodes d.bytes n)
    (scale : Nat) : d.toJson? scale =
      if d.bytes.length ≤ 16 then .ok (.str (String.ofList (writeScaled n scale)))
      else .error (.wide d.bytes.length) := by
  have hvalue : d.value = n := h.value
  split
  · next hfits => exact toJson?_eq_ok_iff.mpr ⟨h.ne_nil, hfits, by rw [hvalue]⟩
  · next hwide =>
      rw [toJson?, write, if_neg (by simpa using h.ne_nil), if_pos (Nat.not_le.mp hwide)]
      rfl

theorem Decimal.toJson?_eq_iff {d d' : Decimal} {n : Int} (hd : Encodes d.bytes n)
    (hd' : Encodes d'.bytes n) (scale : Nat) : d.toJson? scale = d'.toJson? scale ↔
      d.bytes.length ≤ 16 ∧ d'.bytes.length ≤ 16 ∨ d.bytes.length = d'.bytes.length := by
  rw [toJson?_of_encodes hd, toJson?_of_encodes hd']
  by_cases hfits : d.bytes.length ≤ 16
  · by_cases hfits' : d'.bytes.length ≤ 16
    · rw [if_pos hfits, if_pos hfits']
      exact iff_of_true rfl (Or.inl ⟨hfits, hfits'⟩)
    · rw [if_pos hfits, if_neg hfits']
      exact iff_of_false nofun (by omega)
  · by_cases hfits' : d'.bytes.length ≤ 16
    · rw [if_neg hfits, if_pos hfits']
      exact iff_of_false nofun (by omega)
    · rw [if_neg hfits, if_neg hfits', Except.error.injEq, Fault.wide.injEq]
      exact (or_iff_right fun h => hfits h.1).symm

namespace Value

/-- Two decimals of one integer have the same text, as long as neither has more than sixteen bytes
with its padding. One with more bytes is refused, whatever its integer is, and the error tells how
many they are. -/
theorem columnToJson?_encodes {v v' : Value} {d d' : Decimal} (hv : v.unwrap = .decimal d)
    (hv' : v'.unwrap = .decimal d') {n : Int} (hd : Encodes d.bytes n)
    (hd' : Encodes d'.bytes n) (type : Json) :
    (d.bytes.length ≤ 16 → d'.bytes.length ≤ 16 → ∃ text, IsScaledText n (decimalScale type) text ∧
      v.columnToJson? type = .ok (.str (String.ofList text)) ∧
      v'.columnToJson? type = .ok (.str (String.ofList text))) ∧
    (16 < d.bytes.length → v.columnToJson? type = .error (.wide d.bytes.length)) ∧
    (v.columnToJson? type = v'.columnToJson? type ↔
      d.bytes.length ≤ 16 ∧ d'.bytes.length ≤ 16 ∨ d.bytes.length = d'.bytes.length) ∧
    (d.bytes.length ≤ d'.bytes.length → d'.bytes =
      List.replicate (d'.bytes.length - d.bytes.length) (signByte d.bytes) ++ d.bytes) ∧
    (FitsBytes 16 n ↔ ∃ bytes, Encodes bytes n ∧ bytes.length ≤ 16) := by
  rw [columnToJson?_decimal hv, columnToJson?_decimal hv']
  refine ⟨?_, ?_, Decimal.toJson?_eq_iff hd hd' _, hd.eq_padded hd',
    (exists_encodes_iff (by decide)).symm⟩
  · intro hfits hfits'
    refine ⟨_, isScaledText_writeScaled n (decimalScale type), ?_, ?_⟩
    · rw [Decimal.toJson?_of_encodes hd, if_pos hfits]
    · rw [Decimal.toJson?_of_encodes hd', if_pos hfits']
  · intro hwide
    rw [Decimal.toJson?_of_encodes hd, if_neg (Nat.not_le.mpr hwide)]

/-- Five hundredths less than nothing, in one byte and in two. -/
theorem columnToJson?_encodes_amount :
    Encodes [0xfb] (-5) ∧ Encodes [0xff, 0xfb] (-5) ∧ ∃ text, IsScaledText (-5) 2 text ∧
      (decimal ⟨[0xfb]⟩).columnToJson? amount = .ok (.str (String.ofList text)) ∧
      (union 1 (decimal ⟨[0xff, 0xfb]⟩)).columnToJson? amount =
        .ok (.str (String.ofList text)) := by
  have hshort : Encodes [0xfb] (-5) := ⟨by decide, by decide⟩
  have hlong : Encodes [0xff, 0xfb] (-5) := ⟨by decide, by decide⟩
  have hscale : decimalScale amount = 2 := by decide
  have hunwrap : (decimal ⟨[0xfb]⟩).unwrap = .decimal ⟨[0xfb]⟩ := rfl
  have hunwrap' : (union 1 (decimal ⟨[0xff, 0xfb]⟩)).unwrap = .decimal ⟨[0xff, 0xfb]⟩ := rfl
  obtain ⟨htext, -⟩ := columnToJson?_encodes hunwrap hunwrap' hshort hlong amount
  rw [hscale] at htext
  exact ⟨hshort, hlong, htext (by decide) (by decide)⟩

/-- One hundredth in one byte, and in seventeen. -/
theorem columnToJson?_ne_padded :
    Encodes [1] 1 ∧ Encodes (List.replicate 16 0 ++ [1]) 1 ∧ FitsBytes 16 1 ∧
      decimalScale amount < 65535 ∧
      (decimal ⟨[1]⟩).columnToJson? amount = .ok (.str "0.01") ∧
      (decimal ⟨List.replicate 16 0 ++ [1]⟩).columnToJson? amount = .error (.wide 17) := by
  have hshort : Encodes [1] 1 := ⟨by decide, by decide⟩
  have hlong : Encodes (List.replicate 16 0 ++ [1]) 1 := ⟨by decide, by decide⟩
  have hscale : decimalScale amount = 2 := by decide
  have htext : String.ofList (writeScaled 1 2) = "0.01" := by decide
  refine ⟨hshort, hlong, ⟨by decide, by decide⟩, by rw [hscale]; decide, ?_, ?_⟩
  · rw [columnToJson?_decimal rfl, Decimal.toJson?_of_encodes hshort, hscale, htext]
    rfl
  · rw [columnToJson?_decimal rfl, Decimal.toJson?_of_encodes hlong]
    rfl

end Value

end ChangeCapture.Avro
