import ChangeCapture.Text.Bytes

/-!
# Text from its bytes

Decoding takes the bytes of a character off the front of any input, so every text is read back from
its encoding.
-/

namespace ChangeCapture.Text.Utf8

theorem toNat_toUInt8 {n : Nat} (h : n < 0x100) : n.toUInt8.toNat = n := by
  rw [Nat.toUInt8_eq, UInt8.toNat_ofNat']
  exact Nat.mod_eq_of_lt h

section Steps

variable {start seen bits low high n : Nat} {bytes : List UInt8}

theorem decodeFrom_ascii (h : n < 0x80) : decodeFrom start none (n.toUInt8 :: bytes) =
    (decodeFrom (start + 1) none bytes).map (Char.ofNat n :: ·) := by
  have hn := toNat_toUInt8 (show n < 0x100 by omega)
  rw [decodeFrom, if_pos (by omega), hn]

theorem decodeFrom_lead {p : Partial} (hlow : 0x80 ≤ n) (hhigh : n < 0x100)
    (hp : lead? n = some p) :
    decodeFrom start none (n.toUInt8 :: bytes) = decodeFrom start (some p) bytes := by
  have hn := toNat_toUInt8 hhigh
  rw [decodeFrom, if_neg (by omega), hn, hp]

theorem decodeFrom_middle {missing : Nat} (hlow : low ≤ n) (hhigh : n ≤ high) (h : n < 0x100) :
    decodeFrom start (some ⟨seen, missing + 2, bits, low, high⟩) (n.toUInt8 :: bytes) =
      decodeFrom start (some ⟨seen + 1, missing + 1, bits * 0x40 + (n - 0x80), 0x80, 0xBF⟩)
        bytes := by
  have hn := toNat_toUInt8 h
  rw [decodeFrom, hn, if_pos ⟨hlow, hhigh⟩, if_neg (show ¬missing + 2 ≤ 1 by omega)]
  rfl

theorem decodeFrom_last (hlow : low ≤ n) (hhigh : n ≤ high) (h : n < 0x100) :
    decodeFrom start (some ⟨seen, 1, bits, low, high⟩) (n.toUInt8 :: bytes) =
      (decodeFrom (start + seen + 1) none bytes).map
        (Char.ofNat (bits * 0x40 + (n - 0x80)) :: ·) := by
  have hn := toNat_toUInt8 h
  rw [decodeFrom, hn, if_pos ⟨hlow, hhigh⟩, if_pos (Nat.le_refl 1)]

end Steps

section Leads

variable {v : Nat}

theorem lead?_two (low : 0x80 ≤ v) (high : v < 0x800) :
    lead? (0xC0 + v / 0x40) = some ⟨1, 1, v / 0x40, 0x80, 0xBF⟩ := by
  unfold lead?
  rw [if_neg (by omega), if_pos (by omega), Nat.add_sub_cancel_left]

/-- The bounds of the second byte keep out numbers that need fewer bytes, and surrogates. -/
theorem lead?_three (low : 0x800 ≤ v) (high : v < 0x10000) (hvalid : v < 0xD800 ∨ 0xDFFF < v) :
    ∃ first last, lead? (0xE0 + v / 0x1000) = some ⟨1, 2, v / 0x1000, first, last⟩ ∧
      first ≤ 0x80 + v / 0x40 % 0x40 ∧ 0x80 + v / 0x40 % 0x40 ≤ last := by
  unfold lead?
  rw [if_neg (by omega), if_neg (by omega)]
  by_cases hzero : v / 0x1000 = 0
  · refine ⟨0xA0, 0xBF, ?_, by omega, by omega⟩
    rw [if_pos (by omega), hzero]
  rw [if_neg (by omega)]
  by_cases hsurrogate : v / 0x1000 = 0xD
  · refine ⟨0x80, 0x9F, ?_, by omega, by omega⟩
    rw [if_pos (by omega), hsurrogate]
  · refine ⟨0x80, 0xBF, ?_, by omega, by omega⟩
    rw [if_neg (by omega), if_pos (by omega), Nat.add_sub_cancel_left]

theorem lead?_four (low : 0x10000 ≤ v) (high : v < 0x110000) :
    ∃ first last, lead? (0xF0 + v / 0x40000) = some ⟨1, 3, v / 0x40000, first, last⟩ ∧
      first ≤ 0x80 + v / 0x1000 % 0x40 ∧ 0x80 + v / 0x1000 % 0x40 ≤ last := by
  unfold lead?
  rw [if_neg (by omega), if_neg (by omega), if_neg (by omega), if_neg (by omega), if_neg (by omega)]
  by_cases hzero : v / 0x40000 = 0
  · refine ⟨0x90, 0xBF, ?_, by omega, by omega⟩
    rw [if_pos (by omega), hzero]
  rw [if_neg (by omega)]
  by_cases hlast : v / 0x40000 = 4
  · refine ⟨0x80, 0x8F, ?_, by omega, by omega⟩
    rw [if_neg (by omega), if_pos (by omega), hlast]
  · refine ⟨0x80, 0xBF, ?_, by omega, by omega⟩
    rw [if_pos (by omega), Nat.add_sub_cancel_left]

end Leads

theorem decodeFrom_encodeChar (start : Nat) (c : Char) (rest : List UInt8) :
    decodeFrom start none (encodeChar c ++ rest) =
      (decodeFrom (start + (encodeChar c).length) none rest).map (c :: ·) := by
  have hvalid : c.toNat < 0xD800 ∨ 0xDFFF < c.toNat ∧ c.toNat < 0x110000 := c.valid
  unfold encodeChar
  dsimp only
  generalize hv : c.toNat = v at hvalid
  have hc : Char.ofNat v = c := by rw [← hv, Char.ofNat_toNat]
  by_cases hone : v < 0x80
  · rw [if_pos hone, List.singleton_append, decodeFrom_ascii hone, hc]
    rfl
  rw [if_neg hone]
  by_cases htwo : v < 0x800
  · have hlead := lead?_two (by omega) htwo
    rw [if_pos htwo, List.cons_append, List.singleton_append,
      decodeFrom_lead (by omega) (by omega) hlead, decodeFrom_last (by omega) (by omega) (by omega),
      show v / 0x40 * 0x40 + (0x80 + v % 0x40 - 0x80) = v by omega, hc]
    rfl
  rw [if_neg htwo]
  by_cases hthree : v < 0x10000
  · obtain ⟨first, last, hlead, hfirst, hlast⟩ := lead?_three (by omega) hthree (by omega)
    rw [if_pos hthree, List.cons_append, List.cons_append, List.singleton_append,
      decodeFrom_lead (by omega) (by omega) hlead, decodeFrom_middle hfirst hlast (by omega),
      decodeFrom_last (by omega) (by omega) (by omega),
      show (v / 0x1000 * 0x40 + (0x80 + v / 0x40 % 0x40 - 0x80)) * 0x40 +
        (0x80 + v % 0x40 - 0x80) = v by omega, hc]
    rfl
  rw [if_neg hthree]
  obtain ⟨first, last, hlead, hfirst, hlast⟩ := lead?_four (v := v) (by omega) (by omega)
  rw [List.cons_append, List.cons_append, List.cons_append, List.singleton_append,
    decodeFrom_lead (by omega) (by omega) hlead, decodeFrom_middle hfirst hlast (by omega),
    decodeFrom_middle (by omega) (by omega) (by omega),
    decodeFrom_last (by omega) (by omega) (by omega),
    show ((v / 0x40000 * 0x40 + (0x80 + v / 0x1000 % 0x40 - 0x80)) * 0x40 +
      (0x80 + v / 0x40 % 0x40 - 0x80)) * 0x40 + (0x80 + v % 0x40 - 0x80) = v by omega, hc]
  rfl

theorem decodeFrom_encode (start : Nat) (cs : List Char) :
    decodeFrom start none (encode cs) = .ok cs := by
  induction cs generalizing start with
  | nil => rfl
  | cons c cs ih =>
      have hcons : encode (c :: cs) = encodeChar c ++ encode cs := List.flatMap_cons
      rw [hcons, decodeFrom_encodeChar, ih]
      rfl

@[simp] theorem decode_encode (cs : List Char) : decode (encode cs) = .ok cs :=
  decodeFrom_encode 0 cs

end ChangeCapture.Text.Utf8
