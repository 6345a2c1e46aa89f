import ChangeCapture.Text.Characters
import ChangeCapture.Text.Integer
import Mathlib.Algebra.Group.Nat.Defs
import Mathlib.Data.List.Basic
import Mathlib.Data.List.TakeWhile

/-!
# Integers are read back

The decimal digits of a number stand without superfluous zeros. Digits are read as the number that
they write, whatever zeros stand in front of them, as long as it is in the range. An integer may
have a sign of either kind, and nothing else is read as one. Trimming leaves an integer that has
blanks around it.
-/

namespace ChangeCapture.Text

theorem digits_head?_ne_zero {n : Nat} (h : n ≠ 0) : (digits n).head? ≠ some '0' := by
  unfold digits
  induction n using Nat.strongRecOn with
  | ind n ih =>
      by_cases hlt : n < 10
      · rw [Nat.toDigits_of_lt_base hlt]
        intro heq
        exact h (Nat.digitChar_eq_zero.mp (Option.some.inj heq))
      · have hhead := ih (n / 10) (by omega) (by omega)
        have hne : Nat.toDigits 10 (n / 10) ≠ [] := Nat.toDigits_ne_nil
        obtain ⟨d, ds, hds⟩ := List.exists_cons_of_ne_nil hne
        rw [hds] at hhead
        rw [Nat.toDigits_of_base_le (by decide) (Nat.not_lt.mp hlt), hds]
        exact hhead

theorem isDigit_of_mem_digits {n : Nat} {c : Char} (h : c ∈ digits n) : c.isDigit :=
  Nat.isDigit_of_mem_toDigits (by decide) (by decide) h

theorem length_digits_pos (n : Nat) : 0 < (digits n).length := Nat.length_toDigits_pos

/-- All digits but the last `k` are those of the number without its last `k` places. -/
theorem take_digits {n k : Nat} (h : 10 ^ k ≤ n) :
    (digits n).take ((digits n).length - k) = digits (n / 10 ^ k) := by
  induction k generalizing n with
  | zero => rw [Nat.sub_zero, List.take_length, Nat.pow_zero, Nat.div_one]
  | succ k ih =>
      rw [Nat.pow_succ] at h
      have hpow : 0 < 10 ^ k := Nat.pow_pos (by decide)
      have hten : 10 ≤ n := by omega
      have hrest : 10 ^ k ≤ n / 10 := (Nat.le_div_iff_mul_le (by decide)).mpr h
      have hlast : digits n = digits (n / 10) ++ [Nat.digitChar (n % 10)] :=
        Nat.toDigits_of_base_le (by decide) hten
      rw [Nat.pow_succ', ← Nat.div_div_eq_div_mul, ← ih hrest, hlast, List.length_append,
        List.length_singleton, Nat.add_sub_add_right,
        List.take_append_of_le_length (Nat.sub_le _ _)]

theorem isDigit_iff_toNat {c : Char} : c.isDigit ↔ 0x30 ≤ c.toNat ∧ c.toNat ≤ 0x39 := by
  simp only [Char.isDigit, Bool.and_eq_true, decide_eq_true_eq, ge_iff_le,
    UInt32.le_iff_toNat_le]
  exact Iff.rfl

theorem digit?_of_isDigit {c : Char} (h : c.isDigit) : digit? c = some (c.toNat - 0x30) :=
  if_pos (isDigit_iff_toNat.mp h)

theorem digit?_isSome (c : Char) : (digit? c).isSome = c.isDigit := by
  by_cases hc : c.isDigit
  · rw [digit?_of_isDigit hc, hc, Option.isSome_some]
  · rw [digit?, if_neg fun h => hc (isDigit_iff_toNat.mpr h)]
    simpa using hc

theorem le_ofDigitChars (ds : List Char) (acc : Nat) : acc ≤ Nat.ofDigitChars 10 ds acc := by
  rw [Nat.ofDigitChars_eq_ofDigitChars_zero]
  have hpow : 0 < 10 ^ ds.length := Nat.pow_pos (by decide)
  exact Nat.le_add_right_of_le (Nat.le_mul_of_pos_left acc hpow)

section Reading

variable {limit low high : Nat} {outside : IntegerFault} {ds cs : List Char}

theorem readMagnitude_eq_ok {acc : Nat} (hdigits : ∀ c ∈ ds, c.isDigit)
    (hlimit : Nat.ofDigitChars 10 ds acc ≤ limit) :
    readMagnitude limit outside acc ds = .ok (Nat.ofDigitChars 10 ds acc) := by
  induction ds generalizing acc with
  | nil => rfl
  | cons c cs ih =>
      obtain ⟨hc, hcs⟩ := List.forall_mem_cons.mp hdigits
      rw [Nat.ofDigitChars_cons, Nat.mul_comm] at hlimit ⊢
      have hnext : acc * 10 + (c.toNat - 0x30) ≤ limit :=
        Nat.le_trans (le_ofDigitChars cs _) hlimit
      rw [readMagnitude, digit?_of_isDigit hc]
      exact (if_pos hnext).trans (ih hcs hlimit)

theorem readMagnitude_eq_error {acc : Nat} (hdigits : ∀ c ∈ ds, c.isDigit) (hacc : acc ≤ limit)
    (hlimit : limit < Nat.ofDigitChars 10 ds acc) :
    readMagnitude limit outside acc ds = .error outside := by
  induction ds generalizing acc with
  | nil => exact absurd hlimit (Nat.not_lt.mpr hacc)
  | cons c cs ih =>
      obtain ⟨hc, hcs⟩ := List.forall_mem_cons.mp hdigits
      rw [Nat.ofDigitChars_cons, Nat.mul_comm] at hlimit
      rw [readMagnitude, digit?_of_isDigit hc]
      by_cases hnext : acc * 10 + (c.toNat - 0x30) ≤ limit
      · exact (if_pos hnext).trans (ih hcs hnext hlimit)
      · exact if_neg hnext

/-- What is read as a magnitude consists of digits and is within the limit. -/
theorem of_readMagnitude_eq_ok {acc m : Nat} (hacc : acc ≤ limit)
    (h : readMagnitude limit outside acc ds = .ok m) :
    (∀ c ∈ ds, c.isDigit) ∧ m = Nat.ofDigitChars 10 ds acc ∧ m ≤ limit := by
  induction ds generalizing acc with
  | nil =>
      obtain rfl : acc = m := Except.ok.inj h
      exact ⟨List.forall_mem_nil _, rfl, hacc⟩
  | cons c cs ih =>
      rw [readMagnitude] at h
      cases hdigit : digit? c with
      | none => simp [hdigit] at h
      | some d =>
          have hc : c.isDigit := by rw [← digit?_isSome, hdigit, Option.isSome_some]
          obtain rfl : c.toNat - 0x30 = d :=
            Option.some.inj ((digit?_of_isDigit hc).symm.trans hdigit)
          simp only [hdigit] at h
          split at h
          · next hnext =>
              obtain ⟨hcs, hm, hlimit⟩ := ih hnext h
              refine ⟨List.forall_mem_cons.mpr ⟨hc, hcs⟩, ?_, hlimit⟩
              rw [hm, Nat.ofDigitChars_cons, Nat.mul_comm]
              rfl
          · exact nomatch h

theorem readMagnitude_eq_ok_iff {m : Nat} : readMagnitude limit outside 0 ds = .ok m ↔
    (∀ c ∈ ds, c.isDigit) ∧ m = Nat.ofDigitChars 10 ds 0 ∧ m ≤ limit := by
  constructor
  · exact of_readMagnitude_eq_ok (Nat.zero_le limit)
  · rintro ⟨hdigits, rfl, hlimit⟩
    exact readMagnitude_eq_ok hdigits hlimit

theorem map_readMagnitude_eq_ok_iff {n : Int} {f : Nat → Int} :
    (readMagnitude limit outside 0 ds).map f = .ok n ↔
      (∀ c ∈ ds, c.isDigit) ∧ n = f (Nat.ofDigitChars 10 ds 0) ∧
        Nat.ofDigitChars 10 ds 0 ≤ limit := by
  constructor
  · intro h
    cases hm : readMagnitude limit outside 0 ds with
    | error fault => simp [hm, Except.map] at h
    | ok m =>
        obtain ⟨hdigits, rfl, hlimit⟩ := readMagnitude_eq_ok_iff.mp hm
        rw [hm] at h
        exact ⟨hdigits, (Except.ok.inj h).symm, hlimit⟩
  · rintro ⟨hdigits, rfl, hlimit⟩
    rw [readMagnitude_eq_ok hdigits hlimit]
    rfl

/-- Digits are read as the word that they write, if it has 32 bits. -/
theorem readUInt32?_eq (hne : ds ≠ []) (hdigits : ∀ c ∈ ds, c.isDigit) :
    readUInt32? ds =
      if Nat.ofDigitChars 10 ds 0 < 2 ^ 32 then some (.ofNat (Nat.ofDigitChars 10 ds 0))
      else none := by
  obtain ⟨c, cs, rfl⟩ := List.exists_cons_of_ne_nil hne
  rw [readUInt32?]
  · split
    · next hfits =>
        rw [readMagnitude_eq_ok hdigits (Nat.le_of_lt_succ hfits)]
        rfl
    · next hfits =>
        rw [readMagnitude_eq_error hdigits (Nat.zero_le _) (by omega)]
        rfl
  · exact List.cons_ne_nil c cs

/-- An optional sign and one or more decimal digits, and the integer that they write. -/
inductive WritesInteger : List Char → Int → Prop
  | unsigned {ds : List Char} (hne : ds ≠ []) (hdigits : ∀ c ∈ ds, c.isDigit) :
      WritesInteger ds (Nat.ofDigitChars 10 ds 0)
  | plus {ds : List Char} (hne : ds ≠ []) (hdigits : ∀ c ∈ ds, c.isDigit) :
      WritesInteger ('+' :: ds) (Nat.ofDigitChars 10 ds 0)
  | minus {ds : List Char} (hne : ds ≠ []) (hdigits : ∀ c ∈ ds, c.isDigit) :
      WritesInteger ('-' :: ds) (-Nat.ofDigitChars 10 ds 0)

theorem readSigned_plus (hne : ds ≠ []) : readSigned low high ('+' :: ds) =
    (readMagnitude high .tooLarge 0 ds).map Int.ofNat := by
  obtain ⟨c, cs, rfl⟩ := List.exists_cons_of_ne_nil hne
  rfl

theorem readSigned_minus (hne : ds ≠ []) : readSigned low high ('-' :: ds) =
    (readMagnitude low .tooSmall 0 ds).map fun n => -Int.ofNat n := by
  obtain ⟨c, cs, rfl⟩ := List.exists_cons_of_ne_nil hne
  rfl

theorem readSigned_unsigned {c : Char} (hplus : c ≠ '+') (hminus : c ≠ '-') :
    readSigned low high (c :: cs) = (readMagnitude high .tooLarge 0 (c :: cs)).map Int.ofNat := by
  unfold readSigned
  split <;> simp_all

theorem ne_sign_of_isDigit {c : Char} (h : c.isDigit) : c ≠ '+' ∧ c ≠ '-' := by
  constructor
  · rintro rfl
    exact nomatch h
  · rintro rfl
    exact nomatch h

theorem WritesInteger.readSigned_eq {n : Int} (h : WritesInteger cs n) (hlow : -low ≤ n)
    (hhigh : n ≤ high) : readSigned low high cs = .ok n := by
  cases h with
  | unsigned hne hdigits =>
      obtain ⟨c, ds, rfl⟩ := List.exists_cons_of_ne_nil hne
      obtain ⟨hplus, hminus⟩ := ne_sign_of_isDigit (hdigits c List.mem_cons_self)
      rw [readSigned_unsigned hplus hminus]
      exact map_readMagnitude_eq_ok_iff.mpr ⟨hdigits, rfl, by omega⟩
  | plus hne hdigits =>
      rw [readSigned_plus hne]
      exact map_readMagnitude_eq_ok_iff.mpr ⟨hdigits, rfl, by omega⟩
  | minus hne hdigits =>
      rw [readSigned_minus hne]
      exact map_readMagnitude_eq_ok_iff.mpr ⟨hdigits, rfl, by omega⟩

theorem writesInteger_of_readSigned {n : Int} (h : readSigned low high cs = .ok n) :
    WritesInteger cs n ∧ -low ≤ n ∧ n ≤ high := by
  rcases cs with _ | ⟨c, ds⟩
  · exact nomatch h
  by_cases hplus : c = '+'
  · subst hplus
    have hne : ds ≠ [] := by
      rintro rfl
      exact nomatch h
    rw [readSigned_plus hne] at h
    obtain ⟨hdigits, rfl, hlimit⟩ := map_readMagnitude_eq_ok_iff.mp h
    rw [Int.ofNat_eq_natCast]
    exact ⟨.plus hne hdigits, by omega, by omega⟩
  by_cases hminus : c = '-'
  · subst hminus
    have hne : ds ≠ [] := by
      rintro rfl
      exact nomatch h
    rw [readSigned_minus hne] at h
    obtain ⟨hdigits, rfl, hlimit⟩ := map_readMagnitude_eq_ok_iff.mp h
    rw [Int.ofNat_eq_natCast]
    exact ⟨.minus hne hdigits, by omega, by omega⟩
  · rw [readSigned_unsigned hplus hminus] at h
    obtain ⟨hdigits, rfl, hlimit⟩ := map_readMagnitude_eq_ok_iff.mp h
    rw [Int.ofNat_eq_natCast]
    exact ⟨.unsigned (List.cons_ne_nil c ds) hdigits, by omega, by omega⟩

/-- An integer is read exactly from the texts that write it, as long as it is in the range. -/
theorem readSigned_eq_ok_iff {n : Int} : readSigned low high cs = .ok n ↔
    WritesInteger cs n ∧ -low ≤ n ∧ n ≤ high :=
  ⟨writesInteger_of_readSigned, fun h => h.1.readSigned_eq h.2.1 h.2.2⟩

/-- What stands in front of the digits of an integer. -/
def sign (n : Int) : List Char := if n < 0 then ['-'] else []

/-- Digits with a sign write the integer of that sign. -/
theorem writesInteger_sign {n : Int} (hne : ds ≠ []) (hdigits : ∀ c ∈ ds, c.isDigit)
    (hvalue : Nat.ofDigitChars 10 ds 0 = n.natAbs) : WritesInteger (sign n ++ ds) n := by
  by_cases hn : n < 0
  · have hwrites := WritesInteger.minus hne hdigits
    rw [hvalue, ← Int.eq_neg_natAbs_of_nonpos (Int.le_of_lt hn)] at hwrites
    rwa [sign, if_pos hn]
  · have hwrites := WritesInteger.unsigned hne hdigits
    rw [hvalue, Int.natAbs_of_nonneg (Int.not_lt.mp hn)] at hwrites
    rwa [sign, if_neg hn]

theorem readSigned_sign {n : Int} (hne : ds ≠ []) (hdigits : ∀ c ∈ ds, c.isDigit)
    (hvalue : Nat.ofDigitChars 10 ds 0 = n.natAbs) (hlow : -low ≤ n) (hhigh : n ≤ high) :
    readSigned low high (sign n ++ ds) = .ok n :=
  (writesInteger_sign hne hdigits hvalue).readSigned_eq hlow hhigh

theorem writeInt_eq_sign (n : Int) : writeInt n = sign n ++ digits n.natAbs := by
  cases n with
  | ofNat m => rfl
  | negSucc m =>
      rw [sign, if_pos (Int.negSucc_lt_zero m)]
      rfl

theorem writesInteger_writeInt (n : Int) : WritesInteger (writeInt n) n := by
  rw [writeInt_eq_sign]
  apply writesInteger_sign
  · exact List.ne_nil_of_length_pos (length_digits_pos n.natAbs)
  · exact fun c hc => isDigit_of_mem_digits hc
  · exact Nat.ofDigitChars_ten_toDigits

/-- A text that writes an integer of 64 bits. -/
def IsInt64 (cs : List Char) : Prop :=
  ∃ n, WritesInteger cs n ∧ -0x8000000000000000 ≤ n ∧ n ≤ 0x7fffffffffffffff

theorem readInt64_eq_ok_iff {w : Int64} : readInt64 cs = .ok w ↔ WritesInteger cs w.toInt := by
  rw [readInt64]
  constructor
  · intro h
    cases hn : readSigned 0x8000000000000000 0x7fffffffffffffff cs with
    | error fault => simp [hn, Except.map] at h
    | ok n =>
        obtain ⟨hwrites, hlow, hhigh⟩ := readSigned_eq_ok_iff.mp hn
        obtain rfl : Int64.ofInt n = w := by simpa [hn, Except.map] using h
        rwa [Int64.toInt_ofInt_of_le (by omega) (by omega)]
  · intro h
    have hlow := w.le_toInt
    have hhigh := w.toInt_lt
    rw [readSigned_eq_ok_iff.mpr ⟨h, by omega, by omega⟩, Except.map, Int64.ofInt_toInt]

theorem readInt64_isOk_iff : (∃ w, readInt64 cs = .ok w) ↔ IsInt64 cs := by
  constructor
  · rintro ⟨w, h⟩
    have hhigh := w.toInt_lt
    exact ⟨w.toInt, readInt64_eq_ok_iff.mp h, w.le_toInt, by omega⟩
  · rintro ⟨n, hwrites, hlow, hhigh⟩
    refine ⟨.ofInt n, readInt64_eq_ok_iff.mpr ?_⟩
    rwa [Int64.toInt_ofInt_of_le (by omega) (by omega)]

/-! ## Blanks around integers -/

/-- A text that consists of the given one and of blanks around it. -/
def IsPadded (core cs : List Char) : Prop :=
  ∃ before after, (∀ c ∈ before, isBlank c) ∧ (∀ c ∈ after, isBlank c) ∧
    cs = before ++ core ++ after

theorem isPadded_trim (cs : List Char) : IsPadded (trim cs) cs := by
  refine ⟨cs.takeWhile isBlank, ((trimLeft cs).reverse.takeWhile isBlank).reverse, ?_, ?_, ?_⟩
  · exact fun c => List.mem_takeWhile_imp
  · exact fun c hc => List.mem_takeWhile_imp (List.mem_reverse.mp hc)
  · have hright : trim cs ++ ((trimLeft cs).reverse.takeWhile isBlank).reverse = trimLeft cs := by
      rw [trim, trimRight, ← List.reverse_append, List.takeWhile_append_dropWhile,
        List.reverse_reverse]
    rw [List.append_assoc, hright, trimLeft, List.takeWhile_append_dropWhile]

theorem dropWhile_isBlank (hne : cs ≠ []) (hcs : ∀ c ∈ cs, ¬isBlank c) (rest : List Char) :
    (cs ++ rest).dropWhile isBlank = cs ++ rest := by
  obtain ⟨c, ds, rfl⟩ := List.exists_cons_of_ne_nil hne
  exact List.dropWhile_cons_of_neg (hcs c List.mem_cons_self)

/-- Blanks around a text without blanks are trimmed away. -/
theorem IsPadded.trim_eq {core : List Char} (h : IsPadded core cs) (hne : core ≠ [])
    (hcore : ∀ c ∈ core, ¬isBlank c) : trim cs = core := by
  obtain ⟨before, after, hbefore, hafter, rfl⟩ := h
  have hleft : trimLeft (before ++ core ++ after) = core ++ after := by
    rw [trimLeft, List.append_assoc, List.dropWhile_append_of_pos hbefore,
      dropWhile_isBlank hne hcore]
  have hright : (after.reverse ++ core.reverse).dropWhile isBlank = core.reverse := by
    rw [List.dropWhile_append_of_pos fun c hc => hafter c (List.mem_reverse.mp hc)]
    have hreverse := dropWhile_isBlank (List.reverse_ne_nil_iff.mpr hne)
      (fun c hc => hcore c (List.mem_reverse.mp hc)) []
    rwa [List.append_nil] at hreverse
  rw [trim, hleft, trimRight, List.reverse_append, hright, List.reverse_reverse]

theorem not_isBlank_of_isDigit {c : Char} (h : c.isDigit) : ¬isBlank c := by
  rw [isDigit_iff_toNat] at h
  simp only [isBlank, inRanges, blankRanges, List.any_cons, List.any_nil, Bool.or_eq_true,
    Bool.and_eq_true, decide_eq_true_eq, Bool.false_eq_true, or_false]
  omega

theorem WritesInteger.not_isBlank {n : Int} (h : WritesInteger cs n) :
    cs ≠ [] ∧ ∀ c ∈ cs, ¬isBlank c := by
  cases h with
  | unsigned hne hdigits => exact ⟨hne, fun c hc => not_isBlank_of_isDigit (hdigits c hc)⟩
  | plus hne hdigits =>
      refine ⟨List.cons_ne_nil _ _, List.forall_mem_cons.mpr ⟨by decide, ?_⟩⟩
      exact fun c hc => not_isBlank_of_isDigit (hdigits c hc)
  | minus hne hdigits =>
      refine ⟨List.cons_ne_nil _ _, List.forall_mem_cons.mpr ⟨by decide, ?_⟩⟩
      exact fun c hc => not_isBlank_of_isDigit (hdigits c hc)

theorem WritesInteger.trim_eq {core : List Char} {n : Int} (h : WritesInteger core n)
    (hcs : IsPadded core cs) : trim cs = core :=
  hcs.trim_eq h.not_isBlank.1 h.not_isBlank.2

end Reading

end ChangeCapture.Text
