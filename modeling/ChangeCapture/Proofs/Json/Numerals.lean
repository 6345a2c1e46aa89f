import ChangeCapture.Json.Printer
import ChangeCapture.Json.Reading
import ChangeCapture.Proofs.Number.Shortest
import ChangeCapture.Proofs.Text.Integers

/-!
# Printed numbers are numbers

Integers and doubles are printed in the form in which numbers are read. An integer that fits 64 bits
is read back as itself.
-/

namespace ChangeCapture

namespace Json

/-- One or more digits. -/
def IsDigits (ds : List Char) : Prop := ds ≠ [] ∧ ∀ c ∈ ds, isDigit c

theorem isDigit_iff {c : Char} : isDigit c ↔ c.isDigit := by
  rw [Text.isDigit_iff_toNat]
  unfold isDigit Text.digit?
  split
  · next h => simp [h]
  · next h => simp [h]

theorem isDigits_digits (n : Nat) : IsDigits (Text.digits n) :=
  ⟨Nat.toDigits_ne_nil, fun _ hc => isDigit_iff.mpr (Text.isDigit_of_mem_digits hc)⟩

theorem isDigits_zero : IsDigits ['0'] :=
  ⟨List.cons_ne_nil '0' [], List.forall_mem_singleton.mpr rfl⟩

theorem isDigits_append {ds ds' : List Char} (h : IsDigits ds) (h' : ∀ c ∈ ds', isDigit c) :
    IsDigits (ds ++ ds') := by
  refine ⟨List.append_ne_nil_of_left_ne_nil h.1 ds', fun c hc => ?_⟩
  rcases List.mem_append.mp hc with hc | hc
  · exact h.2 c hc
  · exact h' c hc

namespace Numeral

def fractionChars : Option (List Char) → List Char
  | none => []
  | some ds => '.' :: ds

def exponentChars : Option (Bool × List Char) → List Char
  | none => []
  | some (negative, ds) => 'e' :: (if negative then '-' else '+') :: ds

/-- The text of a number without its sign. An exponent has a sign always. -/
def unsignedChars (n : Numeral) : List Char :=
  n.whole ++ (fractionChars n.fraction ++ exponentChars n.exponent)

def chars (n : Numeral) : List Char := (if n.negative then ['-'] else []) ++ n.unsignedChars

/-- Digits where digits are due, and no needless zero in front. -/
structure IsProper (n : Numeral) : Prop where
  whole : IsDigits n.whole
  leading : n.whole = ['0'] ∨ n.whole.head? ≠ some '0'
  fraction : ∀ ds, n.fraction = some ds → IsDigits ds
  exponent : ∀ negative ds, n.exponent = some (negative, ds) → IsDigits ds

variable {n : Numeral}

theorem finish?_exponentChars (negative : Bool) (whole : List Char)
    (fraction : Option (List Char)) {exponent : Option (Bool × List Char)}
    (h : ∀ sign ds, exponent = some (sign, ds) → IsDigits ds) :
    finish? negative whole fraction (exponentChars exponent) =
      some ⟨negative, whole, fraction, exponent⟩ := by
  cases exponent with
  | none => rfl
  | some e =>
      obtain ⟨sign, ds⟩ := e
      obtain ⟨hne, hdigits⟩ := h sign ds rfl
      have hall : ds.all isDigit = true := List.all_eq_true.mpr hdigits
      have hempty : ds.isEmpty = false := List.isEmpty_eq_false_iff.mpr hne
      cases sign <;> simp [exponentChars, finish?, exponentOf?, hall, hempty]

theorem takeWhile_isDigit_append {ds rest : List Char} (hds : IsDigits ds)
    (hrest : ∀ c, rest.head? = some c → isDigit c = false) :
    (ds ++ rest).takeWhile isDigit = ds ∧ (ds ++ rest).dropWhile isDigit = rest := by
  rw [List.takeWhile_append_of_pos hds.2, List.dropWhile_append_of_pos hds.2]
  cases rest with
  | nil => simp
  | cons c cs => simp [hrest c rfl]

theorem head?_exponentChars (exponent : Option (Bool × List Char)) (c : Char)
    (h : (exponentChars exponent).head? = some c) : c = 'e' := by
  cases exponent with
  | none => exact nomatch h
  | some e => exact (Option.some.inj h).symm

theorem afterWhole?_chars (h : n.IsProper) :
    afterWhole? n.negative n.whole (fractionChars n.fraction ++
      exponentChars n.exponent) = some n := by
  obtain ⟨negative, whole, fraction, exponent⟩ := n
  have hfinish := finish?_exponentChars negative whole fraction h.exponent
  cases fraction with
  | none =>
      cases exponent with
      | none => exact hfinish
      | some e => exact hfinish
  | some ds =>
      have hds := h.fraction ds rfl
      have hempty : ds.isEmpty = false := List.isEmpty_eq_false_iff.mpr hds.1
      have hhead : ∀ c, (exponentChars exponent).head? = some c → isDigit c = false :=
        fun c hc => head?_exponentChars exponent c hc ▸ rfl
      obtain ⟨htake, hdrop⟩ := takeWhile_isDigit_append hds hhead
      simp [fractionChars, afterWhole?, htake, hdrop, hempty, hfinish]

theorem unsigned?_chars (h : n.IsProper) :
    unsigned? n.negative n.unsignedChars = some n := by
  have hafter := afterWhole?_chars h
  have hhead : ∀ c, (fractionChars n.fraction ++ exponentChars n.exponent).head? =
      some c → isDigit c = false := by
    intro c hc
    cases hfraction : n.fraction with
    | none =>
        rw [hfraction] at hc
        exact head?_exponentChars n.exponent c hc ▸ rfl
    | some ds =>
        rw [hfraction] at hc
        exact Option.some.inj hc ▸ rfl
  obtain ⟨htake, hdrop⟩ := takeWhile_isDigit_append h.whole hhead
  unfold unsigned? unsignedChars
  rw [htake, hdrop]
  split
  · next hnil => exact (h.whole.1 hnil).elim
  · next hzero => rwa [hzero] at hafter
  · next cs hne hzero =>
      rcases h.leading with hone | hother
      · exact (hne (List.cons.inj (hzero.symm.trans hone)).2).elim
      · rw [hzero] at hother
        exact (hother rfl).elim
  · exact hafter

theorem ofChars?_chars (h : n.IsProper) : ofChars? n.chars = some n := by
  have hunsigned := unsigned?_chars h
  unfold chars
  unfold unsignedChars at hunsigned ⊢
  cases hnegative : n.negative with
  | true =>
      rw [hnegative] at hunsigned
      exact hunsigned
  | false =>
      rw [hnegative] at hunsigned
      obtain ⟨d, ds, hwhole⟩ := List.exists_cons_of_ne_nil h.whole.1
      have hd : isDigit d := h.whole.2 d (hwhole ▸ List.mem_cons_self)
      rw [hwhole] at hunsigned ⊢
      unfold ofChars?
      split
      · next cs heq =>
          obtain ⟨rfl, -⟩ := List.cons.inj heq
          exact nomatch hd
      · exact hunsigned

theorem isRunChar_of_isDigit {c : Char} (h : isDigit c) : Token.isRunChar c := by
  simp [Token.isRunChar, h]

theorem isRunChar_of_mem_chars (h : n.IsProper) {c : Char} (hc : c ∈ n.chars) :
    Token.isRunChar c := by
  simp only [chars, unsignedChars, List.mem_append] at hc
  rcases hc with hc | hc | hc | hc
  · split at hc
    · obtain rfl := List.mem_singleton.mp hc
      rfl
    · exact nomatch hc
  · exact isRunChar_of_isDigit (h.whole.2 c hc)
  · cases hfraction : n.fraction with
    | none => exact nomatch hfraction ▸ hc
    | some ds =>
        rw [hfraction] at hc
        rcases List.mem_cons.mp hc with rfl | hc
        · rfl
        · exact isRunChar_of_isDigit ((h.fraction ds hfraction).2 c hc)
  · cases hexponent : n.exponent with
    | none => exact nomatch hexponent ▸ hc
    | some e =>
        obtain ⟨negative, ds⟩ := e
        rw [hexponent] at hc
        rcases List.mem_cons.mp hc with rfl | hc
        · rfl
        · rcases List.mem_cons.mp hc with rfl | hc
          · cases negative <;> rfl
          · exact isRunChar_of_isDigit ((h.exponent negative ds hexponent).2 c hc)

theorem ofRun?_chars (h : n.IsProper) : Token.ofRun? n.chars = some (.number n) := by
  have hread := ofChars?_chars h
  unfold Token.ofRun?
  -- No word is a number.
  have hword : ∀ {word : List Char}, ofChars? word = none → n.chars ≠ word := by
    rintro word hnone rfl
    exact nomatch hread.symm.trans hnone
  rw [if_neg (hword (by decide)), if_neg (hword (by decide)), if_neg (hword (by decide)), hread]
  rfl

/-! ## Integers -/

/-- The number that an integer is printed as. -/
def ofInt (n : Int) : Numeral := ⟨n < 0, Text.digits n.natAbs, none, none⟩

theorem writeInt_eq_chars (n : Int) : Text.writeInt n = (ofInt n).chars := by
  cases n with
  | ofNat n => simp [Text.writeInt, ofInt, chars, unsignedChars, fractionChars, exponentChars]
  | negSucc n => simp [Text.writeInt, ofInt, chars, unsignedChars, fractionChars, exponentChars]

theorem isProper_ofInt (n : Int) : (ofInt n).IsProper where
  whole := isDigits_digits n.natAbs
  leading := by
    by_cases hzero : n.natAbs = 0
    · left
      show Text.digits n.natAbs = ['0']
      rw [hzero]
      rfl
    · exact Or.inr (Text.digits_head?_ne_zero hzero)
  fraction := fun _ h => nomatch h
  exponent := fun _ _ h => nomatch h

/-- Integers that fit 64 bits, with a sign or without. -/
def FitsWord (n : Int) : Prop := -0x8000000000000000 ≤ n ∧ n ≤ significandLimit

theorem significand_eq {ds : List Char} {acc : Nat}
    (h : Nat.ofDigitChars 10 ds acc ≤ significandLimit) :
    significand acc ds = (Nat.ofDigitChars 10 ds acc, []) := by
  induction ds generalizing acc with
  | nil => rfl
  | cons c cs ih =>
      rw [Nat.ofDigitChars_cons, Nat.mul_comm] at h ⊢
      have hnext := Nat.le_trans (Text.le_ofDigitChars cs _) h
      rw [significand]
      exact (if_pos hnext).trans (ih h)

theorem value?_ofInt {n : Int} (h : FitsWord n) : (ofInt n).value? = some (.int n) := by
  obtain ⟨hlow, hhigh⟩ := h
  unfold significandLimit at hhigh
  have hvalue : Nat.ofDigitChars 10 (Text.digits n.natAbs) 0 = n.natAbs :=
    Nat.ofDigitChars_ten_toDigits
  have hread : significand 0 (Text.digits n.natAbs) = (n.natAbs, []) := by
    rw [significand_eq, hvalue]
    rw [hvalue]
    unfold significandLimit
    omega
  unfold value? ofInt
  simp only [hread, List.isEmpty_nil, if_true]
  by_cases hneg : n < 0
  · have hrange : 0 < n.natAbs ∧ n.natAbs ≤ 0x8000000000000000 := by omega
    simp only [hneg, decide_true, Bool.not_true, Bool.false_eq_true, if_false, hrange, and_self,
      if_true, Option.some.injEq, Json.int.injEq]
    omega
  · simp only [hneg, decide_false, Bool.not_false, if_true, Option.some.injEq, Json.int.injEq]
    omega

theorem significand_le {ds : List Char} {acc : Nat} (h : acc ≤ significandLimit) :
    (significand acc ds).1 ≤ significandLimit := by
  induction ds generalizing acc with
  | nil => exact h
  | cons c cs ih =>
      rw [significand]
      split
      · next hnext => exact ih hnext
      · exact h

theorem exists_double_of_double? {negative : Bool} {s : Nat} {e : Int} {v : Json}
    (h : double? negative s e = some v) : ∃ x, v = .double x := by
  obtain ⟨x, -, rfl⟩ := Option.map_eq_some_iff.mp h
  exact ⟨_, rfl⟩

/-- A number that is read is an integer of 64 bits or a double. -/
theorem value?_eq_some {v : Json} (h : n.value? = some v) :
    (∃ k, v = .int k ∧ FitsWord k) ∨ ∃ x, v = .double x := by
  have hlimit : (significand 0 n.whole).1 ≤ significandLimit :=
    significand_le (Nat.zero_le significandLimit)
  unfold FitsWord
  unfold significandLimit at hlimit ⊢
  unfold value? at h
  dsimp only at h
  split at h
  · split at h
    · split at h
      · exact Or.inl ⟨_, (Option.some.inj h).symm, by omega⟩
      · split at h
        · exact Or.inl ⟨_, (Option.some.inj h).symm, by omega⟩
        · exact Or.inr (exists_double_of_double? h)
    · exact Or.inr (exists_double_of_double? h)
  · split at h
    · exact Or.inr (exists_double_of_double? h)
    · exact Or.inr (exists_double_of_double? h)
    · exact Or.inr (exists_double_of_double? h)

/-! ## Doubles -/

theorem forall_isDigit_zeros (n : Nat) : ∀ c ∈ Number.Layout.zeros n, isDigit c := by
  intro c hc
  obtain rfl := List.eq_of_mem_replicate hc
  rfl

theorem exists_exponent (place : Int) : ∃ negative xs, IsDigits xs ∧
    'e' :: ((if doubleLayout.plusSign && 1 ≤ place then ['+'] else []) ++
      Text.writeInt (place - 1)) = exponentChars (some (negative, xs)) := by
  by_cases hplace : 1 ≤ place
  · obtain ⟨k, hk⟩ := Int.eq_ofNat_of_zero_le (Int.sub_nonneg_of_le hplace)
    refine ⟨false, Text.digits k, isDigits_digits k, ?_⟩
    rw [hk]
    simp [hplace, doubleLayout, exponentChars, Text.writeInt]
  · obtain ⟨k, hk⟩ := Int.eq_negSucc_of_lt_zero (Int.sub_neg_of_lt (Int.not_le.mp hplace))
    refine ⟨true, Text.digits (k + 1), isDigits_digits (k + 1), ?_⟩
    rw [hk]
    simp [hplace, exponentChars, Text.writeInt]

theorem isProper_fraction {whole ds : List Char} (hwhole : IsDigits whole)
    (hlead : whole = ['0'] ∨ whole.head? ≠ some '0') (hds : IsDigits ds) :
    IsProper ⟨false, whole, some ds, none⟩ where
  whole := hwhole
  leading := hlead
  fraction := fun _ h => Option.some.inj h ▸ hds
  exponent := fun _ _ h => nomatch h

theorem isProper_exponent {whole xs : List Char} {fraction : Option (List Char)}
    (negative : Bool) (hwhole : IsDigits whole) (hlead : whole.head? ≠ some '0')
    (hfraction : ∀ ds, fraction = some ds → IsDigits ds) (hxs : IsDigits xs) :
    IsProper ⟨false, whole, fraction, some (negative, xs)⟩ where
  whole := hwhole
  leading := Or.inr hlead
  fraction := hfraction
  exponent := fun _ _ h => (Prod.mk.inj (Option.some.inj h)).2 ▸ hxs

section Layout

variable {ds : List Char} (hds : IsDigits ds) (hlead : ds.head? ≠ some '0')

include hds hlead

theorem exists_positional (place : Int) :
    ∃ n : Numeral, n.IsProper ∧ Number.Layout.positional ds place = n.unsignedChars := by
  unfold Number.Layout.positional
  by_cases hplace : place ≤ 0
  · rw [if_pos hplace]
    have hfraction : IsDigits (Number.Layout.zeros (-place).toNat ++ ds) := by
      refine ⟨List.append_ne_nil_of_right_ne_nil _ hds.1, fun c hc => ?_⟩
      exact (List.mem_append.mp hc).elim (forall_isDigit_zeros _ c) (hds.2 c)
    refine ⟨_, isProper_fraction isDigits_zero (Or.inl rfl) hfraction, ?_⟩
    simp [unsignedChars, fractionChars, exponentChars]
  · rw [if_neg hplace]
    obtain ⟨d, rest, rfl⟩ := List.exists_cons_of_ne_nil hds.1
    by_cases hlength : (d :: rest).length ≤ place.toNat
    · have hwhole := isDigits_append hds
        (forall_isDigit_zeros (place.toNat - (d :: rest).length))
      refine ⟨_, isProper_fraction hwhole (Or.inr hlead) isDigits_zero, ?_⟩
      rw [if_pos hlength]
      simp [unsignedChars, fractionChars, exponentChars]
    · obtain ⟨w, hw⟩ : ∃ w, place.toNat = w + 1 := ⟨place.toNat - 1, by omega⟩
      rw [hw] at hlength ⊢
      have hwhole : IsDigits ((d :: rest).take (w + 1)) :=
        ⟨by simp, fun c hc => hds.2 c (List.mem_of_mem_take hc)⟩
      have hfraction : IsDigits ((d :: rest).drop (w + 1)) :=
        ⟨by simpa using hlength, fun c hc => hds.2 c (List.mem_of_mem_drop hc)⟩
      refine ⟨_, isProper_fraction hwhole (Or.inr hlead) hfraction, ?_⟩
      rw [if_neg hlength]
      simp [unsignedChars, fractionChars, exponentChars]

theorem exists_exponential (place : Int) :
    ∃ n : Numeral, n.IsProper ∧ doubleLayout.exponential ds place = n.unsignedChars := by
  obtain ⟨negative, xs, hxs, hexponent⟩ := exists_exponent place
  obtain ⟨d, rest, rfl⟩ := List.exists_cons_of_ne_nil hds.1
  have hwhole : IsDigits [d] :=
    ⟨by simp, fun c hc => hds.2 c (List.mem_singleton.mp hc ▸ List.mem_cons_self)⟩
  unfold Number.Layout.exponential
  cases rest with
  | nil =>
      have hnone : ∀ ds, none = some ds → IsDigits ds := fun _ h => nomatch h
      refine ⟨_, isProper_exponent negative hwhole hlead hnone hxs, ?_⟩
      simp [unsignedChars, fractionChars, ← hexponent]
  | cons d' rest =>
      have hfraction : IsDigits (d' :: rest) :=
        ⟨by simp, fun c hc => hds.2 c (List.mem_cons_of_mem d hc)⟩
      have hsome : ∀ ds, some (d' :: rest) = some ds → IsDigits ds :=
        fun _ h => Option.some.inj h ▸ hfraction
      refine ⟨_, isProper_exponent negative hwhole hlead hsome hxs, ?_⟩
      simp [unsignedChars, fractionChars, ← hexponent]

end Layout

theorem exists_magnitude {m : Number.Magnitude} (hm : m.mantissa ≠ 0 → m.IsDouble) :
    ∃ n : Numeral, n.IsProper ∧ doubleLayout.magnitude m = n.unsignedChars := by
  unfold Number.Layout.magnitude
  by_cases hzero : m.mantissa = 0
  · rw [if_pos hzero]
    exact ⟨_, isProper_fraction isDigits_zero (Or.inl rfl) isDigits_zero, rfl⟩
  · obtain ⟨d, hd, hdigits⟩ := (hm hzero).exists_shortest? doubleLayout.tie
    have hlead := Text.digits_head?_ne_zero hdigits
    rw [if_neg hzero, hd]
    dsimp only [Number.Layout.decimal]
    split
    · exact exists_positional (isDigits_digits d.digits) hlead _
    · exact exists_exponential (isDigits_digits d.digits) hlead _

/-- A double that is finite is printed as a number. -/
theorem exists_writeDouble (x : Float) : writeDouble x = ['n', 'u', 'l', 'l'] ∨
    ∃ n : Numeral, n.IsProper ∧ writeDouble x = n.chars := by
  unfold writeDouble
  split
  · next negative m hread =>
      right
      obtain ⟨n, hn, hchars⟩ := exists_magnitude (Number.Magnitude.isDouble_of_readDouble hread)
      refine ⟨{ n with negative }, ⟨hn.whole, hn.leading, hn.fraction, hn.exponent⟩, ?_⟩
      rw [hchars]
      rfl
  · exact Or.inl rfl

end Numeral

end Json

end ChangeCapture
