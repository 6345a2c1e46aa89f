import ChangeCapture.Number.Shortest
import Mathlib.Data.Int.Range
import Mathlib.Tactic.Ring

/-!
# Doubles have shortest decimals

Numbers of seventeen digits lie closer together than the numbers that round to one double reach, so
the search for the shortest decimal of a double finds one. It is never zero.
-/

namespace ChangeCapture.Number

/-! ## The place of the point -/

/-- `value / denominator` is at least `10 ^ e`. -/
def Reaches (value denominator : Nat) (e : Int) : Prop :=
  denominator * 10 ^ e.toNat ≤ value * 10 ^ (-e).toNat

theorem reaches_of_twoPow {value denominator : Nat} (hvalue : value ≠ 0) {n e : Int}
    (hn : n = value.log2 - denominator.log2 - 1)
    (h : 10 ^ e.toNat * 2 ^ (-n).toNat ≤ 2 ^ n.toNat * 10 ^ (-e).toNat) :
    Reaches value denominator e := by
  have hlow : 2 ^ value.log2 ≤ value := Nat.log2_self_le hvalue
  have hhigh : denominator ≤ 2 ^ (denominator.log2 + 1) := Nat.lt_log2_self.le
  have hexponents : denominator.log2 + 1 + n.toNat = value.log2 + (-n).toNat := by omega
  refine Nat.le_of_mul_le_mul_right (c := 2 ^ (-n).toNat) ?_ (Nat.two_pow_pos _)
  calc denominator * 10 ^ e.toNat * 2 ^ (-n).toNat
      ≤ 2 ^ (denominator.log2 + 1) * (10 ^ e.toNat * 2 ^ (-n).toNat) := by
        rw [Nat.mul_assoc]
        exact Nat.mul_le_mul_right _ hhigh
    _ ≤ 2 ^ (denominator.log2 + 1) * (2 ^ n.toNat * 10 ^ (-e).toNat) := Nat.mul_le_mul_left _ h
    _ = 2 ^ value.log2 * (10 ^ (-e).toNat * 2 ^ (-n).toNat) := by
        rw [← Nat.mul_assoc, ← Nat.pow_add, hexponents, Nat.pow_add]
        ring
    _ ≤ value * 10 ^ (-e).toNat * 2 ^ (-n).toNat := by
        rw [Nat.mul_assoc]
        exact Nat.mul_le_mul_right _ hlow

/-- The factor 0.30103 passes the logarithm of two by so little that one place of tolerance makes up
for it throughout the range of doubles. -/
theorem tenPow_le_twoPow : ∀ n : Int, -1200 ≤ n → n < 1200 →
    10 ^ (Int.fdiv (n * 30103) 100000 - 1).toNat * 2 ^ (-n).toNat ≤
      2 ^ n.toNat * 10 ^ (-(Int.fdiv (n * 30103) 100000 - 1)).toNat := by
  decide +kernel

theorem reaches_pointPlace {value denominator : Nat} (hvalue : value ≠ 0)
    (hlow : denominator.log2 ≤ 1100) (hhigh : value.log2 ≤ 1100) :
    Reaches value denominator (pointPlace value denominator - 1) := by
  have hguess := reaches_of_twoPow hvalue rfl (tenPow_le_twoPow
    (value.log2 - denominator.log2 - 1) (by omega) (by omega))
  unfold pointPlace
  simp only [Nat.pow_eq, decide_eq_true_eq, Int.ofNat_eq_natCast]
  generalize Int.fdiv ((value.log2 - denominator.log2 - 1) * 30103) 100000 = guess at hguess ⊢
  have htwo : guess + 3 - 1 = guess + 2 := by omega
  have hone : guess + 2 - 1 = guess + 1 := by omega
  have hzero : guess + 1 - 1 = guess := by omega
  split
  · next h => rwa [htwo]
  · split
    · next h => rwa [hone]
    · split
      · next h => rwa [hzero]
      · exact hguess

/-! ## Neighbours -/

namespace Neighbourhood

variable {n : Neighbourhood} {tie : Tie} {k : Nat}

/-- The ends lie on both sides of the value, which is positive. -/
structure IsProper (n : Neighbourhood) : Prop where
  low_pos : 0 < n.low
  low_lt : n.low < n.value
  lt_high : n.value < n.high
  denominator_pos : 0 < n.denominator

theorem IsProper.scaled (h : n.IsProper) (e : Int) : (n.scaled e).IsProper where
  low_pos := Nat.mul_pos h.low_pos (Nat.pow_pos (by decide))
  low_lt := Nat.mul_lt_mul_of_pos_right h.low_lt (Nat.pow_pos (by decide))
  lt_high := Nat.mul_lt_mul_of_pos_right h.lt_high (Nat.pow_pos (by decide))
  denominator_pos := Nat.mul_pos h.denominator_pos (Nat.pow_pos (by decide))

/-- A grid that is finer than the neighbourhood is wide meets it next to the value. -/
theorem isSome_nearest? (h : n.IsProper) (hgap : n.denominator < n.high - n.low) (tie : Tie) :
    (n.nearest? tie).isSome := by
  have hbelow : n.value / n.denominator * n.denominator ≤ n.value := Nat.div_mul_le_self _ _
  have habove : n.value < (n.value / n.denominator + 1) * n.denominator :=
    Nat.lt_mul_of_div_lt (Nat.lt_succ_self _) h.denominator_pos
  have hlow := h.low_lt
  have hhigh := h.lt_high
  -- The neighbours on the grid are one denominator apart, so the ends do not both lie between them.
  have hholds : n.holds (n.value / n.denominator) ∨ n.holds (n.value / n.denominator + 1) := by
    unfold holds
    rw [Nat.succ_mul] at habove ⊢
    generalize n.value / n.denominator * n.denominator = x at hbelow habove ⊢
    split <;> simp only [Bool.and_eq_true, decide_eq_true_eq] <;> omega
  unfold nearest?
  dsimp only
  cases hk : n.holds (n.value / n.denominator) <;>
    cases hk' : n.holds (n.value / n.denominator + 1)
  · simp [hk, hk'] at hholds
  · rfl
  · rfl
  · cases tie <;> dsimp only <;> split <;> first | rfl | (split <;> rfl)

theorem holds_ne_zero (hlow : 0 < n.low) (h : n.holds k) : k ≠ 0 := by
  rintro rfl
  unfold holds at h
  dsimp only at h
  rw [Nat.zero_mul] at h
  split at h <;> rw [Bool.and_eq_true, decide_eq_true_eq] at h <;> omega

theorem nearest?_ne_zero (hlow : 0 < n.low) (h : n.nearest? tie = some k) : k ≠ 0 := by
  unfold nearest? at h
  dsimp only at h
  generalize n.value / n.denominator = below at h
  cases hk : n.holds below <;> cases hk' : n.holds (below + 1) <;> simp only [hk, hk'] at h
  · exact nomatch h
  · exact Option.some.inj h ▸ Nat.succ_ne_zero below
  · exact Option.some.inj h ▸ holds_ne_zero hlow hk
  · have hpos := holds_ne_zero hlow hk
    split at h
    · exact Option.some.inj h ▸ hpos
    · split at h
      · exact Option.some.inj h ▸ Nat.succ_ne_zero below
      · cases tie with
        | up => exact Option.some.inj h ▸ Nat.succ_ne_zero below
        | even =>
            obtain rfl := Option.some.inj h
            omega

/-- Sixteen places below the leading digit the grid is finer than the neighbourhood is wide. -/
theorem gap_scaled {place : Int} (hreaches : Reaches n.value n.denominator place)
    (hwidth : n.value < (n.high - n.low) * 10 ^ 16) :
    (n.scaled (place - 16)).denominator <
      (n.scaled (place - 16)).high - (n.scaled (place - 16)).low := by
  simp only [scaled, Nat.pow_eq, ← Nat.sub_mul]
  have hexponents : (place - 16).toNat + (-place).toNat + 16 =
      place.toNat + (-(place - 16)).toNat := by omega
  have hpos : 0 < 10 ^ (-place).toNat := Nat.pow_pos (by decide)
  have hpos' : 0 < 10 ^ (-(place - 16)).toNat := Nat.pow_pos (by decide)
  refine Nat.lt_of_mul_lt_mul_right (a := 10 ^ 16 * 10 ^ (-place).toNat) ?_
  calc n.denominator * 10 ^ (place - 16).toNat * (10 ^ 16 * 10 ^ (-place).toNat)
      = n.denominator * 10 ^ ((place - 16).toNat + (-place).toNat + 16) := by ring
    _ = n.denominator * 10 ^ place.toNat * 10 ^ (-(place - 16)).toNat := by
        rw [hexponents, Nat.pow_add, Nat.mul_assoc]
    _ ≤ n.value * 10 ^ (-place).toNat * 10 ^ (-(place - 16)).toNat :=
        Nat.mul_le_mul_right _ hreaches
    _ < (n.high - n.low) * 10 ^ 16 * 10 ^ (-place).toNat * 10 ^ (-(place - 16)).toNat := by
        gcongr
    _ = (n.high - n.low) * 10 ^ (-(place - 16)).toNat * (10 ^ 16 * 10 ^ (-place).toNat) := by ring

end Neighbourhood

/-! ## The search -/

section Search

variable {n : Neighbourhood} {place : Int} {tie : Tie} {counts : List Nat}

theorem isSome_searchGrids {count : Nat} (hcount : count ∈ counts)
    (h : ((n.scaled (place - Int.ofNat count)).nearest? tie).isSome) :
    (searchGrids n place tie counts).isSome := by
  induction counts with
  | nil => exact nomatch hcount
  | cons first rest ih =>
      unfold searchGrids
      dsimp only
      split
      · rfl
      · next hnone =>
          rcases List.mem_cons.mp hcount with rfl | hrest
          · rw [hnone] at h
            exact nomatch h
          · exact ih hrest

theorem exists_nearest?_of_searchGrids {d : Decimal}
    (h : searchGrids n place tie counts = some d) :
    ∃ e k, (n.scaled e).nearest? tie = some k ∧ d = dropZeros 20 k e := by
  induction counts with
  | nil => exact nomatch h
  | cons first rest ih =>
      unfold searchGrids at h
      dsimp only at h
      split at h
      · next k hk => exact ⟨_, k, hk, (Option.some.inj h).symm⟩
      · exact ih h

theorem dropZeros_digits_ne_zero {fuel k : Nat} {e : Int} (h : k ≠ 0) :
    (dropZeros fuel k e).digits ≠ 0 := by
  induction fuel generalizing k e with
  | zero => exact h
  | succ fuel ih =>
      unfold dropZeros
      split
      · next hzero => exact ih (by omega)
      · exact h

end Search

namespace Magnitude

variable {m : Magnitude}

/-- The magnitudes of doubles, zero apart. -/
structure IsDouble (m : Magnitude) : Prop where
  mantissa_pos : 0 < m.mantissa
  mantissa_lt : m.mantissa < 2 ^ 53
  le_exponent : -1074 ≤ m.exponent
  exponent_le : m.exponent ≤ 971
  mantissa_eq : m.closerBelow → m.mantissa = 2 ^ 52

theorem isDouble_of_readDouble {bits : UInt64} {negative : Bool}
    (h : readDouble bits = .finite negative m) (hm : m.mantissa ≠ 0) : m.IsDouble := by
  have hunit : Nat.pow 2 Format.double.fractionBits = 2 ^ 52 := rfl
  have htop : Format.double.topExponent = 2047 := rfl
  have hleast : Format.double.leastExponent = -1074 := rfl
  have hfraction : bits.toNat % Nat.pow 2 Format.double.fractionBits < 2 ^ 52 :=
    Nat.mod_lt _ (by decide)
  have hfield : bits.toNat / Nat.pow 2 Format.double.fractionBits %
      Nat.pow 2 Format.double.exponentBits < 2048 := Nat.mod_lt _ (by decide)
  unfold readDouble Format.read at h
  dsimp only at h
  generalize bits.toNat / Nat.pow 2 Format.double.fractionBits %
    Nat.pow 2 Format.double.exponentBits = field at h hfield
  generalize bits.toNat % Nat.pow 2 Format.double.fractionBits = fraction at h hfraction
  rw [htop, hleast, hunit] at h
  split at h
  · split at h <;> exact nomatch h
  · next hfinite =>
      split at h
      · obtain ⟨-, rfl⟩ := Reading.finite.inj h
        have hlt : fraction < 2 ^ 53 := Nat.lt_trans hfraction (by decide)
        have hle : (-1074 : Int) ≤ 971 := by decide
        exact ⟨Nat.pos_of_ne_zero hm, hlt, Int.le_refl _, hle, fun hcloser => nomatch hcloser⟩
      · next hnormal =>
          obtain ⟨-, rfl⟩ := Reading.finite.inj h
          refine ⟨Nat.pos_of_ne_zero hm, ?_, ?_, ?_, fun hcloser => ?_⟩ <;> dsimp only
          · omega
          · omega
          · omega
          · have hlower := of_decide_eq_true (Bool.and_eq_true_iff.mp hcloser).1
            omega

theorem IsDouble.isProper (hm : m.IsDouble) : (Neighbourhood.ofMagnitude m).IsProper := by
  have hmantissa := hm.mantissa_pos
  have hscale : 0 < 2 ^ (m.exponent - 2).toNat := Nat.two_pow_pos _
  have hbelow : (if m.closerBelow then 1 else 2) ≤ 2 := by split <;> decide
  have hbelow' : 0 < if m.closerBelow then 1 else 2 := by split <;> decide
  constructor <;> simp only [Neighbourhood.ofMagnitude, Nat.pow_eq]
  · exact Nat.mul_pos (by omega) hscale
  · exact Nat.mul_lt_mul_of_pos_right (by omega) hscale
  · exact Nat.mul_lt_mul_of_pos_right (by omega) hscale
  · exact Nat.two_pow_pos _

theorem IsDouble.width (hm : m.IsDouble) : (Neighbourhood.ofMagnitude m).value <
    ((Neighbourhood.ofMagnitude m).high - (Neighbourhood.ofMagnitude m).low) * 10 ^ 16 := by
  have hmantissa := hm.mantissa_pos
  have hscale : 0 < 2 ^ (m.exponent - 2).toNat := Nat.two_pow_pos _
  have hlt : 4 * m.mantissa <
      (4 * m.mantissa + 2 - (4 * m.mantissa - if m.closerBelow then 1 else 2)) * 10 ^ 16 := by
    cases hcloser : m.closerBelow with
    | false =>
        have hlt := hm.mantissa_lt
        simp only [Bool.false_eq_true, if_false]
        omega
    | true =>
        have heq := hm.mantissa_eq hcloser
        simp only [if_true]
        omega
  simp only [Neighbourhood.ofMagnitude, Nat.pow_eq, ← Nat.sub_mul]
  rw [Nat.mul_right_comm _ (2 ^ _) (10 ^ 16)]
  exact Nat.mul_lt_mul_of_pos_right hlt hscale

theorem IsDouble.log2_le (hm : m.IsDouble) : (Neighbourhood.ofMagnitude m).value.log2 ≤ 1100 ∧
    (Neighbourhood.ofMagnitude m).denominator.log2 ≤ 1100 := by
  have hlt := hm.mantissa_lt
  have hlow := hm.le_exponent
  have hhigh := hm.exponent_le
  have hpos : 4 * m.mantissa * 2 ^ (m.exponent - 2).toNat ≠ 0 :=
    Nat.mul_ne_zero (Nat.mul_pos (by decide) hm.mantissa_pos).ne' (Nat.two_pow_pos _).ne'
  have hlog : (4 * m.mantissa * 2 ^ (m.exponent - 2).toNat).log2 <
      55 + (m.exponent - 2).toNat := by
    rw [Nat.log2_lt hpos, Nat.pow_add]
    exact Nat.mul_lt_mul_of_pos_right (by omega) (Nat.two_pow_pos _)
  simp only [Neighbourhood.ofMagnitude, Nat.pow_eq, Nat.log2_two_pow]
  omega

theorem IsDouble.exists_shortest? (hm : m.IsDouble) (tie : Tie) :
    ∃ d, m.shortest? tie = some d ∧ d.digits ≠ 0 := by
  have hproper := hm.isProper
  obtain ⟨hvalue, hdenominator⟩ := hm.log2_le
  have hpos := Nat.ne_of_gt (Nat.lt_trans hproper.low_pos hproper.low_lt)
  have hreaches := reaches_pointPlace hpos hdenominator hvalue
  have hnearest := Neighbourhood.isSome_nearest? (hproper.scaled _)
    (Neighbourhood.gap_scaled hreaches hm.width) tie
  unfold shortest?
  dsimp only
  generalize pointPlace _ _ = place at hnearest ⊢
  have hplace : place - 1 - 16 = place - Int.ofNat 17 := Int.sub_sub place 1 16
  rw [hplace] at hnearest
  -- Seventeen digits are enough for every double, so the search ends there at the latest.
  have hcount : 17 ∈ (List.range 17).map (· + 1) := by decide
  obtain ⟨d, hd⟩ := Option.isSome_iff_exists.mp (isSome_searchGrids hcount hnearest)
  obtain ⟨e, k, hk, rfl⟩ := exists_nearest?_of_searchGrids hd
  have hk' := Neighbourhood.nearest?_ne_zero (hproper.scaled e).low_pos hk
  exact ⟨_, hd, dropZeros_digits_ne_zero hk'⟩

end Magnitude

end ChangeCapture.Number
