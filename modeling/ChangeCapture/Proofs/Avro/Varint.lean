import ChangeCapture.Avro.Varint
import ChangeCapture.Proofs.Text.Utf8
import Mathlib.Algebra.Group.Nat.Defs

/-!
# Integers from their bytes

Every integer of 64 bits is read back from the bytes that are written for it, whatever follows them.
-/

namespace ChangeCapture.Avro.Varint

open Text.Utf8 (toNat_toUInt8)

theorem readBytes_writeBytes {fuel n : Nat} (h : n < 128 ^ (fuel + 1)) (t : List UInt8) :
    readBytes (fuel + 1) (writeBytes (fuel + 1) n ++ t) = .ok (n, t) := by
  induction fuel generalizing n with
  | zero =>
      have hlast : n < 128 := by simpa using h
      have hn := toNat_toUInt8 (show n < 0x100 by omega)
      rw [writeBytes, if_pos hlast, List.singleton_append, readBytes, if_pos (by omega), hn]
  | succ fuel ih =>
      rw [writeBytes]
      by_cases hlast : n < 128
      · have hn := toNat_toUInt8 (show n < 0x100 by omega)
        rw [if_pos hlast, List.singleton_append, readBytes, if_pos (by omega), hn]
      · have hn := toNat_toUInt8 (show n % 128 + 128 < 0x100 by omega)
        have hrest : n / 128 < 128 ^ (fuel + 1) := by
          apply Nat.div_lt_of_lt_mul
          rwa [← Nat.pow_succ']
        rw [if_neg hlast, List.cons_append, readBytes, if_neg (by omega), ih hrest, hn]
        dsimp only
        rw [show (n % 128 + 128) % 128 + 128 * (n / 128) = n by omega]

theorem fold_lt (n : Int64) : fold n < UInt64.size := by
  have hlow := n.le_toInt
  have hhigh := n.toInt_lt
  unfold fold
  split <;> simp only [UInt64.size] <;> omega

theorem unfold_fold (n : Int64) : unfold (fold n) = n := by
  unfold fold unfold
  split
  · next hn =>
      rw [if_pos (by omega), show ((2 * n.toInt).toNat : Int) / 2 = n.toInt by omega,
        Int64.ofInt_toInt]
  · next hn =>
      rw [if_neg (by omega),
        show -(((-2 * n.toInt - 1).toNat / 2 : Nat) : Int) - 1 = n.toInt by omega,
        Int64.ofInt_toInt]

theorem readLong_writeLong (n : Int64) (t : List UInt8) :
    readLong (writeLong n ++ t) = .ok (n, t) := by
  have hfold := fold_lt n
  have hfits : fold n < 128 ^ (9 + 1) := Nat.lt_trans hfold (by decide)
  rw [readLong, writeLong, readBytes_writeBytes hfits]
  dsimp only
  rw [Nat.mod_eq_of_lt hfold, unfold_fold]

end ChangeCapture.Avro.Varint
