import Mathlib.Data.Nat.Bitwise

/-!
# Bit fields

Masks and shifts read as arithmetic (`field_eq`, `lowest_eq`, `join_eq`), a
32-bit number as its four bytes, the highest first (`bytes4_eq`), and a count
as an `int` (`toInt_ofNat_le`).
-/
namespace Voms.Core

/-- `w` bits from the bit `k` on. -/
theorem field_eq (n k w : Nat) : (n &&& (2 ^ w - 1) <<< k) >>> k = n / 2 ^ k % 2 ^ w := by
  rw [Nat.shiftRight_and_distrib, Nat.shiftLeft_shiftRight, Nat.and_two_pow_sub_one_eq_mod,
    Nat.shiftRight_eq_div_pow]

/-- The lowest `w` bits, moved up. -/
theorem lowest_eq (n k w : Nat) : (n &&& (2 ^ w - 1)) <<< k = n % 2 ^ w * 2 ^ k := by
  rw [Nat.and_two_pow_sub_one_eq_mod, Nat.shiftLeft_eq]

/-- Fields that do not overlap are added. -/
theorem join_eq (m k : Nat) {n : Nat} (h : n < 2 ^ k) : m * 2 ^ k ||| n = m * 2 ^ k + n := by
  rw [Nat.mul_comm, Nat.two_pow_add_eq_or_of_lt h]

theorem bytes4_eq {n : Nat} (h : n < 4294967296) :
    ((n / 2 ^ 24 % 2 ^ 8 * 256 + n / 2 ^ 16 % 2 ^ 8) * 256 + n / 2 ^ 8 % 2 ^ 8) * 256 +
      n % 2 ^ 8 = n := by
  omega

/-- A count as an `int` is no greater. -/
theorem toInt_ofNat_le (n : Nat) : (Int32.ofNat n).toInt ≤ n := by
  rw [Int32.toInt_ofNat', Int.bmod_def, Int32.size]
  split <;> omega

end Voms.Core
