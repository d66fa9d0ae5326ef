import Corus.Logical.Bytes

/-!
# Ranges of addresses

Rounding down to a power of two, and ranges that do not overlap.
-/

namespace Corus.Logical

/-- Clear the bits below a power of two. -/
def alignDown (value alignment : UInt64) : UInt64 := value &&& ~~~(alignment - 1)

/-- For a power of two, clearing the low bits rounds down to a multiple. -/
theorem toNat_alignDown {value alignment : UInt64} {exponent : Nat}
    (power : alignment.toNat = 2 ^ exponent) :
    (alignDown value alignment).toNat = value.toNat / alignment.toNat * alignment.toNat := by
  have one : (1 : UInt64).toNat = 1 := rfl
  have positive : 0 < 2 ^ exponent := Nat.two_pow_pos exponent
  have pred : (alignment - 1).toNat = 2 ^ exponent - 1 := by
    rw [UInt64.toNat_sub_of_le _ _ (UInt64.le_iff_toNat_le.mpr (by omega)), power, one]
  have mask : (~~~(alignment - 1)).toNat = 2 ^ 64 - (2 ^ exponent - 1 + 1) := by
    rw [← UInt64.toNat_toBitVec, UInt64.toBitVec_not, BitVec.toNat_not, UInt64.toNat_toBitVec, pred]
    omega
  have small := (alignment - 1).toNat_lt
  rw [pred] at small
  -- Both sides keep exactly the bits of the value from the exponent on.
  apply Nat.eq_of_testBit_eq
  intro bit
  rw [alignDown, UInt64.toNat_and, mask, Nat.testBit_and, Nat.testBit_two_pow_sub_succ small,
    Nat.testBit_two_pow_sub_one, power, Nat.mul_comm, Nat.testBit_two_pow_mul,
    Nat.testBit_div_two_pow]
  by_cases low : bit < exponent
  · simp [low, Nat.not_le.mpr low]
  · have above := Nat.le_of_not_lt low
    by_cases high : bit < 64
    · simp [low, high, above]
    · have zero : value.toNat.testBit bit = false := Nat.testBit_lt_two_pow
        (Nat.lt_of_lt_of_le value.toNat_lt (Nat.pow_le_pow_right (by decide) (by omega)))
      simp [low, high, zero, above]

/-- Two ranges, each given by its first and past-the-end address, share no address. -/
def Apart (first second : Nat × Nat) : Prop := first.2 ≤ second.1 ∨ second.2 ≤ first.1

end Corus.Logical
