import DebugArrays.Binary.Round
import Mathlib.Algebra.Ring.Nat

/-!
Integers as finite numbers: one of 64 bits is far below the largest number of either precision.
-/
namespace DebugArrays

theorem nearestQuotient_le (num den : Nat) : nearestQuotient num den ≤ num / den + 1 := by
  unfold nearestQuotient
  dsimp only
  split
  · omega
  · split <;> omega

namespace Precision

/-- A whole number of steps is finite unless its leading bit reaches the exponents' end. -/
theorem nearestCode_lt_infinityCode (p : Precision) {num : Nat}
    (small : num.log2 - p.fractionBits + 2 < Nat.pow 2 p.exponentBits - 1) :
    p.nearestCode num 1 < p.infinityCode := by
  have cut : num / (1 * Nat.pow 2 (num.log2 - p.fractionBits)) < 2 * Nat.pow 2 p.fractionBits := by
    rw [Nat.one_mul]
    apply (Nat.div_lt_iff_lt_mul (Nat.two_pow_pos _)).2
    have leading : num < 2 ^ (num.log2 + 1) := Nat.lt_log2_self
    have less : 2 ^ (num.log2 + 1) ≤ 2 ^ (1 + p.fractionBits + (num.log2 - p.fractionBits)) :=
      Nat.pow_le_pow_right (by decide) (by omega)
    refine Nat.lt_of_lt_of_le leading (Nat.le_trans less (Nat.le_of_eq ?_))
    rw [Nat.pow_add, Nat.pow_add]
    rfl
  have rounded := nearestQuotient_le num (1 * Nat.pow 2 (num.log2 - p.fractionBits))
  unfold nearestCode infinityCode
  dsimp only
  rw [Nat.div_one]
  refine Nat.lt_of_le_of_lt (Nat.min_le_left _ _) ?_
  calc (num.log2 - p.fractionBits) * Nat.pow 2 p.fractionBits +
        nearestQuotient num (1 * Nat.pow 2 (num.log2 - p.fractionBits))
      ≤ (num.log2 - p.fractionBits) * Nat.pow 2 p.fractionBits + 2 * Nat.pow 2 p.fractionBits := by
        omega
    _ = (num.log2 - p.fractionBits + 2) * Nat.pow 2 p.fractionBits := (Nat.add_mul ..).symm
    _ < (Nat.pow 2 p.exponentBits - 1) * Nat.pow 2 p.fractionBits :=
        Nat.mul_lt_mul_of_pos_right small (Nat.two_pow_pos _)

end Precision

theorem log2_mul_two_pow_lt {n bits : Nat} (small : n < 2 ^ bits) (scale : Nat) :
    (n * Nat.pow 2 scale).log2 < bits + scale + 1 := by
  by_cases zero : n * Nat.pow 2 scale = 0
  · rw [zero, Nat.log2_zero]
    exact Nat.succ_pos _
  · refine Nat.lt_succ_of_lt ((Nat.log2_lt zero).2 ?_)
    rw [Nat.pow_add]
    exact Nat.mul_lt_mul_of_pos_right small (Nat.two_pow_pos _)

theorem Binary.isFinite_ofInt (p : Precision) {n : Int} (bounded : n.natAbs ≤ 2 ^ 64) :
    (Binary.ofInt p n).isFinite = true := by
  have leading := log2_mul_two_pow_lt (Nat.lt_of_le_of_lt bounded (by decide : 2 ^ 64 < 2 ^ 65))
    p.scale
  refine decide_eq_true (p.nearestCode_lt_infinityCode ?_)
  refine Nat.lt_of_le_of_lt (Nat.add_le_add_right (Nat.sub_le_sub_right
    (Nat.le_of_lt_succ leading) _) 2) ?_
  cases p <;> decide

end DebugArrays
