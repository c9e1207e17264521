import DebugArrays.Binary.Round
import Mathlib.Algebra.Ring.Nat
import Mathlib.Tactic.Ring

/-!
Rounding of exact quotients. The nearest code depends on the quotient alone and not on how it is
written, every finite number is its own nearest, and far outside the finite numbers the nearest code
is that of zero or of infinity.
-/
namespace DebugArrays

/-- A common factor cancels. -/
theorem nearestQuotient_mul {k : Nat} (pos : 0 < k) (num den : Nat) :
    nearestQuotient (k * num) (k * den) = nearestQuotient num den := by
  have less : 2 * (k * (num % den)) < k * den ↔ 2 * (num % den) < den := by
    rw [Nat.mul_left_comm]
    exact Nat.mul_lt_mul_left pos
  have more : k * den < 2 * (k * (num % den)) ↔ den < 2 * (num % den) := by
    rw [Nat.mul_left_comm]
    exact Nat.mul_lt_mul_left pos
  unfold nearestQuotient
  simp only [Nat.mul_div_mul_left _ _ pos, Nat.mul_mod_mul_left, less, more]

/-- A whole quotient is not rounded. -/
theorem nearestQuotient_mul_self {den : Nat} (pos : 0 < den) (n : Nat) :
    nearestQuotient (n * den) den = n := by
  unfold nearestQuotient
  simp only [Nat.mul_div_cancel _ pos, Nat.mul_mod_left, Nat.mul_zero, pos, if_true]

theorem nearestQuotient_of_lt_half {num den : Nat} (small : 2 * num < den) :
    nearestQuotient num den = 0 := by
  have less : num < den := by omega
  unfold nearestQuotient
  simp only [Nat.mod_eq_of_lt less, Nat.div_eq_of_lt less, small, if_true]

theorem log2_mul_two_pow_of_lead {m bits : Nat} (low : 2 ^ bits ≤ m) (high : m < 2 ^ (bits + 1))
    (k : Nat) : (m * 2 ^ k).log2 = bits + k := by
  have nonzero : m * 2 ^ k ≠ 0 := by
    have := Nat.mul_le_mul_right (2 ^ k) low
    have := Nat.mul_pos (Nat.two_pow_pos bits) (Nat.two_pow_pos k)
    omega
  rw [Nat.log2_eq_iff nonzero, ← Nat.add_right_comm, Nat.pow_add, Nat.pow_add]
  exact ⟨Nat.mul_le_mul_right _ low, Nat.mul_lt_mul_of_pos_right high (Nat.two_pow_pos _)⟩

namespace Precision

variable {p : Precision} {num den code : Nat}

theorem nearestCode_mul {k : Nat} (pos : 0 < k) (num den : Nat) :
    p.nearestCode (k * num) (k * den) = p.nearestCode num den := by
  unfold nearestCode
  simp only [Nat.mul_div_mul_left _ _ pos, Nat.mul_assoc, nearestQuotient_mul pos]

/-- Equal quotients have one nearest code. -/
theorem nearestCode_congr {num' den' : Nat} (pos : 0 < den) (pos' : 0 < den')
    (same : num * den' = num' * den) : p.nearestCode num den = p.nearestCode num' den' := by
  rw [← nearestCode_mul pos', ← nearestCode_mul pos num' den', Nat.mul_comm den' num, same,
    Nat.mul_comm num' den, Nat.mul_comm den' den]

theorem nearestCode_of_small (small : 2 * num < den) : p.nearestCode num den = 0 := by
  have none : num / den = 0 := Nat.div_eq_of_lt (by omega)
  unfold nearestCode
  simp only [none, Nat.log2_zero, Nat.zero_sub, Nat.pow_eq, Nat.pow_zero, Nat.mul_one,
    nearestQuotient_of_lt_half small, Nat.zero_mul, Nat.zero_add, Nat.zero_min]

/-- The leading bit of a quotient whose code is infinite by its exponent alone. -/
def ceilingBit (p : Precision) : Nat :=
  p.fractionBits + (Nat.pow 2 p.exponentBits - 1)

theorem nearestCode_of_large (pos : 0 < den) (large : den * 2 ^ p.ceilingBit ≤ num) :
    p.nearestCode num den = p.infinityCode := by
  have reached : 2 ^ p.ceilingBit ≤ num / den :=
    (Nat.le_div_iff_mul_le pos).2 (by rwa [Nat.mul_comm])
  have nonzero : num / den ≠ 0 := by
    have := Nat.two_pow_pos p.ceilingBit
    omega
  have leading : p.ceilingBit ≤ (num / den).log2 := (Nat.le_log2 nonzero).2 reached
  unfold ceilingBit at leading
  unfold nearestCode infinityCode
  refine Nat.min_eq_right (Nat.le_trans ?_ (Nat.le_add_right _ _))
  exact Nat.mul_le_mul_right _ (by omega)

/-- A whole number that is cut by as many bits as it has zeros at its end is not rounded. -/
theorem nearestCode_of_whole {m shift : Nat} (cut : (m * 2 ^ shift).log2 - p.fractionBits = shift)
    (finite : shift * 2 ^ p.fractionBits + m ≤ p.infinityCode) :
    p.nearestCode (m * 2 ^ shift) 1 = shift * 2 ^ p.fractionBits + m := by
  unfold nearestCode
  simp only [Nat.div_one, Nat.one_mul, cut, Nat.pow_eq,
    nearestQuotient_mul_self (Nat.two_pow_pos shift)]
  exact Nat.min_eq_left finite

/-- Every finite number is its own nearest. -/
theorem nearestCode_steps (finite : code < p.infinityCode) :
    p.nearestCode (p.steps code) 1 = code := by
  have parts : 2 ^ p.fractionBits * (code / 2 ^ p.fractionBits) + code % 2 ^ p.fractionBits =
      code := Nat.div_add_mod _ _
  have fraction : code % 2 ^ p.fractionBits < 2 ^ p.fractionBits :=
    Nat.mod_lt _ (Nat.two_pow_pos _)
  unfold steps
  simp only [Nat.pow_eq]
  generalize code / 2 ^ p.fractionBits = exponent at parts ⊢
  generalize code % 2 ^ p.fractionBits = low at parts fraction ⊢
  cases exponent with
  | zero =>
      -- a subnormal number is its own code
      have cut : (low * 2 ^ 0).log2 - p.fractionBits = 0 := by
        rw [Nat.pow_zero, Nat.mul_one]
        rcases Nat.eq_zero_or_pos low with zero | pos
        · rw [zero, Nat.log2_zero, Nat.zero_sub]
        · have := (Nat.log2_lt (Nat.ne_of_gt pos)).2 fraction
          omega
      have whole := nearestCode_of_whole cut (by omega)
      rw [Nat.pow_zero, Nat.mul_one] at whole
      rw [if_pos rfl, whole]
      omega
  | succ shift =>
      have lead : ((2 ^ p.fractionBits + low) * 2 ^ shift).log2 = p.fractionBits + shift := by
        refine log2_mul_two_pow_of_lead (Nat.le_add_right _ _) ?_ shift
        rw [Nat.pow_succ]
        omega
      have carried : shift * 2 ^ p.fractionBits + (2 ^ p.fractionBits + low) = code := by
        rw [← parts]
        ring
      rw [if_neg (Nat.succ_ne_zero shift), Nat.add_sub_cancel,
        nearestCode_of_whole (by omega) (by omega), carried]

end Precision

namespace Binary

variable {p q : Precision} {negative : Bool}

theorem ext_code {x y : Binary p} (sign : x.negative = y.negative) (same : x.code = y.code) :
    x = y := by
  cases x
  cases y
  cases sign
  cases same
  rfl

theorem convert_of_finite {x : Binary p} (finite : x.isFinite = true) :
    x.convert q = ofQuotient q x.negative (p.steps x.code) (2 ^ p.scale) := by
  have less : x.code < p.infinityCode := of_decide_eq_true finite
  have number : x.isNaN = false := decide_eq_false (by omega)
  have bounded : x.isInfinite = false := decide_eq_false (by omega)
  unfold convert
  rw [number, bounded]
  rfl

theorem convert_of_infinite {x : Binary p} (infinite : x.code = p.infinityCode) :
    x.convert q = infinity q x.negative := by
  have number : x.isNaN = false := decide_eq_false (by omega)
  have unbounded : x.isInfinite = true := decide_eq_true infinite
  unfold convert
  rw [number, unbounded]
  rfl

theorem ofQuotient_of_nearestCode {num den code : Nat}
    (nearest : p.nearestCode (num * 2 ^ p.scale) den = code)
    (code_lt : code < Nat.pow 2 p.codeBits) :
    ofQuotient p negative num den = ⟨negative, code, code_lt⟩ := by
  unfold ofQuotient
  simp only [Nat.pow_eq, nearest]

theorem ofQuotient_congr {num den num' den' : Nat} (pos : 0 < den) (pos' : 0 < den')
    (same : num * den' = num' * den) :
    ofQuotient p negative num den = ofQuotient p negative num' den' := by
  apply ofQuotient_of_nearestCode
  apply Precision.nearestCode_congr pos pos'
  rw [Nat.mul_right_comm, same, Nat.mul_right_comm]
  rfl

end Binary

end DebugArrays
