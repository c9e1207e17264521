import DebugArrays.Binary.Basic

/-!
Rounding to the nearest binary number, ties to the even code. One function takes every exact
quotient to its code; integers, decimals and the other precision all pass through it.
-/
namespace DebugArrays

/-- The whole number nearest to `num / den`; a tie goes to the even one. -/
def nearestQuotient (num den : Nat) : Nat :=
  let low := num / den
  let rest := num % den
  if 2 * rest < den then low
  else if den < 2 * rest then low + 1
  else low + low % 2

namespace Precision

/-- The code nearest to `num / den` smallest positive numbers. The quotient is cut to one bit more
than a fraction holds; a carry out of the rounding lands in the exponent, where it belongs. -/
def nearestCode (p : Precision) (num den : Nat) : Nat :=
  let shift := (num / den).log2 - p.fractionBits
  let rounded := nearestQuotient num (den * Nat.pow 2 shift)
  min (shift * Nat.pow 2 p.fractionBits + rounded) p.infinityCode

theorem nearestCode_le (p : Precision) (num den : Nat) : p.nearestCode num den ≤ p.infinityCode :=
  Nat.min_le_right _ _

end Precision

namespace Binary

variable {p : Precision}

/-- The number nearest to `± num / den`; what lies beyond the finite numbers becomes infinite. -/
def ofQuotient (p : Precision) (negative : Bool) (num den : Nat) : Binary p :=
  ⟨negative, p.nearestCode (num * Nat.pow 2 p.scale) den,
    Nat.lt_of_le_of_lt (p.nearestCode_le _ _) (Nat.lt_of_succ_lt p.infinityCode_lt)⟩

def ofInt (p : Precision) (n : Int) : Binary p :=
  ofQuotient p (n < 0) n.natAbs 1

/-- The number nearest to `x` in the precision `q`. A NaN stays one, its payload aside. -/
def convert (q : Precision) (x : Binary p) : Binary q :=
  if x.isNaN then nan q
  else if x.isInfinite then infinity q x.negative
  else ofQuotient q x.negative (p.steps x.code) (Nat.pow 2 p.scale)

end Binary

end DebugArrays
