import DebugArrays.Binary.Decimal
import DebugArrays.Proofs.Binary.Round
import DebugArrays.Proofs.Text.Numeral

/-!
Decimals and the binary numbers nearest to them. The shortest decimal of a number reads back as that
number, and how a decimal splits into coefficient and power of ten does not matter.
-/
namespace DebugArrays

namespace Decimal

variable {p : Precision} {tie : Tie} {code num den : Nat} {grid : Int} {d : Decimal}

theorem denominator_pos (d : Decimal) : 0 < d.denominator :=
  Nat.pow_pos (by decide)

theorem readsAs_iff :
    d.readsAs p code = true ↔ p.nearestCode (d.numerator * 2 ^ p.scale) d.denominator = code :=
  beq_iff_eq

theorem readsAs_of_neighbour? (found : neighbour? p tie code num den grid = some d) :
    d.readsAs p code = true := by
  unfold neighbour? at found
  dsimp only at found
  split at found
  · cases found
  · next below above =>
    cases found
    exact below
  · next below above =>
    cases found
    exact above
  · next below above =>
    split at found
    · cases found
      exact below
    · split at found
      · cases found
        exact above
      · cases tie with
        | up =>
            cases found
            exact above
        | even =>
            dsimp only at found
            split at found
            · cases found
              exact below
            · cases found
              exact above

/-- Written out in full, a number reads back: its decimal is the number itself. -/
theorem readsAs_exact (finite : code < p.infinityCode) : (exact p code).readsAs p code = true := by
  have ten : 5 ^ p.scale * 2 ^ p.scale = 10 ^ p.scale := (Nat.mul_pow 5 2 p.scale).symm
  have number : (exact p code).numerator = p.steps code * 5 ^ p.scale := by
    simp [exact, numerator]
  have unit : (exact p code).denominator = 10 ^ p.scale := by
    simp [exact, denominator]
  rw [readsAs_iff, number, unit, Nat.mul_assoc, ten]
  refine Eq.trans (Precision.nearestCode_congr (Nat.pow_pos (by decide)) Nat.one_pos ?_)
    (Precision.nearestCode_steps finite)
  rw [Nat.mul_one]

theorem readsAs_shortest (tie : Tie) (finite : code < p.infinityCode) :
    (shortest p tie code).readsAs p code = true := by
  unfold shortest
  dsimp only
  split
  · next zero =>
    have read := Precision.nearestCode_steps finite
    rw [zero] at read
    rw [readsAs_iff]
    simpa [numerator, denominator] using read
  · cases found : (List.range 17).findSome? fun (n : Nat) =>
        neighbour? p tie code (p.steps code) (Nat.pow 2 p.scale)
          (leadingExponent (p.steps code) (Nat.pow 2 p.scale) - n) with
    | none => exact readsAs_exact finite
    | some d =>
        obtain ⟨n, -, near⟩ := List.exists_of_findSome?_eq_some found
        exact readsAs_of_neighbour? near

end Decimal

namespace Binary

variable {p : Precision} {negative : Bool}

theorem two_pow_le_ten_pow (k : Nat) : 2 ^ (3 * k) ≤ 10 ^ k := by
  rw [Nat.pow_mul]
  exact Nat.pow_le_pow_left (by decide) k

/-- Below the cutoff there is only zero: even half a smallest positive number is more. -/
theorem ofQuotient_of_tiny {d : Decimal}
    (tiny : (digitCount d.coefficient : Int) + d.exponent < -400) :
    ofQuotient p negative d.numerator d.denominator = zero p negative := by
  have whole : d.exponent.toNat = 0 := by omega
  have shifted : digitCount d.coefficient + 400 ≤ (-d.exponent).toNat := by omega
  have short : 2 * 2 ^ p.scale ≤ 10 ^ 400 := by
    refine Nat.le_trans (Nat.le_of_eq (Nat.pow_succ' ..).symm) ?_
    refine Nat.le_trans (Nat.pow_le_pow_right (by decide) ?_) (two_pow_le_ten_pow 400)
    cases p <;> decide
  apply ofQuotient_of_nearestCode
  apply Precision.nearestCode_of_small
  calc 2 * (d.numerator * 2 ^ p.scale)
      = d.coefficient * (2 * 2 ^ p.scale) := by
        simp only [Decimal.numerator, whole, Nat.pow_eq, Nat.pow_zero, Nat.mul_one]
        exact Nat.mul_left_comm ..
    _ < 10 ^ digitCount d.coefficient * (2 * 2 ^ p.scale) :=
        Nat.mul_lt_mul_of_pos_right (Text.lt_pow_length_natural _)
          (Nat.mul_pos (by decide) (Nat.two_pow_pos _))
    _ ≤ 10 ^ digitCount d.coefficient * 10 ^ 400 := Nat.mul_le_mul_left _ short
    _ = 10 ^ (digitCount d.coefficient + 400) := by rw [Nat.pow_add]
    _ ≤ d.denominator := Nat.pow_le_pow_right (by decide) shifted

/-- Beyond the cutoff there is only infinity. -/
theorem ofQuotient_of_huge {d : Decimal} (pos : 0 < d.coefficient)
    (huge : 400 < (digitCount d.coefficient : Int) + d.exponent) :
    ofQuotient p negative d.numerator d.denominator = infinity p negative := by
  have written : 0 < digitCount d.coefficient := Nat.length_toDigits_pos
  have long : 2 ^ p.ceilingBit ≤ 10 ^ 400 * 2 ^ p.scale := by
    refine Nat.le_trans ?_ (Nat.mul_le_mul_right _ (two_pow_le_ten_pow 400))
    rw [← Nat.pow_add]
    apply Nat.pow_le_pow_right (by decide)
    cases p <;> decide
  have large : d.denominator * 10 ^ 400 ≤ d.numerator := by
    have front : 10 ^ (digitCount d.coefficient - 1) ≤ d.coefficient :=
      Text.pow_length_natural_le pos
    refine Nat.le_trans ?_ (Nat.mul_le_mul_right _ front)
    simp only [Decimal.denominator, Nat.pow_eq, ← Nat.pow_add]
    exact Nat.pow_le_pow_right (by decide) (by omega)
  apply ofQuotient_of_nearestCode
  apply Precision.nearestCode_of_large d.denominator_pos
  calc d.denominator * 2 ^ p.ceilingBit
      ≤ d.denominator * (10 ^ 400 * 2 ^ p.scale) := Nat.mul_le_mul_left _ long
    _ = d.denominator * 10 ^ 400 * 2 ^ p.scale := (Nat.mul_assoc ..).symm
    _ ≤ d.numerator * 2 ^ p.scale := Nat.mul_le_mul_right _ large

/-- The cutoffs of a decimal's magnitude only save work. -/
theorem ofDecimal_eq_ofQuotient (p : Precision) (negative : Bool) (d : Decimal) :
    ofDecimal p negative d = ofQuotient p negative d.numerator d.denominator := by
  unfold ofDecimal
  dsimp only
  split
  · next small =>
    rcases small with none | tiny
    · refine (ofQuotient_of_nearestCode (Precision.nearestCode_of_small ?_) _).symm
      simpa [Decimal.numerator, none] using d.denominator_pos
    · exact (ofQuotient_of_tiny tiny).symm
  · next some =>
    split
    · next huge =>
      exact (ofQuotient_of_huge (by omega) huge).symm
    · rfl

/-- A coefficient may trade zeros at its end for a larger exponent. -/
theorem ofDecimal_shift (coefficient zeros : Nat) (exponent : Int) :
    ofDecimal p negative ⟨coefficient * 10 ^ zeros, exponent - zeros⟩ =
      ofDecimal p negative ⟨coefficient, exponent⟩ := by
  rw [ofDecimal_eq_ofQuotient, ofDecimal_eq_ofQuotient]
  apply ofQuotient_congr (Decimal.denominator_pos _) (Decimal.denominator_pos _)
  simp only [Decimal.numerator, Decimal.denominator, Nat.pow_eq, Nat.mul_assoc, ← Nat.pow_add]
  congr 2
  omega

/-- The shortest decimal of a finite number reads back. -/
theorem ofDecimal_shortest {code : Nat} (tie : Tie) (finite : code < p.infinityCode)
    (code_lt : code < Nat.pow 2 p.codeBits) :
    ofDecimal p negative (.shortest p tie code) = ⟨negative, code, code_lt⟩ := by
  have read := Decimal.readsAs_iff.1 (Decimal.readsAs_shortest tie finite)
  rw [ofDecimal_eq_ofQuotient]
  exact ofQuotient_of_nearestCode read code_lt

end Binary

end DebugArrays
