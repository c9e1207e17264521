import DebugArrays.Binary.Text
import DebugArrays.Proofs.Binary.Decimal

/-!
The digits that a decimal is written with. They are its coefficient without the zeros at the end, so
together with the leading exponent they still stand for the same binary number.
-/
namespace DebugArrays

/-- A list is what is left of it without the zeros at its end, and those zeros. -/
theorem exists_eq_append_zeros (cs : List Char) :
    ∃ zeros, cs = (cs.reverse.dropWhile (· == '0')).reverse ++ List.replicate zeros '0' := by
  have zeros : (cs.reverse.takeWhile (· == '0')) =
      List.replicate (cs.reverse.takeWhile (· == '0')).length '0' := by
    apply List.eq_replicate_of_mem
    intro c member
    exact beq_iff_eq.1 (List.all_eq_true.1 List.all_takeWhile c member)
  refine ⟨(cs.reverse.takeWhile (· == '0')).length, ?_⟩
  rw [← List.reverse_replicate, ← zeros, ← List.reverse_append, List.takeWhile_append_dropWhile,
    List.reverse_reverse]

namespace Decimal

variable {d : Decimal}

theorem natural_eq_significant (d : Decimal) :
    ∃ zeros, Text.natural d.coefficient = d.significant ++ List.replicate zeros '0' :=
  exists_eq_append_zeros _

theorem isDigit_of_mem_significant {c : Char} (member : c ∈ d.significant) : c.isDigit = true := by
  obtain ⟨zeros, written⟩ := d.natural_eq_significant
  apply Text.isDigit_of_mem_natural (n := d.coefficient)
  rw [written]
  exact List.mem_append_left _ member

/-- A number that is not zero is written with a first digit that is not. -/
theorem exists_significant_of_pos (pos : 0 < d.coefficient) :
    ∃ first others, d.significant = first :: others ∧ first ≠ '0' := by
  obtain ⟨zeros, written⟩ := d.natural_eq_significant
  obtain ⟨first, rest, front, nonzero⟩ := Text.exists_natural_of_pos pos
  rw [front] at written
  cases digits : d.significant with
  | nil =>
      rw [digits, List.nil_append] at written
      have member : first ∈ List.replicate zeros '0' := written ▸ List.mem_cons_self
      exact absurd (List.eq_of_mem_replicate member) nonzero
  | cons leading others =>
      rw [digits, List.cons_append, List.cons.injEq] at written
      exact ⟨leading, others, rfl, written.1 ▸ nonzero⟩

/-- A decimal of its own digits and leading exponent is the same number. -/
theorem ofDecimal_significant (p : Precision) (negative : Bool) (d : Decimal) :
    Binary.ofDecimal p negative d = Binary.ofDecimal p negative
      ⟨Text.ofDigits d.significant, d.lead + 1 - d.significant.length⟩ := by
  obtain ⟨zeros, written⟩ := d.natural_eq_significant
  have coefficient : d.coefficient = Text.ofDigits d.significant * 10 ^ zeros := by
    rw [← Text.ofDigits_append_replicate, ← written, Text.ofDigits_natural]
  have counted : digitCount d.coefficient = d.significant.length + zeros := by
    rw [digitCount, written, List.length_append, List.length_replicate]
  have exponent : d.exponent = d.lead + 1 - d.significant.length - zeros := by
    rw [lead, counted]
    omega
  have shifted : Binary.ofDecimal p negative _ = _ :=
    Binary.ofDecimal_shift (Text.ofDigits d.significant) zeros (d.lead + 1 - d.significant.length)
  rwa [← coefficient, ← exponent] at shifted

/-- The shortest decimal of zero has no exponent. -/
theorem shortest_of_zero {p : Precision} (tie : Tie) {code : Nat} (finite : code < p.infinityCode)
    (zero : (shortest p tie code).coefficient = 0) : shortest p tie code = ⟨0, 0⟩ := by
  have read := readsAs_iff.1 (readsAs_shortest tie finite)
  have none : p.nearestCode ((shortest p tie code).numerator * 2 ^ p.scale)
      (shortest p tie code).denominator = 0 := by
    apply Precision.nearestCode_of_small
    simpa [numerator, zero] using denominator_pos _
  rw [none] at read
  subst read
  have nothing : p.steps 0 = 0 := by simp [Precision.steps]
  simp [shortest, nothing]

end Decimal

end DebugArrays
