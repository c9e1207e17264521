import DebugArrays.Proofs.Binary.Nearest

/-!
Singles as doubles. Every finite single is a double, so widening rounds nothing, and narrowing what
was widened gives it back.
-/
namespace DebugArrays.Binary

/-- A finite single is a whole multiple of its own steps in those of a double, and stays finite. -/
theorem widened_of_finite {x : Binary32} (finite : x.isFinite = true) :
    (x.convert .double).isFinite = true ∧ (x.convert .double).negative = x.negative ∧
      ∃ gap, Precision.double.scale = gap + Precision.single.scale ∧
        Precision.double.steps (x.convert .double).code =
          Precision.single.steps x.code * 2 ^ gap := by
  obtain ⟨gap, scale, low, high⟩ : ∃ gap, Precision.double.scale = gap + Precision.single.scale ∧
      Precision.double.fractionBits ≤ gap ∧ gap ≤ 1024 := ⟨925, rfl, by decide, by decide⟩
  obtain ⟨n, shift, value, small, bounded⟩ := Precision.exists_eq_steps (of_decide_eq_true finite)
  have room : n < 2 ^ (Precision.double.fractionBits + 1) :=
    Nat.lt_of_lt_of_le small (Nat.pow_le_pow_right (by decide) (by decide))
  have few : shift + gap + 2 < 2 ^ Precision.double.exponentBits - 1 := by
    have single : 2 ^ Precision.single.exponentBits = 256 := rfl
    have double : 2 ^ Precision.double.exponentBits = 2048 := rfl
    omega
  obtain ⟨code, finite', steps⟩ :=
    Precision.exists_steps_eq room (Nat.le_add_left_of_le low) few
  rw [Nat.pow_add, ← Nat.mul_assoc, Nat.mul_right_comm, Nat.mul_right_comm n, ← value] at steps
  have exact : (x.convert .double).code = code := by
    rw [convert_of_finite finite]
    refine Eq.trans (Precision.nearestCode_congr (Nat.two_pow_pos _) Nat.one_pos ?_)
      (Precision.nearestCode_steps finite')
    rw [Nat.mul_one, steps, scale, Nat.pow_eq, Nat.pow_add, Nat.mul_assoc]
  refine ⟨decide_eq_true (exact ▸ finite'), ?_, gap, scale, exact ▸ steps⟩
  rw [convert_of_finite finite]
  rfl

/-- Nothing is lost on the way to a double and back. -/
theorem narrowed_widened {x : Binary32} (number : x.isNaN = false) :
    (x.convert .double).convert .single = x := by
  by_cases finite : x.isFinite = true
  · obtain ⟨finite', sign, gap, scale, steps⟩ := widened_of_finite finite
    rw [convert_of_finite finite', sign, steps]
    apply ofQuotient_of_nearestCode
    refine Eq.trans (Precision.nearestCode_congr (Nat.two_pow_pos _) Nat.one_pos ?_)
      (Precision.nearestCode_steps (of_decide_eq_true finite))
    rw [Nat.mul_one, scale, Nat.pow_add, Nat.mul_assoc]
  · have infinite : x.code = Precision.single.infinityCode := by
      have above := of_decide_eq_false (Bool.eq_false_of_not_eq_true finite)
      have below := of_decide_eq_false number
      omega
    rw [convert_of_infinite infinite, convert_of_infinite rfl]
    exact ext_code rfl infinite.symm

end DebugArrays.Binary
