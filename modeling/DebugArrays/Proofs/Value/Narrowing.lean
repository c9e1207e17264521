import DebugArrays.Proofs.Binary.DoubleRounding
import DebugArrays.Proofs.Value.Decoding

/-!
Integers in an array of singles. They are coerced by way of a double, which is right for all but the
stranded ones; those become the neighbour of the nearest single.
-/
namespace DebugArrays

theorem IntKind.isWideInt_of_contains {kind : IntKind} {n : Int} (inRange : kind.Contains n) :
    IsWideInt n := by
  obtain ⟨low, high⟩ := inRange
  cases kind <;> exact ⟨Int.le_trans (by decide) low, Int.le_trans high (by decide)⟩

namespace Binary

variable {p : Precision} {x y : Binary p} {n : Int}

/-- Numbers of one sign and different codes are different numbers. -/
theorem toSteps_ne (sign : x.negative = y.negative) (apart : x.code ≠ y.code) :
    x.toSteps ≠ y.toSteps := by
  have different : p.steps x.code ≠ p.steps y.code := p.strictMono_steps.injective.ne apart
  unfold toSteps
  rw [sign]
  split <;> omega

/-- Of two correctly rounded numbers of different size the last bits are zero. -/
theorem Nearest.even_of_ne (first : x.Nearest n) (second : y.Nearest n)
    (apart : x.toSteps ≠ y.toSteps) : y.code % 2 = 0 :=
  second.even x first.finite apart
    (Nat.le_antisymm (second.nearest x first.finite) (first.nearest y second.finite))

/-- A stranded integer ends next to the nearest single. -/
theorem not_nearest_of_stranded (bounded : n.natAbs ≤ 2 ^ 64) (stranded : Stranded n) :
    ¬((ofInt .double n).convert .single).Nearest n := by
  intro near
  have sign := negative_narrowed bounded
  obtain ⟨fine, -⟩ | ⟨-, even, sides⟩ := narrowed_cases bounded
  · exact fine stranded
  · have evenNearest := near.even_of_ne (nearest_ofInt (isFinite_ofInt .single bounded))
      (toSteps_ne sign (by omega))
    omega

end Binary

namespace Value

variable {kind : IntKind} {n : Int}

theorem coerce?_int (inRange : kind.Contains n) :
    (Value.int kind n inRange).coerce? (.float .single) =
      some (.float .single ((Binary.ofInt .double n).convert .single)) := by
  have bounded := natAbs_le_of_isWideInt (IntKind.isWideInt_of_contains inRange)
  have other : (Value.int kind n inRange).primitive? ≠ some (.float .single) := nofun
  have double : (Value.int kind n inRange).toDouble? = some (.ofInt .double n) := rfl
  rw [coerce?_single other double, narrow?_of_finite (Binary.isFinite_narrowed bounded)]

theorem eq_of_coerce?_int {x : Binary32} (inRange : kind.Contains n)
    (h : (Value.int kind n inRange).coerce? (.float .single) = some (.float .single x)) :
    x = (Binary.ofInt .double n).convert .single := by
  rw [coerce?_int] at h
  injection h with same
  injection same with _ same
  exact same.symm

/-- Every integer has a narrow float. It is the correctly rounded one, which direct conversion
gives, unless the integer is stranded; then it is the neighbour of that one. -/
theorem coerce?_int_single (inRange : kind.Contains n) :
    ∃ x : Binary32, (Value.int kind n inRange).coerce? (.float .single) = some (.float .single x) ∧
      x.isFinite = true ∧ (Binary.ofInt .single n).Nearest n ∧
      (x.Nearest n ↔ ¬Binary.Stranded n) ∧ (x = .ofInt .single n ↔ ¬Binary.Stranded n) ∧
      x.negative = (Binary.ofInt .single n).negative ∧
      (Binary.Stranded n → (Binary.ofInt .single n).code = x.code + 1 ∨
        (Binary.ofInt .single n).code + 1 = x.code) := by
  have bounded := natAbs_le_of_isWideInt (IntKind.isWideInt_of_contains inRange)
  have near := Binary.nearest_ofInt (Binary.isFinite_ofInt .single bounded)
  refine ⟨_, coerce?_int inRange, Binary.isFinite_narrowed bounded, near, ?_⟩
  refine ⟨?_, ?_, Binary.negative_narrowed bounded, ?_⟩
  · constructor
    · intro right stranded
      exact Binary.not_nearest_of_stranded bounded stranded right
    · intro free
      obtain ⟨-, same⟩ | ⟨stranded, -⟩ := Binary.narrowed_cases bounded
      · rwa [same]
      · exact absurd stranded free
  · constructor
    · intro same stranded
      exact Binary.not_nearest_of_stranded bounded stranded (by rwa [same])
    · intro free
      obtain ⟨-, same⟩ | ⟨stranded, -⟩ := Binary.narrowed_cases bounded
      · exact same
      · exact absurd stranded free
  · intro stranded
    obtain ⟨free, -⟩ | ⟨-, -, sides⟩ := Binary.narrowed_cases bounded
    · exact absurd stranded free
    · exact sides

/-- The integer of 54 bits that ends in `2 ^ 29 + 1` is stranded. -/
theorem coerce?_int_single_beyondMiddle :
    IntKind.int64.Contains 9007199791611905 ∧ Binary.Stranded 9007199791611905 ∧
      ∃ x : Binary32,
        (Value.int .int64 9007199791611905 (by decide)).coerce? (.float .single) =
          some (.float .single x) ∧ x ≠ .ofInt .single 9007199791611905 := by
  have inRange : IntKind.int64.Contains 9007199791611905 := by decide
  have stranded : Binary.Stranded 9007199791611905 := by decide
  obtain ⟨x, coerced, -, -, -, same, -⟩ := coerce?_int_single inRange
  exact ⟨inRange, stranded, x, coerced, fun equal => same.1 equal stranded⟩

/-- So not every integer is coerced to the nearest single. -/
theorem not_forall_coerce?_int_nearest :
    ¬∀ (kind : IntKind) (n : Int) (inRange : kind.Contains n), ∃ x : Binary32,
      (Value.int kind n inRange).coerce? (.float .single) = some (.float .single x) ∧
        x.Nearest n := by
  intro always
  have inRange : IntKind.int64.Contains 9007199791611905 := by decide
  obtain ⟨x, coerced, near⟩ := always .int64 9007199791611905 inRange
  rw [eq_of_coerce?_int inRange coerced] at near
  exact Binary.not_nearest_of_stranded (by decide) (by decide) near

end Value

end DebugArrays
