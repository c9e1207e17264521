import DebugArrays.Proofs.Binary.Finite
import DebugArrays.Proofs.Binary.Nearest

/-!
Rounding twice: an integer is first rounded to a double and that to a single. The outcome is mostly,
but not always, the single nearest to the integer. It is the wrong neighbour exactly where the
integer lies just beyond the middle between two singles, on the side of the odd one, so close that
the double is the middle itself.
-/
namespace DebugArrays

section Quotient

variable {num unit half : Nat}

theorem le_nearestQuotient {den n : Nat} (pos : 0 < den) (low : n * den ≤ num) :
    n ≤ nearestQuotient num den := by
  have nearest := (isNearestQuotient_nearestQuotient pos num).below
  by_contra less
  have next := Nat.mul_le_mul_right den (Nat.lt_of_not_le less)
  rw [Nat.succ_mul] at next
  omega

theorem nearestQuotient_le_of_le {den n : Nat} (pos : 0 < den) (high : num ≤ n * den) :
    nearestQuotient num den ≤ n := by
  have nearest := (isNearestQuotient_nearestQuotient pos num).above
  by_contra more
  have next := Nat.mul_le_mul_right den (Nat.lt_of_not_le more)
  rw [Nat.succ_mul] at next
  omega

/-- A quotient rounded with a fine unit first and with the coarse one then. Where that goes wrong,
the first rounding has moved it to the middle between two whole numbers, and the second has taken
the even one of them, which is on the other side. -/
theorem nearestQuotient_twice (pos : 0 < unit) (several : 0 < half) (num : Nat) :
    let once := nearestQuotient num unit
    let twice := nearestQuotient once (2 * half)
    let direct := nearestQuotient num (unit * (2 * half))
    twice = direct ∨ twice % 2 = 0 ∧
      (once = twice * (2 * half) + half ∧ once * unit < num ∧ direct = twice + 1 ∨
        once + half = twice * (2 * half) ∧ num < once * unit ∧ direct + 1 = twice) := by
  intro once twice direct
  have first : IsNearestQuotient num unit once := isNearestQuotient_nearestQuotient pos num
  have second : IsNearestQuotient once (2 * half) twice :=
    isNearestQuotient_nearestQuotient (by omega) once
  have same : ∀ n, IsNearestQuotient num (unit * (2 * half)) n → direct = n := fun n nearest =>
    (nearestQuotient_eq_iff (Nat.mul_pos pos (by omega))).2 nearest
  clear_value once twice direct
  have coarse : unit * (2 * half) = 2 * (half * unit) := by ring
  have unit_le : unit ≤ half * unit := Nat.le_mul_of_pos_left unit several
  have scaled : twice * (2 * (half * unit)) = twice * (2 * half) * unit := by ring
  rw [coarse] at same
  generalize middle : twice * (2 * half) = t at second scaled
  have fromBelow := first.below
  have fromAbove := first.above
  have tie := second.even
  rw [middle] at tie
  obtain low | inside | high : once + half = t ∨ t < once + half ∧ once < t + half ∨
      once = t + half := by
    have := second.above
    have := second.below
    omega
  · have reached : t * unit = once * unit + half * unit := by rw [← low, Nat.add_mul]
    have even : twice % 2 = 0 := tie (.inl (by omega))
    by_cases short : num < once * unit
    · obtain ⟨k, rfl⟩ : ∃ k, twice = k + 1 := by
        refine Nat.exists_eq_succ_of_ne_zero ?_
        rintro rfl
        omega
      rw [Nat.succ_mul] at scaled
      have direct_eq := same k ⟨by omega, by omega, by omega⟩
      exact .inr ⟨even, .inr ⟨low, short, by rw [direct_eq]⟩⟩
    · exact .inl (same twice ⟨by omega, by omega, fun _ => even⟩).symm
  · have above : t * unit + unit ≤ once * unit + half * unit := by
      rw [← Nat.succ_mul, ← Nat.add_mul]
      exact Nat.mul_le_mul_right unit inside.1
    have below : once * unit + unit ≤ t * unit + half * unit := by
      rw [← Nat.succ_mul, ← Nat.add_mul]
      exact Nat.mul_le_mul_right unit inside.2
    exact .inl (same twice ⟨by omega, by omega, by omega⟩).symm
  · have reached : once * unit = t * unit + half * unit := by rw [high, Nat.add_mul]
    have even : twice % 2 = 0 := tie (.inr (by omega))
    by_cases beyond : once * unit < num
    · have next := Nat.add_one_mul twice (2 * (half * unit))
      have direct_eq := same (twice + 1) ⟨by omega, by omega, by omega⟩
      exact .inr ⟨even, .inl ⟨high, beyond, direct_eq⟩⟩
    · exact .inl (same twice ⟨by omega, by omega, fun _ => even⟩).symm

/-- The quotient lies just beyond the middle between two whole numbers, on the side of the odd one,
and no farther from the middle than half of one `fine`-th. -/
abbrev IsStranded (num den fine : Nat) : Prop :=
  if num / den % 2 = 0 then den < 2 * (num % den) ∧ fine * (2 * (num % den) - den) ≤ den
  else 2 * (num % den) < den ∧ fine * (den - 2 * (num % den)) ≤ den

/-- A quotient that is stranded is rounded to the middle, and from there away from the number that
it is nearest to. -/
theorem nearestQuotient_twice_of_stranded (pos : 0 < unit) (even : half % 2 = 0)
    (several : 0 < half) (stranded : IsStranded num (unit * (2 * half)) (2 * half)) :
    nearestQuotient (nearestQuotient num unit) (2 * half) ≠
      nearestQuotient num (unit * (2 * half)) := by
  have fine : 0 < 2 * half := by omega
  have coarse : 0 < unit * (2 * half) := Nat.mul_pos pos fine
  have parts := Nat.div_add_mod' num (unit * (2 * half))
  have less := Nat.mod_lt num coarse
  unfold IsStranded at stranded
  generalize num / (unit * (2 * half)) = low at *
  generalize num % (unit * (2 * half)) = rest at *
  have doubled : unit * (2 * half) = 2 * (half * unit) := by ring
  have near : ∀ gap, 2 * half * gap ≤ unit * (2 * half) → gap ≤ unit := by
    intro gap bound
    rw [Nat.mul_comm unit] at bound
    exact Nat.le_of_mul_le_mul_left bound fine
  have next := Nat.add_one_mul low (unit * (2 * half))
  have middle : (low * (2 * half) + half) * unit = low * (unit * (2 * half)) + half * unit := by
    ring
  have evenMiddle : (low * (2 * half) + half) % 2 = 0 := by
    rw [Nat.mul_left_comm, Nat.mul_add_mod, even]
  have once : IsNearestQuotient num unit (low * (2 * half) + half) := by
    split at stranded
    · have := near _ stranded.2
      exact ⟨by omega, by omega, fun _ => evenMiddle⟩
    · have := near _ stranded.2
      exact ⟨by omega, by omega, fun _ => evenMiddle⟩
  have half_le : half * unit * 2 = unit * (2 * half) := by ring
  rw [(nearestQuotient_eq_iff pos).2 once]
  split at stranded
  · next evenLow =>
    have down : IsNearestQuotient (low * (2 * half) + half) (2 * half) low :=
      ⟨by omega, by omega, fun _ => evenLow⟩
    have up : IsNearestQuotient num (unit * (2 * half)) (low + 1) := ⟨by omega, by omega, by omega⟩
    rw [(nearestQuotient_eq_iff fine).2 down, (nearestQuotient_eq_iff coarse).2 up]
    omega
  · next oddLow =>
    have nextFine := Nat.add_one_mul low (2 * half)
    have up : IsNearestQuotient (low * (2 * half) + half) (2 * half) (low + 1) :=
      ⟨by omega, by omega, fun _ => by omega⟩
    have down : IsNearestQuotient num (unit * (2 * half)) low := ⟨by omega, by omega, by omega⟩
    rw [(nearestQuotient_eq_iff fine).2 up, (nearestQuotient_eq_iff coarse).2 down]
    omega

theorem isStranded_of_ne (pos : 0 < unit) (several : 0 < half)
    (wrong : nearestQuotient (nearestQuotient num unit) (2 * half) ≠
      nearestQuotient num (unit * (2 * half))) :
    IsStranded num (unit * (2 * half)) (2 * half) := by
  have once := isNearestQuotient_nearestQuotient pos num
  have coarse : 0 < unit * (2 * half) := Nat.mul_pos pos (by omega)
  have doubled : unit * (2 * half) = 2 * (half * unit) := by ring
  have unit_le : unit ≤ half * unit := Nat.le_mul_of_pos_left unit several
  have near : ∀ gap, gap ≤ unit → 2 * half * gap ≤ unit * (2 * half) := by
    intro gap bound
    rw [Nat.mul_comm unit]
    exact Nat.mul_le_mul_left _ bound
  obtain right | ⟨even, ⟨middle, beyond, -⟩ | ⟨middle, short, next⟩⟩ :=
    nearestQuotient_twice pos several num
  · exact absurd right wrong
  · generalize nearestQuotient (nearestQuotient num unit) (2 * half) = low at even middle
    have reached : nearestQuotient num unit * unit = unit * (2 * half) * low + half * unit := by
      rw [middle]
      ring
    have below := once.below
    obtain ⟨quotient, remainder⟩ := (Nat.div_mod_unique coarse).2
      ⟨(by omega : num - unit * (2 * half) * low + unit * (2 * half) * low = num), by omega⟩
    unfold IsStranded
    rw [quotient, remainder, if_pos even]
    exact ⟨by omega, near _ (by omega)⟩
  · generalize nearestQuotient num (unit * (2 * half)) = low at next
    rw [← next] at even middle
    have reached : nearestQuotient num unit * unit = unit * (2 * half) * low + half * unit := by
      have moved := congrArg (· * unit) middle
      have spread : (low + 1) * (2 * half) * unit = unit * (2 * half) * low + unit * (2 * half) := by
        ring
      simp only [Nat.add_mul _ half, spread] at moved
      omega
    have above := once.above
    obtain ⟨quotient, remainder⟩ := (Nat.div_mod_unique coarse).2
      ⟨(by omega : num - unit * (2 * half) * low + unit * (2 * half) * low = num), by omega⟩
    unfold IsStranded
    rw [quotient, remainder, if_neg (by omega)]
    exact ⟨by omega, near _ (by omega)⟩

end Quotient

namespace Precision

variable {p : Precision} {num n shift : Nat}

/-- A number between two powers of two that follow each other is cut by its place alone, the upper
power included. -/
theorem nearestCode_of_between (low : 2 ^ (p.fractionBits + shift) ≤ num)
    (high : num ≤ 2 ^ (p.fractionBits + shift + 1)) :
    p.nearestCode num 1 =
      min (shift * 2 ^ p.fractionBits + nearestQuotient num (2 ^ shift)) p.infinityCode := by
  have pos := Nat.two_pow_pos shift
  unfold nearestCode
  simp only [Nat.div_one, Nat.one_mul, Nat.pow_eq]
  by_cases top : num = 2 ^ (p.fractionBits + shift + 1)
  · have next : p.fractionBits + shift + 1 - p.fractionBits = shift + 1 := by omega
    have one : 2 ^ (p.fractionBits + shift + 1) = 2 ^ p.fractionBits * 2 ^ (shift + 1) := by
      rw [← Nat.pow_add, Nat.add_assoc]
    have two : 2 ^ (p.fractionBits + shift + 1) = 2 ^ (p.fractionBits + 1) * 2 ^ shift := by
      rw [← Nat.pow_add, Nat.add_right_comm]
    rw [top, Nat.log2_two_pow, next]
    conv_lhs => rw [one, nearestQuotient_mul_self (Nat.two_pow_pos _)]
    rw [two, nearestQuotient_mul_self pos]
    congr 1
    ring
  · have nonzero : num ≠ 0 := by
      have := Nat.two_pow_pos (p.fractionBits + shift)
      omega
    have leading : num.log2 = p.fractionBits + shift :=
      (Nat.log2_eq_iff nonzero).2 ⟨low, Nat.lt_of_le_of_ne high top⟩
    rw [leading, Nat.add_sub_cancel_left]

/-- The code of a whole number that has more bits than a fraction. -/
theorem nearestCode_whole (low : 2 ^ (p.fractionBits + shift) ≤ n)
    (high : n ≤ 2 ^ (p.fractionBits + shift + 1)) :
    p.nearestCode (n * 2 ^ p.scale) 1 =
      min ((p.scale + shift) * 2 ^ p.fractionBits + nearestQuotient n (2 ^ shift))
        p.infinityCode := by
  have scaled : ∀ k, 2 ^ (p.fractionBits + (p.scale + shift) + k) =
      2 ^ (p.fractionBits + shift + k) * 2 ^ p.scale := by
    intro k
    rw [← Nat.pow_add]
    congr 1
    omega
  have common : nearestQuotient (n * 2 ^ p.scale) (2 ^ (p.scale + shift)) =
      nearestQuotient n (2 ^ shift) := by
    rw [Nat.mul_comm n, Nat.pow_add, nearestQuotient_mul (Nat.two_pow_pos _)]
  have lower : 2 ^ (p.fractionBits + (p.scale + shift)) ≤ n * 2 ^ p.scale := by
    rw [← Nat.add_zero (p.fractionBits + _), scaled]
    exact Nat.mul_le_mul_right _ low
  have upper : n * 2 ^ p.scale ≤ 2 ^ (p.fractionBits + (p.scale + shift) + 1) := by
    rw [scaled]
    exact Nat.mul_le_mul_right _ high
  rw [nearestCode_of_between lower upper, common]

theorem fractionBits_le_scale (p : Precision) : p.fractionBits ≤ p.scale := by
  cases p <;> decide

/-- A whole number that a fraction has room for is not rounded. -/
theorem steps_nearestCode_whole (small : n < 2 ^ (p.fractionBits + 1)) :
    p.steps (p.nearestCode (n * 2 ^ p.scale) 1) = n * 2 ^ p.scale := by
  obtain ⟨code, finite, number⟩ :=
    exists_steps_eq small p.fractionBits_le_scale (by cases p <;> decide)
  rw [← number, nearestCode_steps finite]

end Precision

namespace Binary

variable {p q : Precision} {n : Int}

/-- The integers at which a detour through a double goes wrong: between two singles, just beyond the
middle on the side of the odd one, and no farther from it than half the step of a double. -/
abbrev Stranded (n : Int) : Prop :=
  IsStranded n.natAbs (2 ^ (n.natAbs.log2 - 23)) (2 ^ 29)

theorem not_stranded_of_small (small : n.natAbs < 2 ^ 53) : ¬Stranded n := by
  unfold Stranded IsStranded
  generalize exponent : n.natAbs.log2 - 23 = shift
  cases shift with
  | zero =>
      rw [Nat.pow_zero, Nat.mod_one]
      split <;> omega
  | succ shift =>
      have few : shift + 1 ≤ 29 := by
        rcases Nat.eq_zero_or_pos n.natAbs with zero | pos
        · rw [zero, Nat.log2_zero] at exponent
          omega
        · have := (Nat.log2_lt (Nat.ne_of_gt pos)).2 small
          omega
      have bound : 2 ^ (shift + 1) ≤ 2 ^ 29 := Nat.pow_le_pow_right (by decide) few
      rw [Nat.pow_succ] at bound ⊢
      split <;> omega

theorem steps_ofInt_of_small (small : n.natAbs < 2 ^ (p.fractionBits + 1)) :
    p.steps (ofInt p n).code = n.natAbs * 2 ^ p.scale :=
  Precision.steps_nearestCode_whole small

/-- The code of an integer that has more bits than a fraction. -/
theorem code_ofInt {shift : Nat} (low : 2 ^ (p.fractionBits + shift) ≤ n.natAbs)
    (high : n.natAbs ≤ 2 ^ (p.fractionBits + shift + 1)) (bounded : n.natAbs ≤ 2 ^ 64) :
    (ofInt p n).code =
      (p.scale + shift) * 2 ^ p.fractionBits + nearestQuotient n.natAbs (2 ^ shift) := by
  have finite : (ofInt p n).code < p.infinityCode := of_decide_eq_true (isFinite_ofInt p bounded)
  have cut : (ofInt p n).code = min _ p.infinityCode := Precision.nearestCode_whole low high
  omega

/-- The bounds of an integer hold of what is left of it when its last bits are rounded away. -/
theorem rounded_bounds {bits shift : Nat} (low : 2 ^ (bits + shift) ≤ n.natAbs)
    (high : n.natAbs ≤ 2 ^ (bits + shift + 1)) :
    2 ^ bits ≤ nearestQuotient n.natAbs (2 ^ shift) ∧
      nearestQuotient n.natAbs (2 ^ shift) ≤ 2 ^ (bits + 1) := by
  have pos := Nat.two_pow_pos shift
  constructor
  · apply le_nearestQuotient pos
    rwa [← Nat.pow_add]
  · apply nearestQuotient_le_of_le pos
    rwa [← Nat.pow_add, Nat.add_right_comm]

theorem steps_ofInt_of_large {shift : Nat} (low : 2 ^ (p.fractionBits + shift) ≤ n.natAbs)
    (high : n.natAbs ≤ 2 ^ (p.fractionBits + shift + 1)) (bounded : n.natAbs ≤ 2 ^ 64) :
    p.steps (ofInt p n).code =
      nearestQuotient n.natAbs (2 ^ shift) * 2 ^ shift * 2 ^ p.scale := by
  obtain ⟨lower, upper⟩ := rounded_bounds low high
  rw [code_ofInt low high bounded, Precision.steps_shifted (.inr lower) upper, Nat.mul_assoc,
    ← Nat.pow_add, Nat.add_comm shift]

/-- A number that is whole is converted as the integer it is. -/
theorem convert_of_whole {d : Nat} (finite : (ofInt p n).isFinite = true)
    (whole : p.steps (ofInt p n).code = d * 2 ^ p.scale) :
    (ofInt p n).convert q = ofQuotient q (n < 0) d 1 := by
  rw [convert_of_finite finite, whole]
  exact ofQuotient_congr (Nat.two_pow_pos _) Nat.one_pos (Nat.mul_one _)

/-- Up to 53 bits there is nothing to round at first. -/
theorem narrowed_of_small (small : n.natAbs < 2 ^ 53) :
    (ofInt .double n).convert .single = ofInt .single n := by
  have bounded : n.natAbs ≤ 2 ^ 64 := Nat.le_trans (Nat.le_of_lt small) (by decide)
  exact convert_of_whole (isFinite_ofInt .double bounded) (steps_ofInt_of_small small)

/-- With more bits the double is a whole number, and within 64 bits as the integer is. -/
theorem narrowed_of_large {shift : Nat} (low : 2 ^ (52 + shift) ≤ n.natAbs)
    (high : n.natAbs ≤ 2 ^ (52 + shift + 1)) (bounded : n.natAbs ≤ 2 ^ 64) :
    nearestQuotient n.natAbs (2 ^ shift) * 2 ^ shift ≤ 2 ^ 64 ∧
      (ofInt .double n).convert .single =
        ofQuotient .single (n < 0) (nearestQuotient n.natAbs (2 ^ shift) * 2 ^ shift) 1 := by
  have few : 52 + shift ≤ 64 :=
    (Nat.pow_le_pow_iff_right (by decide)).1 (Nat.le_trans low bounded)
  have whole : 2 ^ 64 = 2 ^ (64 - shift) * 2 ^ shift := by
    rw [← Nat.pow_add, Nat.sub_add_cancel (by omega)]
  constructor
  · rw [whole] at bounded ⊢
    exact Nat.mul_le_mul_right _ (nearestQuotient_le_of_le (Nat.two_pow_pos shift) bounded)
  · exact convert_of_whole (isFinite_ofInt .double bounded) (steps_ofInt_of_large low high bounded)

/-- The code of a single for an integer that has more bits than the fraction of a double. -/
theorem code_ofInt_single {shift : Nat} (low : 2 ^ (52 + shift) ≤ n.natAbs)
    (high : n.natAbs ≤ 2 ^ (52 + shift + 1)) (bounded : n.natAbs ≤ 2 ^ 64) :
    (ofInt .single n).code =
      (178 + shift) * 2 ^ 23 + nearestQuotient n.natAbs (2 ^ shift * 2 ^ 29) := by
  have bits : Precision.single.fractionBits + (29 + shift) = 52 + shift := by
    rw [← Nat.add_assoc]
    rfl
  have scale : Precision.single.scale + (29 + shift) = 178 + shift := by
    rw [← Nat.add_assoc]
    rfl
  have lower : 2 ^ (Precision.single.fractionBits + (29 + shift)) ≤ n.natAbs := by rwa [bits]
  have upper : n.natAbs ≤ 2 ^ (Precision.single.fractionBits + (29 + shift) + 1) := by rwa [bits]
  have code := code_ofInt lower upper bounded
  rwa [scale, Nat.add_comm 29, Nat.pow_add] at code

/-- On the detour the code of such an integer comes from rounding twice. -/
theorem code_narrowed {shift : Nat} (low : 2 ^ (52 + shift) ≤ n.natAbs)
    (high : n.natAbs ≤ 2 ^ (52 + shift + 1)) (bounded : n.natAbs ≤ 2 ^ 64) :
    ((ofInt .double n).convert .single).code =
      (178 + shift) * 2 ^ 23 + nearestQuotient (nearestQuotient n.natAbs (2 ^ shift)) (2 ^ 29) := by
  obtain ⟨lower, upper⟩ := rounded_bounds low high
  obtain ⟨within, narrowed⟩ := narrowed_of_large low high bounded
  rw [narrowed]
  rw [Nat.mul_comm] at within ⊢
  generalize nearestQuotient n.natAbs (2 ^ shift) = once at lower upper within ⊢
  have low' : 2 ^ (52 + shift) ≤ 2 ^ shift * once := by
    rw [Nat.add_comm, Nat.pow_add]
    exact Nat.mul_le_mul_left _ lower
  have high' : 2 ^ shift * once ≤ 2 ^ (52 + shift + 1) := by
    rw [Nat.add_right_comm, Nat.add_comm, Nat.pow_add]
    exact Nat.mul_le_mul_left _ upper
  -- the double is a whole number of the same range
  have again : (ofInt .single ((2 ^ shift * once : Nat) : Int)).code = _ :=
    code_ofInt_single low' high' within
  rwa [Int.natAbs_natCast, nearestQuotient_mul (Nat.two_pow_pos shift)] at again

/-- The detour keeps the sign. -/
theorem negative_narrowed (bounded : n.natAbs ≤ 2 ^ 64) :
    ((ofInt .double n).convert .single).negative = (ofInt .single n).negative := by
  rw [convert_of_finite (isFinite_ofInt .double bounded)]
  rfl

/-- An integer of more than 53 bits, its last bits in units of a double's step. -/
theorem exists_shift (large : 2 ^ 53 ≤ n.natAbs) :
    ∃ shift, 2 ^ (52 + shift) ≤ n.natAbs ∧ n.natAbs < 2 ^ (52 + shift + 1) ∧
      2 ^ (n.natAbs.log2 - 23) = 2 ^ shift * 2 ^ 29 := by
  have nonzero : n.natAbs ≠ 0 := by omega
  have leading : 53 ≤ n.natAbs.log2 := (Nat.le_log2 nonzero).2 large
  refine ⟨n.natAbs.log2 - 52, ?_, ?_, ?_⟩
  · rw [Nat.add_sub_cancel' (by omega)]
    exact Nat.log2_self_le nonzero
  · rw [Nat.add_sub_cancel' (by omega)]
    exact Nat.lt_log2_self
  · rw [← Nat.pow_add]
    congr 1
    omega

theorem isFinite_narrowed (bounded : n.natAbs ≤ 2 ^ 64) :
    ((ofInt .double n).convert .single).isFinite = true := by
  by_cases small : n.natAbs < 2 ^ 53
  · rw [narrowed_of_small small]
    exact isFinite_ofInt .single bounded
  · obtain ⟨shift, low, high, -⟩ := exists_shift (Nat.not_lt.1 small)
    obtain ⟨within, narrowed⟩ := narrowed_of_large low (Nat.le_of_lt high) bounded
    rw [narrowed]
    exact isFinite_ofInt .single (n := (_ : Nat)) within

/-- The detour ends at the nearest single except for a stranded integer. There it ends at the even
one of two neighbours, and the other is the nearest. -/
theorem narrowed_cases (bounded : n.natAbs ≤ 2 ^ 64) :
    ¬Stranded n ∧ (ofInt .double n).convert .single = ofInt .single n ∨
      Stranded n ∧ ((ofInt .double n).convert .single).code % 2 = 0 ∧
        ((ofInt .single n).code = ((ofInt .double n).convert .single).code + 1 ∨
          (ofInt .single n).code + 1 = ((ofInt .double n).convert .single).code) := by
  by_cases small : n.natAbs < 2 ^ 53
  · exact .inl ⟨not_stranded_of_small small, narrowed_of_small small⟩
  · obtain ⟨shift, low, high, unit⟩ := exists_shift (Nat.not_lt.1 small)
    have pos := Nat.two_pow_pos shift
    have sign := negative_narrowed bounded
    have direct := code_ofInt_single low (Nat.le_of_lt high) bounded
    have detour := code_narrowed low (Nat.le_of_lt high) bounded
    obtain ⟨half, even, several, fine⟩ : ∃ half, half % 2 = 0 ∧ 0 < half ∧ 2 ^ 29 = 2 * half :=
      ⟨2 ^ 28, by decide, by decide, by decide⟩
    unfold Stranded
    rw [unit]
    rw [fine] at direct detour ⊢
    obtain right | ⟨evenTwice, sides⟩ := nearestQuotient_twice pos several n.natAbs
    · refine .inl ⟨fun stranded => ?_, ?_⟩
      · exact nearestQuotient_twice_of_stranded pos even several stranded right
      · exact ext_code sign (by rw [direct, detour, right])
    · refine .inr ⟨isStranded_of_ne pos several (by omega), ?_⟩
      rw [direct, detour]
      omega

end Binary

end DebugArrays
