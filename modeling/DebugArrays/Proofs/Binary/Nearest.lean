import DebugArrays.Proofs.Binary.Round
import Mathlib.Order.Monotone.Basic

/-!
What rounding means. A rounded quotient is the nearest whole number, a rounded integer the nearest
binary number, and of two that are equally near the even one is taken.
-/
namespace DebugArrays

section Quotient

variable {num den n m : Nat}

/-- `n` is nearest to `num / den`, and even if its neighbour is as near. -/
structure IsNearestQuotient (num den n : Nat) : Prop where
  above : 2 * (n * den) ≤ 2 * num + den
  below : 2 * num ≤ 2 * (n * den) + den
  even : 2 * (n * den) = 2 * num + den ∨ 2 * num = 2 * (n * den) + den → n % 2 = 0

theorem isNearestQuotient_nearestQuotient (pos : 0 < den) (num : Nat) :
    IsNearestQuotient num den (nearestQuotient num den) := by
  have parts : num / den * den + num % den = num := Nat.div_add_mod' num den
  have less := Nat.mod_lt num pos
  unfold nearestQuotient
  dsimp only
  generalize num / den = low at parts ⊢
  generalize num % den = rest at parts less ⊢
  have next : (low + 1) * den = low * den + den := Nat.succ_mul low den
  split
  · exact ⟨by omega, by omega, by omega⟩
  · split
    · exact ⟨by omega, by omega, by omega⟩
    · rcases Nat.mod_two_eq_zero_or_one low with even | odd
      · rw [even, Nat.add_zero]
        exact ⟨by omega, by omega, fun _ => even⟩
      · rw [odd]
        exact ⟨by omega, by omega, by omega⟩

theorem IsNearestQuotient.le (pos : 0 < den) (first : IsNearestQuotient num den n)
    (second : IsNearestQuotient num den m) : n ≤ m := by
  by_contra more
  obtain ⟨gap, rfl⟩ := Nat.exists_eq_add_of_lt (Nat.lt_of_not_le more)
  have spread : (m + gap + 1) * den = m * den + gap * den + den := by ring
  have above := first.above
  have below := second.below
  have one : gap = 0 := by
    by_contra some
    have := Nat.le_mul_of_pos_left den (Nat.pos_of_ne_zero some)
    omega
  subst one
  have evenFirst := first.even (.inl (by omega))
  have evenSecond := second.even (.inr (by omega))
  omega

/-- One of the two whole numbers around the quotient is nearest. -/
theorem IsNearestQuotient.around {low rest : Nat}
    (nearest : IsNearestQuotient (low * den + rest) den n) (less : rest < den) :
    n = low ∧ 2 * rest ≤ den ∨ n = low + 1 ∧ den ≤ 2 * rest := by
  have above := nearest.above
  have below := nearest.below
  obtain lower | rfl | rfl | higher : n < low ∨ n = low ∨ n = low + 1 ∨ low + 1 < n := by omega
  · have : (n + 1) * den ≤ low * den := Nat.mul_le_mul_right den lower
    rw [Nat.succ_mul n] at this
    omega
  · exact .inl ⟨rfl, by omega⟩
  · rw [Nat.succ_mul low] at above below
    exact .inr ⟨rfl, by omega⟩
  · have : (low + 1 + 1) * den ≤ n * den := Nat.mul_le_mul_right den higher
    rw [Nat.succ_mul (low + 1), Nat.succ_mul low] at this
    omega

theorem nearestQuotient_eq_iff (pos : 0 < den) :
    nearestQuotient num den = n ↔ IsNearestQuotient num den n := by
  have nearest := isNearestQuotient_nearestQuotient pos num
  constructor
  · rintro rfl
    exact nearest
  · intro other
    exact Nat.le_antisymm (nearest.le pos other) (other.le pos nearest)

end Quotient

namespace Precision

variable {p : Precision} {num den code n shift : Nat}

/-- A cut number as the number of a code: below the leading bit only where nothing is cut off, and
up to the carry into the next exponent. -/
theorem steps_shifted {shift r : Nat} (lead : shift = 0 ∨ 2 ^ p.fractionBits ≤ r)
    (top : r ≤ 2 ^ (p.fractionBits + 1)) :
    p.steps (shift * 2 ^ p.fractionBits + r) = r * 2 ^ shift := by
  have pos := Nat.two_pow_pos p.fractionBits
  rw [Nat.pow_succ] at top
  unfold steps
  simp only [Nat.pow_eq]
  by_cases small : r < 2 ^ p.fractionBits
  · obtain rfl : shift = 0 := lead.resolve_right (Nat.not_le.2 small)
    simp [Nat.div_eq_of_lt small, Nat.mod_eq_of_lt small]
  · obtain ⟨rest, rfl⟩ := Nat.exists_eq_add_of_le (Nat.not_lt.1 small)
    by_cases carried : rest = 2 ^ p.fractionBits
    · subst carried
      have whole : shift * 2 ^ p.fractionBits + (2 ^ p.fractionBits + 2 ^ p.fractionBits) =
          (shift + 2) * 2 ^ p.fractionBits := by ring
      rw [whole, Nat.mul_div_cancel _ pos, Nat.mul_mod_left, if_neg (by omega), Nat.add_zero]
      rw [Nat.add_sub_assoc (by decide), Nat.pow_succ]
      ring
    · have fraction : rest < 2 ^ p.fractionBits := by omega
      have split : shift * 2 ^ p.fractionBits + (2 ^ p.fractionBits + rest) =
          rest + 2 ^ p.fractionBits * (shift + 1) := by ring
      rw [split, Nat.add_mul_div_left _ _ pos, Nat.add_mul_mod_self_left,
        Nat.div_eq_of_lt fraction, Nat.mod_eq_of_lt fraction, Nat.zero_add,
        if_neg (Nat.succ_ne_zero shift), Nat.add_sub_cancel]

/-- A number that a fraction has room for, up to a power of two, is that of a code. -/
theorem exists_steps_eq (small : n < 2 ^ (p.fractionBits + 1)) (room : p.fractionBits ≤ shift)
    (bounded : shift + 2 < 2 ^ p.exponentBits - 1) :
    ∃ code, code < p.infinityCode ∧ p.steps code = n * 2 ^ shift := by
  rcases Nat.eq_zero_or_pos n with rfl | pos
  · refine ⟨0, by cases p <;> decide, ?_⟩
    rw [Nat.zero_mul]
    cases p <;> rfl
  · have nonzero := Nat.ne_of_gt pos
    have short := Nat.lt_succ_iff.1 ((Nat.log2_lt nonzero).2 small)
    have below : 2 ^ n.log2 ≤ n := Nat.log2_self_le nonzero
    have above : n < 2 ^ (n.log2 + 1) := Nat.lt_log2_self
    obtain ⟨zeros, zeros_eq⟩ := Nat.exists_eq_add_of_le short
    obtain ⟨rest, rest_eq⟩ := Nat.exists_eq_add_of_le (show zeros ≤ shift by omega)
    -- the leading bit is moved to its place
    have lead : 2 ^ p.fractionBits ≤ n * 2 ^ zeros := by
      rw [zeros_eq, Nat.pow_add]
      exact Nat.mul_le_mul_right _ below
    have top : n * 2 ^ zeros < 2 ^ (p.fractionBits + 1) := by
      rw [zeros_eq, Nat.add_right_comm, Nat.pow_add]
      exact Nat.mul_lt_mul_of_pos_right above (Nat.two_pow_pos _)
    have few : rest + 2 ≤ Nat.pow 2 p.exponentBits - 1 := by
      rw [Nat.pow_eq]
      omega
    refine ⟨rest * 2 ^ p.fractionBits + n * 2 ^ zeros, ?_, ?_⟩
    · calc rest * 2 ^ p.fractionBits + n * 2 ^ zeros
          < rest * 2 ^ p.fractionBits + 2 ^ (p.fractionBits + 1) := Nat.add_lt_add_left top _
        _ = (rest + 2) * 2 ^ p.fractionBits := by ring
        _ ≤ p.infinityCode := Nat.mul_le_mul_right _ few
    · rw [steps_shifted (.inr lead) (Nat.le_of_lt top), Nat.mul_assoc, ← Nat.pow_add, ← rest_eq]

/-- The number of a code is one that a fraction has room for, up to a power of two. -/
theorem exists_eq_steps (finite : code < p.infinityCode) :
    ∃ n shift, p.steps code = n * 2 ^ shift ∧ n < 2 ^ (p.fractionBits + 1) ∧
      shift + 2 < 2 ^ p.exponentBits := by
  have small : code % 2 ^ p.fractionBits < 2 ^ p.fractionBits := Nat.mod_lt _ (Nat.two_pow_pos _)
  have exponent : code / 2 ^ p.fractionBits < 2 ^ p.exponentBits - 1 :=
    Nat.div_lt_of_lt_mul (by rwa [Nat.mul_comm])
  have doubled : 2 ^ (p.fractionBits + 1) = 2 ^ p.fractionBits + 2 ^ p.fractionBits := by
    rw [Nat.pow_succ, Nat.mul_two]
  have several : 2 < 2 ^ p.exponentBits := by cases p <;> decide
  unfold steps
  simp only [Nat.pow_eq]
  split
  · exact ⟨_, 0, (Nat.mul_one _).symm, by omega, by omega⟩
  · exact ⟨_, _, rfl, by omega, by omega⟩

/-- Codes grow with their numbers. -/
theorem strictMono_steps (p : Precision) : StrictMono p.steps := by
  apply strictMono_nat_of_lt_succ
  intro code
  have parts : 2 ^ p.fractionBits * (code / 2 ^ p.fractionBits) + code % 2 ^ p.fractionBits =
      code := Nat.div_add_mod _ _
  have fraction : code % 2 ^ p.fractionBits < 2 ^ p.fractionBits :=
    Nat.mod_lt _ (Nat.two_pow_pos _)
  have doubled : 2 ^ (p.fractionBits + 1) = 2 ^ p.fractionBits + 2 ^ p.fractionBits := by
    rw [Nat.pow_succ, Nat.mul_two]
  generalize code / 2 ^ p.fractionBits = exponent at parts
  generalize code % 2 ^ p.fractionBits = low at parts fraction
  cases exponent with
  | zero =>
      have here : p.steps (0 * 2 ^ p.fractionBits + low) = low * 2 ^ 0 :=
        steps_shifted (.inl rfl) (by omega)
      have next : p.steps (0 * 2 ^ p.fractionBits + (low + 1)) = (low + 1) * 2 ^ 0 :=
        steps_shifted (.inl rfl) (by omega)
      have same : code = 0 * 2 ^ p.fractionBits + low := by rw [← parts]; ring
      rw [same, here, Nat.add_assoc, next]
      exact Nat.mul_lt_mul_of_pos_right (Nat.lt_succ_self low) (Nat.two_pow_pos 0)
  | succ shift =>
      have here : p.steps (shift * 2 ^ p.fractionBits + (2 ^ p.fractionBits + low)) =
          (2 ^ p.fractionBits + low) * 2 ^ shift :=
        steps_shifted (.inr (Nat.le_add_right _ _)) (by omega)
      have next : p.steps (shift * 2 ^ p.fractionBits + (2 ^ p.fractionBits + low + 1)) =
          (2 ^ p.fractionBits + low + 1) * 2 ^ shift :=
        steps_shifted (.inr (by omega)) (by omega)
      have same : code = shift * 2 ^ p.fractionBits + (2 ^ p.fractionBits + low) := by
        rw [← parts]
        ring
      rw [same, here, Nat.add_assoc (shift * _), next]
      exact Nat.mul_lt_mul_of_pos_right (Nat.lt_succ_self _) (Nat.two_pow_pos shift)

/-- How far the number of a code is from `num / den` smallest positive numbers, `den` times over. -/
def distance (p : Precision) (num den code : Nat) : Nat :=
  ((p.steps code * den : Nat) - num : Int).natAbs

/-- No number is nearer to `num / den` smallest positive numbers than that of `code`, and another is
as near only if `code` is even. -/
structure IsNearestCode (p : Precision) (num den code : Nat) : Prop where
  nearest : ∀ other, p.distance num den code ≤ p.distance num den other
  even : ∀ other, other ≠ code → p.distance num den code = p.distance num den other →
    code % 2 = 0

/-- Of two neighbours around a quotient the nearer one is the nearest of all. -/
theorem isNearestCode_of_between {low : Nat} (pos : 0 < den) (below : p.steps low * den ≤ num)
    (above : num ≤ p.steps (low + 1) * den)
    (nearer : code = low ∧ 2 * num ≤ p.steps low * den + p.steps (low + 1) * den ∨
      code = low + 1 ∧ p.steps low * den + p.steps (low + 1) * den ≤ 2 * num)
    (even : 2 * num = p.steps low * den + p.steps (low + 1) * den → code % 2 = 0) :
    p.IsNearestCode num den code := by
  have lower : ∀ other, other < low → p.steps other * den < p.steps low * den :=
    fun other less => Nat.mul_lt_mul_of_pos_right (p.strictMono_steps less) pos
  have higher : ∀ other, low + 1 < other → p.steps (low + 1) * den < p.steps other * den :=
    fun other more => Nat.mul_lt_mul_of_pos_right (p.strictMono_steps more) pos
  have compared : ∀ other, p.distance num den code ≤ p.distance num den other ∧
      (other ≠ code → p.distance num den code = p.distance num den other →
        2 * num = p.steps low * den + p.steps (low + 1) * den) := by
    intro other
    unfold distance
    obtain less | rfl | rfl | more :
        other < low ∨ other = low ∨ other = low + 1 ∨ low + 1 < other := by omega
    · have := lower other less
      rcases nearer with ⟨rfl, near⟩ | ⟨rfl, near⟩ <;> omega
    · rcases nearer with ⟨rfl, near⟩ | ⟨rfl, near⟩ <;> omega
    · rcases nearer with ⟨rfl, near⟩ | ⟨rfl, near⟩ <;> omega
    · have := higher other more
      rcases nearer with ⟨rfl, near⟩ | ⟨rfl, near⟩ <;> omega
  exact ⟨fun other => (compared other).1, fun other apart same =>
    even ((compared other).2 apart same)⟩

/-- What is left of a whole quotient when it is cut to one bit more than a fraction holds. -/
theorem cut_bounds (p : Precision) (q : Nat) :
    (q.log2 - p.fractionBits = 0 ∨
        2 ^ p.fractionBits ≤ q / 2 ^ (q.log2 - p.fractionBits)) ∧
      q / 2 ^ (q.log2 - p.fractionBits) < 2 ^ (p.fractionBits + 1) := by
  have above : q < 2 ^ (q.log2 + 1) := Nat.lt_log2_self
  by_cases short : q.log2 ≤ p.fractionBits
  · rw [Nat.sub_eq_zero_of_le short, Nat.pow_zero, Nat.div_one]
    exact ⟨.inl rfl, Nat.lt_of_lt_of_le above (Nat.pow_le_pow_right (by decide) (by omega))⟩
  · have nonzero : q ≠ 0 := by
      rintro rfl
      exact short (by simp)
    have below : 2 ^ q.log2 ≤ q := Nat.log2_self_le nonzero
    have whole : p.fractionBits + (q.log2 - p.fractionBits) = q.log2 := by omega
    constructor
    · refine .inr ((Nat.le_div_iff_mul_le (Nat.two_pow_pos _)).2 ?_)
      rwa [← Nat.pow_add, whole]
    · rw [Nat.div_lt_iff_lt_mul (Nat.two_pow_pos _), ← Nat.pow_add, Nat.add_right_comm, whole]
      exact above

theorem even_shifted (p : Precision) (shift r : Nat) :
    (shift * 2 ^ p.fractionBits + r) % 2 = r % 2 := by
  have two : 2 ^ p.fractionBits = 2 * 2 ^ (p.fractionBits - 1) := by cases p <;> rfl
  rw [two, Nat.mul_left_comm, Nat.mul_add_mod]

/-- A quotient below the overflow is rounded to the nearest number. -/
theorem isNearestCode_nearestCode (pos : 0 < den)
    (finite : p.nearestCode num den < p.infinityCode) :
    p.IsNearestCode num den (p.nearestCode num den) := by
  obtain ⟨lead, top⟩ := p.cut_bounds (num / den)
  unfold nearestCode at finite ⊢
  simp only [Nat.pow_eq] at finite ⊢
  generalize (num / den).log2 - p.fractionBits = shift at finite lead top ⊢
  rw [Nat.div_div_eq_div_mul] at lead top
  have unit : 0 < den * 2 ^ shift := Nat.mul_pos pos (Nat.two_pow_pos shift)
  have rounded := isNearestQuotient_nearestQuotient unit num
  have uncapped : ∀ code, min code p.infinityCode < p.infinityCode →
      min code p.infinityCode = code := fun code less => by omega
  rw [uncapped _ finite]
  have parts : num / (den * 2 ^ shift) * (den * 2 ^ shift) + num % (den * 2 ^ shift) = num :=
    Nat.div_add_mod' _ _
  have less := Nat.mod_lt num unit
  generalize num / (den * 2 ^ shift) = low at lead top parts
  generalize num % (den * 2 ^ shift) = rest at parts less
  generalize nearestQuotient num (den * 2 ^ shift) = n at rounded
  have here : p.steps (shift * 2 ^ p.fractionBits + low) * den = low * (den * 2 ^ shift) := by
    rw [steps_shifted lead (by omega)]
    ring
  have next : p.steps (shift * 2 ^ p.fractionBits + low + 1) * den =
      low * (den * 2 ^ shift) + den * 2 ^ shift := by
    have lead' : shift = 0 ∨ 2 ^ p.fractionBits ≤ low + 1 := lead.imp_right Nat.le_succ_of_le
    rw [Nat.add_assoc, steps_shifted lead' (by omega)]
    ring
  rw [← parts] at rounded
  have sides := rounded.around less
  have below : p.steps (shift * 2 ^ p.fractionBits + low) * den ≤ num := by
    rw [here]
    omega
  refine isNearestCode_of_between pos below ?_ ?_ ?_
  · rw [next]
    omega
  · rw [here, next]
    omega
  · rw [here, next, even_shifted]
    intro middle
    apply rounded.even
    rcases sides with ⟨rfl, -⟩ | ⟨rfl, -⟩
    · omega
    · rw [Nat.succ_mul low]
      omega

end Precision

namespace Binary

variable {p : Precision} {x y : Binary p} {n : Int}

/-- A finite number, counted in smallest positive numbers. -/
def toSteps (x : Binary p) : Int :=
  if x.negative then -(p.steps x.code) else p.steps x.code

/-- How far a finite number is from an integer, counted in smallest positive numbers. -/
def distance (x : Binary p) (n : Int) : Nat :=
  (x.toSteps - n * 2 ^ p.scale).natAbs

/-- `x` is `n`, correctly rounded: no finite number is nearer to `n`, and another is as near only if
the last bit of `x` is zero. -/
structure Nearest (x : Binary p) (n : Int) : Prop where
  finite : x.isFinite = true
  nearest : ∀ y : Binary p, y.isFinite = true → x.distance n ≤ y.distance n
  even : ∀ y : Binary p, y.isFinite = true → y.toSteps ≠ x.toSteps → x.distance n = y.distance n →
    x.code % 2 = 0

theorem mul_two_pow_of_sign (n : Int) (k : Nat) :
    n * 2 ^ k =
      if n < 0 then -((n.natAbs * 2 ^ k : Nat) : Int) else ((n.natAbs * 2 ^ k : Nat) : Int) := by
  push_cast
  split
  · next below => rw [abs_of_neg below, neg_mul, neg_neg]
  · next above => rw [abs_of_nonneg (not_lt.1 above)]

theorem distance_of_sign (sign : x.negative = decide (n < 0)) :
    x.distance n = p.distance (n.natAbs * 2 ^ p.scale) 1 x.code := by
  have scaled := mul_two_pow_of_sign n p.scale
  unfold distance toSteps Precision.distance
  rw [Nat.mul_one, sign]
  by_cases below : n < 0
  · simp only [below, decide_true, if_true] at scaled ⊢
    omega
  · simp only [below, decide_false, Bool.false_eq_true, if_false] at scaled ⊢
    omega

/-- A number of the other sign lies beyond zero. -/
theorem distance_of_other_sign (sign : x.negative ≠ decide (n < 0)) :
    x.distance n = p.steps x.code + n.natAbs * 2 ^ p.scale := by
  have scaled := mul_two_pow_of_sign n p.scale
  unfold distance toSteps
  rw [Bool.eq_not_of_ne sign]
  by_cases below : n < 0
  · simp only [below, decide_true, Bool.not_true, Bool.false_eq_true, if_true, if_false] at scaled ⊢
    omega
  · simp only [below, decide_false, Bool.not_false, if_true, if_false] at scaled ⊢
    omega

theorem toSteps_eq_zero (none : p.steps x.code = 0) : x.toSteps = 0 := by
  unfold toSteps
  rw [none]
  split <;> rfl

/-- An integer is converted by rounding it correctly. -/
theorem nearest_ofInt (finite : (ofInt p n).isFinite = true) : (ofInt p n).Nearest n := by
  have near : p.IsNearestCode (n.natAbs * 2 ^ p.scale) 1 (ofInt p n).code :=
    Precision.isNearestCode_nearestCode Nat.one_pos (of_decide_eq_true finite)
  have own : (ofInt p n).distance n =
      p.distance (n.natAbs * 2 ^ p.scale) 1 (ofInt p n).code := distance_of_sign rfl
  have nothing : p.steps 0 = 0 := by cases p <;> rfl
  have zero : p.distance (n.natAbs * 2 ^ p.scale) 1 0 = n.natAbs * 2 ^ p.scale := by
    unfold Precision.distance
    rw [nothing]
    omega
  have toZero := near.nearest 0
  rw [zero] at toZero
  refine ⟨finite, ?_, ?_⟩
  · intro y _
    by_cases sign : y.negative = decide (n < 0)
    · rw [own, distance_of_sign sign]
      exact near.nearest y.code
    · rw [own, distance_of_other_sign sign]
      exact Nat.le_add_left_of_le toZero
  · intro y _ apart same
    by_cases sign : y.negative = decide (n < 0)
    · rw [own, distance_of_sign sign] at same
      refine near.even y.code ?_ same
      intro code
      apply apart
      unfold toSteps
      rw [sign, code]
      rfl
    · -- as near as what lies beyond zero is zero itself
      rw [own, distance_of_other_sign sign] at same
      have none : p.steps y.code = 0 := by omega
      refine near.even 0 ?_ (by rw [zero, same, none, Nat.zero_add])
      intro code
      apply apart
      rw [toSteps_eq_zero none, toSteps_eq_zero (by rw [← code]; exact nothing)]

end Binary

end DebugArrays
