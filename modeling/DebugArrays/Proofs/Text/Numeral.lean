import DebugArrays.Text.Numeral
import Mathlib.Algebra.Ring.Nat

/-!
The decimal text of a natural number, and runs of digits as numbers. Decimal, signed and hexadecimal
texts determine what they are written for.
-/
namespace DebugArrays.Text

variable {n : Nat} {c : Char} {cs ds : List Char}

@[simp] theorem natural_ne_nil (n : Nat) : natural n ≠ [] :=
  Nat.toDigits_ne_nil

theorem isDigit_of_mem_natural (member : c ∈ natural n) : c.isDigit = true :=
  Nat.isDigit_of_mem_toDigits (by decide) (by decide) member

theorem isDigit_of_mem_head?_natural (first : c ∈ (natural n).head?) : c.isDigit = true :=
  isDigit_of_mem_natural (List.mem_of_mem_head? first)

theorem isDigit_of_mem_zeros {k : Nat} {c : Char} (member : c ∈ List.replicate k '0') :
    c.isDigit = true := by
  rw [List.eq_of_mem_replicate member]
  rfl

theorem natural_injective {m n : Nat} (same : natural m = natural n) : m = n := by
  rw [← ofDigits_natural m, same, ofDigits_natural]

theorem natural_of_lt (small : n < 10) : natural n = [n.digitChar] :=
  Nat.toDigits_of_lt_base small

theorem natural_of_le (large : 10 ≤ n) : natural n = natural (n / 10) ++ [(n % 10).digitChar] :=
  Nat.toDigits_of_base_le (by decide) large

/-- Only zero is written with a zero in front. -/
theorem exists_natural_of_pos (pos : 0 < n) :
    ∃ first rest, natural n = first :: rest ∧ first ≠ '0' := by
  -- on the number without its last digit
  induction n using Nat.strongRecOn with
  | ind n ih =>
      by_cases small : n < 10
      · refine ⟨n.digitChar, [], natural_of_lt small, ?_⟩
        have cases : ∀ k < 10, 0 < k → k.digitChar ≠ '0' := by decide
        exact cases n small pos
      · obtain ⟨first, rest, front, nonzero⟩ := ih (n / 10) (by omega) (by omega)
        refine ⟨first, rest ++ [(n % 10).digitChar], ?_, nonzero⟩
        rw [natural_of_le (by omega), front]
        rfl

theorem natural_zero : natural 0 = ['0'] :=
  natural_of_lt (by decide)

theorem ofDigits_append (cs ds : List Char) :
    ofDigits (cs ++ ds) = ofDigits cs * 10 ^ ds.length + ofDigits ds := by
  rw [ofDigits, Nat.ofDigitChars_append, Nat.ofDigitChars_eq_ofDigitChars_zero, Nat.mul_comm]
  rfl

@[simp] theorem ofDigits_replicate_zero (k : Nat) : ofDigits (List.replicate k '0') = 0 := by
  rw [ofDigits, Nat.ofDigitChars_replicate_zero, Nat.mul_zero]

/-- Zeros in front change nothing. -/
theorem ofDigits_replicate_append (k : Nat) (ds : List Char) :
    ofDigits (List.replicate k '0' ++ ds) = ofDigits ds := by
  rw [ofDigits_append, ofDigits_replicate_zero, Nat.zero_mul, Nat.zero_add]

/-- Zeros at the end are a power of ten. -/
theorem ofDigits_append_replicate (cs : List Char) (k : Nat) :
    ofDigits (cs ++ List.replicate k '0') = ofDigits cs * 10 ^ k := by
  rw [ofDigits_append, ofDigits_replicate_zero, List.length_replicate, Nat.add_zero]

/-- The length of a number's text bounds it from above and from below. -/
theorem lt_pow_length_natural (n : Nat) : n < 10 ^ (natural n).length :=
  (Nat.length_toDigits_le_iff (by decide) Nat.length_toDigits_pos).1 (Nat.le_refl _)

theorem pow_length_natural_le (pos : 0 < n) : 10 ^ ((natural n).length - 1) ≤ n := by
  have written : 0 < (natural n).length := Nat.length_toDigits_pos
  rcases Nat.lt_or_ge 1 (natural n).length with several | one
  · apply Nat.le_of_not_lt
    intro less
    have shorter : (natural n).length ≤ (natural n).length - 1 :=
      (Nat.length_toDigits_le_iff (by decide) (by omega)).2 less
    omega
  · rwa [show (natural n).length - 1 = 0 by omega, Nat.pow_zero]

theorem hexDigit?_digitChar {d : Nat} (small : d < 16) : hexDigit? d.digitChar = some d := by
  have all : ∀ d < 16, hexDigit? d.digitChar = some d := by decide
  exact all d small

theorem hexadecimal_of_lt (small : n < 16) : hexadecimal n = [n.digitChar] :=
  Nat.toDigits_of_lt_base small

theorem hexadecimal_of_le (large : 16 ≤ n) :
    hexadecimal n = hexadecimal (n / 16) ++ [(n % 16).digitChar] :=
  Nat.toDigits_of_base_le (by decide) large

/-- The hexadecimal text of a number reads back. -/
theorem ofHexadecimal?_hexadecimal (n : Nat) : ofHexadecimal? (hexadecimal n) = some n := by
  have written : (hexadecimal n).isEmpty = false :=
    List.isEmpty_eq_false_iff.2 Nat.toDigits_ne_nil
  unfold ofHexadecimal?
  rw [written, if_neg Bool.false_ne_true]
  -- on the number without its last digit
  clear written
  induction n using Nat.strongRecOn with
  | ind n ih =>
      by_cases small : n < 16
      · simp [hexadecimal_of_lt small, hexDigit?_digitChar small]
      · have last : n % 16 < 16 := Nat.mod_lt n (by decide)
        rw [hexadecimal_of_le (Nat.le_of_not_lt small), List.foldlM_append,
          ih (n / 16) (by omega)]
        simp [hexDigit?_digitChar last, Nat.div_add_mod]

theorem hexadecimal_injective {m n : Nat} (same : hexadecimal m = hexadecimal n) : m = n := by
  rw [← Option.some.injEq, ← ofHexadecimal?_hexadecimal m, same, ofHexadecimal?_hexadecimal]

/-- A text with a minus in front of it, or without. -/
def signed (negative : Bool) (cs : List Char) : List Char :=
  if negative then '-' :: cs else cs

theorem mem_head?_signed {minus : Bool} (first : c ∈ (signed minus cs).head?) :
    c = '-' ∨ c ∈ cs.head? := by
  cases minus with
  | true => exact .inl (Option.some.inj first).symm
  | false => exact .inr first

/-- The sign can be told from what stands behind it. -/
theorem signed_inj {minus other : Bool} (unsigned : ∀ c ∈ cs.head?, c ≠ '-')
    (unmarked : ∀ c ∈ ds.head?, c ≠ '-') (same : signed minus cs = signed other ds) :
    minus = other ∧ cs = ds := by
  cases minus with
  | true =>
      cases other with
      | true => exact ⟨rfl, (List.cons.inj same).2⟩
      | false =>
          have behind : ds = '-' :: cs := same.symm
          rw [behind] at unmarked
          exact absurd rfl (unmarked '-' rfl)
  | false =>
      cases other with
      | true =>
          have behind : cs = '-' :: ds := same
          rw [behind] at unsigned
          exact absurd rfl (unsigned '-' rfl)
      | false => exact ⟨rfl, same⟩

theorem integer_eq_signed (n : Int) : integer n = signed (n < 0) (natural n.natAbs) := by
  unfold integer signed
  simp only [decide_eq_true_eq]

theorem integer_injective {m n : Int} (same : integer m = integer n) : m = n := by
  have unsigned : ∀ n, ∀ c ∈ (natural n).head?, c ≠ '-' := by
    rintro n c first rfl
    exact absurd (isDigit_of_mem_head?_natural first) (by decide)
  rw [integer_eq_signed, integer_eq_signed] at same
  obtain ⟨sign, magnitude⟩ := signed_inj (unsigned _) (unsigned _) same
  have size := natural_injective magnitude
  rw [decide_eq_decide] at sign
  omega

end DebugArrays.Text
