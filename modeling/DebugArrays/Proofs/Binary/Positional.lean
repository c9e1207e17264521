import DebugArrays.Proofs.Binary.Text

/-!
Positional texts, taken apart at the point. The digits on both sides of it and the number of those
behind it say which decimal was written, up to zeros, so which binary number.
-/
namespace DebugArrays.Decimal

variable {d : Decimal} {digits mark : List Char} {lead : Int} {c : Char}

/-- The digits of a positional text in front of the point. -/
def wholePart (digits : List Char) (lead : Int) : List Char :=
  if lead < 0 then ['0']
  else digits.take (lead.toNat + 1) ++ List.replicate (lead.toNat + 1 - digits.length) '0'

/-- The digits of a positional text behind the point. -/
def fractionPart (digits : List Char) (lead : Int) : List Char :=
  if lead < 0 then List.replicate (-lead - 1).toNat '0' ++ digits else digits.drop (lead.toNat + 1)

theorem positionalText_eq (written : lead < 0 → digits ≠ []) :
    positionalText mark digits lead = wholePart digits lead ++
      (if fractionPart digits lead = [] then mark else '.' :: fractionPart digits lead) := by
  unfold positionalText wholePart fractionPart
  split
  · next small =>
    rw [if_neg (List.append_ne_nil_of_right_ne_nil _ (written small))]
    rfl
  · dsimp only
    cases digits.drop (lead.toNat + 1) with
    | nil => rfl
    | cons first others => rfl

/-- Both parts together are the digits, with zeros that the place of the point makes up for. -/
theorem exists_ofDigits_parts (digits : List Char) (lead : Int) :
    ∃ zeros : Nat, Text.ofDigits (wholePart digits lead ++ fractionPart digits lead) =
        Text.ofDigits digits * 10 ^ zeros ∧
      -((fractionPart digits lead).length : Int) = lead + 1 - digits.length - zeros := by
  unfold wholePart fractionPart
  by_cases small : lead < 0
  · rw [if_pos small, if_pos small]
    refine ⟨0, ?_, ?_⟩
    · rw [← List.append_assoc, ← List.replicate_one, List.replicate_append_replicate,
        Text.ofDigits_replicate_append, Nat.pow_zero, Nat.mul_one]
    · rw [List.length_append, List.length_replicate]
      omega
  · rw [if_neg small, if_neg small]
    rcases Nat.lt_or_ge (lead.toNat + 1) digits.length with long | short
    · refine ⟨0, ?_, ?_⟩
      · rw [Nat.sub_eq_zero_of_le (Nat.le_of_lt long), List.replicate_zero, List.append_nil,
          List.take_append_drop, Nat.pow_zero, Nat.mul_one]
      · rw [List.length_drop]
        omega
    · refine ⟨lead.toNat + 1 - digits.length, ?_, ?_⟩
      · rw [List.take_of_length_le short, List.drop_of_length_le short, List.append_nil,
          Text.ofDigits_append_replicate]
      · rw [List.drop_of_length_le short, List.length_nil]
        omega

theorem isDigit_of_mem_parts (run : ∀ c ∈ digits, c.isDigit = true)
    (member : c ∈ wholePart digits lead ∨ c ∈ fractionPart digits lead) : c.isDigit = true := by
  unfold wholePart fractionPart at member
  split at member
  · rcases member with front | behind
    · exact Text.isDigit_of_mem_zeros (k := 1) front
    · exact (List.mem_append.1 behind).elim Text.isDigit_of_mem_zeros (run c)
  · rcases member with front | behind
    · exact (List.mem_append.1 front).elim (fun taken => run c (List.mem_of_mem_take taken))
        Text.isDigit_of_mem_zeros
    · exact run c (List.mem_of_mem_drop behind)

theorem wholePart_ne_nil (digits : List Char) (lead : Int) : wholePart digits lead ≠ [] := by
  unfold wholePart
  split
  · exact List.cons_ne_nil _ _
  · intro empty
    have length := congrArg List.length empty
    rw [List.length_append, List.length_take, List.length_replicate, List.length_nil] at length
    omega

/-- The number that a text of digits stands for, with a point among them or without. -/
def ofPositional (cs : List Char) : Decimal :=
  ⟨Text.ofDigits (cs.filter Char.isDigit), -((cs.dropWhile Char.isDigit).length - 1 : Nat)⟩

theorem ofPositional_append {whole fraction : List Char} (front : ∀ c ∈ whole, c.isDigit = true)
    (behind : ∀ c ∈ fraction, c.isDigit = true) :
    ofPositional (whole ++ if fraction = [] then [] else '.' :: fraction) =
      ⟨Text.ofDigits (whole ++ fraction), -(fraction.length : Int)⟩ := by
  unfold ofPositional
  rw [List.filter_append, List.filter_eq_self.2 front, List.dropWhile_append_of_pos front]
  split
  · next none =>
    subst none
    rfl
  · rw [List.filter_cons_of_neg (by decide), List.filter_eq_self.2 behind,
      List.dropWhile_cons_of_neg (by decide)]
    rfl

/-- A decimal of leading exponent below zero is not zero, so it has digits. -/
theorem significant_ne_nil (plain : d.coefficient = 0 → d = ⟨0, 0⟩)
    (small : d.lead < 0) : d.significant ≠ [] := by
  rcases Nat.eq_zero_or_pos d.coefficient with zero | pos
  · rw [plain zero] at small
    exact absurd small (by decide)
  · obtain ⟨first, others, front, -⟩ := exists_significant_of_pos pos
    rw [front]
    exact List.cons_ne_nil _ _

theorem isDigit_of_mem_head?_positionalText (plain : d.coefficient = 0 → d = ⟨0, 0⟩)
    (first : c ∈ (positionalText mark d.significant d.lead).head?) : c.isDigit = true := by
  have run : ∀ c ∈ d.significant, c.isDigit = true := fun _ => isDigit_of_mem_significant
  obtain ⟨front, others, whole⟩ :=
    List.exists_cons_of_ne_nil (wholePart_ne_nil d.significant d.lead)
  rw [positionalText_eq (significant_ne_nil plain), whole] at first
  cases first
  exact isDigit_of_mem_parts run (.inl (whole ▸ List.mem_cons_self))

/-- A decimal that is written out positionally stands for the same binary number. -/
theorem ofDecimal_ofPositional (p : Precision) (negative : Bool)
    (plain : d.coefficient = 0 → d = ⟨0, 0⟩) :
    Binary.ofDecimal p negative (ofPositional (positionalText [] d.significant d.lead)) =
      Binary.ofDecimal p negative d := by
  have run : ∀ c ∈ d.significant, c.isDigit = true := fun _ => isDigit_of_mem_significant
  obtain ⟨zeros, value, places⟩ := exists_ofDigits_parts d.significant d.lead
  rw [positionalText_eq (significant_ne_nil plain),
    ofPositional_append (fun _ member => isDigit_of_mem_parts run (.inl member))
      fun _ member => isDigit_of_mem_parts run (.inr member),
    value, places, Binary.ofDecimal_shift, ← ofDecimal_significant]

end DebugArrays.Decimal
