import DebugArrays.Json.Printer
import DebugArrays.Json.Reader
import DebugArrays.Proofs.Binary.Positional

/-!
Numbers as tokens: a sign, a whole part, and possibly a fraction and an exponent. What the writer
makes of a number is such a token, and the reader takes exactly the token, whatever follows, as long
as it could not be more of the number.
-/
namespace DebugArrays

/-- A run of decimal digits, at least one. -/
def IsDigits (cs : List Char) : Prop :=
  cs ≠ [] ∧ ∀ c ∈ cs, c.isDigit = true

/-- Digits that do not start with a zero. -/
structure IsLeading (cs : List Char) : Prop where
  isDigits : IsDigits cs
  nonzero : ∀ c ∈ cs.head?, c ≠ '0'

/-- A whole part: a lone zero, or digits that do not start with one. -/
def IsWhole (cs : List Char) : Prop :=
  cs = ['0'] ∨ IsLeading cs

section Zeros

variable {cs ds : List Char}

theorem isDigits_zero : IsDigits ['0'] :=
  ⟨List.cons_ne_nil _ _, fun _ => Text.isDigit_of_mem_zeros (k := 1)⟩

theorem IsDigits.append_zeros (digits : IsDigits cs) (k : Nat) :
    IsDigits (cs ++ List.replicate k '0') := by
  refine ⟨List.append_ne_nil_of_left_ne_nil digits.1 _, ?_⟩
  intro c member
  rcases List.mem_append.1 member with digit | zero
  · exact digits.2 c digit
  · exact Text.isDigit_of_mem_zeros zero

theorem IsDigits.of_subset (digits : IsDigits cs) (nonempty : ds ≠ []) (subset : ds ⊆ cs) :
    IsDigits ds :=
  ⟨nonempty, fun c member => digits.2 c (subset member)⟩

theorem IsLeading.append_zeros (leading : IsLeading cs) (k : Nat) :
    IsLeading (cs ++ List.replicate k '0') := by
  refine ⟨leading.isDigits.append_zeros k, ?_⟩
  obtain ⟨first, others, rfl⟩ := List.exists_cons_of_ne_nil leading.isDigits.1
  exact leading.nonzero

theorem IsLeading.take (leading : IsLeading cs) (k : Nat) : IsLeading (cs.take (k + 1)) := by
  refine ⟨leading.isDigits.of_subset ?_ (List.take_subset _ _), ?_⟩
  · rw [ne_eq, List.take_eq_nil_iff]
    exact not_or_intro (Nat.succ_ne_zero k) leading.isDigits.1
  · rw [List.head?_take, if_neg (Nat.succ_ne_zero k)]
    exact leading.nonzero

end Zeros

theorem IsWhole.isDigits {cs : List Char} (h : IsWhole cs) : IsDigits cs := by
  rcases h with zero | leading
  · subst zero
    exact isDigits_zero
  · exact leading.isDigits

/-- A whole part starts with a digit, so not with a sign. -/
theorem IsWhole.exists_cons {cs : List Char} (h : IsWhole cs) :
    ∃ first more, cs = first :: more ∧ first ≠ '-' := by
  obtain ⟨nonempty, digits⟩ := h.isDigits
  cases cs with
  | nil => exact absurd rfl nonempty
  | cons first more =>
      refine ⟨first, more, rfl, ?_⟩
      rintro rfl
      exact absurd (digits '-' List.mem_cons_self) (by decide)

structure NumberToken where
  negative : Bool
  whole : List Char
  fraction : Option (List Char)
  exponent : Option Int
  isWhole : IsWhole whole
  isDigits : ∀ digits ∈ fraction, IsDigits digits

namespace NumberToken

def fractionChars : Option (List Char) → List Char
  | none => []
  | some digits => '.' :: digits

def exponentChars : Option Int → List Char
  | none => []
  | some e => 'e' :: (if e < 0 then '-' else '+') :: Text.natural e.natAbs

/-- The text of a token after its sign. -/
def body (t : NumberToken) : List Char :=
  t.whole ++ (fractionChars t.fraction ++ exponentChars t.exponent)

def chars (t : NumberToken) : List Char :=
  if t.negative then '-' :: t.body else t.body

def number? (t : NumberToken) : Option JsonNumber :=
  JsonNumber.ofParts? t.negative t.whole t.fraction t.exponent

end NumberToken

namespace Json

def NoDigit (rest : List Char) : Prop :=
  ∀ c ∈ rest.head?, c.isDigit = false

/-- A text that is not more of the number before it. -/
def EndsNumber (rest : List Char) : Prop :=
  NoDigit rest ∧ ∀ c ∈ rest.head?, c ≠ '.' ∧ c ≠ 'e' ∧ c ≠ 'E'

variable {cs rest : List Char}

theorem readDigits_append (digits : IsDigits cs) (stop : NoDigit rest) :
    readDigits (cs ++ rest) = some (cs, rest) := by
  have front : (cs ++ rest).takeWhile Char.isDigit = cs := by
    rw [List.takeWhile_append_of_pos digits.2]
    cases rest with
    | nil => exact List.append_nil cs
    | cons c more =>
        have other : c.isDigit = false := stop c rfl
        rw [List.takeWhile_cons_of_neg (by simp [other]), List.append_nil]
  have behind : (cs ++ rest).dropWhile Char.isDigit = rest := by
    rw [List.dropWhile_append_of_pos digits.2]
    cases rest with
    | nil => rfl
    | cons c more =>
        have other : c.isDigit = false := stop c rfl
        rw [List.dropWhile_cons_of_neg (by simp [other])]
  unfold readDigits
  rw [front, behind]
  cases cs with
  | nil => exact absurd rfl digits.1
  | cons c more => rfl

theorem readWhole_append (whole : IsWhole cs) (stop : NoDigit rest) :
    readWhole (cs ++ rest) = some (cs, rest) := by
  rcases whole with zero | ⟨digits, front⟩
  · subst zero
    rfl
  · cases cs with
    | nil => exact absurd rfl digits.1
    | cons c more =>
        have nonzero : c ≠ '0' := front c rfl
        rw [← readDigits_append digits stop]
        unfold readWhole
        split
        · next same =>
          cases same
          exact absurd rfl nonzero
        · rfl

theorem readFraction_append {fraction : Option (List Char)}
    (digits : ∀ ds ∈ fraction, IsDigits ds) (stop : NoDigit rest)
    (noPoint : ∀ c ∈ rest.head?, c ≠ '.') :
    readFraction (NumberToken.fractionChars fraction ++ rest) = some (fraction, rest) := by
  cases fraction with
  | some ds =>
      have read := readDigits_append (digits ds rfl) stop
      simp only [NumberToken.fractionChars, readFraction, List.cons_append, read]
      rfl
  | none =>
      unfold NumberToken.fractionChars readFraction
      rw [List.nil_append]
      split
      · exact absurd rfl (noPoint '.' rfl)
      · rfl

theorem isDigits_natural (n : Nat) : IsDigits (Text.natural n) :=
  ⟨Text.natural_ne_nil n, fun _ => Text.isDigit_of_mem_natural⟩

theorem readExponent_append {exponent : Option Int} (ends : EndsNumber rest) :
    readExponent (NumberToken.exponentChars exponent ++ rest) = some (exponent, rest) := by
  cases exponent with
  | some e =>
      have digits := readDigits_append (isDigits_natural e.natAbs) ends.1
      unfold NumberToken.exponentChars readExponent
      by_cases negative : e < 0
      · have value : -(e.natAbs : Int) = e := by omega
        simp only [negative, if_true, List.cons_append, true_or, digits, Option.map_some,
          Text.ofDigits_natural, value]
      · have value : (e.natAbs : Int) = e := by omega
        simp only [negative, if_false, List.cons_append, true_or, digits, Option.map_some,
          Text.ofDigits_natural, value, if_true]
  | none =>
      unfold NumberToken.exponentChars readExponent
      rw [List.nil_append]
      cases rest with
      | nil => rfl
      | cons c more =>
          have other := ends.2 c rfl
          simp [other.2]

theorem exponentChars_stops (exponent : Option Int) (ends : EndsNumber rest) :
    ∀ c ∈ (NumberToken.exponentChars exponent ++ rest).head?, c.isDigit = false ∧ c ≠ '.' := by
  cases exponent with
  | some e =>
      rintro c ⟨⟩
      decide
  | none => exact fun c member => ⟨ends.1 c member, (ends.2 c member).1⟩

theorem fractionChars_stops (fraction : Option (List Char)) (stop : NoDigit rest) :
    NoDigit (NumberToken.fractionChars fraction ++ rest) := by
  cases fraction with
  | some digits =>
      rintro c ⟨⟩
      decide
  | none => exact stop

/-- The parts of a number after its sign. -/
def readParts (negative : Bool) (cs : List Char) : Option (JsonNumber × List Char) := do
  let (whole, cs) ← readWhole cs
  let (fraction, cs) ← readFraction cs
  let (exponent, cs) ← readExponent cs
  let n ← JsonNumber.ofParts? negative whole fraction exponent
  return (n, cs)

theorem readNumber_minus (cs : List Char) : readNumber ('-' :: cs) = readParts true cs := rfl

theorem readNumber_of_ne {c : Char} (unsigned : c ≠ '-') (cs : List Char) :
    readNumber (c :: cs) = readParts false (c :: cs) := by
  unfold readNumber
  split
  next negative later split =>
    split at split
    · next same =>
      cases same
      exact absurd rfl unsigned
    · cases split
      rfl

/-- The reader takes a token and leaves what follows it. -/
theorem readNumber_chars (t : NumberToken) (ends : EndsNumber rest) :
    readNumber (t.chars ++ rest) = t.number?.map fun n => (n, rest) := by
  have parts : readParts t.negative (t.body ++ rest) = t.number?.map fun n => (n, rest) := by
    have afterFraction := exponentChars_stops t.exponent ends
    have afterWhole := fractionChars_stops t.fraction fun c member => (afterFraction c member).1
    unfold readParts NumberToken.body NumberToken.number?
    simp only [List.append_assoc, readWhole_append t.isWhole afterWhole,
      readFraction_append t.isDigits (fun c member => (afterFraction c member).1)
        fun c member => (afterFraction c member).2,
      readExponent_append ends, Option.bind_eq_bind, Option.bind_some]
    cases JsonNumber.ofParts? t.negative t.whole t.fraction t.exponent <;> rfl
  unfold NumberToken.chars
  cases signed : t.negative with
  | true =>
      rw [signed] at parts
      rw [if_pos rfl, List.cons_append, readNumber_minus, parts]
  | false =>
      obtain ⟨first, more, front, unsigned⟩ := t.isWhole.exists_cons
      have begins : t.body ++ rest = first ::
          (more ++ (NumberToken.fractionChars t.fraction ++
            NumberToken.exponentChars t.exponent) ++ rest) := by
        rw [NumberToken.body, front]
        rfl
      rw [signed, begins] at parts
      rw [if_neg (by decide), begins, readNumber_of_ne unsigned, parts]

end Json

namespace NumberToken

variable {p : Precision} {negative : Bool} {digits : List Char} {lead : Int}

theorem isWhole_natural (n : Nat) : IsWhole (Text.natural n) := by
  rcases Nat.eq_zero_or_pos n with zero | pos
  · exact .inl (zero ▸ Text.natural_zero)
  · obtain ⟨first, more, front, nonzero⟩ := Text.exists_natural_of_pos pos
    refine .inr ⟨Json.isDigits_natural n, ?_⟩
    rw [front]
    rintro c ⟨⟩
    exact nonzero

def ofInt (n : Int) : NumberToken :=
  ⟨n < 0, Text.natural n.natAbs, none, none, isWhole_natural _, nofun⟩

theorem chars_ofInt (n : Int) : (ofInt n).chars = Text.integer n := by
  unfold chars body ofInt Text.integer fractionChars exponentChars
  simp only [List.append_nil, decide_eq_true_eq]

theorem number?_ofInt {n : Int} (wide : IsWideInt n) : (ofInt n).number? = some (.integer n wide) := by
  have value : (if n < 0 then -(n.natAbs : Int) else n.natAbs) = n := by
    split <;> omega
  have notMinusZero : (!(decide (n < 0) && n.natAbs == 0)) = true := by
    by_cases negative : n < 0
    · have nonzero : n.natAbs ≠ 0 := by omega
      simp [nonzero]
    · simp [negative]
  unfold number? ofInt JsonNumber.ofParts?
  simp only [Text.ofDigits_natural, Option.isNone_none, Bool.true_and, notMinusZero, if_true,
    decide_eq_true_eq, value, JsonNumber.ofInt?, dif_pos wide]

/-- Whether the token can only be a double. -/
def isDouble (t : NumberToken) : Bool :=
  t.fraction.isSome || t.exponent.isSome

/-- The magnitude that the token stands for. -/
def decimal (t : NumberToken) : Decimal :=
  ⟨Text.ofDigits (t.whole ++ t.fraction.getD []),
    t.exponent.getD 0 - (t.fraction.getD []).length⟩

theorem number?_of_isDouble {t : NumberToken} (double : t.isDouble = true) :
    t.number? = JsonNumber.ofDouble? (.ofDecimal .double t.negative t.decimal) := by
  have noInteger : (t.fraction.isNone && t.exponent.isNone) = false := by
    rw [isDouble, ← Option.not_isNone, ← Option.not_isNone, ← Bool.not_and] at double
    exact Bool.not_eq_true' .. ▸ double
  unfold number? JsonNumber.ofParts? decimal
  simp only [noInteger, Bool.false_and, Bool.false_eq_true, if_false]

/-- A token with a given text after its sign, that stands for digits with a leading exponent. Zeros
may have been added to the digits. -/
structure Spells (t : NumberToken) (text digits : List Char) (lead : Int) : Prop where
  body : t.body = text
  isDouble : t.isDouble = true
  decimal : ∃ zeros : Nat, t.decimal =
    ⟨Text.ofDigits digits * 10 ^ zeros, lead + 1 - digits.length - zeros⟩

theorem isWhole_wholePart (leading : IsLeading digits) (lead : Int) :
    IsWhole (Decimal.wholePart digits lead) := by
  unfold Decimal.wholePart
  split
  · exact .inl rfl
  · exact .inr ((leading.take lead.toNat).append_zeros _)

theorem exists_spells_positional (leading : IsLeading digits) :
    ∃ t : NumberToken, t.negative = negative ∧
      t.Spells (Decimal.positionalText ['.', '0'] digits lead) digits lead := by
  have whole := isWhole_wholePart leading lead
  obtain ⟨zeros, value, places⟩ := Decimal.exists_ofDigits_parts digits lead
  -- a zero is put behind the point where the digits end in front of it
  by_cases bare : Decimal.fractionPart digits lead = []
  · rw [bare, List.append_nil] at value
    rw [bare, List.length_nil] at places
    refine ⟨⟨negative, Decimal.wholePart digits lead, some ['0'], none, whole, ?_⟩, rfl, ?_,
      rfl, zeros + 1, ?_⟩
    · rintro ds ⟨⟩
      exact isDigits_zero
    · rw [Decimal.positionalText_eq fun _ => leading.isDigits.1, if_pos bare]
      rfl
    · have filled : Text.ofDigits (Decimal.wholePart digits lead ++ ['0']) =
          Text.ofDigits digits * 10 ^ (zeros + 1) := by
        rw [← List.replicate_one, Text.ofDigits_append_replicate, value, Nat.mul_assoc,
          ← Nat.pow_add]
      simp only [decimal, Option.getD_some, Option.getD_none, filled, List.length_singleton,
        Decimal.mk.injEq, true_and]
      omega
  · refine ⟨⟨negative, Decimal.wholePart digits lead, some (Decimal.fractionPart digits lead),
      none, whole, ?_⟩, rfl, ?_, rfl, zeros, ?_⟩
    · rintro ds ⟨⟩
      exact ⟨bare, fun c member => Decimal.isDigit_of_mem_parts leading.isDigits.2 (.inr member)⟩
    · rw [Decimal.positionalText_eq fun _ => leading.isDigits.1, if_neg bare]
      simp only [body, fractionChars, exponentChars, List.append_nil]
    · simp only [decimal, Option.getD_some, Option.getD_none, value, Decimal.mk.injEq, true_and]
      omega

theorem exists_spells_scientific (leading : IsLeading digits) :
    ∃ t : NumberToken, t.negative = negative ∧
      t.Spells (Decimal.scientificText digits lead) digits lead := by
  cases digits with
  | nil => exact absurd rfl leading.isDigits.1
  | cons first others =>
      have one : IsLeading [first] := leading.take 0
      cases others with
      | nil =>
          refine ⟨⟨negative, [first], none, some lead, .inr one, nofun⟩, rfl, ?_, rfl, 0, ?_⟩
          · simp [NumberToken.body, fractionChars, exponentChars, Decimal.scientificText]
          · simp [decimal]
      | cons next others =>
          have more : IsDigits (next :: others) :=
            leading.isDigits.of_subset (List.cons_ne_nil _ _) (List.subset_cons_self _ _)
          refine ⟨⟨negative, [first], some (next :: others), some lead, .inr one,
            fun ds same => Option.some.inj same ▸ more⟩, rfl, ?_, rfl, 0, ?_⟩
          · simp [NumberToken.body, fractionChars, exponentChars, Decimal.scientificText]
          · simp [decimal]

/-- However the digits of a decimal are laid out, they are laid out as a token. -/
theorem exists_spells_text (negative : Bool) {d : Decimal} (pos : 0 < d.coefficient) :
    ∃ t : NumberToken, t.negative = negative ∧
      t.Spells (d.text Json.doubleStyle) d.significant d.lead := by
  have leading : IsLeading d.significant := by
    obtain ⟨first, others, front, nonzero⟩ := Decimal.exists_significant_of_pos pos
    refine ⟨⟨front ▸ List.cons_ne_nil _ _, fun _ => Decimal.isDigit_of_mem_significant⟩, ?_⟩
    rw [front]
    rintro c ⟨⟩
    exact nonzero
  unfold Decimal.text
  split
  · exact exists_spells_positional leading
  · exact exists_spells_scientific leading

/-- The text of a decimal is that of a token which stands for the same binary number. -/
theorem exists_of_decimal (negative : Bool) {d : Decimal} (plain : d.coefficient = 0 → d = ⟨0, 0⟩) :
    ∃ t : NumberToken, t.negative = negative ∧ t.body = d.text Json.doubleStyle ∧
      t.isDouble = true ∧ Binary.ofDecimal p negative t.decimal = Binary.ofDecimal p negative d := by
  rcases Nat.eq_zero_or_pos d.coefficient with zero | pos
  · cases plain zero
    refine ⟨⟨negative, ['0'], some ['0'], none, .inl rfl, ?_⟩, rfl, rfl, rfl, ?_⟩
    · rintro ds ⟨⟩
      exact isDigits_zero
    · exact Binary.ofDecimal_shift 0 1 0
  · obtain ⟨t, signed, body, double, zeros, value⟩ := exists_spells_text negative pos
    refine ⟨t, signed, body, double, ?_⟩
    rw [value, Binary.ofDecimal_shift, ← Decimal.ofDecimal_significant]

/-- What the writer makes of a number is a token of that number. -/
theorem exists_of_number (n : JsonNumber) :
    ∃ t : NumberToken, t.chars = Json.numberText n ∧ t.number? = some n := by
  cases n with
  | integer n wide => exact ⟨ofInt n, chars_ofInt n, number?_ofInt wide⟩
  | double x finite =>
      have below : x.code < Precision.double.infinityCode := of_decide_eq_true finite
      have notNaN : x.isNaN = false := decide_eq_false (Nat.lt_asymm below)
      have notInfinite : x.isInfinite = false := decide_eq_false (Nat.ne_of_lt below)
      obtain ⟨t, signed, body, double, value⟩ :=
        exists_of_decimal (p := .double) x.negative (Decimal.shortest_of_zero .even below)
      refine ⟨t, ?_, ?_⟩
      · simp only [chars, signed, body, Json.numberText, Binary.text, notNaN, notInfinite,
          Bool.false_eq_true, if_false]
        rfl
      · rw [number?_of_isDouble double, signed, value,
          Binary.ofDecimal_shortest .even below x.code_lt]
        exact dif_pos finite

/-- The text of a number starts with a sign or a digit. -/
theorem exists_chars_cons (t : NumberToken) :
    ∃ first more, t.chars = first :: more ∧ (first = '-' ∨ first.isDigit = true) := by
  unfold chars
  cases t.negative with
  | true => exact ⟨'-', t.body, rfl, .inl rfl⟩
  | false =>
      obtain ⟨nonempty, digits⟩ := t.isWhole.isDigits
      obtain ⟨first, more, front⟩ := List.exists_cons_of_ne_nil nonempty
      refine ⟨first, more ++ (fractionChars t.fraction ++ exponentChars t.exponent), ?_, .inr ?_⟩
      · rw [if_neg (by decide), body, front]
        rfl
      · exact digits first (front ▸ List.mem_cons_self)

end NumberToken

namespace Json

variable {rest : List Char}

theorem readNumber_numberText (n : JsonNumber) (ends : EndsNumber rest) :
    readNumber (numberText n ++ rest) = some (n, rest) := by
  obtain ⟨t, written, stands⟩ := NumberToken.exists_of_number n
  rw [← written, readNumber_chars t ends, stands, Option.map_some]

end Json

end DebugArrays
