import DebugArrays.Json.Printer

/-!
Written JSON has no control characters: strings escape theirs, and nothing else brings any in. So a
text stands on one line.
-/
namespace DebugArrays

namespace Text

/-- No character is a control character, and so none ends a line. -/
def Plain (cs : List Char) : Prop :=
  ∀ c ∈ cs, 0x20 ≤ c.toNat

instance (cs : List Char) : Decidable (Plain cs) :=
  List.decidableBAll (fun c : Char => 0x20 ≤ c.toNat) cs

@[simp] theorem plain_nil : Plain [] :=
  nofun

@[simp] theorem plain_cons {c : Char} {cs : List Char} :
    Plain (c :: cs) ↔ 0x20 ≤ c.toNat ∧ Plain cs :=
  List.forall_mem_cons

@[simp] theorem plain_append {cs ds : List Char} : Plain (cs ++ ds) ↔ Plain cs ∧ Plain ds :=
  List.forall_mem_append

theorem Plain.mono {cs ds : List Char} (plain : Plain cs) (sub : ds ⊆ cs) : Plain ds :=
  fun c member => plain c (sub member)

theorem plain_replicate (n : Nat) {c : Char} (h : 0x20 ≤ c.toNat) : Plain (List.replicate n c) := by
  intro d member
  rwa [List.eq_of_mem_replicate member]

theorem plain_natural (n : Nat) : Plain (natural n) := by
  intro c member
  have digit := Nat.isDigit_of_mem_toDigits (by decide) (by decide) member
  simp only [Char.isDigit, Bool.and_eq_true, decide_eq_true_eq] at digit
  have low : '0'.toNat ≤ c.toNat := digit.1
  exact Nat.le_trans (by decide) low

theorem plain_integer (n : Int) : Plain (integer n) := by
  unfold integer
  split
  · exact plain_cons.2 ⟨by decide, plain_natural _⟩
  · exact plain_natural _

end Text

open Text

namespace Decimal

theorem plain_significant (d : Decimal) : Plain d.significant := by
  refine (plain_natural d.coefficient).mono fun c member => ?_
  have kept := (List.dropWhile_sublist _).subset (List.mem_reverse.1 member)
  exact List.mem_reverse.1 kept

theorem plain_positionalText {mark digits : List Char} (plainMark : Plain mark)
    (plainDigits : Plain digits) (lead : Int) : Plain (positionalText mark digits lead) := by
  have zeros : ∀ n, Plain (List.replicate n '0') := fun n => plain_replicate n (by decide)
  unfold positionalText
  split
  · simp [zeros, plainDigits]
  · have first : Plain (digits.take (lead.toNat + 1)) :=
      plainDigits.mono (List.take_subset _ _)
    have others : Plain (digits.drop (lead.toNat + 1)) :=
      plainDigits.mono (List.drop_subset _ _)
    dsimp only
    split
    · simp [first, zeros, plainMark]
    · simp [first, zeros, others]

theorem plain_scientificText {digits : List Char} (plain : Plain digits) (lead : Int) :
    Plain (scientificText digits lead) := by
  have exponent : Plain ('e' :: (if lead < 0 then '-' else '+') :: natural lead.natAbs) := by
    refine plain_cons.2 ⟨by decide, plain_cons.2 ⟨?_, plain_natural _⟩⟩
    split <;> decide
  unfold scientificText
  cases digits with
  | nil => exact exponent
  | cons first rest =>
      cases rest with
      | nil => exact plain_append.2 ⟨plain, exponent⟩
      | cons next others => exact plain_append.2 ⟨by simpa using plain, exponent⟩

theorem plain_text {style : FloatStyle} (mark : Plain style.wholeMark) (d : Decimal) :
    Plain (d.text style) := by
  unfold text
  split
  · exact plain_positionalText mark d.plain_significant _
  · exact plain_scientificText d.plain_significant _

end Decimal

theorem Binary.plain_text {p : Precision} {style : FloatStyle} (mark : Plain style.wholeMark)
    (nan : Plain style.nan) (infinity : ∀ negative, Plain (style.infinity negative))
    (x : Binary p) : Plain (x.text style) := by
  unfold text
  split
  · exact nan
  · split
    · exact infinity _
    · have digits := (Decimal.shortest p style.tie x.code).plain_text mark
      dsimp only
      split
      · exact plain_cons.2 ⟨by decide, digits⟩
      · exact digits

namespace Json

theorem plain_hexadecimalPadded : ∀ n < 0x20, Plain (hexadecimalPadded 4 n) := by
  decide

theorem plain_escape (c : Char) : Plain (escape c) := by
  unfold escape
  split <;> try decide
  split
  · next control => simp [plain_hexadecimalPadded _ control]
  · next other => simpa using other

theorem plain_quoted (s : String) : Plain (quoted s) := by
  refine plain_cons.2 ⟨by decide, plain_append.2 ⟨?_, by simp⟩⟩
  intro d member
  obtain ⟨c, -, here⟩ := List.mem_flatMap.1 member
  exact plain_escape c d here

theorem plain_numberText (n : JsonNumber) : Plain (numberText n) := by
  cases n with
  | integer n wide => exact plain_integer n
  | double x finite =>
      exact x.plain_text (by decide : Plain ['.', '0']) (by decide : Plain ['n', 'u', 'l', 'l'])
        fun _ => (by decide : Plain ['n', 'u', 'l', 'l'])

mutual

/-- A tree is written without control characters. -/
theorem plain_chars : ∀ j : Json, Plain j.chars
  | .null => by decide
  | .bool true => by decide
  | .bool false => by decide
  | .number n => plain_numberText n
  | .string s => plain_quoted s
  | .array items => plain_cons.2 ⟨by decide, plain_itemChars items⟩
  | .object members => plain_cons.2 ⟨by decide, plain_memberChars members⟩

theorem plain_itemChars : ∀ items, Plain (itemChars items)
  | [] => by decide
  | [item] => plain_append.2 ⟨plain_chars item, by decide⟩
  | item :: next :: rest =>
    plain_append.2 ⟨plain_chars item, plain_cons.2 ⟨by decide, plain_itemChars (next :: rest)⟩⟩

theorem plain_memberChars : ∀ members, Plain (memberChars members)
  | [] => by decide
  | [(key, value)] =>
    plain_append.2 ⟨plain_quoted key,
      plain_cons.2 ⟨by decide, plain_append.2 ⟨plain_chars value, by decide⟩⟩⟩
  | (key, value) :: next :: rest =>
    plain_append.2 ⟨plain_quoted key, plain_cons.2 ⟨by decide,
      plain_append.2 ⟨plain_chars value,
        plain_cons.2 ⟨by decide, plain_memberChars (next :: rest)⟩⟩⟩⟩

end

theorem plain_compact (j : Json) : Plain j.compact.toList := by
  rw [compact, String.toList_ofList]
  exact j.plain_chars

end Json

end DebugArrays
