import DebugArrays.Proofs.Binary.Positional
import DebugArrays.Proofs.Types.Name
import DebugArrays.Proofs.Value.Coerce
import DebugArrays.Value.Display

/-!
What users see of a value determines it: of values with one type name no two are displayed alike,
except for floats that are no numbers. The first character tells references from the rest.
-/
namespace DebugArrays

open Value (floatStyle)

namespace Binary

variable {p : Precision} {x y : Binary p}

/-- The displayed text of a number after its sign. -/
def magnitudeText (x : Binary p) : List Char :=
  if x.isInfinite then "inf".toList
  else Decimal.positionalText [] (Decimal.shortest p .up x.code).significant
    (Decimal.shortest p .up x.code).lead

theorem text_eq_signed (number : x.isNaN = false) :
    x.text floatStyle = Text.signed x.negative x.magnitudeText := by
  unfold text magnitudeText
  rw [number]
  cases x.isInfinite with
  | true => cases x.negative <;> rfl
  | false => rfl

theorem code_lt_of_bounded (number : x.isNaN = false) (bounded : x.isInfinite = false) :
    x.code < p.infinityCode := by
  have atMost := of_decide_eq_false number
  have apart := of_decide_eq_false bounded
  omega

/-- The text of a finite number starts with a digit, that of an infinite one with a letter. -/
theorem head?_magnitudeText (number : x.isNaN = false) {c : Char}
    (first : c ∈ x.magnitudeText.head?) :
    x.isInfinite = true ∧ c = 'i' ∨ x.isInfinite = false ∧ c.isDigit = true := by
  unfold magnitudeText at first
  cases infinite : x.isInfinite with
  | true =>
      rw [infinite, if_pos rfl] at first
      cases first
      exact .inl ⟨rfl, rfl⟩
  | false =>
      rw [infinite, if_neg Bool.false_ne_true] at first
      have plain := Decimal.shortest_of_zero .up (code_lt_of_bounded number infinite)
      exact .inr ⟨rfl, Decimal.isDigit_of_mem_head?_positionalText plain first⟩

theorem unsigned_magnitudeText (number : x.isNaN = false) :
    ∀ c ∈ x.magnitudeText.head?, c ≠ '-' := by
  rintro c first rfl
  obtain ⟨-, letter⟩ | ⟨-, digit⟩ := head?_magnitudeText number first
  · exact absurd letter (by decide)
  · exact absurd digit (by decide)

theorem isInfinite_iff_head? (number : x.isNaN = false) :
    x.isInfinite = true ↔ x.magnitudeText.head? = some 'i' := by
  constructor
  · intro infinite
    rw [magnitudeText, if_pos infinite]
    rfl
  · intro first
    obtain ⟨infinite, -⟩ | ⟨-, digit⟩ := head?_magnitudeText number first
    · exact infinite
    · exact absurd digit (by decide)

/-- The digits of a finite number read back. -/
theorem ofDecimal_magnitudeText (number : x.isNaN = false) (bounded : x.isInfinite = false) :
    ofDecimal p false (.ofPositional x.magnitudeText) = ⟨false, x.code, x.code_lt⟩ := by
  have finite := code_lt_of_bounded number bounded
  rw [magnitudeText, if_neg (Bool.eq_false_iff.1 bounded),
    Decimal.ofDecimal_ofPositional p false (Decimal.shortest_of_zero .up finite),
    ofDecimal_shortest .up finite x.code_lt]

theorem code_eq_of_magnitudeText (number : x.isNaN = false) (number' : y.isNaN = false)
    (same : x.magnitudeText = y.magnitudeText) : x.code = y.code := by
  have infinite : x.isInfinite = y.isInfinite := by
    rw [Bool.eq_iff_iff, isInfinite_iff_head? number, isInfinite_iff_head? number', same]
  cases bounded : x.isInfinite with
  | true => exact (of_decide_eq_true bounded).trans (of_decide_eq_true (infinite ▸ bounded)).symm
  | false =>
      have read := ofDecimal_magnitudeText number bounded
      rw [same, ofDecimal_magnitudeText number' (infinite ▸ bounded)] at read
      exact (congrArg code read).symm

theorem text_ne_nan (number : x.isNaN = false) : x.text floatStyle ≠ "NaN".toList := by
  rw [text_eq_signed number]
  intro same
  cases sign : x.negative with
  | true =>
      rw [sign] at same
      exact absurd (List.cons.inj same).1 (by decide)
  | false =>
      rw [sign] at same
      have bare : x.magnitudeText = "NaN".toList := same
      have first : 'N' ∈ x.magnitudeText.head? := by
        rw [bare]
        rfl
      obtain ⟨-, letter⟩ | ⟨-, digit⟩ := head?_magnitudeText number first
      · exact absurd letter (by decide)
      · exact absurd digit (by decide)

/-- A number is displayed like no other float. -/
theorem text_injective (number : x.isNaN = false) (same : x.text floatStyle = y.text floatStyle) :
    x = y := by
  cases number' : y.isNaN with
  | true =>
      have nan : y.text floatStyle = "NaN".toList := if_pos number'
      exact absurd (same.trans nan) (text_ne_nan number)
  | false =>
      rw [text_eq_signed number, text_eq_signed number'] at same
      obtain ⟨sign, magnitude⟩ := Text.signed_inj (unsigned_magnitudeText number)
        (unsigned_magnitudeText number') same
      exact ext_code sign (code_eq_of_magnitudeText number number' magnitude)

end Binary

namespace Value

variable {v a b : Value} {p : Primitive} {address other : UInt64} {typeName : String}

/-- What a value of a primitive type can begin with. -/
theorem head?_displayChars_of_primitive? (typed : v.primitive? = some p) {c : Char}
    (first : c ∈ v.displayChars.head?) :
    c.isDigit = true ∨ c ∈ ['-', 'i', 'N', 't', 'f', '\'', '"'] := by
  cases v with
  | int kind n inRange =>
      have written : c ∈ (Text.signed (n < 0) (Text.natural n.natAbs)).head? :=
        Text.integer_eq_signed n ▸ first
      rcases Text.mem_head?_signed written with rfl | digit
      · exact .inr (by decide)
      · exact .inl (Text.isDigit_of_mem_head?_natural digit)
  | float precision x =>
      have written : c ∈ (x.text floatStyle).head? := first
      cases number : x.isNaN with
      | true =>
          have nan : x.text floatStyle = "NaN".toList := if_pos number
          rw [nan] at written
          cases written
          exact .inr (by decide)
      | false =>
          rw [Binary.text_eq_signed number] at written
          rcases Text.mem_head?_signed written with rfl | magnitude
          · exact .inr (by decide)
          · obtain ⟨-, rfl⟩ | ⟨-, digit⟩ := Binary.head?_magnitudeText number magnitude
            · exact .inr (by decide)
            · exact .inl digit
  | bool b => cases b <;> cases first <;> exact .inr (by decide)
  | char d => cases first; exact .inr (by decide)
  | string s => cases first; exact .inr (by decide)
  | ref address typeName => cases typed

theorem displayChars_ref (present : address ≠ 0) (typeName : String) :
    (ref address typeName).displayChars =
      '\x7b' :: typeName.toList ++ "\x7d @ 0x".toList ++ Text.hexadecimal address.toNat :=
  if_neg present

/-- References begin with other characters than values of primitive types. -/
theorem displayChars_ref_ne (typed : v.primitive? = some p) :
    (ref address typeName).displayChars ≠ v.displayChars := by
  intro same
  have first : ∃ c ∈ v.displayChars.head?, c = 'n' ∨ c = '\x7b' := by
    rw [← same]
    by_cases absent : address = 0
    · cases absent
      exact ⟨'n', rfl, .inl rfl⟩
    · rw [displayChars_ref absent]
      exact ⟨'\x7b', rfl, .inr rfl⟩
  obtain ⟨c, first, rfl | rfl⟩ := first
  · exact absurd (head?_displayChars_of_primitive? typed first) (by decide)
  · exact absurd (head?_displayChars_of_primitive? typed first) (by decide)

/-- References of one type are told apart by their addresses. -/
theorem address_eq_of_displayChars
    (same : (ref address typeName).displayChars = (ref other typeName).displayChars) :
    address = other := by
  by_cases absent : address = 0
  · by_cases absent' : other = 0
    · rw [absent, absent']
    · cases absent
      rw [displayChars_ref absent'] at same
      exact absurd (List.cons.inj same).1 (by decide)
  · by_cases absent' : other = 0
    · cases absent'
      rw [displayChars_ref absent] at same
      exact absurd (List.cons.inj same).1 (by decide)
    · rw [displayChars_ref absent, displayChars_ref absent'] at same
      exact UInt64.toNat_inj.1 (Text.hexadecimal_injective (List.append_cancel_left same))

/-- Values of one primitive type are told apart by their texts. -/
theorem eq_of_displayChars (number : a.isNaN = false) (typed : a.primitive? = some p)
    (typed' : b.primitive? = some p) (same : a.displayChars = b.displayChars) : a = b := by
  cases a with
  | int kind n inRange =>
      cases typed
      cases b with
      | int kind' m inRange' =>
          cases typed'
          cases Text.integer_injective same
          rfl
      | _ => cases typed'
  | float precision x =>
      cases typed
      cases b with
      | float precision' y =>
          cases typed'
          cases Binary.text_injective number same
          rfl
      | _ => cases typed'
  | bool truth =>
      cases typed
      cases b with
      | bool truth' => cases truth <;> cases truth' <;> first | rfl | cases same
      | _ => cases typed'
  | char c =>
      cases typed
      cases b with
      | char d => exact congrArg char (List.cons.inj (List.cons.inj same).2).1
      | _ => cases typed'
  | string s =>
      cases typed
      cases b with
      | string t =>
          have content : s.toList ++ ['"'] = t.toList ++ ['"'] := (List.cons.inj same).2
          exact congrArg string (String.toList_inj.1 (List.append_cancel_right content))
      | _ => cases typed'
  | ref address typeName => cases typed

/-- What an answer shows of a value, its type name and its text, determines the value. -/
theorem typeName_display_eq_iff {a b : Value} (number : a.isNaN = false) :
    a.typeName = b.typeName ∧ a.display = b.display ↔ a = b := by
  constructor
  · rintro ⟨alike, shown⟩
    have same : a.displayChars = b.displayChars := String.ofList_injective shown
    cases typed : a.primitive? with
    | some p =>
        cases typed' : b.primitive? with
        | some q =>
            rw [typeName_of_primitive? typed, typeName_of_primitive? typed'] at alike
            cases Primitive.keyword_injective alike
            exact eq_of_displayChars number typed typed' same
        | none =>
            obtain ⟨address, typeName, rfl⟩ := eq_ref_of_primitive? typed'
            exact absurd same.symm (displayChars_ref_ne typed)
    | none =>
        obtain ⟨address, typeName, rfl⟩ := eq_ref_of_primitive? typed
        cases typed' : b.primitive? with
        | some q => exact absurd same (displayChars_ref_ne typed')
        | none =>
            obtain ⟨other, typeName', rfl⟩ := eq_ref_of_primitive? typed'
            cases (alike : typeName = typeName')
            rw [address_eq_of_displayChars same]
  · rintro rfl
    exact ⟨rfl, rfl⟩

/-- A null string is not shown like the string whose text is null, although both are strings. -/
theorem typeName_display_eq_iff_null :
    (null "string").isNaN = false ∧ (null "string").typeName = (string "null").typeName ∧
      (null "string").display ≠ (string "null").display := by
  have number : (null "string").isNaN = false := rfl
  refine ⟨number, rfl, fun shown => ?_⟩
  have equal : null "string" = string "null" := (typeName_display_eq_iff number).1 ⟨rfl, shown⟩
  exact absurd equal (by decide)

end Value

end DebugArrays
