import DebugArrays.Json.Printer
import DebugArrays.Json.Reader
import DebugArrays.Proofs.Text.Numeral

/-!
Strings and their escapes. The reader undoes the escape of every character, so a quoted string is
read back up to its closing quote and no further.
-/
namespace DebugArrays.Json

variable {c : Char} {n : Nat} {read cs rest : List Char}

theorem hexadecimalPadded_control (control : n < 0x20) :
    Text.hexadecimalPadded 4 n = ['0', '0', (n / 16).digitChar, (n % 16).digitChar] := by
  have all : ∀ n < 0x20,
      Text.hexadecimalPadded 4 n = ['0', '0', (n / 16).digitChar, (n % 16).digitChar] := by decide
  exact all n control

theorem readString_unicode (high : Option Nat) {left value d : Nat} (digit : Text.hexDigit? c = some d)
    (more : 1 < left) (read cs : List Char) :
    readString (.unicode high left value) read (c :: cs) =
      readString (.unicode high (left - 1) (16 * value + d)) read cs := by
  have notLast : ¬ left ≤ 1 := by omega
  rw [readString]
  · simp only [StringState.step, digit, notLast, if_false]
  · nofun

/-- The unit of a control character is that character. -/
theorem readString_control (control : n < 0x20) (read cs : List Char) :
    readString (.unicode none 4 0) read (Text.hexadecimalPadded 4 n ++ cs) =
      readString .plain (.ofNat n :: read) cs := by
  have zero : Text.hexDigit? '0' = some 0 := by decide
  have first : Text.hexDigit? (n / 16).digitChar = some (n / 16) := Text.hexDigit?_digitChar (by omega)
  have second : Text.hexDigit? (n % 16).digitChar = some (n % 16) := Text.hexDigit?_digitChar (by omega)
  have unit : 16 * (16 * (16 * (16 * 0 + 0) + 0) + n / 16) + n % 16 = n := by omega
  have noHigh : ¬ 0xD800 ≤ n := by omega
  have noLow : ¬ 0xDC00 ≤ n := by omega
  have whole : StringState.ofUnit none n = some (.plain, some (.ofNat n)) := by
    simp [StringState.ofUnit, noHigh, noLow]
  have last : StringState.step (.unicode none 1 (16 * (16 * (16 * 0 + 0) + 0) + n / 16))
      (n % 16).digitChar = some (.plain, some (.ofNat n)) := by
    rw [StringState.step, second]
    dsimp only
    rw [if_pos (by decide), unit, whole]
  rw [hexadecimalPadded_control control]
  simp only [List.cons_append, List.nil_append]
  rw [readString_unicode none zero (by decide), readString_unicode none zero (by decide),
    readString_unicode none first (by decide), readString]
  · rw [last]
  · nofun

/-- The reader takes an escaped character for the character. -/
theorem readString_escape (c : Char) (read cs : List Char) :
    readString .plain read (escape c ++ cs) = readString .plain (c :: read) cs := by
  unfold escape
  split
  · rfl
  · rfl
  · rfl
  · rfl
  · rfl
  · rfl
  · rfl
  · next quote backslash _ _ _ _ _ =>
    split
    · next control =>
      have entered : readString .plain read
          ('\\' :: 'u' :: Text.hexadecimalPadded 4 c.toNat ++ cs) =
            readString (.unicode none 4 0) read (Text.hexadecimalPadded 4 c.toNat ++ cs) := rfl
      rw [entered, readString_control control, Char.ofNat_toNat]
    · next printable =>
      rw [List.singleton_append, readString]
      · rw [StringState.step, if_neg backslash, if_neg printable]
      · exact fun _ => quote

theorem readString_flatMap (read : List Char) :
    readString .plain read (cs.flatMap escape ++ '"' :: rest) =
      some (String.ofList (read.reverse ++ cs), rest) := by
  induction cs generalizing read with
  | nil => rw [List.flatMap_nil, List.nil_append, readString, List.append_nil]
  | cons c cs ih =>
      rw [List.flatMap_cons, List.append_assoc, readString_escape, ih, List.reverse_cons,
        List.append_assoc]
      rfl

/-- A quoted string is read up to its closing quote, whatever follows. -/
theorem readString_quoted (s : String) (rest : List Char) :
    ∃ body, quoted s ++ rest = '"' :: body ∧ readString .plain [] body = some (s, rest) := by
  refine ⟨s.toList.flatMap escape ++ '"' :: rest, ?_, ?_⟩
  · simp [quoted]
  · rw [readString_flatMap, List.reverse_nil, List.nil_append, String.ofList_toList]

end DebugArrays.Json
