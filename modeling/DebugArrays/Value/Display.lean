import DebugArrays.Binary.Text
import DebugArrays.Value.Basic

/-!
Values as users see them. Floats are written out positionally with the fewest digits that read back,
characters and strings stand between quotes without escapes, and references show type and address.
-/
namespace DebugArrays.Value

/-- Positional at every size, whole numbers bare, and a tie between two digits goes up. -/
def floatStyle : FloatStyle where
  positional _ := true
  wholeMark := []
  tie := .up
  nan := "NaN".toList
  infinity negative := if negative then "-inf".toList else "inf".toList

def displayChars : Value → List Char
  | .int _ n _ => Text.integer n
  | .float _ x => x.text floatStyle
  | .bool b => if b then "true".toList else "false".toList
  | .char c => ['\'', c, '\'']
  | .string s => '"' :: s.toList ++ ['"']
  | .ref address typeName =>
    if address = 0 then "null".toList
    else '\x7b' :: typeName.toList ++ "\x7d @ 0x".toList ++ Text.hexadecimal address.toNat

def display (v : Value) : String :=
  String.ofList v.displayChars

end DebugArrays.Value
