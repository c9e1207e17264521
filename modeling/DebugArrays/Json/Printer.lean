import DebugArrays.Json.Document
import DebugArrays.Binary.Text

/-!
Writing JSON text: compact, members in the order of the tree, and escapes only where the format
demands them. A written text holds no control character, so it always stands on one line.
-/
namespace DebugArrays.Json

/-- Doubles are positional from 10^-5 up to below 10^16 and always show a fraction or an exponent.
-/
def doubleStyle : FloatStyle where
  positional lead := decide (-5 ≤ lead ∧ lead ≤ 15)
  wholeMark := ['.', '0']
  tie := .even
  nan := "null".toList
  infinity _ := "null".toList

/-- The narrow format ends earlier on both sides. -/
def singleStyle : FloatStyle :=
  { doubleStyle with positional lead := decide (-6 ≤ lead ∧ lead ≤ 12) }

def escape (c : Char) : List Char :=
  match c with
  | '"' => ['\\', '"']
  | '\\' => ['\\', '\\']
  | '\x08' => ['\\', 'b']
  | '\x0c' => ['\\', 'f']
  | '\n' => ['\\', 'n']
  | '\r' => ['\\', 'r']
  | '\t' => ['\\', 't']
  | c => if c.toNat < 0x20 then '\\' :: 'u' :: Text.hexadecimalPadded 4 c.toNat else [c]

def quoted (s : String) : List Char :=
  '"' :: s.toList.flatMap escape ++ ['"']

def numberText : JsonNumber → List Char
  | .integer n _ => Text.integer n
  | .double x _ => x.text doubleStyle

mutual

def chars : Json → List Char
  | .null => "null".toList
  | .bool true => "true".toList
  | .bool false => "false".toList
  | .number n => numberText n
  | .string s => quoted s
  | .array items => '[' :: itemChars items
  | .object members => '\x7b' :: memberChars members

/-- The rest of an array after its opening bracket. -/
def itemChars : List Json → List Char
  | [] => [']']
  | [item] => chars item ++ [']']
  | item :: next :: rest => chars item ++ ',' :: itemChars (next :: rest)

/-- The rest of an object after its opening brace. -/
def memberChars : List (String × Json) → List Char
  | [] => ['\x7d']
  | [(key, value)] => quoted key ++ ':' :: (chars value ++ ['\x7d'])
  | (key, value) :: next :: rest =>
    quoted key ++ ':' :: (chars value ++ ',' :: memberChars (next :: rest))

end

def compact (j : Json) : String :=
  String.ofList j.chars

end DebugArrays.Json

namespace DebugArrays

def Document.compact (d : Document) : String :=
  d.tree.compact

end DebugArrays
