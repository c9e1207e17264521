import DebugArrays.Json.Basic

/-!
Reading JSON text. Strings are read by a small machine over single characters, numbers by their four
parts, and values by recursion with two budgets: one for nesting, which is part of the format, and
one for steps, which the length of the text always covers.
-/
namespace DebugArrays

/-- The number of a token's parts. Without fraction and exponent it is an integer where 64 bits hold
it, `-0` excepted; all else is a double, which has to be finite. -/
def JsonNumber.ofParts? (negative : Bool) (whole : List Char) (fraction : Option (List Char))
    (exponent : Option Int) : Option JsonNumber :=
  let magnitude := Text.ofDigits whole
  let asInteger :=
    if fraction.isNone && exponent.isNone && !(negative && magnitude == 0) then
      JsonNumber.ofInt? (if negative then -magnitude else magnitude)
    else none
  match asInteger with
  | some n => some n
  | none =>
    let digits := fraction.getD []
    JsonNumber.ofDouble? (.ofDecimal .double negative
      ⟨Text.ofDigits (whole ++ digits), exponent.getD 0 - digits.length⟩)

namespace Json

def isSpace (c : Char) : Bool :=
  c == ' ' || c == '\t' || c == '\n' || c == '\r'

def skipSpace (cs : List Char) : List Char :=
  cs.dropWhile isSpace

/-- Where the reader stands inside a string. A high surrogate waits for its low half. -/
inductive StringState where
  | plain
  | escape
  | unicode (high : Option Nat) (left value : Nat)
  | awaitEscape (high : Nat)
  | awaitUnicode (high : Nat)

def escaped? : Char → Option Char
  | '"' => some '"'
  | '\\' => some '\\'
  | '/' => some '/'
  | 'b' => some '\x08'
  | 'f' => some '\x0c'
  | 'n' => some '\n'
  | 'r' => some '\r'
  | 't' => some '\t'
  | _ => none

/-- A full `\u` unit: a character, the first half of a pair, or nothing valid. -/
def StringState.ofUnit (high : Option Nat) (unit : Nat) : Option (StringState × Option Char) :=
  let isHigh := 0xD800 ≤ unit && unit ≤ 0xDBFF
  let isLow := 0xDC00 ≤ unit && unit ≤ 0xDFFF
  match high with
  | none =>
    if isHigh then some (.awaitEscape unit, none)
    else if isLow then none
    else some (.plain, some (.ofNat unit))
  | some high =>
    if isLow then
      some (.plain, some (.ofNat (0x10000 + (high - 0xD800) * 0x400 + (unit - 0xDC00))))
    else none

/-- One character inside a string, the closing quote excepted. -/
def StringState.step : StringState → Char → Option (StringState × Option Char)
  | .plain, c =>
    if c = '\\' then some (.escape, none)
    else if c.toNat < 0x20 then none
    else some (.plain, some c)
  | .escape, c =>
    if c = 'u' then some (.unicode none 4 0, none)
    else (escaped? c).map fun d => (.plain, some d)
  | .unicode high left value, c =>
    match Text.hexDigit? c with
    | none => none
    | some d =>
      if left ≤ 1 then StringState.ofUnit high (16 * value + d)
      else some (.unicode high (left - 1) (16 * value + d), none)
  | .awaitEscape high, c => if c = '\\' then some (.awaitUnicode high, none) else none
  | .awaitUnicode high, c => if c = 'u' then some (.unicode (some high) 4 0, none) else none

/-- Reads up to the closing quote; `read` holds the characters so far, last first. -/
def readString : StringState → List Char → List Char → Option (String × List Char)
  | _, _, [] => none
  | .plain, read, '"' :: rest => some (String.ofList read.reverse, rest)
  | state, read, c :: rest =>
    match state.step c with
    | none => none
    | some (next, none) => readString next read rest
    | some (next, some d) => readString next (d :: read) rest

/-- The digits at the front, at least one. -/
def readDigits (cs : List Char) : Option (List Char × List Char) :=
  match cs.takeWhile Char.isDigit with
  | [] => none
  | digits => some (digits, cs.dropWhile Char.isDigit)

/-- The whole part: a lone zero, or digits that start with another one. -/
def readWhole : List Char → Option (List Char × List Char)
  | '0' :: rest => some (['0'], rest)
  | cs => readDigits cs

def readFraction : List Char → Option (Option (List Char) × List Char)
  | '.' :: rest => (readDigits rest).map fun (digits, rest) => (some digits, rest)
  | cs => some (none, cs)

def readExponent : List Char → Option (Option Int × List Char)
  | c :: rest =>
    if c = 'e' ∨ c = 'E' then
      match rest with
      | '-' :: rest => (readDigits rest).map fun (digits, rest) =>
        (some (-(Text.ofDigits digits : Int)), rest)
      | '+' :: rest => (readDigits rest).map fun (digits, rest) =>
        (some (Text.ofDigits digits : Int), rest)
      | rest => (readDigits rest).map fun (digits, rest) =>
        (some (Text.ofDigits digits : Int), rest)
    else some (none, c :: rest)
  | [] => some (none, [])

def readNumber (cs : List Char) : Option (JsonNumber × List Char) := do
  let (negative, cs) := match cs with
    | '-' :: rest => (true, rest)
    | cs => (false, cs)
  let (whole, cs) ← readWhole cs
  let (fraction, cs) ← readFraction cs
  let (exponent, cs) ← readExponent cs
  let n ← JsonNumber.ofParts? negative whole fraction exponent
  return (n, cs)

mutual

/-- One value at the front of the text. `depth` counts the arrays and objects that may still open.
-/
def readValue : (fuel depth : Nat) → List Char → Option (Json × List Char)
  | 0, _, _ => none
  | fuel + 1, depth, cs =>
    match skipSpace cs with
    | 'n' :: 'u' :: 'l' :: 'l' :: rest => some (.null, rest)
    | 't' :: 'r' :: 'u' :: 'e' :: rest => some (.bool true, rest)
    | 'f' :: 'a' :: 'l' :: 's' :: 'e' :: rest => some (.bool false, rest)
    | '"' :: rest => (readString .plain [] rest).map fun (s, rest) => (.string s, rest)
    | '[' :: rest =>
      if depth = 0 then none
      else match skipSpace rest with
        | ']' :: rest => some (.array [], rest)
        | rest => (readItems fuel (depth - 1) rest).map fun (items, rest) => (.array items, rest)
    | '{' :: rest =>
      if depth = 0 then none
      else match skipSpace rest with
        | '}' :: rest => some (.object [], rest)
        | rest =>
          (readMembers fuel (depth - 1) rest).map fun (members, rest) => (.object members, rest)
    | cs => (readNumber cs).map fun (n, rest) => (.number n, rest)

/-- The items of an array up to its end, at least one. -/
def readItems : (fuel depth : Nat) → List Char → Option (List Json × List Char)
  | 0, _, _ => none
  | fuel + 1, depth, cs =>
    match readValue fuel depth cs with
    | none => none
    | some (item, rest) =>
      match skipSpace rest with
      | ']' :: rest => some ([item], rest)
      | ',' :: rest => (readItems fuel depth rest).map fun (items, rest) => (item :: items, rest)
      | _ => none

/-- The members of an object up to its end, at least one. -/
def readMembers : (fuel depth : Nat) → List Char → Option (List (String × Json) × List Char)
  | 0, _, _ => none
  | fuel + 1, depth, cs =>
    match skipSpace cs with
    | '"' :: rest =>
      match readString .plain [] rest with
      | none => none
      | some (key, rest) =>
        match skipSpace rest with
        | ':' :: rest =>
          match readValue fuel depth rest with
          | none => none
          | some (value, rest) =>
            match skipSpace rest with
            | '}' :: rest => some ([(key, value)], rest)
            | ',' :: rest =>
              (readMembers fuel depth rest).map fun (members, rest) =>
                ((key, value) :: members, rest)
            | _ => none
        | _ => none
    | _ => none

end

def maxDepth : Nat := 127

/-- The tree of a JSON text; blanks around it are allowed, anything else is not. -/
def parse? (text : String) : Option Json :=
  let cs := text.toList
  match readValue (2 * cs.length + 2) maxDepth cs with
  | some (j, rest) => if (skipSpace rest).isEmpty then some j else none
  | none => none

end Json

end DebugArrays
