/-!
Whole numbers as text: decimal with a sign, and hexadecimal in lower case.
-/
namespace DebugArrays.Text

def natural (n : Nat) : List Char :=
  Nat.toDigits 10 n

def integer (n : Int) : List Char :=
  if n < 0 then '-' :: natural n.natAbs else natural n.natAbs

def hexadecimal (n : Nat) : List Char :=
  Nat.toDigits 16 n

/-- At least `width` hexadecimal digits, with leading zeros where they are needed. -/
def hexadecimalPadded (width n : Nat) : List Char :=
  let digits := hexadecimal n
  List.replicate (width - digits.length) '0' ++ digits

/-- The value of one hexadecimal digit, in either case. -/
def hexDigit? (c : Char) : Option Nat :=
  if '0' ≤ c ∧ c ≤ '9' then some (c.toNat - '0'.toNat)
  else if 'a' ≤ c ∧ c ≤ 'f' then some (c.toNat - 'a'.toNat + 10)
  else if 'A' ≤ c ∧ c ≤ 'F' then some (c.toNat - 'A'.toNat + 10)
  else none

def ofHexadecimal? (cs : List Char) : Option Nat :=
  if cs.isEmpty then none
  else cs.foldlM (fun n c => (hexDigit? c).map (16 * n + ·)) 0

/-- A run of decimal digits as a number; the empty run is 0. -/
def ofDigits (cs : List Char) : Nat :=
  Nat.ofDigitChars 10 cs 0

@[simp] theorem ofDigits_natural (n : Nat) : ofDigits (natural n) = n :=
  Nat.ofDigitChars_ten_toDigits

end DebugArrays.Text
