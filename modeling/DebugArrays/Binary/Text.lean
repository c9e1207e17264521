import DebugArrays.Binary.Decimal

/-!
Binary numbers as text. The digits are the shortest that read back; a style says where positional
notation ends and how whole numbers, ties and the values that are no numbers are written.
-/
namespace DebugArrays

structure FloatStyle where
  /-- Leading decimal exponents that are written without an exponent part. -/
  positional : Int → Bool
  /-- Follows a positional number that has no fraction. -/
  wholeMark : List Char
  tie : Tie
  nan : List Char
  /-- By sign. -/
  infinity : Bool → List Char

namespace Decimal

/-- Significant digits, trailing zeros dropped; none for zero. -/
def significant (d : Decimal) : List Char :=
  ((Text.natural d.coefficient).reverse.dropWhile (· == '0')).reverse

def lead (d : Decimal) : Int :=
  digitCount d.coefficient - 1 + d.exponent

def positionalText (wholeMark : List Char) (digits : List Char) (lead : Int) : List Char :=
  if lead < 0 then
    ['0', '.'] ++ List.replicate (-lead - 1).toNat '0' ++ digits
  else
    let width := lead.toNat + 1
    let whole := digits.take width ++ List.replicate (width - digits.length) '0'
    match digits.drop width with
    | [] => whole ++ wholeMark
    | fraction => whole ++ '.' :: fraction

/-- One digit, the others after a point, and the exponent with its sign. -/
def scientificText (digits : List Char) (lead : Int) : List Char :=
  let mantissa := match digits with
    | first :: next :: others => first :: '.' :: next :: others
    | short => short
  mantissa ++ 'e' :: (if lead < 0 then '-' else '+') :: Text.natural lead.natAbs

def text (style : FloatStyle) (d : Decimal) : List Char :=
  if style.positional d.lead then positionalText style.wholeMark d.significant d.lead
  else scientificText d.significant d.lead

end Decimal

def Binary.text {p : Precision} (style : FloatStyle) (x : Binary p) : List Char :=
  if x.isNaN then style.nan
  else if x.isInfinite then style.infinity x.negative
  else
    let digits := (Decimal.shortest p style.tie x.code).text style
    if x.negative then '-' :: digits else digits

end DebugArrays
