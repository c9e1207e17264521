import DebugArrays.Binary.Round
import DebugArrays.Text.Numeral

/-!
Decimals `coefficient × 10 ^ exponent`, how they round to binary numbers, and the shortest decimal
that rounds back to a given one. The search is exact: on each decimal grid it tests the two
neighbours of the value, coarse grids first.
-/
namespace DebugArrays

structure Decimal where
  coefficient : Nat
  exponent : Int
deriving DecidableEq, Repr

/-- Which neighbour is taken when a value lies midway between two decimals that both read back. -/
inductive Tie where
  | up
  | even
deriving DecidableEq, Repr

def digitCount (n : Nat) : Nat :=
  (Text.natural n).length

namespace Decimal

def numerator (d : Decimal) : Nat :=
  d.coefficient * Nat.pow 10 d.exponent.toNat

def denominator (d : Decimal) : Nat :=
  Nat.pow 10 (-d.exponent).toNat

def readsAs (p : Precision) (code : Nat) (d : Decimal) : Bool :=
  p.nearestCode (d.numerator * Nat.pow 2 p.scale) d.denominator == code

/-- The exponent `e` with `10 ^ e ≤ num / den < 10 ^ (e + 1)`, for a positive quotient. -/
def leadingExponent (num den : Nat) : Int :=
  if den ≤ num then digitCount (num / den) - 1
  else -digitCount ((den - 1) / num)

/-- Of the two multiples of `10 ^ grid` around `num / den`, the one that reads as the code; where
both do, the nearer. -/
def neighbour? (p : Precision) (tie : Tie) (code num den : Nat) (grid : Int) : Option Decimal :=
  let scaled := num * Nat.pow 10 (-grid).toNat
  let unit := den * Nat.pow 10 grid.toNat
  let low := scaled / unit
  let rest := scaled % unit
  let below : Decimal := ⟨low, grid⟩
  let above : Decimal := ⟨low + 1, grid⟩
  match below.readsAs p code, above.readsAs p code with
  | false, false => none
  | true, false => some below
  | false, true => some above
  | true, true =>
    if 2 * rest < unit then some below
    else if unit < 2 * rest then some above
    else match tie with
      | .up => some above
      | .even => some (if low % 2 = 0 then below else above)

def exact (p : Precision) (code : Nat) : Decimal :=
  ⟨p.steps code * Nat.pow 5 p.scale, -p.scale⟩

/-- The decimal of fewest digits that reads as the code, nearest to it among those. Seventeen digits
are enough for either precision; `exact` stands behind them so that no bound has to be trusted. -/
def shortest (p : Precision) (tie : Tie) (code : Nat) : Decimal :=
  let num := p.steps code
  let den := Nat.pow 2 p.scale
  if num = 0 then ⟨0, 0⟩
  else
    let lead := leadingExponent num den
    ((List.range 17).findSome? fun (n : Nat) => neighbour? p tie code num den (lead - n)).getD
      (exact p code)

end Decimal

/-- The binary number nearest to `± d`. Far outside the range of either precision the answer is
known without the power of ten. -/
def Binary.ofDecimal (p : Precision) (negative : Bool) (d : Decimal) : Binary p :=
  let lead := digitCount d.coefficient + d.exponent
  if d.coefficient = 0 ∨ lead < -400 then .zero p negative
  else if 400 < lead then .infinity p negative
  else .ofQuotient p negative d.numerator d.denominator

end DebugArrays
