/-!
Binary floating point in the two interchange widths, as exact data. A number is a sign and a code:
the bits below the sign read as one natural number. Codes grow with the absolute value, so that the
next code is the next number, across powers of two and up to infinity.
-/
namespace DebugArrays

inductive Precision where
  | single
  | double
deriving DecidableEq, Repr

namespace Precision

def fractionBits : Precision → Nat
  | .single => 23
  | .double => 52

def exponentBits : Precision → Nat
  | .single => 8
  | .double => 11

/-- Bits of a code, the sign left out. -/
def codeBits (p : Precision) : Nat :=
  p.exponentBits + p.fractionBits

/-- The smallest positive number is `2 ^ -scale`, and every finite number is a multiple of it. -/
def scale : Precision → Nat
  | .single => 149
  | .double => 1074

/-- The code of infinity; every larger code is a NaN. -/
def infinityCode (p : Precision) : Nat :=
  (Nat.pow 2 p.exponentBits - 1) * Nat.pow 2 p.fractionBits

theorem infinityCode_lt (p : Precision) : p.infinityCode + 1 < Nat.pow 2 p.codeBits := by
  cases p <;> decide

/-- The finite number with a code, counted in smallest positive numbers. -/
def steps (p : Precision) (code : Nat) : Nat :=
  let exponent := code / Nat.pow 2 p.fractionBits
  let fraction := code % Nat.pow 2 p.fractionBits
  if exponent = 0 then fraction
  else (Nat.pow 2 p.fractionBits + fraction) * Nat.pow 2 (exponent - 1)

end Precision

/-- A binary floating point number of one precision, NaNs and both zeros included. -/
structure Binary (p : Precision) where
  negative : Bool
  code : Nat
  code_lt : code < Nat.pow 2 p.codeBits
deriving DecidableEq, Repr

abbrev Binary32 := Binary .single

abbrev Binary64 := Binary .double

namespace Binary

variable {p : Precision}

def isNaN (x : Binary p) : Bool :=
  decide (p.infinityCode < x.code)

def isInfinite (x : Binary p) : Bool :=
  decide (x.code = p.infinityCode)

def isFinite (x : Binary p) : Bool :=
  decide (x.code < p.infinityCode)

def zero (p : Precision) (negative : Bool) : Binary p :=
  ⟨negative, 0, Nat.two_pow_pos _⟩

def infinity (p : Precision) (negative : Bool) : Binary p :=
  ⟨negative, p.infinityCode, Nat.lt_of_succ_lt p.infinityCode_lt⟩

def nan (p : Precision) : Binary p :=
  ⟨false, p.infinityCode + 1, p.infinityCode_lt⟩

/-- The interchange bits: the sign above the code. -/
def bits (x : Binary p) : Nat :=
  (if x.negative then Nat.pow 2 p.codeBits else 0) + x.code

/-- Reads interchange bits; bits above the sign are dropped. -/
def ofBits (p : Precision) (n : Nat) : Binary p :=
  ⟨n / Nat.pow 2 p.codeBits % 2 = 1, n % Nat.pow 2 p.codeBits, Nat.mod_lt _ (Nat.two_pow_pos _)⟩

theorem ofBits_bits (x : Binary p) : ofBits p x.bits = x := by
  obtain ⟨negative, code, code_lt⟩ := x
  have pos : 0 < Nat.pow 2 p.codeBits := Nat.two_pow_pos _
  cases negative with
  | false => simp [ofBits, bits, -Nat.pow_eq, Nat.div_eq_of_lt code_lt, Nat.mod_eq_of_lt code_lt]
  | true =>
    simp [ofBits, bits, -Nat.pow_eq, Nat.add_div_left _ pos, Nat.div_eq_of_lt code_lt,
      Nat.mod_eq_of_lt code_lt]

/-- Equality of numbers: a NaN equals nothing, and the two zeros are equal. -/
def numEq (x y : Binary p) : Bool :=
  !x.isNaN && !y.isNaN && x.code == y.code && (x.code == 0 || x.negative == y.negative)

end Binary

end DebugArrays
