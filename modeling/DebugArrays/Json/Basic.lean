import DebugArrays.Binary.Decimal

/-!
JSON trees as they were written: members keep their order and repeated keys stay. A number is an
integer of 64 bits, signed or unsigned, or a finite double; no token means anything else.
-/
namespace DebugArrays

/-- What 64 bits hold, with a sign or without. -/
abbrev IsWideInt (n : Int) : Prop :=
  -0x8000_0000_0000_0000 ≤ n ∧ n ≤ 0xFFFF_FFFF_FFFF_FFFF

inductive JsonNumber where
  | integer (n : Int) (inRange : IsWideInt n)
  | double (x : Binary64) (finite : x.isFinite = true)
deriving DecidableEq, Repr

inductive Json where
  | null
  | bool (b : Bool)
  | number (n : JsonNumber)
  | string (s : String)
  | array (items : List Json)
  | object (members : List (String × Json))
deriving Repr

namespace JsonNumber

def ofInt? (n : Int) : Option JsonNumber :=
  if h : IsWideInt n then some (.integer n h) else none

def ofDouble? (x : Binary64) : Option JsonNumber :=
  if h : x.isFinite = true then some (.double x h) else none

def toInt? : JsonNumber → Option Int
  | .integer n _ => some n
  | .double _ _ => none

def toDouble : JsonNumber → Binary64
  | .integer n _ => .ofInt .double n
  | .double x _ => x

end JsonNumber

namespace Json

def int64 (n : Int64) : Json :=
  .number (.integer n.toInt ⟨n.le_toInt, by have := n.toInt_lt; omega⟩)

def uint64 (n : UInt64) : Json :=
  .number (.integer n.toNat ⟨by omega, by have := n.toNat_lt; omega⟩)

def uint32 (n : UInt32) : Json :=
  .number (.integer n.toNat ⟨by omega, by have := n.toNat_lt; omega⟩)

def isNull : Json → Bool
  | .null => true
  | _ => false

def toBool? : Json → Option Bool
  | .bool b => some b
  | _ => none

def toString? : Json → Option String
  | .string s => some s
  | _ => none

def toNumber? : Json → Option JsonNumber
  | .number n => some n
  | _ => none

def toInt? (j : Json) : Option Int :=
  j.toNumber?.bind JsonNumber.toInt?

def toInt64? (j : Json) : Option Int64 :=
  j.toInt?.bind fun n =>
    if -0x8000_0000_0000_0000 ≤ n ∧ n ≤ 0x7FFF_FFFF_FFFF_FFFF then some (.ofInt n) else none

def toNatUpTo? (greatest : Nat) (j : Json) : Option Nat :=
  j.toInt?.bind fun n => if 0 ≤ n ∧ n ≤ greatest then some n.toNat else none

def toUInt64? (j : Json) : Option UInt64 :=
  (j.toNatUpTo? 0xFFFF_FFFF_FFFF_FFFF).map .ofNat

def toUInt32? (j : Json) : Option UInt32 :=
  (j.toNatUpTo? 0xFFFF_FFFF).map .ofNat

def toItems? : Json → Option (List Json)
  | .array items => some items
  | _ => none

def toMembers? : Json → Option (List (String × Json))
  | .object members => some members
  | _ => none

/-- A name that carries nothing: a string, or an object with the name as its only key over null. -/
def toName? : Json → Option String
  | .string name => some name
  | .object [(name, .null)] => some name
  | _ => none

/-- A name that carries nothing, where an empty object counts as nothing too. -/
def toLooseName? : Json → Option String
  | .object [(name, .object [])] => some name
  | j => j.toName?

def toNullable? {α : Type} (decode : Json → Option α) : Json → Option (Option α)
  | .null => some none
  | j => (decode j).map some

@[simp] theorem toInt64?_int64 (n : Int64) : (int64 n).toInt64? = some n := by
  have inRange : -0x8000_0000_0000_0000 ≤ n.toInt ∧ n.toInt ≤ 0x7FFF_FFFF_FFFF_FFFF :=
    ⟨n.le_toInt, Int.le_sub_one_of_lt n.toInt_lt⟩
  simp only [int64, toInt64?, toInt?, toNumber?, JsonNumber.toInt?, Option.bind_some,
    if_pos inRange, Int64.ofInt_toInt]

theorem toNatUpTo?_number {greatest n : Nat} (h : n ≤ greatest) (inRange) :
    (Json.number (.integer n inRange)).toNatUpTo? greatest = some n := by
  have both : (0 : Int) ≤ n ∧ (n : Int) ≤ greatest := by omega
  simp only [toNatUpTo?, toInt?, toNumber?, JsonNumber.toInt?, Option.bind_some, if_pos both,
    Int.toNat_natCast]

@[simp] theorem toUInt64?_uint64 (n : UInt64) : (uint64 n).toUInt64? = some n := by
  have small : n.toNat ≤ 0xFFFF_FFFF_FFFF_FFFF := Nat.le_sub_one_of_lt n.toNat_lt
  rw [uint64, toUInt64?, toNatUpTo?_number small, Option.map_some, UInt64.ofNat_toNat]

@[simp] theorem toUInt32?_uint32 (n : UInt32) : (uint32 n).toUInt32? = some n := by
  have small : n.toNat ≤ 0xFFFF_FFFF := Nat.le_sub_one_of_lt n.toNat_lt
  rw [uint32, toUInt32?, toNatUpTo?_number small, Option.map_some, UInt32.ofNat_toNat]

end Json

end DebugArrays
