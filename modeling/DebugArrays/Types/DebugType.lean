import DebugArrays.Types.Primitive

/-!
Types of debuggee data, as far as array access needs them: the shape of arrays, what they hold, and
managed pointers, which one operation strips.
-/
namespace DebugArrays

inductive DebugType where
  | primitive (p : Primitive)
  /-- One dimension, starting at zero. -/
  | szArray (element : DebugType)
  /-- Every other shape; rank 1 means a lower bound other than zero. -/
  | mdArray (element : DebugType) (rank : UInt32)
  | byRef (target : DebugType)
  | named (name : String)
deriving DecidableEq, Repr

namespace DebugType

def isArray : DebugType → Bool
  | .szArray _ => true
  | .mdArray _ _ => true
  | _ => false

def isSzArray : DebugType → Bool
  | .szArray _ => true
  | _ => false

def isByRef : DebugType → Bool
  | .byRef _ => true
  | _ => false

/-- What an array holds or a pointer points to. -/
def element? : DebugType → Option DebugType
  | .szArray element => some element
  | .mdArray element _ => some element
  | .byRef target => some target
  | _ => none

def rank? : DebugType → Option UInt32
  | .szArray _ => some 1
  | .mdArray _ rank => some rank
  | _ => none

def primitive? : DebugType → Option Primitive
  | .primitive p => some p
  | _ => none

/-- The type below one managed pointer, if there is one. -/
def withoutByRef : DebugType → DebugType
  | .byRef target => target
  | type => type

/-- What follows the element type of an array that is not single-dimensional and zero-based. -/
def rankSuffix (rank : UInt32) : List Char :=
  if rank ≤ 1 then ['[', '*', ']'] else '[' :: List.replicate (rank.toNat - 1) ',' ++ [']']

def nameChars : DebugType → List Char
  | .primitive p => p.keyword.toList
  | .szArray element => element.nameChars ++ ['[', ']']
  | .mdArray element rank => element.nameChars ++ rankSuffix rank
  | .byRef target => target.nameChars ++ ['&']
  | .named name => name.toList

def name (type : DebugType) : String :=
  String.ofList type.nameChars

theorem isArray_of_isSzArray {type : DebugType} (h : type.isSzArray = true) :
    type.isArray = true := by
  cases type <;> simp_all [isSzArray, isArray]

end DebugType

end DebugArrays
