import DebugArrays.Types.Primitive

/-!
Interpreter values. An integer carries its kind and a proof that it fits, a reference the synthetic
address of a debuggee object and the name of its type; address 0 is the null reference.
-/
namespace DebugArrays

inductive Value where
  | int (kind : IntKind) (n : Int) (inRange : kind.Contains n)
  | float (precision : Precision) (x : Binary precision)
  | bool (b : Bool)
  | char (c : Char)
  | string (s : String)
  | ref (address : UInt64) (typeName : String)
deriving DecidableEq, Repr

namespace Value

def ofInt? (kind : IntKind) (n : Int) : Option Value :=
  if h : kind.Contains n then some (.int kind n h) else none

/-- The type of a primitive value; a reference has none. -/
def primitive? : Value → Option Primitive
  | .int kind _ _ => some (.int kind)
  | .float precision _ => some (.float precision)
  | .bool _ => some .bool
  | .char _ => some .char
  | .string _ => some .string
  | .ref _ _ => none

def typeName : Value → String
  | .int kind _ _ => (Primitive.int kind).keyword
  | .float precision _ => (Primitive.float precision).keyword
  | .bool _ => Primitive.bool.keyword
  | .char _ => Primitive.char.keyword
  | .string _ => Primitive.string.keyword
  | .ref _ typeName => typeName

def isNull : Value → Bool
  | .ref address _ => address == 0
  | _ => false

def null (typeName : String) : Value :=
  .ref 0 typeName

def toInt? : Value → Option Int
  | .int _ n _ => some n
  | _ => none

/-- Equality as the interpreter sees it: like equality of data, but floats compare as numbers. -/
def equals : Value → Value → Bool
  | .float .single x, .float .single y => x.numEq y
  | .float .double x, .float .double y => x.numEq y
  | a, b => a == b

end Value

end DebugArrays
