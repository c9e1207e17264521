import DebugArrays.Binary.Basic
import DebugArrays.Text.Blank

/-!
The primitive element types: eight integer kinds with their ranges, two floating point precisions,
booleans, characters and strings. Each has one keyword, one wire tag and a few further spellings.
-/
namespace DebugArrays

inductive IntKind where
  | int8
  | uint8
  | int16
  | uint16
  | int32
  | uint32
  | int64
  | uint64
deriving DecidableEq, Repr

namespace IntKind

def signed : IntKind → Bool
  | .int8 | .int16 | .int32 | .int64 => true
  | .uint8 | .uint16 | .uint32 | .uint64 => false

def width : IntKind → Nat
  | .int8 | .uint8 => 8
  | .int16 | .uint16 => 16
  | .int32 | .uint32 => 32
  | .int64 | .uint64 => 64

def low (kind : IntKind) : Int :=
  if kind.signed then -(Nat.pow 2 (kind.width - 1) : Int) else 0

def high (kind : IntKind) : Int :=
  if kind.signed then (Nat.pow 2 (kind.width - 1) : Int) - 1 else (Nat.pow 2 kind.width : Int) - 1

abbrev Contains (kind : IntKind) (n : Int) : Prop :=
  kind.low ≤ n ∧ n ≤ kind.high

end IntKind

inductive Primitive where
  | bool
  | char
  | int (kind : IntKind)
  | float (precision : Precision)
  | string
deriving DecidableEq, Repr

namespace Primitive

/-- All thirteen, narrow types before wide ones. -/
def all : List Primitive :=
  [.bool, .char, .int .int8, .int .uint8, .int .int16, .int .uint16, .int .int32, .int .uint32,
    .int .int64, .int .uint64, .float .single, .float .double, .string]

theorem mem_all (p : Primitive) : p ∈ all := by
  cases p with
  | int kind => cases kind <;> decide
  | float precision => cases precision <;> decide
  | _ => decide

/-- The keyword that names the type in every text for a user. -/
def keyword : Primitive → String
  | .bool => "bool"
  | .char => "char"
  | .int .int8 => "sbyte"
  | .int .uint8 => "byte"
  | .int .int16 => "short"
  | .int .uint16 => "ushort"
  | .int .int32 => "int"
  | .int .uint32 => "uint"
  | .int .int64 => "long"
  | .int .uint64 => "ulong"
  | .float .single => "float"
  | .float .double => "double"
  | .string => "string"

/-- The name of the type in serialized descriptors. -/
def tag : Primitive → String
  | .bool => "bool"
  | .char => "char"
  | .int .int8 => "i8"
  | .int .uint8 => "u8"
  | .int .int16 => "i16"
  | .int .uint16 => "u16"
  | .int .int32 => "i32"
  | .int .uint32 => "u32"
  | .int .int64 => "i64"
  | .int .uint64 => "u64"
  | .float .single => "f32"
  | .float .double => "f64"
  | .string => "string"

/-- Spellings a front-end may use besides the keyword: runtime names and short forms. -/
def otherNames : Primitive → List String
  | .bool => ["Boolean"]
  | .char => ["Char"]
  | .int .int8 => ["SByte", "i8"]
  | .int .uint8 => ["Byte", "u8"]
  | .int .int16 => ["Int16", "i16"]
  | .int .uint16 => ["UInt16", "u16"]
  | .int .int32 => ["Int32", "int32", "i32"]
  | .int .uint32 => ["UInt32", "uint32", "u32"]
  | .int .int64 => ["Int64", "int64", "i64"]
  | .int .uint64 => ["UInt64", "uint64", "u64"]
  | .float .single => ["Single", "f32"]
  | .float .double => ["Double", "f64"]
  | .string => ["String"]

def names (p : Primitive) : List String :=
  p.keyword :: p.otherNames

def unqualified (name : String) : String :=
  let qualifier := "System.".toList
  if qualifier.isPrefixOf name.toList then .ofList (name.toList.drop qualifier.length)
  else name

/-- The type a front-end means by a name. Blanks around the name and one qualifier are ignored. -/
def ofName? (name : String) : Option Primitive :=
  let name := unqualified (Text.trim name)
  all.find? fun p => p.names.contains name

def ofTag? (tag : String) : Option Primitive :=
  all.find? fun p => p.tag == tag

theorem ofTag?_tag (p : Primitive) : ofTag? p.tag = some p := by
  cases p with
  | int kind => cases kind <;> decide
  | float precision => cases precision <;> decide
  | _ => decide

end Primitive

end DebugArrays
