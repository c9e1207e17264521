import DebugArrays.Heap.Basic
import DebugArrays.Json.Printer
import DebugArrays.Value.Coerce

/-!
Array snapshots as a front-end sends them, and the heap object a well-formed one describes. Checks
come in a fixed order: element type, rank, shape, then the elements from first to last.
-/
namespace DebugArrays

structure ArraySnapshot where
  name : String
  elementType : String
  elements : List Document := []
  /-- Hold the array by a reference; without a choice the session decides. -/
  byReference : Option Bool := none
  rank : UInt32 := 1

inductive SnapshotError where
  | unknownElementType (name : String)
  | invalidRank (array : String) (rank : UInt32)
  | shapeMismatch (array : String) (length : Nat) (rank : UInt32)
  | elementMismatch (array : String) (index : Nat) (expected : Primitive) (found : Document)

def SnapshotError.message : SnapshotError → String
  | .unknownElementType name => "Unknown element type: '" ++ name ++ "'"
  | .invalidRank array rank =>
    "Invalid rank " ++ .ofList (Text.natural rank.toNat) ++ " for array '" ++ array ++ "'"
  | .shapeMismatch array length rank =>
    .ofList (Text.natural length) ++ " elements do not fill a rank-" ++
      .ofList (Text.natural rank.toNat) ++ " array '" ++ array ++ "'"
  | .elementMismatch array index expected found =>
    "Element " ++ .ofList (Text.natural index) ++ " of '" ++ array ++ "' is not a valid " ++
      expected.keyword ++ ": " ++ found.compact

/-- The shapes a snapshot can have. Only a grid's length is tied to its rank. -/
inductive Shape where
  | vector
  | grid (rank : UInt32) (several : 1 < rank.toNat)

namespace Shape

def ofRank? (rank : UInt32) : Option Shape :=
  if h : 1 < rank.toNat then some (.grid rank h)
  else if rank = 1 then some .vector
  else none

/-- A grid is filled by a multiple of its rank. -/
def holds : Shape → Nat → Bool
  | .vector, _ => true
  | .grid rank _, length => length % rank.toNat == 0

def type (element : Primitive) : Shape → DebugType
  | .vector => .szArray (.primitive element)
  | .grid rank _ => .mdArray (.primitive element) rank

end Shape

def Slot.ofDocument? (p : Primitive) (element : Document) : Option Slot :=
  if element.tree.isNull then some .null else (Value.ofJson? element.tree p).map .value

namespace ArraySnapshot

/-- Slots of the elements from an index on; the first that is no `p` is the error. -/
def readSlots (array : String) (p : Primitive) :
    Nat → List Document → Except SnapshotError (List Slot)
  | _, [] => .ok []
  | index, element :: rest =>
    match Slot.ofDocument? p element with
    | none => .error (.elementMismatch array index p element)
    | some slot => (readSlots array p (index + 1) rest).map (slot :: ·)

def toObject (s : ArraySnapshot) : Except SnapshotError HeapObject :=
  match Primitive.ofName? s.elementType with
  | none => .error (.unknownElementType s.elementType)
  | some p =>
    match Shape.ofRank? s.rank with
    | none => .error (.invalidRank s.name s.rank)
    | some shape =>
      if shape.holds s.elements.length then
        (readSlots s.name p 0 s.elements).map fun slots => ⟨shape.type p, slots⟩
      else .error (.shapeMismatch s.name s.elements.length s.rank)

end ArraySnapshot

end DebugArrays
