import DebugArrays.Heap.Basic

/-!
Handles to debuggee data. A handle names an object through a reference or directly, or is a null
reference, or holds a scalar; its type is the declared one.
-/
namespace DebugArrays

inductive Referent where
  | reference (id : ObjectId)
  | object (id : ObjectId)
  | null
  | scalar (v : Value)
deriving DecidableEq, Repr

structure Handle where
  referent : Referent
  type : DebugType
deriving DecidableEq, Repr

namespace Handle

/-- Whether the object has to be reached by a dereference. -/
def isReference (h : Handle) : Bool :=
  match h.referent with
  | .reference _ => true
  | .null => true
  | _ => false

def isNull (h : Handle) : Bool :=
  match h.referent with
  | .null => true
  | _ => false

def objectId? (h : Handle) : Option ObjectId :=
  match h.referent with
  | .reference id => some id
  | .object id => some id
  | _ => none

def scalar? (h : Handle) : Option Value :=
  match h.referent with
  | .scalar v => some v
  | _ => none

/-- What the interpreter holds for the data: the scalar, or an address of the handle's type. An
object without an address has no value. -/
def value? (h : Handle) : Option Value :=
  match h.referent with
  | .scalar v => some v
  | .reference id => (Heap.address? id).map fun address => .ref address h.type.name
  | .object id => (Heap.address? id).map fun address => .ref address h.type.name
  | .null => some (.null h.type.name)

end Handle

end DebugArrays
