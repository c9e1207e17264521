import DebugArrays.Heap.Snapshot
import DebugArrays.World.Scope
import DebugArrays.Value.Coerce

/-!
What an evaluation asks of its host: keeping elements alive, turning them into values, writing into
arrays, and loading snapshots.
-/
namespace DebugArrays

namespace Handle

/-- Keeps the handle until the evaluation ends; the answer is a second one for the caller. -/
def record (h : Handle) : Eval Handle := do
  let tracked ← h.duplicate
  modify fun w => { w with recorded := w.recorded ++ [h] }
  return tracked

/-- Turns a handle into the value behind it; the handle is used up. -/
def consume (h : Handle) : Eval Value := do
  let v ← h.value
  h.release
  return v

def slotFor? (p : Primitive) (v : Value) : Option Slot :=
  if v.isNull then some .null else (v.coerce? p).map .value

/-- Writes a value into the array behind a handle. The answer says whether a slot was written. -/
def write (array : Handle) (index : UInt32) (v : Value) : Eval Bool := do
  let written ← array.withObject fun object => do
    match object.objectId?, object.type.element?.bind DebugType.primitive? with
    | some id, some p =>
      match slotFor? p v with
      | none => return false
      | some slot =>
        let w ← get
        set { w with heap := w.heap.setSlot id index.toNat slot }
        return w.heap.hasSlot id index.toNat
    | _, _ => return false
  return written.getD false

end Handle

namespace Eval

def releaseAll : List Handle → Eval Unit
  | [] => pure ()
  | h :: rest => do
    h.release
    releaseAll rest

/-- The end of an evaluation: what was recorded is given back. -/
def clearRecorded : Eval Unit := do
  let w ← get
  set { w with recorded := [] }
  releaseAll w.recorded

/-- Loads a snapshot into the heap; one that is not well formed leaves the world as it is. -/
def load (s : ArraySnapshot) : Eval (Except SnapshotError ObjectId) := do
  match s.toObject with
  | .error e => return .error e
  | .ok object => return .ok (← alloc object.type object.slots)

end Eval

end DebugArrays
