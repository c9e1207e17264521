import DebugArrays.Array.View

/-!
The address of an array element. It names an array and an index and touches nothing until it is
used, so what it finds there is what the array holds at that time.
-/
namespace DebugArrays

structure ElementAddress where
  array : ArrayView
  index : Int
deriving DecidableEq, Repr

/-- The address of an element, where shape and index allow one. Whether there is such an element is
not asked. -/
def ArrayView.address? (view : ArrayView) (index : Int) : Option ElementAddress :=
  (view.szIndex? index).map fun _ => ⟨view, index⟩

namespace ElementAddress

def load (address : ElementAddress) : Eval (Option Value) :=
  address.array.load address.index

/-- The element itself, kept alive until the evaluation ends. -/
def read (address : ElementAddress) : Eval (Option Handle) :=
  if address.array.isSz then address.array.read address.index else return none

/-- Stores through the address; unlike a store to the array it answers what the debuggee did. -/
def store (address : ElementAddress) (v : Value) : Eval Bool :=
  match address.array.szIndex? address.index with
  | none => return false
  | some index => address.array.write index v

end ElementAddress

end DebugArrays
