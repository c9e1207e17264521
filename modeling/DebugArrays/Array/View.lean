import DebugArrays.World.Evaluation

/-!
How the interpreter sees a debuggee array. A view owns one handle. It fixes when it is made whether
the declared type is single-dimensional and zero-based, and asks for the length at most once.
-/
namespace DebugArrays

/-- The last index that element access takes. -/
def maxArrayIndex : Int := 0xFFFF_FFFF

/-- An interpreter index as an index into an array, if it lies in the window of element access. -/
def elementIndex? (index : Int) : Option UInt32 :=
  if 0 ≤ index ∧ index ≤ maxArrayIndex then some (.ofNat index.toNat) else none

/-- What is known of a length. A query that failed is not repeated. -/
inductive LengthCache where
  | uninitialized
  | known (length : UInt32)
  | error
deriving DecidableEq, Repr

def LengthCache.length? : LengthCache → Option UInt32
  | .known length => some length
  | _ => none

structure ArrayView where
  handle : Handle
  isSz : Bool
  cache : LengthCache := .uninitialized
deriving DecidableEq, Repr

namespace ArrayView

/-- The declared type, which may be a managed pointer to the array type. -/
def type (view : ArrayView) : DebugType :=
  view.handle.type

/-- Takes a handle that is not null and has an array type. -/
def ofHandle (h : Handle) : Eval ArrayView := do
  Eval.check (!h.isNull)
  let declared := h.type.withoutByRef
  Eval.check declared.isArray
  return { handle := h, isSz := declared.isSzArray }

/-- Runs a step on one element of the array, at an index inside the window. -/
def withElement {α : Type} (view : ArrayView) (index : UInt32) (step : Handle → Eval α) :
    Eval (Option α) := do
  let found ← view.handle.withObject fun object => do
    match ← object.elementAt index with
    | none => return none
    | some element => return some (← step element)
  return found.join

/-- An element of an array of any shape, kept alive until the evaluation ends. -/
def read (view : ArrayView) (index : Int) : Eval (Option Handle) :=
  match elementIndex? index with
  | none => return none
  | some index => view.withElement index Handle.record

/-- Writes an element of an array of any shape; the answer says whether the debuggee took it. -/
def write (view : ArrayView) (index : UInt32) (v : Value) : Eval Bool :=
  view.handle.write index v

/-- The index of an operation that only single-dimensional zero-based arrays have. -/
def szIndex? (view : ArrayView) (index : Int) : Option UInt32 :=
  if view.isSz then elementIndex? index else none

def load (view : ArrayView) (index : Int) : Eval (Option Value) :=
  match view.szIndex? index with
  | none => return none
  | some index => view.withElement index Handle.consume

/-- Hands a value to the debuggee. False only where shape or index rule the store out: what the
debuggee makes of the value is not reported. -/
def store (view : ArrayView) (index : Int) (v : Value) : Eval Bool :=
  match view.szIndex? index with
  | none => return false
  | some index => do
    let _ ← view.write index v
    return true

def queryLength (view : ArrayView) : Eval LengthCache :=
  if view.isSz then do
    let answer ← view.handle.withObject fun object =>
      if object.type.isSzArray then object.slotCount else return none
    return match answer.join with
      | some length => .known length
      | none => .error
  else return .error

/-- The length, and the view that remembers it. -/
def length (view : ArrayView) : Eval (Option UInt32 × ArrayView) :=
  match view.cache with
  | .uninitialized => do
    let cache ← view.queryLength
    return (cache.length?, { view with cache })
  | cache => return (cache.length?, view)

end ArrayView

end DebugArrays
