import DebugArrays.Array.View
import DebugArrays.NameTable
import DebugArrays.Protocol.Response
import DebugArrays.Server.RequestError
import DebugArrays.Value.Display

/-!
The arrays of one session, by name. Opening loads snapshots and wraps one handle for each name; the
requests look an array up and use its view; closing gives every handle back.
-/
namespace DebugArrays

abbrev ArrayTable := NameTable ArrayView

namespace ArrayTable

/-- Gives back the handle of every array, and whatever is still recorded. -/
def close (arrays : ArrayTable) : Eval Unit := do
  Eval.releaseAll (arrays.values.map ArrayView.handle)
  Eval.clearRecorded

/-- Loads a snapshot and names it. An array that had the name before is given back. -/
def add (byReference : Bool) (arrays : ArrayTable) (s : ArraySnapshot) :
    Eval (Except SnapshotError ArrayTable) := do
  match ← Eval.load s with
  | .error e => return .error e
  | .ok id =>
    let h ← if s.byReference.getD byReference then Handle.reference id else Handle.object id
    let view ← ArrayView.ofHandle h
    match arrays.find? s.name with
    | some previous => previous.handle.release
    | none => pure ()
    return .ok (arrays.insert s.name view)

/-- Adds snapshots one after the other. The first that is not well formed closes the table. -/
def addAll (byReference : Bool) : ArrayTable → List ArraySnapshot →
    Eval (Except SnapshotError ArrayTable)
  | arrays, [] => return .ok arrays
  | arrays, s :: rest => do
    match ← add byReference arrays s with
    | .ok arrays => addAll byReference arrays rest
    | .error e =>
      close arrays
      return .error e

/-- The length of an array; the table keeps the view that remembers it. -/
def length (arrays : ArrayTable) (name : String) :
    Eval (Except RequestError Response × ArrayTable) := do
  match arrays.find? name with
  | none => return (.error (.unknownArray name), arrays)
  | some view =>
    let (n, view) ← view.length
    let response := match n with
      | some n => Response.length true (.ofNat n.toNat)
      | none => Response.length false 0
    return (.ok response, arrays.insert name view)

def element (arrays : ArrayTable) (name : String) (index : Int64) :
    Eval (Except RequestError Response) := do
  match arrays.find? name with
  | none => return .error (.unknownArray name)
  | some view =>
    match ← view.load index.toInt with
    | some v => return .ok (.element v.display v.typeName)
    | none =>
      if view.isSz then return .error (.elementNotFound name index)
      else return .error (.unsupportedShape name view.type.name)

/-- The primitive type of an array's elements, going by the declared type. -/
def elementType? (view : ArrayView) : Option Primitive :=
  view.type.withoutByRef.element?.bind DebugType.primitive?

/-- Stores a JSON value. The value is judged first, then shape and index, then the debuggee. -/
def store (arrays : ArrayTable) (name : String) (index : Int64) (value : Document) :
    Eval (Except RequestError Response) := do
  match arrays.find? name with
  | none => return .error (.unknownArray name)
  | some view =>
    match elementType? view with
    | none => return .error (.unsupportedShape name view.type.name)
    | some p =>
      match Value.ofJson? value.tree p with
      | none => return .error (.typeMismatch p.keyword value.compact)
      | some v =>
        match view.szIndex? index.toInt with
        | none => return .ok (.stored false)
        | some index => return .ok (.stored (← view.write index v))

end ArrayTable

end DebugArrays
