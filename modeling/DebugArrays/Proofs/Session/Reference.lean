import DebugArrays.Server.Handler
import Mathlib.Logic.Function.Basic

/-!
The reference for a session. For each name it keeps a list of entries with their type and rank, and
it answers requests from the list alone: without handles, ledger, cache or heap.
-/
namespace DebugArrays

/-- What a name stands for. A null element is an entry without a value. -/
structure StoredArray where
  element : Primitive
  rank : UInt32
  entries : List (Option Value)

namespace StoredArray

/-- The entries that a snapshot lists; what is no value of the element type is left empty. -/
def ofSnapshot? (s : ArraySnapshot) : Option StoredArray :=
  (Primitive.ofName? s.elementType).map fun p =>
    { element := p, rank := s.rank, entries := s.elements.map fun e => Value.ofJson? e.tree p }

def type (a : StoredArray) : DebugType :=
  if a.rank = 1 then .szArray (.primitive a.element) else .mdArray (.primitive a.element) a.rank

/-- The place in the list that an index stands for. -/
def place? (a : StoredArray) (index : Int64) : Option Nat :=
  if a.rank = 1 ∧ 0 ≤ index.toInt ∧ index.toInt < a.entries.length then some index.toInt.toNat
  else none

def lengthAnswer (length? : Option Nat) : Response :=
  match length? with
  | some n => .length true (.ofNat n)
  | none => .length false 0

def entryText : Option Value → String
  | some v => v.display
  | none => "null"

def elementAnswer (a : StoredArray) (name : String) (index : Int64) (place : Option Nat) :
    Except RequestError Response :=
  if a.rank = 1 then
    match place.bind fun i => a.entries[i]? with
    | some entry => .ok (.element (entryText entry) a.element.keyword)
    | none => .error (.elementNotFound name index)
  else .error (.unsupportedShape name a.type.name)

def storeAnswer (a : StoredArray) (value : Document) (place : Option Nat) :
    Except RequestError Response :=
  match Value.ofJson? value.tree a.element with
  | some _ => .ok (.stored place.isSome)
  | none => .error (.typeMismatch a.element.keyword value.compact)

/-- The array with a decoded value at a place, where there are both. -/
def write (a : StoredArray) (value : Document) (place : Option Nat) : StoredArray :=
  match Value.ofJson? value.tree a.element, place with
  | some v, some i => { a with entries := a.entries.set i (some v) }
  | _, _ => a

end StoredArray

abbrev Reference := String → Option StoredArray

/-- The snapshot that a name stands for: the last one that has it. -/
def lastNamed (snapshots : List ArraySnapshot) (name : String) : Option ArraySnapshot :=
  snapshots.reverse.find? fun s => s.name == name

namespace Reference

def ofSnapshots (snapshots : List ArraySnapshot) : Reference :=
  fun name => (lastNamed snapshots name).bind StoredArray.ofSnapshot?

def withArray (contents : Reference) (name : String)
    (next : StoredArray → Except RequestError Response) : Except RequestError Response :=
  match contents name with
  | some a => next a
  | none => .error (.unknownArray name)

theorem withArray_congr {contents : Reference} {name : String}
    {f g : StoredArray → Except RequestError Response}
    (same : ∀ a, contents name = some a → f a = g a) :
    contents.withArray name f = contents.withArray name g := by
  unfold withArray
  cases found : contents name with
  | none => rfl
  | some a => exact same a found

/-- The answer to a request. The ledger is none of the reference's concerns. -/
def answer (contents : Reference) : Request → Option Response
  | .length name =>
    some <| Handler.respond <| contents.withArray name fun a =>
      .ok (StoredArray.lengthAnswer (if a.rank = 1 then some a.entries.length else none))
  | .element name index =>
    some <| Handler.respond <| contents.withArray name fun a =>
      a.elementAnswer name index (a.place? index)
  | .store name index value =>
    some <| Handler.respond <| contents.withArray name fun a =>
      a.storeAnswer value (a.place? index)
  | _ => none

/-- Only a store changes what is kept. -/
def after (contents : Reference) : Request → Reference
  | .store name index value =>
    Function.update contents name
      ((contents name).map fun a => a.write value (a.place? index))
  | _ => contents

def answers (contents : Reference) : List Request → List (Option Response)
  | [] => []
  | r :: rest => contents.answer r :: (contents.after r).answers rest

end Reference

namespace Request

def isQuery : Request → Bool
  | .length _ | .element _ _ | .store _ _ _ | .stats => true
  | .load _ | .shutdown => false

end Request

end DebugArrays
