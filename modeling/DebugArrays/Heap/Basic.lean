import DebugArrays.Types.DebugType
import DebugArrays.Value.Basic

/-!
The debuggee's objects: arrays of slots, each with a runtime type. Ids count from zero in the order
of allocation and are never reused, so a heap is a list.
-/
namespace DebugArrays

abbrev ObjectId := Nat

inductive Slot where
  | value (v : Value)
  | object (id : ObjectId)
  | null
deriving DecidableEq, Repr

structure HeapObject where
  type : DebugType
  slots : List Slot
deriving DecidableEq, Repr

abbrev Heap := List HeapObject

namespace Heap

def object? (heap : Heap) (id : ObjectId) : Option HeapObject :=
  heap[id]?

def slot? (heap : Heap) (id : ObjectId) (index : Nat) : Option Slot :=
  (heap.object? id).bind fun object => object.slots[index]?

def hasSlot (heap : Heap) (id : ObjectId) (index : Nat) : Bool :=
  (heap.slot? id index).isSome

/-- Overwrites one slot. A place that does not exist is left alone. -/
def setSlot (heap : Heap) (id : ObjectId) (index : Nat) (slot : Slot) : Heap :=
  heap.modify id fun object => { object with slots := object.slots.set index slot }

/-- Cuts an object to a length, or fills it up with nulls. -/
def resize (heap : Heap) (id : ObjectId) (length : Nat) : Heap :=
  heap.modify id fun object =>
    { object with
      slots := object.slots.take length ++ List.replicate (length - object.slots.length) .null }

def retype (heap : Heap) (id : ObjectId) (type : DebugType) : Heap :=
  heap.modify id fun object => { object with type }

/-- The runtime type of an object. An id without one has a type that is no array. -/
def typeOf (heap : Heap) (id : ObjectId) : DebugType :=
  ((heap.object? id).map HeapObject.type).getD (.named "<invalid>")

/-- Objects lie 16 apart from 4096 on. An id whose address does not fit 64 bits has none. -/
def address? (id : ObjectId) : Option UInt64 :=
  let address := 0x1000 + id * 0x10
  if address < 0x1_0000_0000_0000_0000 then some (.ofNat address) else none

@[simp] theorem slot?_setSlot_self {heap : Heap} {id : ObjectId} {index : Nat} {slot : Slot}
    (h : heap.hasSlot id index = true) :
    (heap.setSlot id index slot).slot? id index = some slot := by
  unfold hasSlot slot? object? at h
  unfold slot? object? setSlot
  cases found : heap[id]? with
  | none => simp [found] at h
  | some object =>
    have inside : index < object.slots.length := by simpa [found] using h
    simp [List.getElem?_modify_eq, found, inside]

theorem slot?_setSlot_of_ne {heap : Heap} {id other : ObjectId} {index place : Nat} {slot : Slot}
    (h : other ≠ id ∨ place ≠ index) :
    (heap.setSlot id index slot).slot? other place = heap.slot? other place := by
  unfold slot? object? setSlot
  by_cases same : id = other
  · subst same
    have apart : index ≠ place := fun e => h.elim (fun n => n rfl) (fun n => n e.symm)
    cases found : heap[id]? with
    | none => simp [List.getElem?_modify_eq, found]
    | some object => simp [List.getElem?_modify_eq, found, List.getElem?_set_ne apart]
  · simp [List.getElem?_modify_ne _ _ same]

@[simp] theorem length_setSlot (heap : Heap) (id : ObjectId) (index : Nat) (slot : Slot) :
    (heap.setSlot id index slot).length = heap.length := by
  simp [setSlot]

end Heap

end DebugArrays
