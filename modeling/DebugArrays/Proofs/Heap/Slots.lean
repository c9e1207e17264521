import DebugArrays.Heap.Basic

/-!
What changes of one object do to a heap. Overwriting a slot changes that slot and nothing else, and
overwriting one that does not exist changes nothing.
-/
namespace DebugArrays

namespace Heap

variable {heap : Heap} {id other : ObjectId} {index : Nat} {slot : Slot} {object : HeapObject}

theorem map_type_modify {f : HeapObject → HeapObject}
    (kept : ∀ object, (f object).type = object.type) :
    (object? (heap.modify other f) id).map HeapObject.type =
      (heap.object? id).map HeapObject.type := by
  unfold object?
  rw [List.getElem?_modify]
  cases heap[id]? with
  | none => rfl
  | some object => by_cases same : other = id <;> simp [same, kept]

theorem map_type_setSlot (heap : Heap) (other id : ObjectId) (index : Nat) (slot : Slot) :
    ((heap.setSlot other index slot).object? id).map HeapObject.type =
      (heap.object? id).map HeapObject.type :=
  map_type_modify fun _ => rfl

theorem map_type_resize (heap : Heap) (other id : ObjectId) (length : Nat) :
    ((heap.resize other length).object? id).map HeapObject.type =
      (heap.object? id).map HeapObject.type :=
  map_type_modify fun _ => rfl

theorem object?_retype_of_ne (h : other ≠ id) (type : DebugType) :
    (heap.retype other type).object? id = heap.object? id :=
  List.getElem?_modify_ne _ _ h

theorem object?_concat {object : HeapObject} (there : heap.object? id = some object)
    (more : HeapObject) : object? (heap ++ [more]) id = some object :=
  (List.getElem?_append_left (List.getElem?_eq_some_iff.1 there).1).trans there

theorem object?_setSlot_self (h : heap.object? id = some object) (index : Nat) (slot : Slot) :
    (heap.setSlot id index slot).object? id =
      some { object with slots := object.slots.set index slot } := by
  unfold object? setSlot at *
  rw [List.getElem?_modify_eq, h]
  rfl

theorem object?_setSlot_of_ne (h : id ≠ other) (index : Nat) (slot : Slot) :
    (heap.setSlot id index slot).object? other = heap.object? other := by
  unfold object? setSlot
  exact List.getElem?_modify_ne _ _ h

theorem typeOf_eq_type (h : heap.object? id = some object) : heap.typeOf id = object.type := by
  rw [typeOf, h, Option.map_some, Option.getD_some]

theorem slot?_eq_getElem? (h : heap.object? id = some object) (index : Nat) :
    heap.slot? id index = object.slots[index]? := by
  rw [slot?, h, Option.bind_some]

theorem hasSlot_eq_decide (h : heap.object? id = some object) (index : Nat) :
    heap.hasSlot id index = decide (index < object.slots.length) := by
  rw [hasSlot, slot?_eq_getElem? h, Bool.eq_iff_iff, isSome_getElem?, decide_eq_true_iff]

/-- Nothing is done to a place whose slot is the same afterwards, or that does not exist. -/
theorem setSlot_eq_self (same : ∀ old, heap.slot? id index = some old → old = slot) :
    heap.setSlot id index slot = heap := by
  unfold setSlot
  refine List.ext_getElem? fun other => ?_
  rw [List.getElem?_modify]
  cases found : heap[other]? with
  | none => rfl
  | some object =>
      by_cases here : id = other
      · subst here
        rw [Option.map_eq_map, Option.map_some, if_pos rfl]
        have kept : object.slots.set index slot = object.slots := by
          cases old : object.slots[index]? with
          | none => exact List.set_eq_of_length_le (List.getElem?_eq_none_iff.1 old)
          | some s =>
              have place : heap.slot? id index = some s := by rw [slot?, object?, found]; exact old
              cases same s place
              obtain ⟨inside, rfl⟩ := List.getElem?_eq_some_iff.1 old
              exact List.set_getElem_self inside
        rw [kept]
      · rw [Option.map_eq_map, Option.map_some, if_neg here]

/-- One slot was overwritten, and no other slot, no object, length or type changed. -/
structure Overwritten (before after : Heap) (id : ObjectId) (index : Nat) (slot : Slot) :
    Prop where
  written : after.slot? id index = some slot
  kept : ∀ other place, other ≠ id ∨ place ≠ index →
    after.slot? other place = before.slot? other place
  objects : after.length = before.length
  types : ∀ other, (after.object? other).map HeapObject.type =
    (before.object? other).map HeapObject.type
  lengths : ∀ other, (after.object? other).map (fun object => object.slots.length) =
    (before.object? other).map fun object => object.slots.length

theorem overwritten_setSlot (there : heap.hasSlot id index = true) (slot : Slot) :
    heap.Overwritten (heap.setSlot id index slot) id index slot where
  written := slot?_setSlot_self there
  kept _ _ apart := slot?_setSlot_of_ne apart
  objects := heap.length_setSlot id index slot
  types other := heap.map_type_setSlot id other index slot
  lengths := by
    intro other
    by_cases here : id = other
    · subst here
      cases found : heap.object? id with
      | none => simp [hasSlot, slot?, found] at there
      | some object => simp [object?_setSlot_self found]
    · rw [object?_setSlot_of_ne here]

end Heap

end DebugArrays
