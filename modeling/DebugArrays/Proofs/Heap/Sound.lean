import DebugArrays.Heap.Basic
import DebugArrays.Proofs.Value.Decoding

/-!
Objects that loading makes: arrays of one primitive type, whose slots are null or hold a finite
value of that very type. A grid has as many slots as fill it.
-/
namespace DebugArrays

def Slot.Holds (p : Primitive) : Slot → Prop
  | .value v => v.primitive? = some p ∧ v.IsFinite
  | .object _ => False
  | .null => True

/-- The types of arrays that a snapshot can describe. -/
inductive DebugType.ArrayOf (p : Primitive) : DebugType → Prop
  | vector : ArrayOf p (.szArray (.primitive p))
  | grid (rank : UInt32) (several : 1 < rank.toNat) : ArrayOf p (.mdArray (.primitive p) rank)

theorem DebugType.ArrayOf.element? {p : Primitive} {type : DebugType} (h : type.ArrayOf p) :
    type.element? = some (.primitive p) := by
  cases h <;> rfl

theorem DebugType.ArrayOf.isArray {p : Primitive} {type : DebugType} (h : type.ArrayOf p) :
    type.isArray = true := by
  cases h <;> rfl

theorem DebugType.ArrayOf.withoutByRef {p : Primitive} {type : DebugType} (h : type.ArrayOf p) :
    type.withoutByRef = type := by
  cases h <;> rfl

structure HeapObject.Sound (object : HeapObject) (p : Primitive) : Prop where
  type : object.type.ArrayOf p
  slots : ∀ slot ∈ object.slots, slot.Holds p
  filled : ∀ element rank, object.type = .mdArray element rank →
    rank.toNat ∣ object.slots.length

def Heap.Sound (heap : Heap) : Prop :=
  ∀ object ∈ heap, ∃ p, object.Sound p

namespace HeapObject.Sound

variable {object : HeapObject} {p : Primitive}

theorem set (sound : object.Sound p) {slot : Slot} (held : slot.Holds p) (index : Nat) :
    HeapObject.Sound { object with slots := object.slots.set index slot } p where
  type := sound.type
  slots := by
    intro other member
    obtain old | rfl := List.mem_or_eq_of_mem_set member
    · exact sound.slots other old
    · exact held
  filled := by
    intro element rank shape
    rw [List.length_set]
    exact sound.filled element rank shape

end HeapObject.Sound

namespace Heap.Sound

variable {heap : Heap} {object : HeapObject} {id : ObjectId} {p : Primitive}

theorem concat (sound : heap.Sound) (new : object.Sound p) :
    Heap.Sound (heap ++ [object]) := by
  intro other member
  obtain old | same := List.mem_append.1 member
  · exact sound other old
  · exact ⟨p, List.mem_singleton.1 same ▸ new⟩

theorem setSlot (sound : heap.Sound) (found : heap.object? id = some object)
    (element : object.type.element? = some (.primitive p)) {slot : Slot} (held : slot.Holds p)
    (index : Nat) : Heap.Sound (heap.setSlot id index slot) := by
  intro other member
  obtain ⟨place, there⟩ := List.mem_iff_getElem?.1 member
  unfold Heap.setSlot at there
  rw [List.getElem?_modify] at there
  obtain ⟨before, here, rfl⟩ := Option.map_eq_some_iff.1 there
  obtain ⟨q, kept⟩ := sound before (List.mem_of_getElem? here)
  by_cases same : id = place
  · subst same
    cases here.symm.trans found
    cases kept.type.element?.symm.trans element
    exact ⟨_, by simpa using kept.set held index⟩
  · exact ⟨q, by simpa [same] using kept⟩

end Heap.Sound

end DebugArrays
