import DebugArrays.Array.Address
import DebugArrays.Proofs.World.Mirror

/-!
Two views of one array, one over a reference and one over the object itself. Each operation of the
one mirrors that of the other.
-/
namespace DebugArrays

/-- The first view holds an array by a reference and the second by the object; what they know is
the same. -/
structure ArrayView.Pair (id : ObjectId) (type : DebugType) (r o : ArrayView) : Prop where
  reference : r.handle.referent = .reference id
  object : o.handle = ⟨.object id, type⟩
  shape : r.isSz = o.isSz
  cache : r.cache = o.cache

namespace ArrayView.Pair

open Eval Handle

variable {α : Type} {id : ObjectId} {type : DebugType} {r o : ArrayView} {n : Nat}

/-- More than any operation has events. -/
abbrev room : Nat := 6

theorem szIndex? (pair : Pair id type r o) (index : Int) : r.szIndex? index = o.szIndex? index := by
  unfold ArrayView.szIndex?
  rw [pair.shape]

theorem withObject (pair : Pair id type r o) (array : type.isArray = true)
    {step : Handle → Eval α}
    (inside : Mirrors id type n (step ⟨.object id, type⟩) (step ⟨.object id, type⟩)) :
    Mirrors id type (n + 3) (r.handle.withObject step) (o.handle.withObject step) := by
  have held : r.handle = ⟨.reference id, r.handle.type⟩ := by
    rw [← pair.reference]
  rw [held, pair.object]
  exact mirrors_withObject array inside

theorem withElement (pair : Pair id type r o) (array : type.isArray = true) (index : UInt32)
    {step : Handle → Eval α} (inside : ∀ element, Mirrors id type n (step element) (step element)) :
    Mirrors id type (2 + n + 3) (r.withElement index step) (o.withElement index step) := by
  unfold ArrayView.withElement
  refine (pair.withObject array ?_).bind fun found => .pure found.join
  refine (mirrors_elementAt _ index).bind fun element => ?_
  cases element with
  | none => exact (Mirrors.pure none).mono (Nat.zero_le n)
  | some element => exact (inside element).bind fun a => .pure (some a)

theorem read (pair : Pair id type r o) (array : type.isArray = true) (index : Int) :
    Mirrors id type room (r.read index) (o.read index) := by
  unfold ArrayView.read
  cases elementIndex? index with
  | none => exact (Mirrors.pure none).mono (Nat.zero_le _)
  | some i => exact pair.withElement array i mirrors_record

theorem load (pair : Pair id type r o) (array : type.isArray = true) (index : Int) :
    Mirrors id type room (r.load index) (o.load index) := by
  unfold ArrayView.load
  rw [pair.szIndex?]
  cases o.szIndex? index with
  | none => exact (Mirrors.pure none).mono (Nat.zero_le _)
  | some i => exact pair.withElement array i mirrors_consume

theorem write (pair : Pair id type r o) (array : type.isArray = true) (index : UInt32)
    (v : Value) : Mirrors id type 3 (r.write index v) (o.write index v) := by
  unfold ArrayView.write Handle.write
  refine (pair.withObject (n := 0) array ?_).bind fun written => .pure (written.getD false)
  dsimp only [objectId?]
  cases type.element?.bind DebugType.primitive? with
  | none => exact .pure false
  | some p =>
      cases fits : slotFor? p v with
      | none =>
          simp only [fits]
          exact .pure false
      | some slot =>
          simp only [fits]
          refine mirrors_changeHeap (fun heap => heap.setSlot id index.toNat slot)
            (fun heap => heap.hasSlot id index.toNat) fun heap typed => ?_
          exact (heap.map_type_setSlot id id index.toNat slot).trans typed

theorem store (pair : Pair id type r o) (array : type.isArray = true) (index : Int) (v : Value) :
    Mirrors id type room (r.store index v) (o.store index v) := by
  unfold ArrayView.store
  rw [pair.szIndex?]
  cases o.szIndex? index with
  | none => exact (Mirrors.pure false).mono (Nat.zero_le _)
  | some i => exact ((pair.write array i v).bind fun _ => .pure true).mono (by decide)

theorem queryLength (pair : Pair id type r o) (array : type.isArray = true) :
    Mirrors id type room r.queryLength o.queryLength := by
  unfold ArrayView.queryLength
  rw [pair.shape]
  cases o.isSz with
  | false => exact (Mirrors.pure LengthCache.error).mono (Nat.zero_le _)
  | true =>
      refine Mirrors.mono (by decide : 1 + 3 + 0 ≤ room) ?_
      refine (pair.withObject array ?_).bind fun answer => .pure _
      cases type.isSzArray with
      | false => exact (Mirrors.pure none).mono (Nat.zero_le _)
      | true =>
          rw [if_pos rfl]
          exact mirrors_slotCount _

theorem withCache (pair : Pair id type r o) (cache : LengthCache) :
    Pair id type { r with cache } { o with cache } :=
  ⟨pair.reference, pair.object, pair.shape, rfl⟩

theorem addressRead (pair : Pair id type r o) (array : type.isArray = true) (index : Int) :
    Mirrors id type room (ElementAddress.read ⟨r, index⟩) (ElementAddress.read ⟨o, index⟩) := by
  unfold ElementAddress.read
  dsimp only
  rw [pair.shape]
  cases o.isSz with
  | false => exact (Mirrors.pure none).mono (Nat.zero_le _)
  | true => exact pair.read array index

theorem addressStore (pair : Pair id type r o) (array : type.isArray = true) (index : Int)
    (v : Value) :
    Mirrors id type room (ElementAddress.store ⟨r, index⟩ v)
      (ElementAddress.store ⟨o, index⟩ v) := by
  unfold ElementAddress.store
  dsimp only
  rw [pair.szIndex?]
  cases o.szIndex? index with
  | none => exact (Mirrors.pure false).mono (Nat.zero_le _)
  | some i => exact (pair.write array i v).mono (by decide)

end ArrayView.Pair

end DebugArrays
