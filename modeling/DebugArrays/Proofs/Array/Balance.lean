import DebugArrays.Array.Address
import DebugArrays.Proofs.Array.Element
import DebugArrays.Proofs.World.Books

/-!
The books of the operations on an array. Each follows the wrapped handle at most once and gives back
what it took, on every way out and after a failed assertion as well. Only a read keeps something,
and that is on record.
-/
namespace DebugArrays

/-- The index lies in the window of element access. -/
def InWindow (index : Int) : Prop :=
  0 ≤ index ∧ index ≤ maxArrayIndex

instance : DecidablePred InWindow := fun index =>
  inferInstanceAs (Decidable (0 ≤ index ∧ index ≤ maxArrayIndex))

theorem isSome_elementIndex?_iff {index : Int} :
    (elementIndex? index).isSome = true ↔ InWindow index := by
  unfold elementIndex? InWindow
  split
  · next window => exact iff_of_true rfl window
  · next outside => exact iff_of_false (by decide) outside

theorem ArrayView.isSome_szIndex?_iff {view : ArrayView} {index : Int} :
    (view.szIndex? index).isSome = true ↔ view.isSz = true ∧ InWindow index := by
  rw [← isSome_elementIndex?_iff, szIndex?]
  cases view.isSz <;> simp

/-- Every object that a slot names has an address. -/
def Heap.Addressed (heap : Heap) : Prop :=
  ∀ object ∈ heap, ∀ id, .object id ∈ object.slots → (address? id).isSome = true

theorem Heap.Addressed.exists_value? {w : World} (addressed : w.heap.Addressed)
    {object element : Handle} {index : UInt32}
    (found : w.elementAt? object index = some element) : ∃ v, element.value? = some v := by
  unfold World.elementAt? at found
  split at found
  · obtain ⟨slot, there, rfl⟩ := Option.map_eq_some_iff.1 found
    cases slot with
    | value v => exact ⟨v, rfl⟩
    | null => exact ⟨_, rfl⟩
    | object child =>
        obtain ⟨stored, held, inside⟩ := Option.bind_eq_some_iff.1 there
        have named := addressed stored (List.mem_of_getElem? held) child
          (List.mem_of_getElem? inside)
        obtain ⟨address, known⟩ := Option.isSome_iff_exists.1 named
        exact ⟨_, Option.map_eq_some_iff.2 ⟨address, known, rfl⟩⟩
  · cases found

namespace Handle

theorem balances_elementBill_false (h : Handle) : (h.elementBill false).Balances [] 0 := by
  unfold elementBill
  split <;> exact ⟨rfl, rfl⟩

theorem dereferences_elementBill (h : Handle) (found : Bool) :
    (h.elementBill found).dereferences = 0 := by
  unfold elementBill
  cases h.isObject && h.type.element?.isSome <;> cases found <;> rfl

theorem within_elementBill (h : Handle) (found : Bool) : (h.elementBill found).Within 1 := by
  unfold elementBill
  cases h.isObject && h.type.element?.isSome <;> cases found <;> decide

end Handle

open Eval

namespace ArrayView

variable {α : Type} {view : ArrayView} {w : World} {passes : Prop} {index : UInt32}
  {step : Handle → Eval α} {kept : Option α → List Handle} {spent : Option α → Nat}

/-- An operation on an element: the handle to the element is for the step to account for. -/
theorem balanced_withElement (past : passes) (free : w.releaseForbidden = false)
    (room : w.stats.tally.Within (2 ^ 64 - 4)) (nothing : kept none = [])
    (unspent : spent none = 0)
    (inside : ∀ object element, w.elementAt? object index = some element → ∃ a t,
      (∀ stats, (step element).Settles { w with stats } t a
        { w with recorded := w.recorded ++ kept (some a) }) ∧
      (.ofEvent .issue + t).Balances (kept (some a)) (spent (some a)) ∧
      t.dereferences = 0 ∧ t.Within 1) :
    (view.withElement index step).Balanced view.handle w passes kept spent := by
  unfold withElement
  refine Balanced.bind_pure ?_ fun found => rfl
  refine Handle.balanced_withObject past free room nothing unspent fun object reached array => ?_
  have read : ∀ stats, (object.elementAt index).Settles { w with stats }
      (object.elementBill (w.elementAt? object index).isSome) (w.elementAt? object index)
      { w with stats } := fun stats => object.settles_elementAt index { w with stats }
  cases found : w.elementAt? object index with
  | none =>
      rw [found] at read
      have small := (object.within_elementBill false).mono (by decide : 1 ≤ 2)
      refine ⟨none, object.elementBill false, w, fun stats => (read stats).bind_pure rfl, ?_, rfl,
        ?_, object.dereferences_elementBill false, small⟩
      · simp only [Option.join_some, nothing, List.append_nil]
      · simp only [Option.join_some, nothing, unspent]
        exact object.balances_elementBill_false
  | some element =>
      rw [found] at read
      obtain ⟨a, t, settles, even, still, small⟩ := inside object element found
      refine ⟨some a, object.elementBill true + t,
        { w with recorded := w.recorded ++ kept (some a) }, fun stats => ?_, rfl, rfl, ?_, ?_,
        (object.within_elementBill true).add small⟩
      · exact (read stats).bind fun stats => (settles stats).bind_pure rfl
      · rw [World.elementBill_of_elementAt? found, add_assoc]
        exact Tally.Balances.add ⟨rfl, rfl⟩ even
      · rw [Tally.dereferences_add, still, object.dereferences_elementBill]

theorem balanced_read (index : Int) (free : w.releaseForbidden = false)
    (room : w.stats.tally.Within (2 ^ 64 - 4)) :
    (view.read index).Balanced view.handle w (InWindow index) Option.toList fun _ => 0 := by
  rw [← isSome_elementIndex?_iff]
  unfold read
  cases place : elementIndex? index with
  | none => exact balanced_pure (by simp) rfl rfl
  | some i =>
      refine balanced_withElement rfl free room rfl rfl
        fun object element found => ⟨element, .ofEvent .issue, fun stats => ?_, ⟨rfl, rfl⟩, rfl,
          Tally.within_ofEvent _⟩
      exact element.settles_record _

/-- The gate of the operations that only single-dimensional zero-based arrays have. -/
theorem balanced_szGate {β : Type} {kept : β → List Handle} {spent : β → Nat} {b : β}
    {next : UInt32 → Eval β} {index : Int} (nothing : kept b = []) (unspent : spent b = 0)
    (inside : ∀ i, (next i).Balanced view.handle w True kept spent) :
    (match view.szIndex? index with
      | none => pure b
      | some i => next i : Eval β).Balanced view.handle w (view.isSz = true ∧ InWindow index) kept
        spent := by
  rw [← isSome_szIndex?_iff]
  cases view.szIndex? index with
  | none => exact balanced_pure (by decide) nothing unspent
  | some i =>
      rw [Option.isSome_some, eq_self]
      exact inside i

theorem balanced_load (index : Int) (free : w.releaseForbidden = false)
    (addressed : w.heap.Addressed) (room : w.stats.tally.Within (2 ^ 64 - 4)) :
    (view.load index).Balanced view.handle w (view.isSz = true ∧ InWindow index) (fun _ => [])
      fun found => if found.isSome then 1 else 0 := by
  unfold load
  refine balanced_szGate (by rfl) (by rfl) fun i => ?_
  apply balanced_withElement trivial free room rfl rfl
  intro object element found
  obtain ⟨v, known⟩ := addressed.exists_value? found
  refine ⟨v, .ofEvent .release, fun stats => ?_, ⟨rfl, rfl⟩, rfl, Tally.within_ofEvent _⟩
  rw [List.append_nil]
  exact Handle.settles_consume known free

theorem balanced_write (index : UInt32) (v : Value) (free : w.releaseForbidden = false)
    (room : w.stats.tally.Within (2 ^ 64 - 4)) :
    (view.write index v).Balanced view.handle w True (fun _ => []) fun _ => 0 := by
  unfold write Handle.write
  refine Balanced.bind_pure ?_ fun written => rfl
  refine Handle.balanced_withObject trivial free room rfl rfl fun object reached array => ?_
  have refused : (pure false : Eval Bool).Lends w (fun _ => []) fun _ => 0 :=
    ⟨false, 0, w, fun stats => Settles.pure false _, (List.append_nil _).symm, rfl,
      Tally.balances_zero, rfl, by decide⟩
  split
  · next id p denoted typed =>
    split
    · exact refused
    · next slot fits =>
      refine ⟨w.heap.hasSlot id index.toNat, 0,
        { w with heap := w.heap.setSlot id index.toNat slot }, fun stats => ?_,
        (List.append_nil _).symm, rfl, Tally.balances_zero, rfl, by decide⟩
      exact settles_get_bind ⟨rfl, rfl, (add_zero _).symm⟩
  · exact refused

theorem balanced_store (index : Int) (v : Value) (free : w.releaseForbidden = false)
    (room : w.stats.tally.Within (2 ^ 64 - 4)) :
    (view.store index v).Balanced view.handle w (view.isSz = true ∧ InWindow index) (fun _ => [])
      fun _ => 0 := by
  unfold store
  refine balanced_szGate (by rfl) (by rfl) fun i => ?_
  exact (view.balanced_write i v free room).bind_pure fun written => rfl

theorem balanced_length (free : w.releaseForbidden = false)
    (room : w.stats.tally.Within (2 ^ 64 - 4)) :
    view.length.Balanced view.handle w (view.cache = .uninitialized ∧ view.isSz = true)
      (fun _ => []) fun _ => 0 := by
  unfold length
  split
  · next unasked =>
    refine Balanced.bind_pure ?_ fun cache => rfl
    unfold queryLength
    split
    · next sz =>
      refine Balanced.bind_pure ?_ fun answer => rfl
      refine Handle.balanced_withObject ⟨unasked, sz⟩ free room rfl rfl
        fun object reached array => ?_
      have bill : askBill object = 0 ∨ askBill object = .ofEvent .lengthQuery := by
        unfold askBill Handle.countBill
        cases object.type.isSzArray <;> cases object.isObject <;> simp
      refine ⟨if object.type.isSzArray then w.slotCount? object else none, askBill object, w,
        fun stats => settles_askLength object { w with stats }, (List.append_nil _).symm, rfl, ?_⟩
      obtain bill | bill := bill <;> rw [bill]
      · exact ⟨⟨rfl, rfl⟩, rfl, by decide⟩
      · exact ⟨⟨rfl, rfl⟩, rfl, (Tally.within_ofEvent _).mono (by decide)⟩
    · next notSz => exact balanced_pure (fun past => notSz past.2) rfl rfl
  · next asked => exact balanced_pure (fun past => asked past.1) rfl rfl

theorem balanced_addressRead (index : Int) (free : w.releaseForbidden = false)
    (room : w.stats.tally.Within (2 ^ 64 - 4)) :
    (ElementAddress.read ⟨view, index⟩).Balanced view.handle w (view.isSz = true ∧ InWindow index)
      Option.toList fun _ => 0 := by
  unfold ElementAddress.read
  split
  · next sz =>
    rw [eq_true sz, true_and]
    exact view.balanced_read index free room
  · next notSz => exact balanced_pure (fun past => notSz past.1) rfl rfl

theorem balanced_addressStore (index : Int) (v : Value) (free : w.releaseForbidden = false)
    (room : w.stats.tally.Within (2 ^ 64 - 4)) :
    (ElementAddress.store ⟨view, index⟩ v).Balanced view.handle w
      (view.isSz = true ∧ InWindow index) (fun _ => []) fun _ => 0 := by
  unfold ElementAddress.store
  refine balanced_szGate (by rfl) (by rfl) fun i => ?_
  exact view.balanced_write i v free room

/-- Every operation on an array leaves the books in order. It follows the wrapped handle once where
it gets past its gates and the handle can be followed, and not at all otherwise. What it takes it
gives back, whether it succeeds, is refused or ends in the assertion, and it gives back nothing
else; only a read that finds an element leaves two handles more, the one on record and the one it
answers. -/
theorem books_in_order (view : ArrayView) (w : World) (free : w.releaseForbidden = false)
    (addressed : w.heap.Addressed) (room : w.stats.tally.Within (2 ^ 64 - 4)) :
    (∀ index, (view.read index).Balanced view.handle w (InWindow index) Option.toList
      fun _ => 0) ∧
    (∀ index v, (view.write index v).Balanced view.handle w True (fun _ => []) fun _ => 0) ∧
    (∀ index, (view.load index).Balanced view.handle w (view.isSz = true ∧ InWindow index)
      (fun _ => []) fun found => if found.isSome then 1 else 0) ∧
    (∀ index v, (view.store index v).Balanced view.handle w (view.isSz = true ∧ InWindow index)
      (fun _ => []) fun _ => 0) ∧
    view.length.Balanced view.handle w (view.cache = .uninitialized ∧ view.isSz = true)
      (fun _ => []) (fun _ => 0) ∧
    (∀ index, (ElementAddress.load ⟨view, index⟩).Balanced view.handle w
      (view.isSz = true ∧ InWindow index) (fun _ => [])
      fun found => if found.isSome then 1 else 0) ∧
    (∀ index, (ElementAddress.read ⟨view, index⟩).Balanced view.handle w
      (view.isSz = true ∧ InWindow index) Option.toList fun _ => 0) ∧
    ∀ index v, (ElementAddress.store ⟨view, index⟩ v).Balanced view.handle w
      (view.isSz = true ∧ InWindow index) (fun _ => []) fun _ => 0 :=
  ⟨fun index => view.balanced_read index free room,
    fun index v => view.balanced_write index v free room,
    fun index => view.balanced_load index free addressed room,
    fun index v => view.balanced_store index v free room,
    view.balanced_length free room,
    fun index => view.balanced_load index free addressed room,
    fun index => balanced_addressRead index free room,
    fun index v => balanced_addressStore index v free room⟩

/-- One array and one object that is none any more. -/
def torn : World where
  heap := [⟨.szArray (.primitive .bool), [.value (.bool true)]⟩, ⟨.named "Torn", []⟩]

/-- The second read ends in the assertion, and the books are in order all the same. -/
theorem books_in_order_torn :
    ∃ v u,
      (read ⟨⟨.reference 0, .szArray (.primitive .bool)⟩, true, .uninitialized⟩ 0).runIn torn =
        (.ok (some ⟨.scalar (.bool true), .primitive .bool⟩), v) ∧
      Booked ⟨.reference 0, .szArray (.primitive .bool)⟩ torn v (InWindow 0)
        [⟨.scalar (.bool true), .primitive .bool⟩] 0 ∧
      (read ⟨⟨.reference 1, .szArray (.primitive .bool)⟩, true, .uninitialized⟩ 0).runIn torn =
        (.error .assertion, u) ∧
      Booked ⟨.reference 1, .szArray (.primitive .bool)⟩ torn u (InWindow 0) [] 0 := by
  have addressed : torn.heap.Addressed := by simp [Heap.Addressed, torn]
  have room : torn.stats.tally.Within (2 ^ 64 - 4) := by decide +kernel
  have whole := books_in_order ⟨⟨.reference 0, .szArray (.primitive .bool)⟩, true, .uninitialized⟩
    torn rfl addressed room
  have broken := books_in_order ⟨⟨.reference 1, .szArray (.primitive .bool)⟩, true, .uninitialized⟩
    torn rfl addressed room
  exact ⟨_, _, rfl, (whole.1 0).1, rfl, (broken.1 0).1⟩

/-- Three references to one array; the books are opened anew, and then two of them go. -/
def overdrawn : Eval ArrayView := do
  let id ← Eval.alloc (.szArray (.primitive .bool)) [.value (.bool true)]
  let first ← Handle.reference id
  let second ← Handle.reference id
  let third ← Handle.reference id
  let view ← ofHandle first
  modify fun w => { w with stats := {} }
  second.release
  third.release
  return view

/-- Where more was given back than issued, a read does not raise the number of live handles. -/
theorem live_kept_by_overdrawn_read :
    ∃ view w element v, overdrawn.runIn {} = (.ok view, w) ∧
      (w.releaseForbidden = false ∧ w.heap.Addressed ∧ w.stats.tally.Within (2 ^ 64 - 4)) ∧
      (view.read 0).runIn w = (.ok (some element), v) ∧
      v.stats.live ≠ w.stats.live + 2 := by
  refine ⟨⟨⟨.reference 0, .szArray (.primitive .bool)⟩, true, .uninitialized⟩,
    { heap := [⟨.szArray (.primitive .bool), [.value (.bool true)]⟩], stats := { released := 2 } },
    ⟨.scalar (.bool true), .primitive .bool⟩, _, rfl, ⟨rfl, ?_, ?_⟩, rfl, ?_⟩
  · simp [Heap.Addressed]
  · decide +kernel
  · decide +kernel

end ArrayView

end DebugArrays
