import DebugArrays.Proofs.Array.Length
import DebugArrays.Proofs.Heap.Slots
import DebugArrays.Proofs.Value.Coerce

/-!
What the operations of a view answer and cost where nothing is in their way: the array object can be
reached and handles may be given back.
-/
namespace DebugArrays

theorem elementIndex?_eq_some_iff {n : Int} {i : UInt32} :
    elementIndex? n = some i ↔ n = i.toNat := by
  have bound := i.toNat_lt
  unfold elementIndex? maxArrayIndex
  rw [Option.ite_none_right_eq_some, Option.some.injEq, ← UInt32.toNat_inj]
  constructor
  · rintro ⟨window, same⟩
    have small : n.toNat < 2 ^ 32 := by omega
    rw [UInt32.toNat_ofNat_of_lt' small] at same
    omega
  · rintro rfl
    refine ⟨by omega, ?_⟩
    rw [Int.toNat_natCast]
    exact UInt32.toNat_ofNat_of_lt' bound

theorem elementIndex?_eq_none_iff {n : Int} :
    elementIndex? n = none ↔ ¬ (0 ≤ n ∧ n < 2 ^ 32) := by
  unfold elementIndex? maxArrayIndex
  split
  · next window => exact iff_of_false (Option.some_ne_none _) (not_not_intro (by omega))
  · next outside => exact iff_of_true rfl (by omega)

namespace Handle

variable {h object : Handle} {w : World} {v : Value}

theorem settles_value (known : h.value? = some v) (w : World) : h.value.Settles w 0 v w := by
  unfold value
  rw [known]
  exact Eval.Settles.pure v w

theorem settles_consume (known : h.value? = some v) (free : w.releaseForbidden = false) :
    h.consume.Settles w (.ofEvent .release) v w := by
  rw [← zero_add (Tally.ofEvent .release)]
  apply (settles_value known w).bind
  intro stats
  exact Eval.Settles.bind_pure (h.settles_release free) rfl

/-- A value of the element type goes into a slot as it is. -/
theorem slotFor?_of_primitive? {p : Primitive} (typed : v.primitive? = some p) :
    slotFor? p v = some (.value v) := by
  simp [slotFor?, Value.isNull_of_primitive? typed, Value.coerce?, typed]

/-- A value that fits the elements is written if its place exists; the write is paid for either way.
-/
theorem settles_write {index : UInt32} {id : ObjectId} {p : Primitive} {slot : Slot}
    (reached : w.reach? h = some object) (array : object.type.isArray = true)
    (denoted : object.objectId? = some id)
    (element : object.type.element?.bind DebugType.primitive? = some p)
    (fits : slotFor? p v = some slot) (free : w.releaseForbidden = false) :
    (h.write index v).Settles w h.scopeBill (w.heap.hasSlot id index.toNat)
      { w with heap := w.heap.setSlot id index.toNat slot } := by
  unfold write
  refine Eval.Settles.bind_pure (a := some (w.heap.hasSlot id index.toNat)) ?_ rfl
  rw [← add_zero h.scopeBill]
  refine settles_withObject reached array (fun stats => ?_) fun _ => free
  simp only [denoted, element, fits]
  apply Eval.settles_get_bind
  exact ⟨rfl, rfl, (add_zero _).symm⟩

end Handle

namespace ArrayView

variable {α : Type} {view : ArrayView} {w : World} {object element : Handle} {index : UInt32}
  {step : Handle → Eval α}

theorem settles_withElement {after : World} {a : α} {t : Tally}
    (reached : w.reach? view.handle = some object) (array : object.type.isArray = true)
    (found : w.elementAt? object index = some element)
    (inside : ∀ stats, (step element).Settles { w with stats } t a after)
    (free : after.releaseForbidden = false) :
    (view.withElement index step).Settles w
      (view.handle.scopeBill + (object.elementBill true + t)) (some a) after := by
  unfold withElement
  refine Eval.Settles.bind_pure (a := some (some a)) ?_ rfl
  refine Handle.settles_withObject reached array (fun stats => ?_) fun _ => free
  have read := object.settles_elementAt index { w with stats }
  have same : World.elementAt? { w with stats } object index = some element := found
  rw [same] at read
  apply read.bind
  intro stats
  exact (inside stats).bind_pure rfl

/-- The read of an element that is not there is paid for. -/
theorem settles_withElement_none (reached : w.reach? view.handle = some object)
    (array : object.type.isArray = true) (missing : w.elementAt? object index = none)
    (free : w.releaseForbidden = false) :
    (view.withElement index step).Settles w
      (view.handle.scopeBill + object.elementBill false) none w := by
  unfold withElement
  refine Eval.Settles.bind_pure (a := some none) ?_ rfl
  refine Handle.settles_withObject reached array (fun stats => ?_) fun _ => free
  have read := object.settles_elementAt index { w with stats }
  have same : World.elementAt? { w with stats } object index = none := missing
  rw [same] at read
  exact read.bind_pure rfl

theorem settles_queryLength (sz : view.isSz = true)
    (reached : w.reach? view.handle = some object) (szObject : object.type.isSzArray = true)
    (free : w.releaseForbidden = false) :
    view.queryLength.Settles w (view.handle.scopeBill + object.countBill)
      (.settle (w.slotCount? object)) w := by
  unfold queryLength
  rw [if_pos sz]
  refine Eval.Settles.bind_pure (a := some (w.slotCount? object)) ?_ ?_
  · refine Handle.settles_withObject reached (DebugType.isArray_of_isSzArray szObject)
      (fun stats => ?_) fun _ => free
    rw [if_pos szObject]
    exact object.settles_slotCount { w with stats }
  · cases w.slotCount? object <;> rfl

theorem settles_queryLength_of_not_sz (notSz : view.isSz = false) (w : World) :
    view.queryLength.Settles w 0 (.settle none) w := by
  unfold queryLength
  rw [notSz, if_neg (by decide)]
  exact Eval.Settles.pure _ w

/-- The first length: the answer of the query is remembered. -/
theorem settles_length {answer : Option UInt32} {t : Tally}
    (unasked : view.cache = .uninitialized)
    (asked : view.queryLength.Settles w t (.settle answer) w) :
    view.length.Settles w t (answer, { view with cache := .settle answer }) w := by
  unfold length
  rw [unasked]
  exact asked.bind_pure (by rw [LengthCache.length?_settle])

theorem settles_length_of_ne_uninitialized (asked : view.cache ≠ .uninitialized) (w : World) :
    view.length.Settles w 0 (view.cache.length?, view) w := by
  unfold Eval.Settles
  rw [runIn_length_of_ne_uninitialized asked]
  exact ⟨rfl, rfl, (add_zero _).symm⟩

end ArrayView

end DebugArrays
