import DebugArrays.Proofs.Array.Access

/-!
The element that a view finds at an index. Reads and loads find the same one; a read keeps it and a
load turns it into a value.
-/
namespace DebugArrays

namespace DebugType

theorem exists_element?_of_isArray {type : DebugType} (array : type.isArray = true) :
    ∃ element, type.element? = some element := by
  cases type with
  | szArray element => exact ⟨element, rfl⟩
  | mdArray element rank => exact ⟨element, rfl⟩
  | primitive p => cases array
  | byRef target => cases array
  | named name => cases array

end DebugType

namespace World

variable {w : World} {h object element : Handle} {view : ArrayView} {id : ObjectId}
  {stored : HeapObject} {index : UInt32} {elementType : DebugType}

/-- The type of the array that scoped access works on. Behind a reference it is the type that the
object has now, and an object handle goes by its own. -/
def guardedType (w : World) (h : Handle) : DebugType :=
  match h.referent with
  | .reference id => w.heap.typeOf id
  | _ => h.type

/-- The element that a view finds at an index, where the debuggee lets it. -/
def element? (w : World) (view : ArrayView) (index : UInt32) : Option Handle :=
  (w.reach? view.handle).bind fun object => w.elementAt? object index

theorem reach?_of_objectId? (followed : w.dereferenceFails = false)
    (there : w.heap.object? id = some stored) (denoted : h.objectId? = some id) :
    w.reach? h = some ⟨.object id, w.guardedType h⟩ := by
  obtain ⟨referent, type⟩ := h
  cases referent with
  | reference other =>
      cases denoted
      have inside : id < w.heap.length := (List.getElem?_eq_some_iff.1 there).1
      simp [reach?, follow?, Handle.isReference, guardedType, followed, inside]
  | object other =>
      cases denoted
      rfl
  | null => cases denoted
  | scalar v => cases denoted

theorem elementAt?_object (typed : object.type.element? = some elementType)
    (denoted : object.referent = .object id) (index : UInt32) :
    w.elementAt? object index = (w.heap.slot? id index.toNat).map (w.slotHandle elementType) := by
  simp [elementAt?, typed, denoted]

theorem elementBill_of_elementAt? (found : w.elementAt? object index = some element) :
    object.elementBill true = .ofEvent .elementRead + .ofEvent .issue := by
  unfold elementAt? at found
  unfold Handle.elementBill Handle.isObject
  split at found
  · next denoted typed => simp [denoted, typed]
  · cases found

end World

namespace Handle

variable {h : Handle} {w u : World} {v : Value}

theorem record_ok {tracked : Handle} (run : h.record.runIn w = (.ok tracked, u)) :
    tracked = h ∧ u.heap = w.heap := by
  obtain ⟨rfl, kept, -⟩ := (h.settles_record w).of_ok run
  exact ⟨rfl, by rw [kept]⟩

theorem consume_ok (run : h.consume.runIn w = (.ok v, u)) :
    h.value? = some v ∧ u.heap = w.heap := by
  obtain ⟨seen, x, looked, rest⟩ := Eval.runIn_bind_ok run
  obtain ⟨_, y, given, last⟩ := Eval.runIn_bind_ok rest
  cases last
  unfold value at looked
  cases known : h.value? with
  | none =>
      rw [known] at looked
      cases looked
  | some seen =>
      rw [known] at looked
      cases looked
      obtain ⟨-, kept, -⟩ := (h.settles_release (free_of_release_ok given)).of_ok given
      exact ⟨rfl, by rw [kept]⟩

end Handle

namespace ArrayView

variable {α : Type} {view : ArrayView} {w v : World} {object element : Handle} {index : UInt32}
  {step : Handle → Eval α} {value : Value}

/-- A step on an element that went well: there was no element, or the step took it. -/
theorem withElement_ok {answer : Option α}
    (run : (view.withElement index step).runIn w = (.ok answer, v)) :
    answer = none ∧ w.element? view index = none ∧ v.heap = w.heap ∨
      ∃ element a entered left, answer = some a ∧ w.element? view index = some element ∧
        entered.heap = w.heap ∧ (step element).runIn entered = (.ok a, left) ∧
        v.heap = left.heap := by
  obtain ⟨found, u, inScope, rest⟩ := Eval.runIn_bind_ok run
  cases rest
  unfold World.element?
  obtain ⟨-, ⟨rfl, refused, rfl⟩ | ⟨object, a, entered, left, rfl, reached, -, kept, -, inside,
    closed⟩⟩ := Handle.withObject_ok inScope
  · rw [refused]
    exact .inl ⟨rfl, rfl, rfl⟩
  · obtain ⟨-, given, -⟩ := Guard.leave_ok closed
    have same : entered.heap = w.heap := by rw [kept]
    obtain ⟨asked, x, read, taken⟩ := Eval.runIn_bind_ok inside
    obtain ⟨rfl, counted, -⟩ := (object.settles_elementAt index entered).of_ok read
    have place : entered.elementAt? object index = w.elementAt? object index := by rw [kept]; rfl
    rw [place] at taken
    rw [reached, Option.bind_some]
    cases found : w.elementAt? object index with
    | none =>
        rw [found] at taken
        cases taken
        exact .inl ⟨rfl, rfl, by rw [given, counted, kept]⟩
    | some element =>
        rw [found] at taken
        obtain ⟨a, y, ran, last⟩ := Eval.runIn_bind_ok taken
        cases last
        exact .inr ⟨element, a, x, left, rfl, rfl, by rw [counted, kept], ran, by rw [given]⟩

theorem read_ok {index : Int} {found : Option Handle}
    (run : (view.read index).runIn w = (.ok found, v)) :
    found = (elementIndex? index).bind (w.element? view) ∧ v.heap = w.heap := by
  unfold read at run
  cases place : elementIndex? index with
  | none =>
      rw [place] at run
      cases run
      exact ⟨rfl, rfl⟩
  | some i =>
      rw [place] at run
      rw [Option.bind_some]
      obtain ⟨rfl, missing, same⟩ | ⟨element, tracked, entered, left, rfl, here, opened, ran,
        closed⟩ := withElement_ok run
      · exact ⟨missing.symm, same⟩
      · obtain ⟨rfl, kept⟩ := Handle.record_ok ran
        exact ⟨here.symm, closed.trans (kept.trans opened)⟩

/-- A load answers exactly where there is an element, and then with the value behind it. -/
theorem load_ok {index : Int} {found : Option Value}
    (run : (view.load index).runIn w = (.ok found, v)) :
    found.map some = ((view.szIndex? index).bind (w.element? view)).map Handle.value? ∧
      v.heap = w.heap := by
  unfold load at run
  cases place : view.szIndex? index with
  | none =>
      rw [place] at run
      cases run
      exact ⟨rfl, rfl⟩
  | some i =>
      rw [place] at run
      rw [Option.bind_some]
      obtain ⟨rfl, missing, same⟩ | ⟨element, value, entered, left, rfl, here, opened, ran,
        closed⟩ := withElement_ok run
      · exact ⟨by rw [missing]; rfl, same⟩
      · obtain ⟨known, kept⟩ := Handle.consume_ok ran
        exact ⟨by rw [here, Option.map_some, Option.map_some, known],
          closed.trans (kept.trans opened)⟩

theorem settles_read (reached : w.reach? view.handle = some object)
    (array : object.type.isArray = true) (found : w.elementAt? object index = some element)
    (free : w.releaseForbidden = false) :
    (view.read index.toNat).Settles w
      (view.handle.scopeBill + (.ofEvent .elementRead + .ofEvent .issue + .ofEvent .issue))
      (some element) { w with recorded := w.recorded ++ [element] } := by
  unfold read
  rw [elementIndex?_eq_some_iff.2 rfl, ← World.elementBill_of_elementAt? found]
  exact settles_withElement reached array found (fun stats => element.settles_record _) free

theorem settles_load (sz : view.isSz = true) (reached : w.reach? view.handle = some object)
    (array : object.type.isArray = true) (found : w.elementAt? object index = some element)
    (known : element.value? = some value) (free : w.releaseForbidden = false) :
    (view.load index.toNat).Settles w
      (view.handle.scopeBill + (.ofEvent .elementRead + .ofEvent .issue + .ofEvent .release))
      (some value) w := by
  unfold load szIndex?
  rw [if_pos sz, elementIndex?_eq_some_iff.2 rfl, ← World.elementBill_of_elementAt? found]
  exact settles_withElement reached array found (fun stats => Handle.settles_consume known free)
    free

end ArrayView

end DebugArrays
