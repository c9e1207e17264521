import DebugArrays.Proofs.Array.Element

/-!
Writes into arrays. A write is taken exactly where the elements can hold the value and there is such
a place; it changes that place and nothing else, and every view of the array finds what was written.
What was loaded from one array and is written to another arrives there unchanged.
-/
namespace DebugArrays

/-- What a write of `v` leaves in a slot of an array of `p`. -/
inductive Slot.Written (p : Primitive) (v : Value) : Slot → Prop
  | null (isNull : v.isNull = true) : Written p v .null
  | value {x : Value} (notNull : v.isNull = false) (fits : v.coerce? p = some x) :
      Written p v (.value x)

/-- The debuggee lets handles be followed and given back. -/
structure World.Open (w : World) : Prop where
  followed : w.dereferenceFails = false
  free : w.releaseForbidden = false

/-- Through the view the elements of an object can be loaded: it was made of a single-dimensional
zero-based array, and what scoped access works on is an array now. -/
structure ArrayView.Sees (view : ArrayView) (w : World) (id : ObjectId) : Prop where
  sz : view.isSz = true
  denoted : view.handle.objectId? = some id
  array : (w.guardedType view.handle).isArray = true

/-- A load at an index answers `value`, and a read keeps and answers `element`. -/
structure World.Delivers (w : World) (view : ArrayView) (index : UInt32) (element : Handle)
    (value : Value) : Prop where
  load : (view.load index.toNat).Settles w
    (view.handle.scopeBill + (.ofEvent .elementRead + .ofEvent .issue + .ofEvent .release))
    (some value) w
  read : (view.read index.toNat).Settles w
    (view.handle.scopeBill + (.ofEvent .elementRead + .ofEvent .issue + .ofEvent .issue))
    (some element) { w with recorded := w.recorded ++ [element] }

/-- The slot is null or holds a value that is a `p` as it is. -/
def Slot.Suits (p : Primitive) : Slot → Prop
  | .value v => v.primitive? = some p
  | .object _ => False
  | .null => True

structure HeapObject.IsVector (object : HeapObject) (p : Primitive) : Prop where
  type : object.type = .szArray (.primitive p)
  slots : ∀ slot ∈ object.slots, slot.Suits p

/-- A view of an object as a vector of `p`, by a reference or by the object itself. -/
structure ArrayView.OfVector (view : ArrayView) (id : ObjectId) (p : Primitive) : Prop where
  sz : view.isSz = true
  denoted : view.handle.objectId? = some id
  type : view.handle.type = .szArray (.primitive p)

namespace Handle

variable {p : Primitive} {v : Value} {slot : Slot}

theorem slotFor?_eq_some_iff : slotFor? p v = some slot ↔ slot.Written p v := by
  unfold slotFor?
  constructor
  · intro made
    cases null : v.isNull with
    | true =>
        rw [null, if_pos rfl] at made
        cases made
        exact .null null
    | false =>
        rw [null, if_neg (by decide)] at made
        obtain ⟨x, fits, rfl⟩ := Option.map_eq_some_iff.1 made
        exact .value null fits
  · intro written
    cases written with
    | null isNull => rw [if_pos isNull]
    | value notNull fits =>
        rw [notNull, if_neg (by decide), fits]
        rfl

theorem isSome_slotFor?_iff :
    (slotFor? p v).isSome = true ↔ v.isNull = true ∨ (v.coerce? p).isSome = true := by
  unfold slotFor?
  cases v.isNull <;> simp

variable {h object : Handle} {w : World} {index : UInt32} {id : ObjectId}

/-- A value that no slot can be made of is refused, and nothing is changed. -/
theorem settles_write_of_refused (reached : w.reach? h = some object)
    (array : object.type.isArray = true) (denoted : object.objectId? = some id)
    (refused : (object.type.element?.bind DebugType.primitive?).bind (slotFor? · v) = none)
    (free : w.releaseForbidden = false) :
    (h.write index v).Settles w h.scopeBill false w := by
  unfold write
  refine Eval.Settles.bind_pure (a := some false) ?_ rfl
  rw [← add_zero h.scopeBill]
  refine settles_withObject reached array (fun stats => ?_) fun _ => free
  rw [denoted]
  cases element : object.type.element?.bind DebugType.primitive? with
  | none => exact Eval.Settles.pure false _
  | some p =>
      rw [element, Option.bind_some] at refused
      simp only [refused]
      exact Eval.Settles.pure false _

end Handle

theorem DebugType.bind_primitive?_eq_some_iff {element? : Option DebugType} {p : Primitive} :
    element?.bind DebugType.primitive? = some p ↔ element? = some (.primitive p) := by
  cases element? with
  | none => simp
  | some element => cases element <;> simp [DebugType.primitive?]

namespace World

variable {w : World} {view : ArrayView} {id : ObjectId} {index : UInt32} {slot : Slot}
  {elementType : DebugType} {value : Value}

theorem delivers_of_slot? (opened : w.Open) (sees : view.Sees w id)
    (held : w.heap.slot? id index.toNat = some slot)
    (typed : (w.guardedType view.handle).element? = some elementType)
    (known : (w.slotHandle elementType slot).value? = some value) :
    w.Delivers view index (w.slotHandle elementType slot) value := by
  obtain ⟨stored, there, -⟩ := Option.bind_eq_some_iff.1 held
  have reached := reach?_of_objectId? opened.followed there sees.denoted
  have found : w.elementAt? ⟨.object id, w.guardedType view.handle⟩ index =
      some (w.slotHandle elementType slot) := by
    rw [elementAt?_object typed rfl, held, Option.map_some]
  constructor
  · exact ArrayView.settles_load sees.sz reached sees.array found known opened.free
  · exact ArrayView.settles_read reached sees.array found opened.free

end World

namespace Handle

/-- A write is exact, leaves nothing half done, and is seen through every view. It is taken where
the array in use has primitive elements that can hold the value and the index is below the length.
Then that slot becomes null or the value as one of the element type, and no other slot, no object,
length or type changes; otherwise nothing changes. As long as the slot is not overwritten, whatever
view of the object is asked for it, of whatever type, finds that very value. -/
theorem write_exact {w : World} {h : Handle} {id : ObjectId} {stored : HeapObject}
    (opened : w.Open) (denoted : h.objectId? = some id)
    (there : w.heap.object? id = some stored) (array : (w.guardedType h).isArray = true)
    (index : UInt32) (v : Value) :
    ∃ taken heap, (h.write index v).Settles w h.scopeBill taken { w with heap } ∧
      (taken = true ↔ ∃ p, (w.guardedType h).element? = some (.primitive p) ∧
        (v.isNull = true ∨ (v.coerce? p).isSome = true) ∧
        index.toNat < stored.slots.length) ∧
      (taken = false → heap = w.heap) ∧
      (taken = true → ∃ p slot, (w.guardedType h).element? = some (.primitive p) ∧
        slot.Written p v ∧ w.heap.Overwritten heap id index.toNat slot ∧
        ∀ view u, World.Open u → view.Sees u id →
          u.heap.slot? id index.toNat = heap.slot? id index.toNat →
          ∃ elementType, (u.guardedType view.handle).element? = some elementType ∧
            (slot = .null → u.Delivers view index ⟨.null, elementType⟩ (.null elementType.name)) ∧
            ∀ x, slot = .value x → u.Delivers view index ⟨.scalar x, elementType⟩ x) := by
  have reached := World.reach?_of_objectId? opened.followed there denoted
  cases made : ((w.guardedType h).element?.bind DebugType.primitive?).bind (slotFor? · v) with
  | none =>
      refine ⟨false, w.heap, settles_write_of_refused reached array rfl made opened.free,
        iff_of_false (by decide) ?_, fun _ => rfl, nofun⟩
      rintro ⟨p, typed, fits, -⟩
      rw [DebugType.bind_primitive?_eq_some_iff.2 typed, Option.bind_some] at made
      rw [← isSome_slotFor?_iff, made] at fits
      cases fits
  | some slot =>
      obtain ⟨p, typed, fits⟩ := Option.bind_eq_some_iff.1 made
      have written : (h.write index v).Settles w h.scopeBill (w.heap.hasSlot id index.toNat)
          { w with heap := w.heap.setSlot id index.toNat slot } :=
        settles_write reached array rfl typed fits opened.free
      rw [DebugType.bind_primitive?_eq_some_iff] at typed
      have place := Heap.hasSlot_eq_decide there index.toNat
      refine ⟨_, _, written, ?_, ?_, ?_⟩
      · rw [place, decide_eq_true_iff]
        constructor
        · intro inside
          exact ⟨p, typed, isSome_slotFor?_iff.1 (by rw [fits]; rfl), inside⟩
        · rintro ⟨-, -, -, inside⟩
          exact inside
      · intro missing
        apply Heap.setSlot_eq_self
        intro old held
        simp [Heap.hasSlot, held] at missing
      · intro taken
        have changed := Heap.overwritten_setSlot taken slot
        refine ⟨p, slot, typed, slotFor?_eq_some_iff.1 fits, changed, ?_⟩
        intro view u openedLater sees same
        obtain ⟨elementType, elements⟩ := DebugType.exists_element?_of_isArray sees.array
        have held := same.trans changed.written
        refine ⟨elementType, elements, ?_, ?_⟩
        · rintro rfl
          exact World.delivers_of_slot? openedLater sees held elements rfl
        · rintro x rfl
          exact World.delivers_of_slot? openedLater sees held elements rfl

/-- An array of strings, of which there are older handles. -/
def retyped : World where
  heap := [⟨.szArray (.primitive .string), [.null]⟩]

/-- Through a handle that still takes the array for one of characters, a string is written as a
character; a view by a reference finds it among the strings. -/
theorem write_exact_retyped :
    ∃ heap,
      (write ⟨.object 0, .szArray (.primitive .char)⟩ 0 (.string "x")).Settles retyped 0 true
        { retyped with heap } ∧
      World.Delivers { retyped with heap }
        ⟨⟨.reference 0, .szArray (.primitive .string)⟩, true, .uninitialized⟩ 0
        ⟨.scalar (.char 'x'), .primitive .string⟩ (.char 'x') := by
  obtain ⟨taken, heap, settled, accepted, -, seen⟩ :=
    write_exact (w := retyped) (h := ⟨.object 0, .szArray (.primitive .char)⟩) ⟨rfl, rfl⟩ rfl rfl
      rfl 0 (.string "x")
  obtain rfl := accepted.2 ⟨.char, rfl, .inr rfl, by decide⟩
  obtain ⟨p, slot, typed, written, changed, delivers⟩ := seen rfl
  cases typed
  have guarded : World.guardedType { retyped with heap }
      ⟨.reference 0, .szArray (.primitive .string)⟩ = .szArray (.primitive .string) := by
    obtain ⟨stored, there, typed⟩ := Option.map_eq_some_iff.1 (changed.types 0)
    exact (Heap.typeOf_eq_type there).trans typed
  obtain ⟨elementType, elements, -, found⟩ :=
    delivers ⟨⟨.reference 0, .szArray (.primitive .string)⟩, true, .uninitialized⟩
      { retyped with heap } ⟨rfl, rfl⟩ ⟨rfl, rfl, by rw [guarded]; rfl⟩ rfl
  rw [guarded] at elements
  cases elements
  cases written with
  | null isNull => cases isNull
  | value notNull fits =>
      cases fits
      exact ⟨heap, settled, found _ rfl⟩

end Handle

theorem HeapObject.IsVector.set {object : HeapObject} {p : Primitive} {slot : Slot}
    (vector : object.IsVector p) (suits : slot.Suits p) (index : Nat) :
    HeapObject.IsVector { object with slots := object.slots.set index slot } p where
  type := vector.type
  slots := by
    intro other member
    obtain old | rfl := List.mem_or_eq_of_mem_set member
    · exact vector.slots other old
    · exact suits

/-- What a slot of a vector is loaded as goes back into a slot of that type as the same slot. -/
theorem Slot.Suits.exists_value {p : Primitive} {slot : Slot} (suits : slot.Suits p) (w : World) :
    ∃ v, (w.slotHandle (.primitive p) slot).value? = some v ∧ Handle.slotFor? p v = some slot := by
  cases slot with
  | value v => exact ⟨v, rfl, Handle.slotFor?_of_primitive? suits⟩
  | object id => cases suits
  | null => exact ⟨_, rfl, rfl⟩

namespace ArrayView

variable {w : World} {a b id : ObjectId} {p : Primitive} {object source target : HeapObject}
  {x y view : ArrayView}

theorem OfVector.guardedType_eq (ofVector : view.OfVector id p)
    (there : w.heap.object? id = some object) (vector : object.IsVector p) :
    w.guardedType view.handle = .szArray (.primitive p) := by
  obtain ⟨⟨referent, type⟩, isSz, cache⟩ := view
  obtain ⟨-, denoted, typed⟩ := ofVector
  cases referent with
  | reference other =>
      cases denoted
      exact (Heap.typeOf_eq_type there).trans vector.type
  | object other => exact typed
  | null => cases denoted
  | scalar v => cases denoted

/-- To load from one vector and to write to another of the same type copies a slot, a null as well.
No other slot changes, both are vectors of that type afterwards, and what is written back to where
it came from changes nothing at all. -/
theorem copy_exact (opened : w.Open) (sourceThere : w.heap.object? a = some source)
    (targetThere : w.heap.object? b = some target) (sourceVector : source.IsVector p)
    (targetVector : target.IsVector p) (ofSource : x.OfVector a p) (ofTarget : y.OfVector b p)
    {i j : UInt32} (insideSource : i.toNat < source.slots.length)
    (insideTarget : j.toNat < target.slots.length) :
    ∃ v slot heap, w.heap.slot? a i.toNat = some slot ∧
      (∃ element, w.Delivers x i element v) ∧
      (∀ stats, (y.write j v).Settles { w with stats } y.handle.scopeBill true { w with heap }) ∧
      w.heap.Overwritten heap b j.toNat slot ∧
      (a = b → i = j → heap = w.heap) ∧
      ∀ id, id = a ∨ id = b → ∃ object, heap.object? id = some object ∧ object.IsVector p := by
  have sourceTyped := ofSource.guardedType_eq sourceThere sourceVector
  have targetTyped := ofTarget.guardedType_eq targetThere targetVector
  obtain ⟨slot, here⟩ : ∃ slot, source.slots[i.toNat]? = some slot :=
    ⟨_, List.getElem?_eq_getElem insideSource⟩
  have held : w.heap.slot? a i.toNat = some slot := by
    rw [Heap.slot?_eq_getElem? sourceThere, here]
  have suits := sourceVector.slots slot (List.mem_of_getElem? here)
  obtain ⟨v, known, fits⟩ := suits.exists_value w
  have taken : w.heap.hasSlot b j.toNat = true := by
    rw [Heap.hasSlot_eq_decide targetThere, decide_eq_true insideTarget]
  refine ⟨v, slot, w.heap.setSlot b j.toNat slot, held, ⟨w.slotHandle (.primitive p) slot, ?_⟩, ?_,
    Heap.overwritten_setSlot taken slot, ?_, ?_⟩
  · have sees : x.Sees w a := ⟨ofSource.sz, ofSource.denoted, by rw [sourceTyped]; rfl⟩
    exact World.delivers_of_slot? opened sees held (by rw [sourceTyped]; rfl) known
  · intro stats
    have reached := World.reach?_of_objectId? (w := { w with stats }) opened.followed targetThere
      ofTarget.denoted
    have guarded : World.guardedType { w with stats } y.handle = .szArray (.primitive p) :=
      targetTyped
    rw [guarded] at reached
    rw [← taken]
    exact Handle.settles_write reached rfl rfl rfl fits opened.free
  · rintro rfl rfl
    apply Heap.setSlot_eq_self
    intro old there
    exact Option.some.inj (there.symm.trans held)
  · intro id which
    by_cases changed : id = b
    · subst changed
      exact ⟨_, Heap.object?_setSlot_self targetThere _ _, targetVector.set suits _⟩
    · obtain rfl := which.resolve_right changed
      refine ⟨source, ?_, sourceVector⟩
      rw [Heap.object?_setSlot_of_ne (Ne.symm changed), sourceThere]

/-- Two arrays of characters, one of which starts with a null. -/
def twoVectors : World where
  heap :=
    [⟨.szArray (.primitive .char), [.null, .value (.char 'a')]⟩,
      ⟨.szArray (.primitive .char), [.value (.char 'b')]⟩]

/-- A null is copied by a reference to where a character was. -/
theorem copy_exact_twoVectors :
    ∃ v heap,
      (∃ element, twoVectors.Delivers ⟨⟨.object 0, .szArray (.primitive .char)⟩, true,
        .uninitialized⟩ 0 element v) ∧
      (∀ stats, (write ⟨⟨.reference 1, .szArray (.primitive .char)⟩, true, .uninitialized⟩ 0
        v).Settles { twoVectors with stats } (.ofEvent .dereference + .ofEvent .issue +
          .ofEvent .release) true { twoVectors with heap }) ∧
      heap.slot? 1 0 = some .null := by
  have first : HeapObject.IsVector ⟨.szArray (.primitive .char), [.null, .value (.char 'a')]⟩
      .char := ⟨rfl, by simp [Slot.Suits, Value.primitive?]⟩
  have second : HeapObject.IsVector ⟨.szArray (.primitive .char), [.value (.char 'b')]⟩ .char :=
    ⟨rfl, by simp [Slot.Suits, Value.primitive?]⟩
  obtain ⟨v, slot, heap, held, loaded, stored, changed, -⟩ :=
    copy_exact (w := twoVectors) (a := 0) (b := 1)
      (x := ⟨⟨.object 0, .szArray (.primitive .char)⟩, true, .uninitialized⟩)
      (y := ⟨⟨.reference 1, .szArray (.primitive .char)⟩, true, .uninitialized⟩)
      (i := 0) (j := 0) ⟨rfl, rfl⟩ rfl rfl first second ⟨rfl, rfl, rfl⟩ ⟨rfl, rfl, rfl⟩
      (by decide) (by decide)
  cases held
  exact ⟨v, heap, loaded, stored, changed.written⟩

end ArrayView

end DebugArrays
