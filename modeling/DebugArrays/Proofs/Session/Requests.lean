import DebugArrays.Proofs.Session.Model

/-!
What the requests of a session answer, cost and leave behind.
-/
namespace DebugArrays

namespace StoredArray

/-- What a load finds in an entry. -/
def loaded (a : StoredArray) (entry : Option Value) : Value :=
  entry.getD (.null a.element.keyword)

variable {a : StoredArray} {entry : Option Value}

theorem display_loaded (a : StoredArray) (entry : Option Value) :
    (a.loaded entry).display = entryText entry := by
  cases entry <;> rfl

theorem typeName_loaded (typed : a.Typed) (member : entry ∈ a.entries) :
    (a.loaded entry).typeName = a.element.keyword := by
  cases entry with
  | some v => exact Value.typeName_of_primitive? (typed v member)
  | none => rfl

theorem value?_elementHandle (a : StoredArray) (entry : Option Value) :
    (a.elementHandle entry).value? = some (a.loaded entry) := by
  cases entry with
  | some v => rfl
  | none =>
      have same : (DebugType.primitive a.element).name = a.element.keyword :=
        String.ofList_toList
      simp [elementHandle, Handle.value?, loaded, same]

end StoredArray

namespace SessionModel

open Eval

variable {m : SessionModel} {name : String} {a : StoredArray} {w : World} {arrays : ArrayTable}
  {index : Int64} {i : UInt32}

theorem outlines_of_contents (found : m.contents name = some a) :
    m.outlines name = some ⟨m.byReference name, a.element, a.rank, a.entries.length⟩ := by
  rw [outlines, found, Option.map_some]

theorem outlines_of_missing (missing : m.contents name = none) : m.outlines name = none := by
  rw [outlines, missing, Option.map_none]

theorem scopeBill_view :
    (m.view name a).handle.scopeBill = scopePrice (m.byReference name) :=
  scopeBill_handle

theorem szIndex?_view_of_rank (several : a.rank ≠ 1) (n : Int) :
    (m.view name a).szIndex? n = none := by
  simp [ArrayView.szIndex?, view, several]

theorem szIndex?_view (one : a.rank = 1) (n : Int) :
    (m.view name a).szIndex? n = elementIndex? n := by
  simp [ArrayView.szIndex?, view, one]

/-- An element that is there is read, turned into a value and given back. -/
theorem Carried.settles_load (carried : m.Carried w) (found : m.contents name = some a) :
    ((m.view name a).load index.toInt).Settles w
      ((m.outlines.read? (.element name index)).elim 0 Access.readPrice)
      (((a.seen? index).bind fun i => a.entries[i]?).map a.loaded) w := by
  have price : m.outlines.read? (.element name index) =
      Outline.access? ⟨m.byReference name, a.element, a.rank, a.entries.length⟩ index := by
    rw [Outlines.read?, outlines_of_contents found, Option.bind_some]
  rw [price]
  unfold ArrayView.load Outline.access?
  by_cases one : a.rank = 1
  · rw [szIndex?_view one, if_pos one]
    cases place : elementIndex? index.toInt with
    | none =>
        rw [StoredArray.seen?_of_outside place]
        exact Settles.pure none w
    | some i =>
        rw [StoredArray.seen?_of_elementIndex? one place]
        by_cases inside : i.toNat < a.entries.length
        · have here : w.elementAt? (m.target name a) i =
              some (a.elementHandle a.entries[i.toNat]) := by
            rw [carried.elementAt? found, List.getElem?_eq_getElem inside, Option.map_some]
          have read : ((m.view name a).withElement i Handle.consume).Settles w _ _ w :=
            ArrayView.settles_withElement (carried.reached found) a.isArray_type here
              (fun stats => Handle.settles_consume (a.value?_elementHandle _) carried.free)
              carried.free
          rw [scopeBill_view, elementBill_target, if_pos rfl, add_assoc] at read
          simpa [inside, Access.readPrice] using read
        · have nowhere : w.elementAt? (m.target name a) i = none := by
            rw [carried.elementAt? found, List.getElem?_eq_none (Nat.le_of_not_lt inside),
              Option.map_none]
          have read : ((m.view name a).withElement i Handle.consume).Settles w _ _ w :=
            ArrayView.settles_withElement_none (carried.reached found) a.isArray_type nowhere
              carried.free
          rw [scopeBill_view, elementBill_target, if_neg (by decide)] at read
          simpa [inside, Access.readPrice] using read
  · rw [szIndex?_view_of_rank one, if_neg one, StoredArray.seen?_of_rank one]
    exact Settles.pure none w

/-- A table shows a model: under each name there is the view of its array, and nothing else. -/
def Shown (m : SessionModel) (arrays : ArrayTable) : Prop :=
  ∀ name, arrays.find? name = (m.contents name).map (m.view name)

theorem price_element (m : SessionModel) (name : String) (index : Int64) :
    m.outlines.price m.asked (.element name index) =
      (m.outlines.read? (.element name index)).elim 0 Access.readPrice :=
  add_zero _

theorem price_store (m : SessionModel) (name : String) (index : Int64) (value : Document) :
    m.outlines.price m.asked (.store name index value) =
      (m.outlines.write? (.store name index value)).elim 0 Access.writePrice :=
  zero_add _

theorem Carried.settles_element (carried : m.Carried w) (shown : m.Shown arrays) (name : String)
    (index : Int64) :
    (arrays.element name index).Settles w (m.outlines.price m.asked (.element name index))
      (m.contents.withArray name fun a => a.elementAnswer name index (a.seen? index)) w := by
  rw [price_element]
  unfold ArrayTable.element Reference.withArray
  rw [shown name]
  cases found : m.contents name with
  | none =>
      rw [Outlines.read?, outlines_of_missing found]
      exact Settles.pure _ w
  | some a =>
      refine (carried.settles_load found).bind_pure ?_
      dsimp only [StoredArray.elementAnswer]
      by_cases one : a.rank = 1
      · rw [if_pos one]
        cases read : (a.seen? index).bind fun i => a.entries[i]? with
        | none => simp [view, one]
        | some entry =>
            obtain ⟨i, -, here⟩ := Option.bind_eq_some_iff.1 read
            have member := List.mem_of_getElem? here
            simp [a.display_loaded, StoredArray.typeName_loaded (carried.typed name a found) member]
      · rw [if_neg one, StoredArray.seen?_of_rank one]
        simp [view, one, ArrayView.type, handle]

/-- What is carried does not depend on what was asked. -/
theorem Carried.of_contents (carried : m.Carried w) {n : SessionModel}
    (contents : n.contents = m.contents) (ids : n.id = m.id) : n.Carried w := by
  obtain ⟨object, apart, typed, sound, recorded, followed, free⟩ := carried
  rw [← contents] at object apart typed
  rw [← ids] at object apart
  exact ⟨object, apart, typed, sound, recorded, followed, free⟩

theorem contents_after_store_of_missing {value : Document} (missing : m.contents name = none) :
    (m.after (.store name index value)).contents = m.contents := by
  rw [after, missing, Option.map_none, ← missing, Function.update_eq_self]

theorem contents_after_store_of_refused {value : Document} (found : m.contents name = some a)
    (refused : a.write value (a.seen? index) = a) :
    (m.after (.store name index value)).contents = m.contents := by
  rw [after, found, Option.map_some, refused, ← found, Function.update_eq_self]

theorem elementType?_view : ArrayTable.elementType? (m.view name a) = some a.element := by
  simp [ArrayTable.elementType?, ArrayView.type, view, DebugType.primitive?]

theorem Carried.settles_store (carried : m.Carried w) (shown : m.Shown arrays) (name : String)
    (index : Int64) (value : Document) :
    ∃ u, (arrays.store name index value).Settles w
        (m.outlines.price m.asked (.store name index value))
        (m.contents.withArray name fun a => a.storeAnswer value (a.seen? index)) u ∧
      (m.after (.store name index value)).Carried u := by
  rw [price_store]
  unfold ArrayTable.store Reference.withArray
  rw [shown name]
  cases found : m.contents name with
  | none =>
      rw [Outlines.write?, outlines_of_missing found]
      exact ⟨w, Settles.pure _ w,
        carried.of_contents (contents_after_store_of_missing found) rfl⟩
  | some a =>
      rw [Outlines.write?, outlines_of_contents found]
      dsimp only [Option.map_some, Option.bind_some, StoredArray.storeAnswer]
      rw [elementType?_view]
      cases decoded : Value.ofJson? value.tree a.element with
      | none =>
          have refused : a.write value (a.seen? index) = a := by simp [StoredArray.write, decoded]
          simp only [decoded]
          exact ⟨w, Settles.pure _ w,
            carried.of_contents (contents_after_store_of_refused found refused) rfl⟩
      | some v =>
          simp only [decoded, Option.bind_some, Outline.access?]
          by_cases one : a.rank = 1
          · rw [szIndex?_view one, if_pos one]
            cases place : elementIndex? index.toInt with
            | none =>
                have refused : a.write value (a.seen? index) = a := by
                  rw [StoredArray.seen?_of_outside place, StoredArray.write_none]
                rw [StoredArray.seen?_of_outside place]
                exact ⟨w, Settles.pure _ w,
                  carried.of_contents (contents_after_store_of_refused found refused) rfl⟩
            | some i =>
                refine ⟨_, ?_, carried.store found one place decoded⟩
                have written : ((m.view name a).write i v).Settles w _ _ _ :=
                  Handle.settles_write (carried.reached found) a.isArray_type rfl
                    (by simp [target, DebugType.primitive?])
                    (Handle.slotFor?_of_primitive? (Value.primitive?_of_ofJson? decoded))
                    carried.free
                rw [carried.hasSlot found, scopeBill_view] at written
                refine written.bind_pure ?_
                rw [StoredArray.seen?_of_elementIndex? one place]
                by_cases inside : i.toNat < a.entries.length <;> simp [inside]
          · have refused : a.write value (a.seen? index) = a := by
              rw [StoredArray.seen?_of_rank one, StoredArray.write_none]
            rw [szIndex?_view_of_rank one, if_neg one, StoredArray.seen?_of_rank one]
            exact ⟨w, Settles.pure _ w,
              carried.of_contents (contents_after_store_of_refused found refused) rfl⟩

theorem counted?_of_rank (several : a.rank ≠ 1) : a.counted? = none :=
  if_neg fun both => several both.1

/-- The length of an array, and the view that knows it, at the price of a query that was not made
before. -/
theorem Carried.settles_length_view (carried : m.Carried w) (found : m.contents name = some a) :
    (m.view name a).length.Settles w (m.outlines.price m.asked (.length name))
      (a.counted?, (m.after (.length name)).view name a) w := by
  have later : (m.after (.length name)).view name a =
      { m.view name a with cache := .settle a.counted? } := by
    have member : name ∈ (m.after (.length name)).asked := Finset.mem_insert_self name m.asked
    rw [view, if_pos member]
    rfl
  rw [later, Outlines.price_length, outlines_of_contents found]
  by_cases known : name ∈ m.asked
  · have cache : (m.view name a).cache = .settle a.counted? := if_pos known
    have asked : (m.view name a).cache ≠ .uninitialized :=
      cache ▸ LengthCache.settle_ne_uninitialized _
    have answer := ArrayView.settles_length_of_ne_uninitialized asked w
    rw [cache, LengthCache.length?_settle] at answer
    rw [if_pos known, ← cache]
    exact answer
  · have unasked : (m.view name a).cache = .uninitialized := if_neg known
    rw [if_neg known, Option.elim_some, Outline.queryPrice]
    by_cases one : a.rank = 1
    · have sz : (m.view name a).isSz = true := beq_iff_eq.2 one
      have szObject : (m.target name a).type.isSzArray = true :=
        (a.isSzArray_type).trans (beq_iff_eq.2 one)
      have queried : (m.view name a).queryLength.Settles w _ _ w :=
        ArrayView.settles_queryLength sz (carried.reached found) szObject carried.free
      rw [carried.slotCount? found one, scopeBill_view] at queried
      rw [if_pos one]
      exact ArrayView.settles_length unasked queried
    · have notSz : (m.view name a).isSz = false := beq_eq_false_iff_ne.2 one
      rw [if_neg one, counted?_of_rank one]
      exact ArrayView.settles_length unasked (ArrayView.settles_queryLength_of_not_sz notSz w)

theorem view_after_length_of_ne {other : String} (h : other ≠ name) :
    (m.after (.length name)).view other = m.view other :=
  view_congr rfl rfl (by simp [after, Request.noting, h])

theorem Shown.length_of_missing (shown : m.Shown arrays) (missing : m.contents name = none) :
    (m.after (.length name)).Shown arrays := by
  intro other
  have same : (m.after (.length name)).contents other = m.contents other := rfl
  rw [shown other, same]
  by_cases here : other = name
  · rw [here, missing]
    rfl
  · rw [view_after_length_of_ne here]

theorem Shown.length (shown : m.Shown arrays) (found : m.contents name = some a) :
    (m.after (.length name)).Shown
      (arrays.insert name ((m.after (.length name)).view name a)) := by
  intro other
  have same : (m.after (.length name)).contents other = m.contents other := rfl
  by_cases here : other = name
  · subst here
    rw [NameTable.find?_insert_self, same, found, Option.map_some]
  · rw [NameTable.find?_insert_of_ne here, shown other, same, view_after_length_of_ne here]

theorem Carried.settles_length (carried : m.Carried w) (shown : m.Shown arrays) (name : String) :
    ∃ table, (arrays.length name).Settles w (m.outlines.price m.asked (.length name))
        (m.contents.withArray name fun a =>
          .ok (StoredArray.lengthAnswer (a.counted?.map UInt32.toNat)), table) w ∧
      (m.after (.length name)).Shown table := by
  unfold ArrayTable.length Reference.withArray
  rw [shown name]
  cases found : m.contents name with
  | none =>
      refine ⟨arrays, ?_, shown.length_of_missing found⟩
      have price : m.outlines.price m.asked (.length name) = 0 :=
        Outlines.price_length_of_free
          (.inr (by rw [Outlines.hasRankOne, outlines_of_missing found]; rfl))
      rw [price]
      exact Settles.pure _ w
  | some a =>
      refine ⟨_, (carried.settles_length_view found).bind_pure ?_, shown.length found⟩
      dsimp only
      cases a.counted? <;> rfl

end SessionModel

end DebugArrays
