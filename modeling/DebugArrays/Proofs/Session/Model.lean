import DebugArrays.Proofs.Array.Access
import DebugArrays.Proofs.Heap.Sound
import DebugArrays.Proofs.Session.Traffic

/-!
What a session holds, in terms of the reference: each name has an object of its own, whose slots are
the entries of the stored array, and a view that follows from the array and from what was asked.
-/
namespace DebugArrays

namespace StoredArray

variable {a : StoredArray} {index : Int64} {i : UInt32}

def Typed (a : StoredArray) : Prop :=
  ∀ v, some v ∈ a.entries → v.primitive? = some a.element

def Small (a : StoredArray) : Prop :=
  a.entries.length < 2 ^ 32

def slot : Option Value → Slot
  | some v => .value v
  | none => .null

/-- The object that a stored array is in the debuggee. -/
def object (a : StoredArray) : HeapObject :=
  ⟨a.type, a.entries.map slot⟩

/-- The handle that an entry is read through. -/
def elementHandle (a : StoredArray) : Option Value → Handle
  | some v => ⟨.scalar v, .primitive a.element⟩
  | none => ⟨.null, .primitive a.element⟩

/-- The place of an index, as far as the debuggee takes it. -/
def seen? (a : StoredArray) (index : Int64) : Option Nat :=
  if index.toInt < 2 ^ 32 then a.place? index else none

/-- The length, as far as the debuggee tells it. -/
def counted? (a : StoredArray) : Option UInt32 :=
  if a.rank = 1 ∧ a.entries.length < 2 ^ 32 then some (.ofNat a.entries.length) else none

@[simp] theorem element?_type (a : StoredArray) : a.type.element? = some (.primitive a.element) := by
  unfold type
  split <;> rfl

@[simp] theorem isArray_type (a : StoredArray) : a.type.isArray = true := by
  unfold type
  split <;> rfl

@[simp] theorem isSzArray_type (a : StoredArray) : a.type.isSzArray = (a.rank == 1) := by
  unfold type
  split
  · next one => exact (beq_iff_eq.2 one).symm
  · next several => exact (beq_eq_false_iff_ne.2 several).symm

@[simp] theorem withoutByRef_type (a : StoredArray) : a.type.withoutByRef = a.type := by
  unfold type
  split <;> rfl

theorem seen?_of_elementIndex? (one : a.rank = 1) (h : elementIndex? index.toInt = some i) :
    a.seen? index = if i.toNat < a.entries.length then some i.toNat else none := by
  have bound := i.toNat_lt
  have same := elementIndex?_eq_some_iff.1 h
  unfold seen? place?
  rw [same, if_pos (by omega), Int.toNat_natCast]
  by_cases inside : i.toNat < a.entries.length
  · rw [if_pos ⟨one, by omega, by omega⟩, if_pos inside]
  · rw [if_neg (by omega), if_neg inside]

theorem seen?_of_outside (h : elementIndex? index.toInt = none) : a.seen? index = none := by
  have outside := elementIndex?_eq_none_iff.1 h
  unfold seen? place?
  split
  · rw [if_neg (by omega)]
  · rfl

theorem seen?_of_rank (several : a.rank ≠ 1) : a.seen? index = none := by
  have nowhere : a.place? index = none := if_neg fun all => several all.1
  rw [seen?, nowhere, ite_self]

theorem Small.seen? (small : a.Small) (index : Int64) : a.seen? index = a.place? index := by
  unfold Small at small
  unfold StoredArray.seen? place?
  split
  · rfl
  · rw [if_neg (by omega)]

theorem Small.counted? (small : a.Small) :
    a.counted?.map UInt32.toNat = if a.rank = 1 then some a.entries.length else none := by
  unfold Small at small
  unfold StoredArray.counted?
  split
  · next both =>
    rw [if_pos both.1, Option.map_some, UInt32.toNat_ofNat_of_lt' small]
  · next either =>
    rw [if_neg fun one => either ⟨one, small⟩]
    rfl

@[simp] theorem element_write (a : StoredArray) (value : Document) (place : Option Nat) :
    (a.write value place).element = a.element := by
  unfold write
  split <;> rfl

@[simp] theorem rank_write (a : StoredArray) (value : Document) (place : Option Nat) :
    (a.write value place).rank = a.rank := by
  unfold write
  split <;> rfl

@[simp] theorem length_write (a : StoredArray) (value : Document) (place : Option Nat) :
    (a.write value place).entries.length = a.entries.length := by
  unfold write
  split
  · exact List.length_set
  · rfl

@[simp] theorem type_write (a : StoredArray) (value : Document) (place : Option Nat) :
    (a.write value place).type = a.type := by
  unfold type
  rw [element_write, rank_write]

@[simp] theorem counted?_write (a : StoredArray) (value : Document) (place : Option Nat) :
    (a.write value place).counted? = a.counted? := by
  unfold counted?
  rw [rank_write, length_write]

theorem Typed.write (typed : a.Typed) (value : Document) (place : Option Nat) :
    (a.write value place).Typed := by
  unfold StoredArray.write
  split
  · next v i decoded =>
    intro u member
    obtain old | new := List.mem_or_eq_of_mem_set member
    · exact typed u old
    · cases new
      exact Value.primitive?_of_ofJson? decoded
  · exact typed

/-- A decoded value at an index in the window goes to the slot of the same number. -/
theorem write_seen? {value : Document} {v : Value} (one : a.rank = 1)
    (h : elementIndex? index.toInt = some i)
    (decoded : Value.ofJson? value.tree a.element = some v) :
    a.write value (a.seen? index) = { a with entries := a.entries.set i.toNat (some v) } := by
  rw [seen?_of_elementIndex? one h]
  unfold write
  rw [decoded]
  split
  · next v' i' same place =>
    cases same
    obtain ⟨-, here⟩ := Option.ite_none_right_eq_some.1 place
    cases here
    rfl
  · next outside =>
    by_cases inside : i.toNat < a.entries.length
    · exact absurd (if_pos inside) (outside v i.toNat rfl)
    · rw [List.set_eq_of_length_le (Nat.le_of_not_lt inside)]

theorem write_none (a : StoredArray) (value : Document) : a.write value none = a := by
  unfold write
  cases Value.ofJson? value.tree a.element <;> rfl

end StoredArray

/-- A session without its world and table: what the reference keeps, how and where the arrays are
held, and which lengths were asked for. -/
structure SessionModel where
  contents : Reference
  byReference : String → Bool
  id : String → ObjectId
  asked : Finset String

namespace SessionModel

variable {m : SessionModel} {name : String} {a : StoredArray} {w : World}

def handle (m : SessionModel) (name : String) (a : StoredArray) : Handle :=
  ⟨if m.byReference name then .reference (m.id name) else .object (m.id name), a.type⟩

def target (m : SessionModel) (name : String) (a : StoredArray) : Handle :=
  ⟨.object (m.id name), a.type⟩

def view (m : SessionModel) (name : String) (a : StoredArray) : ArrayView where
  handle := m.handle name a
  isSz := a.rank == 1
  cache := if name ∈ m.asked then .settle a.counted? else .uninitialized

def outlines (m : SessionModel) : Outlines :=
  fun name => (m.contents name).map fun a =>
    { byReference := m.byReference name
      element := a.element
      rank := a.rank
      length := a.entries.length }

def after (m : SessionModel) (r : Request) : SessionModel :=
  { m with
    contents :=
      match r with
      | .store name index value =>
        Function.update m.contents name
          ((m.contents name).map fun a => a.write value (a.seen? index))
      | _ => m.contents
    asked := r.noting m.asked }

/-- The answer to a request that leaves the session open, given the ledger. Unlike the reference's
it stops where 32 bits do. -/
def reply (m : SessionModel) (ledger : HandleStats) : Request → Response
  | .length name =>
    Handler.respond <| m.contents.withArray name fun a =>
      .ok (StoredArray.lengthAnswer (a.counted?.map UInt32.toNat))
  | .element name index =>
    Handler.respond <| m.contents.withArray name fun a =>
      a.elementAnswer name index (a.seen? index)
  | .store name index value =>
    Handler.respond <| m.contents.withArray name fun a => a.storeAnswer value (a.seen? index)
  | .stats => .stats ledger
  | .load _ | .shutdown => .success true

/-- The world has an object for each array, and lets nothing stand in the way. Objects that no name
stands for any more are sound as well. -/
structure Carried (m : SessionModel) (w : World) : Prop where
  object : ∀ name a, m.contents name = some a → w.heap.object? (m.id name) = some a.object
  apart : ∀ name other a b, m.contents name = some a → m.contents other = some b →
    m.id name = m.id other → name = other
  typed : ∀ name a, m.contents name = some a → a.Typed
  sound : w.heap.Sound
  recorded : w.recorded = []
  followed : w.dereferenceFails = false
  free : w.releaseForbidden = false

@[simp] theorem type_handle : (m.handle name a).type = a.type := rfl

theorem contents_after_store_self (index : Int64) (value : Document) :
    (m.after (.store name index value)).contents name =
      (m.contents name).map fun a => a.write value (a.seen? index) :=
  Function.update_self ..

theorem contents_after_store_of_ne {other : String} (h : other ≠ name) (index : Int64)
    (value : Document) :
    (m.after (.store name index value)).contents other = m.contents other :=
  Function.update_of_ne h _ _

theorem elementBill_target (found : Bool) :
    (m.target name a).elementBill found =
      .ofEvent .elementRead + if found then .ofEvent .issue else 0 := by
  simp [Handle.elementBill, target, Handle.isObject]

theorem isReference_handle : (m.handle name a).isReference = m.byReference name := by
  unfold handle Handle.isReference
  cases m.byReference name <;> rfl

theorem view_congr {n : SessionModel} (held : n.byReference name = m.byReference name)
    (there : n.id name = m.id name) (asked : name ∈ n.asked ↔ name ∈ m.asked) :
    n.view name = m.view name := by
  funext a
  unfold view handle
  rw [held, there]
  simp only [asked]

theorem scopeBill_handle : (m.handle name a).scopeBill = scopePrice (m.byReference name) := by
  unfold Handle.scopeBill scopePrice
  rw [isReference_handle]

namespace Carried

theorem withStats (carried : m.Carried w) (stats : HandleStats) : m.Carried { w with stats } :=
  { carried with }

/-- Every array object can be reached. -/
theorem reached (carried : m.Carried w) (found : m.contents name = some a) :
    w.reach? (m.handle name a) = some (m.target name a) := by
  unfold World.reach?
  rw [isReference_handle]
  have there := carried.object name a found
  unfold handle target
  cases m.byReference name with
  | false => rfl
  | true =>
      have inside : m.id name < w.heap.length :=
        (List.getElem?_eq_some_iff.1 there).1
      simp [World.follow?, carried.followed, inside, Heap.typeOf, there, StoredArray.object]

theorem slot? (carried : m.Carried w) (found : m.contents name = some a) (i : Nat) :
    w.heap.slot? (m.id name) i = a.entries[i]?.map StoredArray.slot := by
  rw [Heap.slot?, carried.object name a found, Option.bind_some, StoredArray.object,
    List.getElem?_map]

theorem hasSlot (carried : m.Carried w) (found : m.contents name = some a) (i : Nat) :
    w.heap.hasSlot (m.id name) i = decide (i < a.entries.length) := by
  rw [Heap.hasSlot, carried.slot? found, Option.isSome_map, Bool.eq_iff_iff, isSome_getElem?,
    decide_eq_true_iff]

theorem slotCount? (carried : m.Carried w) (found : m.contents name = some a) (one : a.rank = 1) :
    w.slotCount? (m.target name a) = a.counted? := by
  unfold World.slotCount? StoredArray.counted? target
  simp [carried.object name a found, StoredArray.object, one]

theorem elementAt? (carried : m.Carried w) (found : m.contents name = some a) (i : UInt32) :
    w.elementAt? (m.target name a) i = a.entries[i.toNat]?.map a.elementHandle := by
  unfold World.elementAt? target
  simp only [StoredArray.element?_type, carried.slot? found, Option.map_map]
  congr 1
  funext entry
  cases entry <;> rfl

/-- A decoded value in a slot is an entry of the array, and no other array sees it. -/
theorem store (carried : m.Carried w) (found : m.contents name = some a) {index : Int64}
    {i : UInt32} {value : Document} {v : Value} (one : a.rank = 1)
    (place : elementIndex? index.toInt = some i)
    (decoded : Value.ofJson? value.tree a.element = some v) :
    (m.after (.store name index value)).Carried
      { w with heap := w.heap.setSlot (m.id name) i.toNat (.value v) } := by
  have changed : (m.after (.store name index value)).contents name =
      some (a.write value (a.seen? index)) := by
    rw [contents_after_store_self, found, Option.map_some]
  have known : ∀ other b, (m.after (.store name index value)).contents other = some b →
      ∃ b', m.contents other = some b' := by
    intro other b there
    by_cases same : other = name
    · exact ⟨a, same ▸ found⟩
    · exact ⟨b, (contents_after_store_of_ne same index value).symm.trans there⟩
  refine ⟨?_, ?_, ?_, ?_, carried.recorded, carried.followed, carried.free⟩
  · intro other b there
    by_cases same : other = name
    · subst same
      cases changed.symm.trans there
      refine (Heap.object?_setSlot_self (carried.object other a found) _ _).trans ?_
      rw [StoredArray.write_seen? one place decoded]
      simp [StoredArray.object, StoredArray.type, List.map_set, StoredArray.slot]
    · rw [contents_after_store_of_ne same] at there
      -- the slot written is in another object, since no two arrays share one
      refine (Heap.object?_setSlot_of_ne (fun shared => ?_) _ _).trans
        (carried.object other b there)
      exact same (carried.apart name other a b found there shared).symm
  · intro first second b c here there same
    obtain ⟨b', here⟩ := known first b here
    obtain ⟨c', there⟩ := known second c there
    exact carried.apart first second b' c' here there same
  · intro other b there
    by_cases same : other = name
    · subst same
      cases changed.symm.trans there
      exact (carried.typed other a found).write value _
    · rw [contents_after_store_of_ne same] at there
      exact carried.typed other b there
  · have held : (Slot.value v).Holds a.element :=
      ⟨Value.primitive?_of_ofJson? decoded, Value.isFinite_of_ofJson? decoded⟩
    exact carried.sound.setSlot (carried.object name a found) a.element?_type held _

end Carried

end SessionModel

end DebugArrays
