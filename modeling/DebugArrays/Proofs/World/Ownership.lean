import DebugArrays.Array.Address
import DebugArrays.Proofs.World.Guard

/-!
Who owns the handles. Every handle that was issued and not given back is recorded or owned by
somebody outside the world; each step says by how much it changes the number of the latter.
-/
namespace DebugArrays

namespace World

/-- The number of handles owned outside the world: issued, not given back, not recorded. -/
def owned (w : World) : Int :=
  w.stats.tally.issued - w.stats.tally.released - w.recorded.length

end World

namespace Eval

variable {α β : Type} {step : Eval α} {next : α → Eval β} {w v after : World}
  {a : α} {t : Tally} {m n : α → Int}

/-- A step that goes well raises the number of owned handles by what its answer says. -/
def Yields (step : Eval α) (gain : α → Int) : Prop :=
  ∀ ⦃w v a⦄, step.runIn w = (.ok a, v) → v.owned = w.owned + gain a

/-- A bill says what becomes of ownership, as long as nothing is recorded. -/
theorem Settles.owned_eq (h : step.Settles w t a after) (kept : after.recorded = w.recorded)
    {b : α} (run : step.runIn w = (.ok b, v)) :
    v.owned = w.owned + (t.issued - t.released : Int) := by
  obtain ⟨-, same, paid⟩ := h.of_ok run
  unfold World.owned
  rw [paid, same, kept]
  simp only [Tally.issued_add, Tally.released_add]
  omega

namespace Yields

protected theorem pure (a : α) : (pure a : Eval α).Yields fun _ => 0 := by
  intro w v b run
  cases run
  exact (add_zero _).symm

theorem of_pure {gain : α → Int} (h : gain a = 0) : (pure a : Eval α).Yields gain := by
  intro w v b run
  cases run
  rw [h, add_zero]

theorem bind {n : β → Int} (first : step.Yields m)
    (rest : ∀ a, (next a).Yields fun b => n b - m a) : (step >>= next).Yields n := by
  intro w v b run
  obtain ⟨a, u, ran, last⟩ := runIn_bind_ok run
  have one := first ran
  have two := rest a last
  dsimp only at two
  omega

theorem map {f : α → β} {n : β → Int} (h : step.Yields fun a => n (f a)) :
    (f <$> step).Yields n := by
  intro w v b run
  obtain ⟨a, ran, rfl⟩ := runIn_map_ok run
  exact h ran

theorem congr (h : step.Yields m) (same : ∀ a, m a = n a) : step.Yields n :=
  fun _ _ a run => same a ▸ h run

theorem throw (fault : Fault) (gain : α → Int) : (throw fault : Eval α).Yields gain := by
  intro w v a run
  cases run

theorem check (condition : Bool) : (check condition).Yields fun _ => 0 := by
  intro w v _ run
  obtain ⟨-, rfl⟩ := check_ok run
  exact (add_zero _).symm

end Yields

/-- What is done to the heap and the switches leaves ownership alone. -/
theorem yields_get_set {f : World → World} (stats : ∀ w, (f w).stats = w.stats)
    (recorded : ∀ w, (f w).recorded = w.recorded) (answer : World → α) :
    (do let w ← get; set (f w); return answer w : Eval α).Yields fun _ => 0 := by
  intro w v _ run
  cases run
  unfold World.owned
  rw [stats, recorded, add_zero]

theorem yields_modify {f : World → World} (stats : ∀ w, (f w).stats = w.stats)
    (recorded : ∀ w, (f w).recorded = w.recorded) :
    (modify f : Eval PUnit).Yields fun _ => 0 := by
  intro w v _ run
  cases run
  unfold World.owned
  rw [stats, recorded, add_zero]

theorem yields_alloc (type : DebugType) (slots : List Slot) :
    (alloc type slots).Yields fun _ => 0 := by
  intro w v _ run
  obtain ⟨_, _, checked, rest⟩ := runIn_bind_ok run
  obtain ⟨-, rfl⟩ := check_ok checked
  cases rest
  exact (add_zero _).symm

theorem yields_load (s : ArraySnapshot) : (load s).Yields fun _ => 0 := by
  unfold load
  cases s.toObject with
  | error e => exact Yields.pure _
  | ok object => exact (yields_alloc _ _).bind fun id => .of_pure rfl

end Eval

namespace Guard

theorem yields_leave (g : Guard) : g.leave.Yields fun _ => if g.owned then -1 else 0 := by
  intro w v _ run
  obtain ⟨-, kept, paid⟩ := Guard.leave_ok run
  unfold World.owned
  rw [paid, kept, Guard.leaveBill]
  cases g.owned <;> simp [Tally.ofEvent]
  omega

end Guard

namespace Handle

open Eval

variable {α : Type}

theorem yields_issue (referent : Referent) (type : DebugType) :
    (issue referent type).Yields fun _ => 1 :=
  fun w _ _ run => (settles_issue referent type w).owned_eq rfl run

theorem yields_reference (id : ObjectId) : (reference id).Yields fun _ => 1 :=
  fun w _ _ run => (settles_reference id w).owned_eq rfl run

theorem yields_object (id : ObjectId) : (object id).Yields fun _ => 1 :=
  fun w _ _ run => (settles_object id w).owned_eq rfl run

theorem yields_release (h : Handle) : h.release.Yields fun _ => -1 :=
  fun _ _ _ run => (settles_release h (free_of_release_ok run)).owned_eq rfl run

theorem yields_dereference (h : Handle) :
    h.dereference.Yields fun followed => if followed.isSome then 1 else 0 := by
  intro w v followed run
  have paid := settles_dereference h w
  obtain ⟨rfl, -, -⟩ := paid.of_ok run
  rw [paid.owned_eq rfl run, followBill]
  cases w.follow? h <;> rfl

theorem yields_elementAt (h : Handle) (index : UInt32) :
    (h.elementAt index).Yields fun element => if element.isSome then 1 else 0 := by
  intro w v element run
  have paid := settles_elementAt h index w
  obtain ⟨rfl, -, -⟩ := paid.of_ok run
  rw [paid.owned_eq rfl run]
  obtain ⟨referent, type⟩ := h
  cases referent with
  | object id =>
      cases element : type.element? with
      | none => simp [World.elementAt?, elementBill, element]
      | some elementType =>
          cases found : w.heap.slot? id index.toNat <;>
            simp [World.elementAt?, elementBill, isObject, element, found, Tally.ofEvent]
  | reference id => simp [World.elementAt?, elementBill, isObject]
  | null => simp [World.elementAt?, elementBill, isObject]
  | scalar v => simp [World.elementAt?, elementBill, isObject]

theorem yields_slotCount (h : Handle) : h.slotCount.Yields fun _ => 0 := by
  intro w v _ run
  rw [(settles_slotCount h w).owned_eq rfl run, countBill]
  cases h.isObject <;> rfl

theorem yields_acquire (h : Handle) :
    h.acquire.Yields fun guard => if guard.any Guard.owned then 1 else 0 := by
  intro w v guard run
  obtain ⟨-, ⟨rfl, -, rfl⟩ | ⟨object, rfl, -, -, kept, paid⟩⟩ := acquire_ok run
  · exact (add_zero _).symm
  · unfold World.owned
    rw [paid, kept, enterBill]
    cases h.isReference <;> simp [Tally.ofEvent]
    omega

/-- A scope gives back what it took, so only the step inside counts. -/
theorem yields_withObject {h : Handle} {step : Handle → Eval α} {n : α → Int}
    (inside : ∀ object, (step object).Yields n) :
    (h.withObject step).Yields fun answer => answer.elim 0 n := by
  intro w v answer run
  rw [runIn_withObject] at run
  obtain ⟨guard, entered, opened, rest⟩ := runIn_bind_ok run
  have taken := yields_acquire h opened
  cases guard with
  | none =>
      cases rest
      exact taken
  | some g =>
      obtain ⟨a, during, rfl⟩ := runIn_map_ok rest
      obtain ⟨left, ran, closed⟩ := Guard.during_ok during
      have done := inside g.object ran
      have given := g.yields_leave closed
      simp only [Option.any_some, Option.elim_some] at taken ⊢
      cases owned : g.owned <;> simp only [owned] at taken given <;> simp at taken given <;> omega

theorem yields_record (h : Handle) : h.record.Yields fun _ => 0 := by
  intro w v tracked run
  obtain ⟨_, u, copied, rest⟩ := runIn_bind_ok run
  obtain ⟨_, x, kept, last⟩ := runIn_bind_ok rest
  have one := yields_issue _ _ copied
  cases kept
  cases last
  unfold World.owned at one ⊢
  simp only [List.length_append, List.length_singleton] at one ⊢
  omega

theorem yields_value (h : Handle) : h.value.Yields fun _ => 0 := by
  unfold value
  cases h.value? with
  | none => exact .throw _ _
  | some v => exact .pure v

theorem yields_consume (h : Handle) : h.consume.Yields fun _ => -1 :=
  h.yields_value.bind fun _ => h.yields_release.bind fun _ => .of_pure rfl

theorem yields_write (h : Handle) (index : UInt32) (v : Value) :
    (h.write index v).Yields fun _ => 0 := by
  unfold write
  refine (yields_withObject (n := fun _ => 0) fun object => ?_).bind fun written => ?_
  · split
    · next id p _ _ =>
      split
      · exact .pure _
      · next slot _ =>
        exact yields_get_set (f := fun w => { w with heap := w.heap.setSlot id index.toNat slot })
          (fun _ => rfl) (fun _ => rfl) _
    · exact .pure _
  · cases written <;> exact .of_pure rfl

end Handle

namespace Eval

theorem yields_releaseAll (handles : List Handle) :
    (releaseAll handles).Yields fun _ => -handles.length := by
  induction handles with
  | nil => exact .of_pure rfl
  | cons h rest ih =>
      refine h.yields_release.bind fun _ => ih.congr fun _ => ?_
      simp only [List.length_cons]
      omega

/-- What was recorded had no other owner, so giving it back changes nothing for the others. -/
theorem yields_clearRecorded : clearRecorded.Yields fun _ => 0 := by
  intro w v _ run
  obtain ⟨_, _, looked, rest⟩ := runIn_bind_ok run
  obtain ⟨_, _, emptied, given⟩ := runIn_bind_ok rest
  cases looked
  cases emptied
  have released := yields_releaseAll _ given
  unfold World.owned at released ⊢
  simp only [List.length_nil] at released ⊢
  omega

end Eval

namespace ArrayView

open Handle

variable {α : Type}

theorem yields_ofHandle (h : Handle) : (ofHandle h).Yields fun _ => 0 :=
  (Eval.Yields.check _).bind fun _ => (Eval.Yields.check _).bind fun _ => .of_pure rfl

/-- The element handle is new, and the step is its first owner. -/
theorem yields_withElement {view : ArrayView} {index : UInt32} {step : Handle → Eval α}
    {n : α → Int} (inside : ∀ element, (step element).Yields n) :
    (view.withElement index step).Yields fun answer => answer.elim 0 fun a => 1 + n a := by
  unfold withElement
  refine (yields_withObject (n := fun found => found.elim 0 fun a => 1 + n a)
    fun object => ?_).bind fun found => ?_
  · refine (object.yields_elementAt index).bind fun element => ?_
    cases element with
    | none => exact .of_pure rfl
    | some element =>
        refine (inside element).bind fun a => .of_pure ?_
        simp
  · cases found <;> exact .of_pure (sub_self _)

theorem yields_read (view : ArrayView) (index : Int) :
    (view.read index).Yields fun element => if element.isSome then 1 else 0 := by
  unfold read
  split
  · exact .of_pure rfl
  · refine (yields_withElement yields_record).congr fun element => ?_
    cases element <;> rfl

theorem yields_write (view : ArrayView) (index : UInt32) (v : Value) :
    (view.write index v).Yields fun _ => 0 :=
  view.handle.yields_write index v

theorem yields_load (view : ArrayView) (index : Int) : (view.load index).Yields fun _ => 0 := by
  unfold load
  split
  · exact .pure _
  · refine (yields_withElement yields_consume).congr fun v => ?_
    cases v <;> rfl

theorem yields_store (view : ArrayView) (index : Int) (v : Value) :
    (view.store index v).Yields fun _ => 0 := by
  unfold store
  split
  · exact .pure _
  · exact (view.yields_write _ v).bind fun _ => .of_pure rfl

theorem yields_queryLength (view : ArrayView) : view.queryLength.Yields fun _ => 0 := by
  unfold queryLength
  split
  · refine (yields_withObject (n := fun _ => 0) fun object => ?_).bind fun answer => ?_
    · split
      · exact object.yields_slotCount
      · exact .pure _
    · cases answer <;> exact .of_pure rfl
  · exact .pure _

theorem yields_length (view : ArrayView) : view.length.Yields fun _ => 0 := by
  unfold length
  split
  · exact view.yields_queryLength.bind fun _ => .of_pure rfl
  · exact .pure _

end ArrayView

namespace ElementAddress

theorem yields_read (address : ElementAddress) :
    address.read.Yields fun element => if element.isSome then 1 else 0 := by
  unfold read
  split
  · exact address.array.yields_read address.index
  · exact .of_pure rfl

theorem yields_store (address : ElementAddress) (v : Value) :
    (address.store v).Yields fun _ => 0 := by
  unfold store
  split
  · exact .pure _
  · exact address.array.yields_write _ v

end ElementAddress

end DebugArrays
