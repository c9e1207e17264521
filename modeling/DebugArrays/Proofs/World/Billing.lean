import DebugArrays.Proofs.World.Tally
import DebugArrays.World.Evaluation

/-!
What the steps of an evaluation cost. Outside the ledger every step of this module is determined by
the world it starts in; the ledger grows by a bill that is fixed in advance, and the only fault is a
counter that the bill does not fit.
-/
namespace DebugArrays

namespace World

def core (w : World) : World :=
  { w with stats := {} }

theorem eq_withStats_of_core {v w : World} (h : v.core = w.core) :
    v = { w with stats := v.stats } := by
  have kept := congrArg (fun u : World => { u with stats := v.stats }) h
  exact kept

/-- The handle that following a reference gives, where the debuggee lets it be followed. -/
def follow? (w : World) (h : Handle) : Option Handle :=
  match h.referent with
  | .reference id =>
    if w.dereferenceFails || w.heap.length ≤ id then none
    else some ⟨.object id, w.heap.typeOf id⟩
  | _ => none

/-- The handle that a slot's contents are read through. -/
def slotHandle (w : World) (elementType : DebugType) : Slot → Handle
  | .value v => ⟨.scalar v, elementType⟩
  | .object id => ⟨.reference id, w.heap.typeOf id⟩
  | .null => ⟨.null, elementType⟩

/-- The element that an array object has at an index, as a handle. -/
def elementAt? (w : World) (h : Handle) (index : UInt32) : Option Handle :=
  match h.referent, h.type.element? with
  | .object id, some elementType => (w.heap.slot? id index.toNat).map (w.slotHandle elementType)
  | _, _ => none

/-- The number of slots of the object that a handle is, where 32 bits hold it. -/
def slotCount? (w : World) (h : Handle) : Option UInt32 :=
  match h.referent with
  | .object id =>
    (w.heap.object? id).bind fun object =>
      if object.slots.length < 0x1_0000_0000 then some (.ofNat object.slots.length) else none
  | _ => none

end World

namespace Handle

def isObject (h : Handle) : Bool :=
  match h.referent with
  | .object _ => true
  | _ => false

/-- Reading an element is counted before it is known whether there is one. -/
def elementBill (h : Handle) (found : Bool) : Tally :=
  if h.isObject && h.type.element?.isSome then
    .ofEvent .elementRead + if found then .ofEvent .issue else 0
  else 0

def countBill (h : Handle) : Tally :=
  if h.isObject then .ofEvent .lengthQuery else 0

def followBill (followed : Option Handle) : Tally :=
  if followed.isSome then .ofEvent .dereference + .ofEvent .issue else 0

end Handle

namespace Eval

variable {α β : Type} {step : Eval α} {next : α → Eval β} {w u v after : World}
  {a : α} {b : β} {s t : Tally}

theorem runIn_bind_ok (run : (step >>= next).runIn w = (.ok b, v)) :
    ∃ a u, step.runIn w = (.ok a, u) ∧ (next a).runIn u = (.ok b, v) := by
  rw [runIn_bind] at run
  rcases first : step.runIn w with ⟨fault | a, u⟩
  · rw [first] at run
    cases run
  · rw [first] at run
    exact ⟨a, u, rfl, run⟩

theorem runIn_map_ok {f : α → β} (run : (f <$> step).runIn w = (.ok b, v)) :
    ∃ a, step.runIn w = (.ok a, v) ∧ f a = b := by
  rw [map_eq_pure_bind] at run
  obtain ⟨a, u, first, last⟩ := runIn_bind_ok run
  cases last
  exact ⟨a, first, rfl⟩

theorem check_ok {condition : Bool} (run : (check condition).runIn w = (.ok (), v)) :
    condition = true ∧ v = w := by
  cases condition with
  | false => cases run
  | true => exact ⟨rfl, by cases run; rfl⟩

/-- Run in `w`, a step answers `a` and leaves `after`, up to a ledger that grew by the bill; it
fails exactly when a counter is too small for the bill, and then there is a full one. -/
def Settles (step : Eval α) (w : World) (bill : Tally) (a : α) (after : World) : Prop :=
  match step.runIn w with
  | (.ok b, v) => b = a ∧ v.core = after.core ∧ v.stats.tally = w.stats.tally + bill
  | (.error fault, v) => fault = .overflow ∧ ¬ (w.stats.tally + bill).Fits ∧ v.stats.Full

namespace Settles

/-- The two ways a settled step can go: the bill is paid, or a counter is full before it is. -/
theorem outcome (h : step.Settles w t a after) :
    (∃ stats, step.runIn w = (.ok a, { after with stats }) ∧ stats.tally = w.stats.tally + t) ∨
      ∃ v, step.runIn w = (.error .overflow, v) ∧ ¬ (w.stats.tally + t).Fits ∧ v.stats.Full := by
  unfold Settles at h
  rcases run : step.runIn w with ⟨fault | b, v⟩
  · rw [run] at h
    obtain ⟨rfl, unpaid, full⟩ := h
    exact .inr ⟨v, rfl, unpaid, full⟩
  · rw [run] at h
    obtain ⟨rfl, same, paid⟩ := h
    exact .inl ⟨v.stats, by rw [← World.eq_withStats_of_core same], paid⟩

theorem ran (h : step.Settles w t a after) :
    (∃ stats, step.runIn w = (.ok a, { after with stats }) ∧ stats.tally = w.stats.tally + t) ∨
      ∃ v, step.runIn w = (.error .overflow, v) ∧ ¬ (w.stats.tally + t).Fits := by
  obtain well | ⟨v, ill, unpaid, -⟩ := h.outcome
  · exact .inl well
  · exact .inr ⟨v, ill, unpaid⟩

/-- What is known of a settled step that went well. -/
theorem of_ok (h : step.Settles w t a after) {b : α} (run : step.runIn w = (.ok b, v)) :
    b = a ∧ v = { after with stats := v.stats } ∧ v.stats.tally = w.stats.tally + t := by
  obtain ⟨stats, well, paid⟩ | ⟨u, ill, -⟩ := h.ran
  · cases run.symm.trans well
    exact ⟨rfl, rfl, paid⟩
  · cases run.symm.trans ill

/-- What costs nothing and changes nothing leaves the very same world. -/
theorem of_ok_free (h : step.Settles w 0 a w) {b : α} (run : step.runIn w = (.ok b, v)) :
    b = a ∧ v = w := by
  obtain ⟨same, kept, paid⟩ := h.of_ok run
  rw [add_zero] at paid
  rw [HandleStats.tally_injective paid] at kept
  exact ⟨same, kept⟩

protected theorem pure (a : α) (w : World) : (pure a : Eval α).Settles w 0 a w :=
  ⟨rfl, rfl, (add_zero _).symm⟩

/-- Bills add up. The second step starts in the world of the first with any ledger. -/
theorem bind (first : step.Settles w s a u)
    (rest : ∀ stats, (next a).Settles { u with stats } t b after) :
    (step >>= next).Settles w (s + t) b after := by
  unfold Settles
  rw [runIn_bind, ← add_assoc]
  obtain ⟨stats, run, paid⟩ | ⟨v, run, unpaid, full⟩ := first.outcome
  · have second := rest stats
    unfold Settles at second
    rw [paid] at second
    rw [run]
    exact second
  · rw [run]
    exact ⟨rfl, fun fits => unpaid fits.of_add, full⟩

theorem bind_pure (h : step.Settles w t a after) (returned : next a = pure b) :
    (step >>= next).Settles w t b after := by
  rw [← add_zero t]
  apply h.bind
  intro stats
  rw [returned]
  exact Settles.pure b _

protected theorem map (f : α → β) (h : step.Settles w t a after) :
    (f <$> step).Settles w t (f a) after := by
  rw [map_eq_pure_bind]
  exact h.bind_pure rfl

end Settles

/-- To look at the world costs nothing. -/
theorem settles_get_bind {next : World → Eval β} (h : (next w).Settles w t b after) :
    (get >>= next).Settles w t b after := by
  unfold Settles at h ⊢
  rw [runIn_bind, runIn_get]
  exact h

theorem settles_check {condition : Bool} (h : condition = true) (w : World) :
    (check condition).Settles w 0 () w := by
  subst h
  exact Settles.pure () w

theorem settles_count (event : HandleEvent) (w : World) :
    (count event).Settles w (.ofEvent event) () w := by
  unfold Settles
  cases taken : w.stats.tally? event with
  | none =>
      have run : (count event).runIn w = (.error .overflow, w) := by
        simp [count, runIn_bind, taken]
      rw [run]
      exact ⟨rfl, HandleStats.not_fits_of_tally? taken, event, taken⟩
  | some stats =>
      rw [runIn_count taken]
      exact ⟨rfl, rfl, HandleStats.tally_of_tally? taken⟩

/-- Counting leaves a full ledger full, whether or not the event is taken. -/
theorem full_count (event : HandleEvent) (full : w.stats.Full) :
    ((count event).runIn w).2.stats.Full := by
  cases taken : w.stats.tally? event with
  | none => simpa [count, runIn_bind, taken] using full
  | some stats =>
      rw [runIn_count taken]
      exact full.of_tally? taken

theorem settles_alloc {type : DebugType} (array : type.isArray = true) (slots : List Slot)
    (w : World) :
    (alloc type slots).Settles w 0 w.heap.length { w with heap := w.heap ++ [⟨type, slots⟩] } := by
  rw [← add_zero (0 : Tally)]
  refine (settles_check array w).bind fun stats => settles_get_bind ?_
  exact ⟨rfl, rfl, (add_zero _).symm⟩

end Eval

namespace Handle

open Eval

theorem settles_issue (referent : Referent) (type : DebugType) (w : World) :
    (issue referent type).Settles w (.ofEvent .issue) ⟨referent, type⟩ w := by
  rw [← add_zero (Tally.ofEvent .issue)]
  exact (settles_count .issue w).bind fun stats => Settles.pure _ _

theorem settles_reference (id : ObjectId) (w : World) :
    (reference id).Settles w (.ofEvent .issue) ⟨.reference id, w.heap.typeOf id⟩ w :=
  settles_get_bind (settles_issue _ _ w)

theorem settles_object (id : ObjectId) (w : World) :
    (object id).Settles w (.ofEvent .issue) ⟨.object id, w.heap.typeOf id⟩ w :=
  settles_get_bind (settles_issue _ _ w)

theorem settles_release (h : Handle) {w : World} (free : w.releaseForbidden = false) :
    h.release.Settles w (.ofEvent .release) () w := by
  apply settles_get_bind
  rw [if_neg (by simp [free])]
  exact settles_count .release w

theorem full_release (h : Handle) {w : World} (full : w.stats.Full) :
    (h.release.runIn w).2.stats.Full := by
  unfold release
  rw [runIn_bind, runIn_get]
  dsimp only
  split
  · exact full
  · exact full_count .release full

theorem free_of_release_ok {h : Handle} {w v : World}
    (run : h.release.runIn w = (.ok (), v)) : w.releaseForbidden = false := by
  cases free : w.releaseForbidden with
  | false => rfl
  | true =>
      unfold release at run
      simp [runIn_bind, free] at run

theorem settles_dereference (h : Handle) (w : World) :
    h.dereference.Settles w (followBill (w.follow? h)) (w.follow? h) w := by
  obtain ⟨referent, type⟩ := h
  cases referent with
  | reference id =>
      apply settles_get_bind
      by_cases refused : (w.dereferenceFails || decide (w.heap.length ≤ id)) = true
      · simp only [World.follow?, refused, if_true]
        exact Settles.pure none w
      · simp only [World.follow?, refused, Bool.false_eq_true, if_false]
        exact (settles_count .dereference w).bind fun stats => (settles_object id _).map some
  | object id => exact Settles.pure none w
  | null => exact Settles.pure none w
  | scalar v => exact Settles.pure none w

theorem settles_ofSlot (elementType : DebugType) (slot : Slot) (w : World) :
    (ofSlot elementType slot).Settles w (.ofEvent .issue) (w.slotHandle elementType slot) w := by
  cases slot with
  | value v => exact settles_issue _ _ w
  | object id => exact settles_reference id w
  | null => exact settles_issue _ _ w

theorem settles_elementAt (h : Handle) (index : UInt32) (w : World) :
    (h.elementAt index).Settles w (h.elementBill (w.elementAt? h index).isSome)
      (w.elementAt? h index) w := by
  obtain ⟨referent, type⟩ := h
  cases referent with
  | object id =>
      cases element : type.element? with
      | none =>
          simp only [elementAt, World.elementAt?, elementBill, element]
          exact Settles.pure none w
      | some elementType =>
          simp only [elementAt, World.elementAt?, elementBill, element]
          apply (settles_count .elementRead w).bind
          intro stats
          apply settles_get_bind
          cases found : w.heap.slot? id index.toNat with
          | none =>
              exact Settles.pure none _
          | some slot =>
              exact (settles_ofSlot elementType slot _).map some
  | reference id =>
      simp only [elementAt, World.elementAt?, elementBill, isObject]
      exact Settles.pure none w
  | null =>
      simp only [elementAt, World.elementAt?, elementBill, isObject]
      exact Settles.pure none w
  | scalar v =>
      simp only [elementAt, World.elementAt?, elementBill, isObject]
      exact Settles.pure none w

theorem settles_slotCount (h : Handle) (w : World) :
    h.slotCount.Settles w h.countBill (w.slotCount? h) w := by
  obtain ⟨referent, type⟩ := h
  cases referent with
  | object id =>
      rw [← add_zero (countBill _)]
      apply (settles_count .lengthQuery w).bind
      intro stats
      apply settles_get_bind
      cases found : w.heap.object? id with
      | none =>
          simp only [World.slotCount?, found]
          exact Settles.pure none _
      | some object =>
          simp only [World.slotCount?, found]
          exact Settles.pure _ _
  | reference id => exact Settles.pure none w
  | null => exact Settles.pure none w
  | scalar v => exact Settles.pure none w

theorem settles_record (h : Handle) (w : World) :
    h.record.Settles w (.ofEvent .issue) h { w with recorded := w.recorded ++ [h] } := by
  rw [← add_zero (Tally.ofEvent .issue)]
  refine (settles_issue h.referent h.type w).bind fun stats => ?_
  exact ⟨rfl, rfl, (add_zero _).symm⟩

end Handle

end DebugArrays
