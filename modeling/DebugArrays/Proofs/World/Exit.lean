import DebugArrays.Proofs.World.Guard

/-!
How a step ends, with an answer or with a fault, and what it has cost by then. A scope can end in
four ways before the step inside has anything to say: the handle is null, the debuggee refuses, or
the object is no array, held by a reference or at hand.
-/
namespace DebugArrays

namespace Eval

variable {α : Type} {step : Eval α} {w after : World} {a : α} {t : Tally}

/-- Run in `w`, a step ends with `outcome` and leaves `after`, up to a ledger that grew by the
bill. -/
def Ends (step : Eval α) (w : World) (bill : Tally) (outcome : Except Fault α) (after : World) :
    Prop :=
  ∃ stats, step.runIn w = (outcome, { after with stats }) ∧
    stats.tally = w.stats.tally + bill

theorem Settles.ends (h : step.Settles w t a after) (room : (w.stats.tally + t).Fits) :
    step.Ends w t (.ok a) after := by
  obtain well | ⟨v, -, unpaid⟩ := h.ran
  · exact well
  · exact absurd room unpaid

theorem ends_pure (a : α) (w : World) : (pure a : Eval α).Ends w 0 (.ok a) w :=
  ⟨w.stats, rfl, (add_zero _).symm⟩

end Eval

namespace Handle

open Eval

variable {α : Type} {h object : Handle} {step : Handle → Eval α} {w : World}

theorem ends_withObject_of_isNull (null : h.isNull = true) :
    (h.withObject step).Ends w 0 (.error .assertion) w :=
  ⟨w.stats, by simp [withObject, runIn_bind, null], (add_zero _).symm⟩

theorem ends_withObject_of_refused (notNull : h.isNull = false) (refused : w.reach? h = none) :
    (h.withObject step).Ends w 0 (.ok none) w := by
  unfold World.reach? at refused
  cases reference : h.isReference with
  | false =>
      rw [reference] at refused
      cases refused
  | true =>
      rw [reference, if_pos rfl] at refused
      have followed := settles_dereference h w
      rw [refused] at followed
      have fits : (w.stats.tally + followBill none).Fits := by
        rw [followBill, Option.isSome_none, if_neg (by decide), add_zero]
        exact w.stats.fits_tally
      obtain ⟨stats, run, paid⟩ := followed.ends fits
      exact ⟨stats, by simp [withObject, runIn_bind, notNull, reference, run], paid⟩

/-- An object that is no array is given back when the assertion fails. -/
theorem ends_withObject_of_not_array (reached : w.reach? h = some object)
    (other : object.type.isArray = false) (free : w.releaseForbidden = false)
    (room : (w.stats.tally + h.scopeBill).Fits) :
    (h.withObject step).Ends w h.scopeBill (.error .assertion) w := by
  have notNull := World.isNull_of_reach? reached
  unfold World.reach? at reached
  unfold scopeBill at room ⊢
  cases reference : h.isReference with
  | false =>
      rw [reference, if_neg (by decide)] at reached
      cases reached
      exact ⟨w.stats, by simp [withObject, runIn_bind, notNull, reference, other],
        (add_zero _).symm⟩
  | true =>
      rw [reference, if_pos rfl] at reached room
      have followed := settles_dereference h w
      rw [reached] at followed
      rw [← add_assoc] at room
      obtain ⟨entered, opened, counted⟩ := followed.ends room.of_add
      have given := object.settles_release (w := { w with stats := entered }) free
      have paid : entered.tally = w.stats.tally + (.ofEvent .dereference + .ofEvent .issue) :=
        counted
      obtain ⟨left, closed, settled⟩ := given.ends (by dsimp only; rwa [paid])
      refine ⟨left, ?_, ?_⟩
      · simp [withObject, runIn_bind, runIn_map, notNull, reference, opened, runIn_releasing, other,
        closed]
      · rw [if_pos rfl, ← add_assoc, ← paid]
        exact settled

end Handle

end DebugArrays
