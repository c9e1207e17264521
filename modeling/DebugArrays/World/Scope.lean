import DebugArrays.World.Basic

/-!
Scoped access to the array behind a handle. A reference is followed for the length of the scope, and
the handle obtained that way is given back on every way out; an object handle is only lent. A scope
is also to be had in two steps, with a guard in between.
-/
namespace DebugArrays

/-- An array object in use, and whether leaving it gives a handle back. -/
structure Guard where
  object : Handle
  owned : Bool
deriving DecidableEq, Repr

namespace Eval

variable {α : Type}

/-- Runs a step and then gives the handle back, after a fault as well. The first fault stands. -/
def releasing (h : Handle) (step : Eval α) : Eval α := do
  match ← observe step with
  | .ok a =>
    h.release
    return a
  | .error fault =>
    let _ ← observe h.release
    throw fault

/-- What the scope does to the world besides the step: one release. -/
theorem runIn_releasing (h : Handle) (step : Eval α) (w : World) :
    (releasing h step).runIn w =
      match step.runIn w with
      | (.ok a, v) =>
        match h.release.runIn v with
        | (.ok _, u) => (.ok a, u)
        | (.error fault, u) => (.error fault, u)
      | (.error fault, v) => (.error fault, (h.release.runIn v).2) := by
  simp only [releasing, runIn_bind, runIn_observe]
  rcases step.runIn w with ⟨fault | a, v⟩
  · rfl
  · simp only [runIn_bind]
    rcases h.release.runIn v with ⟨_ | _, u⟩ <;> rfl

end Eval

namespace Handle

variable {α : Type}

/-- Runs a step on the array object behind a handle that is not null. Nothing runs when the debuggee
refuses the dereference. -/
def withObject (h : Handle) (step : Handle → Eval α) : Eval (Option α) := do
  Eval.check (!h.isNull)
  if h.isReference then
    match ← h.dereference with
    | none => return none
    | some object =>
      let a ← Eval.releasing object do
        Eval.check object.type.isArray
        step object
      return some a
  else
    Eval.check h.type.isArray
    return some (← step h)

/-- Opens a scope. An object that is no array is given back before the fault goes on. -/
def acquire (h : Handle) : Eval (Option Guard) := do
  Eval.check (!h.isNull)
  if h.isReference then
    match ← h.dereference with
    | none => return none
    | some object =>
      if object.type.isArray then return some ⟨object, true⟩
      else Eval.releasing object (throw .assertion)
  else
    Eval.check h.type.isArray
    return some ⟨h, false⟩

end Handle

def Guard.leave (g : Guard) : Eval Unit :=
  if g.owned then g.object.release else pure ()

end DebugArrays
