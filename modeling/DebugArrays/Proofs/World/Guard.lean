import DebugArrays.Proofs.World.Billing
import Mathlib.Tactic.Abel

/-!
Guards: what it costs to acquire one and to leave it. Other steps can stand between the two; running
a step in a scope is to acquire, run and leave.
-/
namespace DebugArrays

namespace World

/-- The handle that scoped access works on, where the debuggee lets it. -/
def reach? (w : World) (h : Handle) : Option Handle :=
  if h.isReference then w.follow? h else some h

theorem isNull_of_reach? {w : World} {h object : Handle} (reached : w.reach? h = some object) :
    h.isNull = false := by
  obtain ⟨referent, type⟩ := h
  cases referent with
  | null => cases reached
  | _ => rfl

end World

namespace Eval

/-- The release at the end of a scope adds its event to the bill of the step inside. -/
theorem settles_releasing {α : Type} {h : Handle} {step : Eval α} {w after : World} {a : α}
    {t : Tally} (inside : step.Settles w t a after) (free : after.releaseForbidden = false) :
    (releasing h step).Settles w (t + .ofEvent .release) a after := by
  unfold Settles
  rw [runIn_releasing, ← add_assoc]
  obtain ⟨stats, run, paid⟩ | ⟨v, run, unpaid, full⟩ := inside.outcome
  · have unlocked : World.releaseForbidden { after with stats } = false := free
    have given := (Handle.settles_release h unlocked).outcome
    rw [paid] at given
    rw [run]
    obtain ⟨rest, closed, settled⟩ | ⟨x, closed, unpaid, full⟩ := given
    · simp only [closed]
      exact ⟨trivial, rfl, settled⟩
    · simp only [closed]
      exact ⟨trivial, unpaid, full⟩
  · rw [run]
    exact ⟨rfl, fun fits => unpaid fits.of_add, Handle.full_release h full⟩

end Eval

namespace Handle

def enterBill (h : Handle) : Tally :=
  if h.isReference then .ofEvent .dereference + .ofEvent .issue else 0

/-- The price of a scope, whatever is done inside. -/
def scopeBill (h : Handle) : Tally :=
  if h.isReference then .ofEvent .dereference + .ofEvent .issue + .ofEvent .release else 0

end Handle

namespace Guard

variable {α : Type}

def leaveBill (g : Guard) : Tally :=
  if g.owned then .ofEvent .release else 0

/-- Runs a step and leaves the guard, after a fault as well. -/
def during (g : Guard) (step : Handle → Eval α) : Eval α :=
  if g.owned then Eval.releasing g.object (step g.object) else step g.object

theorem leave_ok {g : Guard} {w v : World} (run : g.leave.runIn w = (.ok (), v)) :
    (g.owned = true → w.releaseForbidden = false) ∧ v = { w with stats := v.stats } ∧
      v.stats.tally = w.stats.tally + g.leaveBill := by
  unfold leave leaveBill at *
  cases owned : g.owned with
  | false =>
      rw [owned, if_neg (by decide)] at run
      cases run
      exact ⟨nofun, rfl, (add_zero _).symm⟩
  | true =>
      rw [owned, if_pos rfl] at run
      have free := Handle.free_of_release_ok run
      exact ⟨fun _ => free, ((Handle.settles_release _ free).of_ok run).2⟩

theorem during_ok {g : Guard} {step : Handle → Eval α} {w v : World} {a : α}
    (run : (g.during step).runIn w = (.ok a, v)) :
    ∃ u, (step g.object).runIn w = (.ok a, u) ∧ g.leave.runIn u = (.ok (), v) := by
  unfold during at run
  cases owned : g.owned with
  | false =>
      rw [owned, if_neg (by decide)] at run
      exact ⟨v, run, by rw [leave, owned]; rfl⟩
  | true =>
      rw [owned, if_pos rfl, Eval.runIn_releasing] at run
      rcases inner : (step g.object).runIn w with ⟨fault | b, u⟩
      · rw [inner] at run
        cases run
      · rw [inner] at run
        rcases given : g.object.release.runIn u with ⟨fault | _, x⟩
        · simp only [given] at run
          cases run
        · simp only [given] at run
          cases run
          exact ⟨u, rfl, by rw [leave, owned]; exact given⟩

end Guard

namespace Handle

variable {α : Type}

theorem acquire_ok {h : Handle} {w u : World} {guard : Option Guard}
    (run : h.acquire.runIn w = (.ok guard, u)) :
    h.isNull = false ∧
      (guard = none ∧ w.reach? h = none ∧ u = w ∨
        ∃ object, guard = some ⟨object, h.isReference⟩ ∧ w.reach? h = some object ∧
          object.type.isArray = true ∧ u = { w with stats := u.stats } ∧
          u.stats.tally = w.stats.tally + h.enterBill) := by
  obtain ⟨_, w₁, checked, opened⟩ := Eval.runIn_bind_ok run
  obtain ⟨notNull, rfl⟩ := Eval.check_ok checked
  refine ⟨by simpa using notNull, ?_⟩
  unfold World.reach? enterBill
  cases reference : h.isReference with
  | false =>
      rw [reference, if_neg (by decide)] at opened
      obtain ⟨_, w₂, checked, held⟩ := Eval.runIn_bind_ok opened
      obtain ⟨array, rfl⟩ := Eval.check_ok checked
      cases held
      exact .inr ⟨h, rfl, rfl, array, rfl, (add_zero _).symm⟩
  | true =>
      rw [reference, if_pos rfl] at opened
      obtain ⟨followed, w₂, asked, held⟩ := Eval.runIn_bind_ok opened
      have paid := settles_dereference h w₁
      cases target : w₁.follow? h with
      | none =>
          rw [target] at paid
          obtain ⟨rfl, rfl⟩ := paid.of_ok_free asked
          cases held
          exact .inl ⟨rfl, rfl, rfl⟩
      | some object =>
          rw [target] at paid
          obtain ⟨rfl, kept, counted⟩ := paid.of_ok asked
          cases array : object.type.isArray with
          | true =>
              simp only [array, if_true] at held
              cases held
              exact .inr ⟨object, rfl, rfl, array, kept, counted⟩
          | false =>
              simp only [array, Bool.false_eq_true, if_false, Eval.runIn_releasing,
                Eval.runIn_throw] at held
              cases held

/-- A scope is a guard for the time of one step. -/
theorem runIn_withObject (h : Handle) (step : Handle → Eval α) (w : World) :
    (h.withObject step).runIn w =
      (h.acquire >>= fun
        | none => pure none
        | some g => some <$> g.during step).runIn w := by
  unfold withObject acquire
  simp only [Eval.runIn_bind, Eval.runIn_check]
  cases h.isNull with
  | true => rfl
  | false =>
      cases reference : h.isReference with
      | false =>
          cases array : h.type.isArray <;>
            simp [Eval.runIn_bind, Eval.runIn_map, Guard.during]
      | true =>
          simp only [Bool.not_false, if_true, Eval.runIn_bind]
          rcases h.dereference.runIn w with ⟨fault | ⟨_ | object⟩, v⟩
          · rfl
          · rfl
          · cases array : object.type.isArray with
            | false => simp [Eval.runIn_bind, Eval.runIn_map, Eval.runIn_releasing, array]
            | true =>
                simp only [Eval.runIn_bind, Eval.runIn_releasing, Eval.runIn_check, array, if_true,
                  Eval.runIn_pure, Eval.runIn_map, Guard.during]

/-- What a scope that went well did: nothing where the debuggee refused, else the step between
acquiring and leaving. -/
theorem withObject_ok {h : Handle} {step : Handle → Eval α} {w v : World} {answer : Option α}
    (run : (h.withObject step).runIn w = (.ok answer, v)) :
    h.isNull = false ∧
      (answer = none ∧ w.reach? h = none ∧ v = w ∨
        ∃ object a entered left, answer = some a ∧ w.reach? h = some object ∧
          object.type.isArray = true ∧ entered = { w with stats := entered.stats } ∧
          entered.stats.tally = w.stats.tally + h.enterBill ∧
          (step object).runIn entered = (.ok a, left) ∧
          (Guard.leave ⟨object, h.isReference⟩).runIn left = (.ok (), v)) := by
  rw [runIn_withObject] at run
  obtain ⟨guard, entered, opened, rest⟩ := Eval.runIn_bind_ok run
  obtain ⟨notNull, ⟨rfl, refused, rfl⟩ | ⟨object, rfl, reached, array, kept, counted⟩⟩ :=
    acquire_ok opened
  · cases rest
    exact ⟨notNull, .inl ⟨rfl, refused, rfl⟩⟩
  · obtain ⟨a, during, rfl⟩ := Eval.runIn_map_ok rest
    obtain ⟨left, inside, closed⟩ := Guard.during_ok during
    exact ⟨notNull, .inr ⟨object, a, entered, left, rfl, reached, array, kept, counted, inside,
      closed⟩⟩

/-- The price of a scope is that of the guard and that of the step inside. -/
theorem settles_withObject {h object : Handle} {step : Handle → Eval α} {w after : World} {a : α}
    {t : Tally} (reached : w.reach? h = some object) (array : object.type.isArray = true)
    (inside : ∀ stats, (step object).Settles { w with stats } t a after)
    (free : h.isReference = true → after.releaseForbidden = false) :
    (h.withObject step).Settles w (h.scopeBill + t) (some a) after := by
  have notNull : (!h.isNull) = true := by
    rw [World.isNull_of_reach? reached, Bool.not_false]
  unfold World.reach? at reached
  unfold withObject scopeBill
  rw [← zero_add (_ + t)]
  apply (Eval.settles_check notNull w).bind
  intro stats
  cases reference : h.isReference with
  | false =>
      rw [reference, if_neg (by decide)] at reached
      cases reached
      apply (Eval.settles_check array _).bind
      intro stats
      exact (inside stats).map some
  | true =>
      rw [reference, if_pos rfl] at reached
      have bill : Tally.ofEvent .dereference + .ofEvent .issue + .ofEvent .release + t =
          followBill (some object) + (0 + t + .ofEvent .release) := by
        unfold followBill
        rw [Option.isSome_some, if_pos rfl]
        abel
      rw [if_pos rfl, if_pos rfl, bill]
      have followed := settles_dereference h { w with stats }
      have target : World.follow? { w with stats } h = some object := reached
      rw [target] at followed
      apply followed.bind
      intro stats
      refine Eval.Settles.map some (Eval.settles_releasing ?_ (free reference))
      exact (Eval.settles_check array _).bind fun stats => inside stats

end Handle

end DebugArrays
