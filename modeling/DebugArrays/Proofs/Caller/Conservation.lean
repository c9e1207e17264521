import DebugArrays.Proofs.Caller.Basic
import DebugArrays.Proofs.World.Ownership

/-!
Conservation of handles. However operations follow each other, each handle that was issued and not
given back is in the caller's hand, in an array, in an open guard that owns it, or recorded, and in
one of these places only.
-/
namespace DebugArrays

namespace Caller

variable {α : Type} {c d : Caller} {answer : Answer}

/-- The owners outside the world. A guard that was lent its object owns nothing. -/
def owners (c : Caller) : Nat :=
  c.hands.size + c.arrays.size + c.guards.count Guard.owned

/-- How many handles have no owner; fewer than none where a handle has several. -/
def surplus (c : Caller) : Int :=
  c.world.owned - c.owners

theorem surplus_withWorld (c : Caller) (world : World) :
    { c with world }.surplus = c.surplus + (world.owned - c.world.owned) := by
  unfold surplus owners
  dsimp only
  omega

theorem surplus_putHand (c : Caller) (h : Handle) :
    { c with hands := c.hands.put h }.surplus = c.surplus - 1 := by
  unfold surplus owners
  dsimp only
  rw [Shelf.size_put]
  omega

theorem surplus_clearHand {hand : Nat} {h : Handle} (found : c.hands.at? hand = some h) :
    { c with hands := c.hands.clear hand }.surplus = c.surplus + 1 := by
  have fewer := Shelf.size_clear found
  unfold surplus owners
  dsimp only
  omega

theorem surplus_putArray (c : Caller) (view : ArrayView) :
    { c with arrays := c.arrays.put view }.surplus = c.surplus - 1 := by
  unfold surplus owners
  dsimp only
  rw [Shelf.size_put]
  omega

theorem surplus_clearArray {array : Nat} {view : ArrayView}
    (found : c.arrays.at? array = some view) :
    { c with arrays := c.arrays.clear array }.surplus = c.surplus + 1 := by
  have fewer := Shelf.size_clear found
  unfold surplus owners
  dsimp only
  omega

theorem surplus_replaceArray {array : Nat} {view : ArrayView}
    (found : c.arrays.at? array = some view) (other : ArrayView) :
    { c with arrays := c.arrays.replace array other }.surplus = c.surplus := by
  unfold surplus owners
  rw [Shelf.size_replace found]

theorem surplus_putGuard (c : Caller) (g : Guard) :
    { c with guards := c.guards.put g }.surplus = c.surplus - if g.owned then 1 else 0 := by
  unfold surplus owners
  dsimp only
  rw [Shelf.count_put]
  cases g.owned <;> simp
  omega

theorem surplus_clearGuard {guard : Nat} {g : Guard} (found : c.guards.at? guard = some g) :
    { c with guards := c.guards.clear guard }.surplus =
      c.surplus + if g.owned then 1 else 0 := by
  have fewer := Shelf.count_clear (p := Guard.owned) found
  unfold surplus owners
  cases owned : g.owned <;> simp [owned] at fewer ⊢ <;> omega

/-- A step whose answer nobody keeps shifts the surplus by what it yields. -/
theorem surplus_observe {step : Eval α} {answers : α → Answer} {k : Int}
    (yields : step.Yields fun _ => k) (done : c.observe step answers = .ok (answer, d)) :
    d.surplus = c.surplus + k := by
  obtain ⟨a, world, ran, same⟩ := evaluate_ok done
  cases same
  have moved := yields ran
  dsimp only at moved
  rw [surplus_withWorld]
  omega

/-- A handle that a step brings is in the hand afterwards. -/
theorem surplus_gain {step : Eval (Option Handle)} {k : Int}
    (yields : step.Yields fun found => k + if found.isSome then 1 else 0)
    (done : c.gain step = .ok (answer, d)) : d.surplus = c.surplus + k := by
  obtain ⟨found, world, ran, same⟩ := evaluate_ok done
  have brought := yields ran
  cases found with
  | none =>
      cases same
      rw [surplus_withWorld, brought]
      simp
  | some h =>
      cases same
      rw [surplus_putHand { c with world } h, surplus_withWorld, brought]
      simp
      omega

theorem surplus_gain_free {step : Eval (Option Handle)}
    (yields : step.Yields fun found => if found.isSome then 1 else 0)
    (done : c.gain step = .ok (answer, d)) : d.surplus = c.surplus :=
  (surplus_gain (yields.congr fun _ => (zero_add _).symm) done).trans (add_zero _)

theorem surplus_gain_new {step : Eval Handle} (yields : step.Yields fun _ => 1)
    (done : c.gain (some <$> step) = .ok (answer, d)) : d.surplus = c.surplus := by
  refine surplus_gain_free (.map ?_) done
  exact yields

theorem surplus_observe_free {step : Eval α} {answers : α → Answer}
    (yields : step.Yields fun _ => 0) (done : c.observe step answers = .ok (answer, d)) :
    d.surplus = c.surplus :=
  (surplus_observe yields done).trans (add_zero _)

theorem surplus_change {f : World → World} (done : c.change f = .ok (answer, d))
    (stats : ∀ w, (f w).stats = w.stats) (recorded : ∀ w, (f w).recorded = w.recorded) :
    d.surplus = c.surplus :=
  surplus_observe_free (Eval.yields_modify stats recorded) done

theorem surplus_enter {h : Handle} (done : c.enter h = .ok (answer, d)) :
    d.surplus = c.surplus := by
  obtain ⟨guard, world, ran, same⟩ := evaluate_ok done
  have taken := h.yields_acquire ran
  cases guard with
  | none =>
      cases same
      rw [surplus_withWorld, taken]
      simp
  | some g =>
      cases same
      rw [surplus_putGuard { c with world } g, surplus_withWorld, taken]
      cases owned : g.owned <;> simp [owned]

/-- No operation makes a handle without an owner, or gives one a second owner. -/
theorem surplus_perform {op : Operation} (kept : op ≠ .resetStats)
    (done : c.perform op = .ok (answer, d)) : d.surplus = c.surplus := by
  cases op with
  | alloc type slots => exact surplus_observe_free (Eval.yields_alloc type slots) done
  | load snapshot => exact surplus_observe_free (Eval.yields_load snapshot) done
  | reference id => exact surplus_gain_new (Handle.yields_reference id) done
  | referenceAs id type => exact surplus_gain_new (Handle.yields_issue _ _) done
  | object id => exact surplus_gain_new (Handle.yields_object id) done
  | nullReference type => exact surplus_gain_new (Handle.yields_issue _ _) done
  | setSlot id index slot =>
      exact surplus_observe_free
        (Eval.yields_get_set (f := fun w => { w with heap := w.heap.setSlot id index slot })
          (fun _ => rfl) (fun _ => rfl) _) done
  | resize id length => exact surplus_change done (fun _ => rfl) (fun _ => rfl)
  | retype id type => exact surplus_change done (fun _ => rfl) (fun _ => rfl)
  | dereferenceFails on => exact surplus_change done (fun _ => rfl) (fun _ => rfl)
  | forbidRelease on => exact surplus_change done (fun _ => rfl) (fun _ => rfl)
  | resetStats => exact absurd rfl kept
  | dereference lender =>
      obtain ⟨h, -, done⟩ := need_ok done
      exact surplus_gain_free h.yields_dereference done
  | elementAt lender index =>
      obtain ⟨h, -, done⟩ := need_ok done
      exact surplus_gain_free (h.yields_elementAt index) done
  | slotCount lender =>
      obtain ⟨h, -, done⟩ := need_ok done
      exact surplus_observe_free h.yields_slotCount done
  | duplicate lender =>
      obtain ⟨h, -, done⟩ := need_ok done
      exact surplus_gain_new (Handle.yields_issue _ _) done
  | value lender =>
      obtain ⟨h, -, done⟩ := need_ok done
      exact surplus_observe_free h.yields_value done
  | release hand =>
      obtain ⟨h, held, done⟩ := need_ok done
      rw [surplus_observe h.yields_release done, surplus_clearHand held]
      omega
  | acquire lender =>
      obtain ⟨h, -, done⟩ := need_ok done
      exact surplus_enter done
  | leave guard =>
      obtain ⟨g, opened, done⟩ := need_ok done
      rw [surplus_observe g.yields_leave done, surplus_clearGuard opened]
      cases g.owned <;> simp
  | record hand =>
      obtain ⟨h, held, done⟩ := need_ok done
      have brought : (some <$> h.record).Yields fun found => -1 + if found.isSome then 1 else 0 :=
        .map h.yields_record
      rw [surplus_gain brought done, surplus_clearHand held]
      omega
  | consume hand =>
      obtain ⟨h, held, done⟩ := need_ok done
      rw [surplus_observe h.yields_consume done, surplus_clearHand held]
      omega
  | write lender index v =>
      obtain ⟨h, -, done⟩ := need_ok done
      exact surplus_observe_free (h.yields_write index v) done
  | clearRecorded => exact surplus_observe_free Eval.yields_clearRecorded done
  | wrap hand =>
      obtain ⟨h, held, done⟩ := need_ok done
      obtain ⟨view, world, ran, same⟩ := evaluate_ok done
      cases same
      have moved := ArrayView.yields_ofHandle h ran
      dsimp only at moved
      rw [surplus_putArray { c with hands := c.hands.clear hand, world } view,
        surplus_withWorld { c with hands := c.hands.clear hand } world, surplus_clearHand held]
      dsimp only
      omega
  | unwrap array =>
      obtain ⟨view, wrapped, done⟩ := need_ok done
      cases done
      rw [surplus_putHand { c with arrays := c.arrays.clear array } view.handle,
        surplus_clearArray wrapped]
      omega
  | arrayRead array index =>
      obtain ⟨view, -, done⟩ := need_ok done
      exact surplus_gain_free (view.yields_read index) done
  | arrayLoad array index =>
      obtain ⟨view, -, done⟩ := need_ok done
      exact surplus_observe_free (view.yields_load index) done
  | arrayStore array index v =>
      obtain ⟨view, -, done⟩ := need_ok done
      exact surplus_observe_free (view.yields_store index v) done
  | arrayWrite array index v =>
      obtain ⟨view, -, done⟩ := need_ok done
      exact surplus_observe_free (view.yields_write index v) done
  | arrayLength array =>
      obtain ⟨view, wrapped, done⟩ := need_ok done
      obtain ⟨asked, world, ran, same⟩ := evaluate_ok done
      cases same
      have moved := view.yields_length ran
      dsimp only at moved
      rw [surplus_replaceArray (c := { c with world }) wrapped, surplus_withWorld]
      omega
  | arrayAddress array index =>
      obtain ⟨view, -, done⟩ := need_ok done
      cases made : view.address? index <;> simp only [made] at done <;> cases done <;> rfl
  | addressRead address =>
      obtain ⟨a, -, done⟩ := need_ok done
      exact surplus_gain_free a.yields_read done
  | addressLoad address =>
      obtain ⟨a, -, done⟩ := need_ok done
      exact surplus_observe_free (a.array.yields_load a.index) done
  | addressStore address v =>
      obtain ⟨a, -, done⟩ := need_ok done
      exact surplus_observe_free (a.yields_store v) done

theorem surplus_run {ops : List Operation} {answers : List Answer} (kept : .resetStats ∉ ops)
    (done : c.run ops = .ok (answers, d)) : d.surplus = c.surplus := by
  refine preserved_run (P := fun e => e.surplus = c.surplus) ?_ rfl done
  intro op member e answer f same first
  have other : op ≠ .resetStats := ne_of_mem_of_not_mem member kept
  exact (surplus_perform other first).trans same

/-- As long as the ledger is not reset, it agrees with the places that own handles. Nothing is
given back twice, and nothing is lost: who holds nothing owes nothing. -/
theorem live_eq_owners {ops : List Operation} {answers : List Answer}
    (kept : .resetStats ∉ ops) (done : ({} : Caller).run ops = .ok (answers, c)) :
    c.world.stats.issued.toNat - c.world.stats.released.toNat =
        (c.hands.size + c.arrays.size + c.guards.count Guard.owned + c.world.recorded.length : Int) ∧
      c.world.stats.released ≤ c.world.stats.issued ∧
      c.world.stats.live.toNat =
        c.hands.size + c.arrays.size + c.guards.count Guard.owned + c.world.recorded.length ∧
      (c.hands.size = 0 → c.arrays.size = 0 → c.guards.count Guard.owned = 0 →
        c.world.recorded = [] → c.world.stats.live = 0) := by
  have same := surplus_run kept done
  have empty : ({} : Caller).surplus = 0 := rfl
  rw [empty] at same
  unfold surplus owners World.owned HandleStats.tally at same
  dsimp only at same
  have order : c.world.stats.released ≤ c.world.stats.issued := by
    rw [UInt64.le_iff_toNat_le]
    omega
  have live : c.world.stats.live.toNat =
      c.hands.size + c.arrays.size + c.guards.count Guard.owned + c.world.recorded.length := by
    rw [HandleStats.live, if_pos order, UInt64.toNat_sub_of_le _ _ order]
    omega
  refine ⟨by omega, order, live, fun noHand noArray noGuard noRecord => ?_⟩
  rw [← UInt64.toNat_inj, live, noHand, noArray, noGuard, noRecord]
  rfl

/-- A short run that leaves handles in every kind of place. -/
def mixedRun : List Operation :=
  [.alloc (.szArray (.primitive .bool)) [.value (.bool true), .null], .reference 0, .wrap 0,
    .arrayLoad 0 0, .arrayRead 0 1, .reference 0, .acquire (.hand 2), .arrayLength 0]

theorem live_eq_owners_mixedRun :
    ∃ answers c, ({} : Caller).run mixedRun = .ok (answers, c) ∧
      c.hands.size = 2 ∧ c.arrays.size = 1 ∧ c.guards.count Guard.owned = 1 ∧
      c.world.recorded.length = 1 ∧ c.world.stats.live.toNat = 5 := by
  refine ⟨_, _, rfl, rfl, rfl, rfl, rfl, ?_⟩
  have kept : .resetStats ∉ mixedRun := by simp [mixedRun]
  exact (live_eq_owners kept rfl).2.2.1

end Caller

end DebugArrays
