import DebugArrays.Proofs.Heap.Slots
import DebugArrays.Proofs.World.Guard

/-!
Two worlds side by side. The debuggee is the same in both; in the first an array is held by a
reference, in the second the object is at hand. Steps mirror each other when they answer the same
and leave the same debuggee, so that what is left between the worlds is scopes in the ledger.
-/
namespace DebugArrays

namespace Tally

/-- What a number of scopes costs. -/
def scopes (n : Nat) : Tally where
  issued := n
  released := n
  dereferences := n

theorem scopes_one : scopes 1 = .ofEvent .dereference + .ofEvent .issue + .ofEvent .release := rfl

theorem scopes_add (m n : Nat) : scopes (m + n) = scopes m + scopes n := rfl

end Tally

namespace World

/-- The first world is the second with more in the ledger. -/
structure Twin (extra : Tally) (w v : World) : Prop where
  core : w.core = v.core
  ledger : w.stats.tally = v.stats.tally + extra

/-- An object of a type can be reached, and handles to it given back. -/
structure Offers (w : World) (id : ObjectId) (type : DebugType) : Prop where
  typed : (w.heap.object? id).map HeapObject.type = some type
  followed : w.dereferenceFails = false
  free : w.releaseForbidden = false

variable {w v : World} {id : ObjectId} {type declared : DebugType} {extra : Tally}

theorem Offers.withStats (offers : w.Offers id type) (stats : HandleStats) :
    { w with stats }.Offers id type :=
  ⟨offers.typed, offers.followed, offers.free⟩

/-- What happens to the heap leaves the offer standing, as long as the object keeps its type. -/
theorem Offers.withHeap (offers : w.Offers id type) {heap : Heap}
    (kept : (heap.object? id).map HeapObject.type = (w.heap.object? id).map HeapObject.type) :
    { w with heap }.Offers id type :=
  ⟨kept.trans offers.typed, offers.followed, offers.free⟩

theorem Twin.eq_withStats (twin : w.Twin extra v) : w = { v with stats := w.stats } :=
  eq_withStats_of_core twin.core

theorem Twin.offers (twin : w.Twin extra v) (offers : v.Offers id type) : w.Offers id type := by
  rw [twin.eq_withStats]
  exact offers.withStats w.stats

theorem Offers.follow? (offers : w.Offers id type) :
    w.follow? ⟨.reference id, declared⟩ = some ⟨.object id, type⟩ := by
  obtain ⟨object, there, same⟩ := Option.map_eq_some_iff.1 offers.typed
  have inside : id < w.heap.length := (List.getElem?_eq_some_iff.1 there).1
  simp [World.follow?, offers.followed, inside, Heap.typeOf, there, same]

end World

namespace Eval

variable {α β : Type} {id : ObjectId} {type declared : DebugType} {cost m n : Nat} {w v : World}
  {extra : Tally}

/-- Two ways to run side by side, in worlds that differ by `extra`: both go well with one answer,
and the first paid for some more scopes; or both end in one fault; or the first ledger has no room
for `cost` more events. -/
inductive Abreast (id : ObjectId) (type : DebugType) (cost : Nat) (extra : Tally) (w v : World) :
    Except Fault α × World → Except Fault α × World → Prop where
  | done {a : α} {w' v' : World} (k : Nat) (twin : w'.Twin (extra + .scopes k) v')
    (offers : v'.Offers id type) (direct : v'.stats.dereferences = v.stats.dereferences)
    (bounded : ∀ n, w.stats.tally.Within n → w'.stats.tally.Within (n + cost)) :
    Abreast id type cost extra w v (.ok a, w') (.ok a, v')
  | failed {w' v' : World} (fault : Fault) :
    Abreast id type cost extra w v (.error fault, w') (.error fault, v')
  | full {w' : World} {other : Except Fault α × World}
    (little : ∀ n, w.stats.tally.Within n → 2 ^ 64 ≤ n + cost) :
    Abreast id type cost extra w v (.error .overflow, w') other

/-- The steps go abreast in all worlds that differ in the ledger and offer the object. -/
def Mirrors (id : ObjectId) (type : DebugType) (cost : Nat) (f g : Eval α) : Prop :=
  ∀ ⦃extra w v⦄, w.Twin extra v → v.Offers id type →
    Abreast id type cost extra w v (f.runIn w) (g.runIn v)

/-- A bill that does not fit leaves little room. -/
theorem room_of_not_fits {bill : Tally} (within : bill.Within cost)
    (full : ¬ (w.stats.tally + bill).Fits) (n : Nat) (held : w.stats.tally.Within n) :
    2 ^ 64 ≤ n + cost := by
  by_contra small
  exact full ((held.add within).fits (Nat.lt_of_not_le small))

namespace Mirrors

protected theorem pure (a : α) : Mirrors id type 0 (pure a) (pure a) := by
  intro extra w v twin offers
  exact .done 0 twin offers rfl fun _ held => held

protected theorem throw (fault : Fault) :
    Mirrors id type 0 (throw fault : Eval α) (throw fault) :=
  fun _ _ _ _ _ => .failed fault

theorem mono {f g : Eval α} (less : m ≤ n) (h : Mirrors id type m f g) :
    Mirrors id type n f g := by
  intro extra w v twin offers
  have both := h twin offers
  generalize f.runIn w = first at both
  generalize g.runIn v = second at both
  cases both with
  | done k twin offers direct bounded =>
      exact .done k twin offers direct fun l held =>
        (bounded l held).mono (Nat.add_le_add_left less l)
  | failed fault => exact .failed fault
  | full little =>
      exact .full fun l held => Nat.le_trans (little l held) (Nat.add_le_add_left less l)

theorem bind {f g : Eval α} {next other : α → Eval β} (first : Mirrors id type m f g)
    (rest : ∀ a, Mirrors id type n (next a) (other a)) :
    Mirrors id type (m + n) (f >>= next) (g >>= other) := by
  intro extra w v twin offers
  rw [runIn_bind, runIn_bind]
  have both := first twin offers
  generalize f.runIn w = one at both
  generalize g.runIn v = two at both
  cases both with
  | failed fault => exact .failed fault
  | full little => exact .full fun l held => Nat.le_trans (little l held) (by omega)
  | done k twin offers direct bounded =>
      rename_i a w₁ v₁
      have later := rest a twin offers
      dsimp only
      generalize (next a).runIn w₁ = three at later ⊢
      generalize (other a).runIn v₁ = four at later ⊢
      cases later with
      | failed fault => exact .failed fault
      | full little =>
          refine .full fun l held => ?_
          rw [← add_assoc]
          exact little _ (bounded l held)
      | done j twin offers direct' bounded' =>
          refine .done (k + j) ?_ offers (direct'.trans direct) fun l held => ?_
          · rwa [Tally.scopes_add, ← add_assoc]
          · rw [← add_assoc]
            exact bounded' _ (bounded l held)

/-- A step that is settled outside the ledger mirrors itself. -/
theorem of_settles {f : Eval α} (h : ∀ w : World, w.Offers id type → ∃ bill a after,
      bill.Within cost ∧ bill.dereferences = 0 ∧ after.Offers id type ∧
        ∀ stats, f.Settles { w with stats } bill a after) :
    Mirrors id type cost f f := by
  intro extra w v twin offers
  obtain ⟨bill, a, after, within, direct, kept, settles⟩ := h v offers
  have first := settles w.stats
  rw [← twin.eq_withStats] at first
  obtain ⟨s, run, paid⟩ | ⟨u, run, full⟩ := first.ran
  · obtain ⟨t, run', paid'⟩ | ⟨u, run', full'⟩ := (settles v.stats).ran
    · rw [run, run']
      refine .done 0 ⟨rfl, ?_⟩ (kept.withStats t) ?_ fun l held => ?_
      · dsimp only
        rw [paid, paid', twin.ledger]
        exact add_right_comm _ _ _
      · have counted := congrArg Tally.dereferences paid'
        rw [Tally.dereferences_add, direct] at counted
        exact UInt64.toNat_inj.1 counted
      · dsimp only
        rw [paid]
        exact held.add within
    · -- the first ledger took the same bill on top of more
      refine absurd (Tally.Fits.of_add (t := extra) ?_) full'
      have fits := s.fits_tally
      rwa [paid, twin.ledger, add_right_comm] at fits
  · rw [run]
    exact .full (room_of_not_fits within full)

end Mirrors

namespace Abreast

theorem map {f g : Eval α} {w' v' : World} (h : α → β)
    (both : Abreast id type cost extra w v (f.runIn w') (g.runIn v')) :
    Abreast id type cost extra w v ((h <$> f).runIn w') ((h <$> g).runIn v') := by
  rw [runIn_map, runIn_map]
  generalize f.runIn w' = first at both ⊢
  generalize g.runIn v' = second at both ⊢
  cases both with
  | done k twin offers direct bounded => exact .done k twin offers direct bounded
  | failed fault => exact .failed fault
  | full little => exact .full little

/-- A scope of the first step alone: what it has more is the release at the end. -/
theorem releasing {h : Handle} {f g : Eval α} {opened : World}
    (started : ∀ n, w.stats.tally.Within n → opened.stats.tally.Within (n + 2))
    (inside : Abreast id type cost (extra + .ofEvent .dereference + .ofEvent .issue) opened v
      (f.runIn opened) (g.runIn v)) :
    Abreast id type (cost + 3) extra w v ((Eval.releasing h f).runIn opened) (g.runIn v) := by
  rw [runIn_releasing]
  generalize f.runIn opened = first at inside ⊢
  generalize g.runIn v = second at inside ⊢
  cases inside with
  | failed fault => exact .failed fault
  | full little =>
      refine .full fun l held => ?_
      have short := little _ (started l held)
      omega
  | done k twin offers direct bounded =>
      rename_i a w₁ v₁
      have free : w₁.releaseForbidden = false := by
        rw [twin.eq_withStats]
        exact offers.free
      have bill : (Tally.ofEvent .release).Within 1 := Tally.within_ofEvent _
      obtain ⟨s, run, paid⟩ | ⟨u, run, full⟩ := (h.settles_release free).ran
      · simp only [run]
        refine .done (k + 1) ⟨twin.core, ?_⟩ offers direct fun l held => ?_
        · dsimp only
          rw [paid, twin.ledger, Tally.scopes_add, Tally.scopes_one]
          abel
        · have more := (bounded _ (started l held)).add bill
          dsimp only
          rw [paid]
          exact more.mono (by omega)
      · simp only [run]
        refine .full fun l held => ?_
        have short := room_of_not_fits bill full _ (bounded _ (started l held))
        omega

end Abreast

end Eval

namespace Eval

variable {α : Type} {id : ObjectId} {type : DebugType}

/-- A change of the heap that the object's type survives, and that the answer may depend on. -/
theorem mirrors_changeHeap (f : Heap → Heap) (answer : Heap → α)
    (kept : ∀ heap : Heap, (heap.object? id).map HeapObject.type = some type →
      ((f heap).object? id).map HeapObject.type = some type) :
    Mirrors id type 0
      (do
        let w ← get
        set { w with heap := f w.heap }
        return answer w.heap)
      (do
        let w ← get
        set { w with heap := f w.heap }
        return answer w.heap) := by
  refine .of_settles fun w offers =>
    ⟨0, answer w.heap, { w with heap := f w.heap }, by simp [Tally.Within], rfl,
      offers.withHeap ((kept w.heap offers.typed).trans offers.typed.symm), fun stats => ?_⟩
  exact settles_get_bind ⟨rfl, rfl, (add_zero _).symm⟩

end Eval

namespace Handle

open Eval

variable {α : Type} {id : ObjectId} {type declared : DebugType} {cost : Nat}

section Followed

variable {object : Handle} {step : Handle → Eval α} {w v : World} {fault : Fault}

theorem runIn_withObject_of_followed
    (followed : (⟨.reference id, declared⟩ : Handle).dereference.runIn w = (.ok (some object), v)) :
    ((⟨.reference id, declared⟩ : Handle).withObject step).runIn w =
      (some <$> Eval.releasing object do
        check object.type.isArray
        step object).runIn v := by
  unfold withObject
  simp [isNull, isReference, runIn_bind, runIn_map, followed]

theorem runIn_withObject_of_fault
    (failed : (⟨.reference id, declared⟩ : Handle).dereference.runIn w = (.error fault, v)) :
    ((⟨.reference id, declared⟩ : Handle).withObject step).runIn w = (.error fault, v) := by
  unfold withObject
  simp [isNull, isReference, runIn_bind, failed]

end Followed

/-- A scope on a reference mirrors a scope on the object, as the step inside mirrors itself. -/
theorem mirrors_withObject {step : Handle → Eval α} (array : type.isArray = true)
    (inside : Mirrors id type cost (step ⟨.object id, type⟩) (step ⟨.object id, type⟩)) :
    Mirrors id type (cost + 3) ((⟨.reference id, declared⟩ : Handle).withObject step)
      ((⟨.object id, type⟩ : Handle).withObject step) := by
  intro extra w v twin offers
  have direct : ((⟨.object id, type⟩ : Handle).withObject step).runIn v =
      (some <$> step ⟨.object id, type⟩).runIn v := by
    simp [withObject, isNull, isReference, runIn_bind, runIn_map, array]
  have followed := settles_dereference ⟨.reference id, declared⟩ w
  rw [(twin.offers offers).follow?] at followed
  have bill : (followBill (some ⟨.object id, type⟩)).Within 2 :=
    (Tally.within_ofEvent _).add (Tally.within_ofEvent _)
  rw [direct]
  obtain ⟨stats, run, paid⟩ | ⟨u, run, full⟩ := followed.ran
  · rw [runIn_withObject_of_followed run]
    refine Abreast.map some (Abreast.releasing (fun n held => ?_) ?_)
    · dsimp only
      rw [paid]
      exact held.add bill
    · have checked : (check type.isArray >>= fun _ => step ⟨.object id, type⟩) =
          step ⟨.object id, type⟩ := by
        rw [array]
        rfl
      rw [checked]
      refine inside ⟨twin.core, ?_⟩ offers
      dsimp only
      rw [paid, twin.ledger, add_assoc, add_assoc]
      rfl
  · rw [runIn_withObject_of_fault run]
    refine .full fun n held => ?_
    have short := room_of_not_fits bill full n held
    omega

theorem mirrors_elementAt (h : Handle) (index : UInt32) :
    Mirrors id type 2 (h.elementAt index) (h.elementAt index) := by
  refine .of_settles fun w offers =>
    ⟨h.elementBill (w.elementAt? h index).isSome, w.elementAt? h index, w, ?_, ?_, offers,
      fun stats => h.settles_elementAt index { w with stats }⟩
  · unfold elementBill
    split
    · refine (Tally.within_ofEvent .elementRead).add (n := 1) ?_
      split <;> simp [Tally.Within, Tally.ofEvent]
    · simp [Tally.Within]
  · unfold elementBill
    split
    · split <;> rfl
    · rfl

theorem mirrors_slotCount (h : Handle) : Mirrors id type 1 h.slotCount h.slotCount := by
  refine .of_settles fun w offers =>
    ⟨h.countBill, w.slotCount? h, w, ?_, ?_, offers,
      fun stats => h.settles_slotCount { w with stats }⟩
  · unfold countBill
    split <;> simp [Tally.Within, Tally.ofEvent]
  · unfold countBill
    split <;> rfl

theorem mirrors_release (h : Handle) : Mirrors id type 1 h.release h.release :=
  .of_settles fun w offers => ⟨_, _, w, Tally.within_ofEvent _, rfl, offers, fun stats =>
    h.settles_release (offers.withStats stats).free⟩

/-- An object without an address has no value in either world. -/
theorem mirrors_value (h : Handle) : Mirrors id type 0 h.value h.value := by
  unfold value
  cases h.value? with
  | none => exact .throw _
  | some v => exact .pure v

theorem mirrors_consume (h : Handle) : Mirrors id type 1 h.consume h.consume :=
  (mirrors_value h).bind fun v => (mirrors_release h).bind fun _ => .pure v

theorem mirrors_record (h : Handle) : Mirrors id type 1 h.record h.record :=
  .of_settles fun w offers => ⟨_, _, { w with recorded := w.recorded ++ [h] },
    Tally.within_ofEvent _, rfl, ⟨offers.typed, offers.followed, offers.free⟩, fun stats =>
    h.settles_record { w with stats }⟩

end Handle

end DebugArrays
