import DebugArrays.Array.View
import DebugArrays.Proofs.World.Guard

/-!
What a view learns of the length when it asks, and what asking does to the world.
-/
namespace DebugArrays

namespace World

/-- The length as far as a view of a single-dimensional zero-based array can learn it. -/
def szLength? (w : World) (view : ArrayView) : Option UInt32 :=
  if view.isSz then
    (w.reach? view.handle).bind fun object =>
      if object.type.isSzArray then w.slotCount? object else none
  else none

theorem slotCount?_eq_some_iff {w : World} {h : Handle} {n : UInt32} :
    w.slotCount? h = some n ↔
      ∃ id stored, h.referent = .object id ∧ w.heap.object? id = some stored ∧
        stored.slots.length = n.toNat := by
  unfold slotCount?
  constructor
  · intro counted
    cases denoted : h.referent with
    | object id =>
        simp only [denoted, Option.bind_eq_some_iff, Option.ite_none_right_eq_some,
          Option.some.injEq] at counted
        obtain ⟨stored, found, small, rfl⟩ := counted
        exact ⟨id, stored, rfl, found, (UInt32.toNat_ofNat_of_lt' small).symm⟩
    | reference id => simp [denoted] at counted
    | null => simp [denoted] at counted
    | scalar v => simp [denoted] at counted
  · rintro ⟨id, stored, denoted, found, counted⟩
    simpa [denoted, found, counted] using n.toNat_lt

theorem slotCount?_congr {v w : World} (same : v.heap = w.heap) (h : Handle) :
    v.slotCount? h = w.slotCount? h := by
  unfold slotCount?
  rw [same]

/-- A view learns a length exactly if its own shape, the guard, the guarded handle's type and the
object all allow it. -/
theorem szLength?_eq_some_iff {w : World} {view : ArrayView} {n : UInt32} :
    w.szLength? view = some n ↔
      view.isSz = true ∧ ∃ object, w.reach? view.handle = some object ∧
        object.type.isSzArray = true ∧
        ∃ id stored, object.referent = .object id ∧ w.heap.object? id = some stored ∧
          stored.slots.length = n.toNat := by
  unfold szLength?
  rw [Option.ite_none_right_eq_some, Option.bind_eq_some_iff]
  refine and_congr_right fun _ => exists_congr fun object => and_congr_right fun _ => ?_
  rw [Option.ite_none_right_eq_some, slotCount?_eq_some_iff]

end World

namespace LengthCache

/-- What is remembered of an answer. -/
def settle : Option UInt32 → LengthCache
  | some n => .known n
  | none => .error

@[simp] theorem length?_settle (answer : Option UInt32) : (settle answer).length? = answer := by
  cases answer <;> rfl

theorem settle_ne_uninitialized (answer : Option UInt32) : settle answer ≠ .uninitialized := by
  cases answer <;> nofun

end LengthCache

namespace ArrayView

variable {view : ArrayView} {w v : World}

theorem settles_ofHandle {h : Handle} (notNull : (!h.isNull) = true)
    (array : h.type.withoutByRef.isArray = true) (w : World) :
    (ofHandle h).Settles w 0 ⟨h, h.type.withoutByRef.isSzArray, .uninitialized⟩ w := by
  rw [← add_zero (0 : Tally)]
  refine (Eval.settles_check notNull w).bind fun stats => ?_
  exact (Eval.settles_check array _).bind_pure rfl

/-- A view that was made: what it is of, and that making it did nothing. -/
theorem ofHandle_ok {h : Handle} (run : (ofHandle h).runIn w = (.ok view, v)) :
    view = ⟨h, h.type.withoutByRef.isSzArray, .uninitialized⟩ ∧ v = w := by
  obtain ⟨_, u, checked, rest⟩ := Eval.runIn_bind_ok run
  obtain ⟨-, rfl⟩ := Eval.check_ok checked
  obtain ⟨_, u, checked, last⟩ := Eval.runIn_bind_ok rest
  obtain ⟨-, rfl⟩ := Eval.check_ok checked
  cases last
  exact ⟨rfl, rfl⟩

def askLength (object : Handle) : Eval (Option UInt32) :=
  if object.type.isSzArray then object.slotCount else return none

def askBill (object : Handle) : Tally :=
  if object.type.isSzArray then object.countBill else 0

theorem settles_askLength (object : Handle) (w : World) :
    (askLength object).Settles w (askBill object)
      (if object.type.isSzArray then w.slotCount? object else none) w := by
  unfold askLength askBill
  cases object.type.isSzArray with
  | false => exact Eval.Settles.pure none w
  | true => exact Handle.settles_slotCount object w

/-- What a query that reaches an object costs. -/
def queryBill (view : ArrayView) (object : Handle) : Tally :=
  view.handle.enterBill + (askBill object + Guard.leaveBill ⟨object, view.handle.isReference⟩)

theorem queryBill_bounds (view : ArrayView) (object : Handle) :
    (view.queryBill object).dereferences ≤ 1 ∧ (view.queryBill object).lengthQueries ≤ 1 ∧
      (view.queryBill object).elementReads = 0 := by
  unfold queryBill Handle.enterBill askBill Guard.leaveBill Handle.countBill
  cases view.handle.isReference <;> cases object.type.isSzArray <;> cases object.isObject <;>
    simp [Tally.ofEvent]

/-- A query that went well: its answer, and what it did to the world. -/
theorem queryLength_ok {cache : LengthCache}
    (run : view.queryLength.runIn w = (.ok cache, v)) :
    cache = .settle (w.szLength? view) ∧ v = { w with stats := v.stats } ∧
      (view.isSz = false → v = w) ∧
      ∃ bill : Tally, v.stats.tally = w.stats.tally + bill ∧ bill.dereferences ≤ 1 ∧
        bill.lengthQueries ≤ 1 ∧ bill.elementReads = 0 := by
  unfold queryLength at run
  cases sz : view.isSz with
  | false =>
      rw [sz, if_neg (by decide)] at run
      cases run
      refine ⟨?_, rfl, fun _ => rfl, 0, (add_zero _).symm, by decide, by decide, rfl⟩
      rw [World.szLength?, sz, if_neg (by decide)]
      rfl
  | true =>
      rw [sz, if_pos rfl] at run
      obtain ⟨answer, u, inScope, rest⟩ := Eval.runIn_bind_ok run
      cases rest
      obtain ⟨-, ⟨rfl, refused, rfl⟩ | ⟨object, a, entered, left, rfl, reached, -, kept, paid,
        inside, closed⟩⟩ := Handle.withObject_ok inScope
      · refine ⟨?_, rfl, nofun, 0, (add_zero _).symm, by decide, by decide, rfl⟩
        rw [World.szLength?, sz, if_pos rfl, refused]
        rfl
      · obtain ⟨rfl, asked, counted⟩ := (settles_askLength object entered).of_ok inside
        obtain ⟨-, given, released⟩ := Guard.leave_ok closed
        refine ⟨?_, ?_, nofun, view.queryBill object, ?_, view.queryBill_bounds object⟩
        · have same : entered.heap = w.heap := by rw [kept]
          rw [World.szLength?, sz, if_pos rfl, reached, Option.bind_some,
            World.slotCount?_congr same]
          generalize (if object.type.isSzArray then w.slotCount? object else none) = answer
          cases answer <;> rfl
        · rw [given, asked, kept]
        · rw [released, counted, paid, queryBill, add_assoc, add_assoc]

theorem length_of_uninitialized (unasked : view.cache = .uninitialized) :
    view.length = (fun cache => (cache.length?, { view with cache })) <$> view.queryLength := by
  unfold length
  rw [unasked, map_eq_pure_bind]

theorem length_ok_of_uninitialized {answer : Option UInt32 × ArrayView}
    (unasked : view.cache = .uninitialized) (run : view.length.runIn w = (.ok answer, v)) :
    answer = (w.szLength? view, { view with cache := .settle (w.szLength? view) }) ∧
      v = { w with stats := v.stats } ∧ (view.isSz = false → v = w) ∧
      ∃ bill : Tally, v.stats.tally = w.stats.tally + bill ∧ bill.dereferences ≤ 1 ∧
        bill.lengthQueries ≤ 1 ∧ bill.elementReads = 0 := by
  unfold length at run
  rw [unasked] at run
  obtain ⟨cache, u, queried, rest⟩ := Eval.runIn_bind_ok run
  cases rest
  obtain ⟨rfl, effects⟩ := queryLength_ok queried
  exact ⟨by rw [LengthCache.length?_settle], effects⟩

/-- A view that was asked knows the answer. -/
theorem runIn_length_of_ne_uninitialized (asked : view.cache ≠ .uninitialized) (w : World) :
    view.length.runIn w = (.ok (view.cache.length?, view), w) := by
  unfold length
  cases known : view.cache with
  | uninitialized => exact absurd known asked
  | known n => rfl
  | error => rfl

/-- Asking a view changes nothing about it but what it remembers. -/
theorem length_ok_view {answer : Option UInt32 × ArrayView}
    (run : view.length.runIn w = (.ok answer, v)) :
    answer.2 = { view with cache := answer.2.cache } := by
  by_cases unasked : view.cache = .uninitialized
  · obtain ⟨rfl, -⟩ := length_ok_of_uninitialized unasked run
    rfl
  · rw [runIn_length_of_ne_uninitialized unasked] at run
    cases run
    rfl

end ArrayView

end DebugArrays
