import DebugArrays.World.Ledger
import Mathlib.Algebra.Group.Basic
import Mathlib.Algebra.Group.Nat.Defs
import Mathlib.Logic.Function.Basic

/-!
Tallies: what a ledger counts, in numbers without a bound. A ledger takes an event exactly if the
tally with the event in it still fits 64 bits.
-/
namespace DebugArrays

@[ext]
structure Tally where
  issued : Nat := 0
  released : Nat := 0
  dereferences : Nat := 0
  elementReads : Nat := 0
  lengthQueries : Nat := 0
deriving DecidableEq, Repr

namespace Tally

instance : Zero Tally :=
  ⟨{}⟩

instance : Add Tally :=
  ⟨fun s t =>
    { issued := s.issued + t.issued
      released := s.released + t.released
      dereferences := s.dereferences + t.dereferences
      elementReads := s.elementReads + t.elementReads
      lengthQueries := s.lengthQueries + t.lengthQueries }⟩

@[simp] theorem issued_zero : (0 : Tally).issued = 0 := rfl
@[simp] theorem released_zero : (0 : Tally).released = 0 := rfl
@[simp] theorem dereferences_zero : (0 : Tally).dereferences = 0 := rfl
@[simp] theorem elementReads_zero : (0 : Tally).elementReads = 0 := rfl
@[simp] theorem lengthQueries_zero : (0 : Tally).lengthQueries = 0 := rfl

@[simp] theorem issued_add (s t : Tally) : (s + t).issued = s.issued + t.issued := rfl
@[simp] theorem released_add (s t : Tally) : (s + t).released = s.released + t.released := rfl
@[simp] theorem dereferences_add (s t : Tally) :
    (s + t).dereferences = s.dereferences + t.dereferences := rfl
@[simp] theorem elementReads_add (s t : Tally) :
    (s + t).elementReads = s.elementReads + t.elementReads := rfl
@[simp] theorem lengthQueries_add (s t : Tally) :
    (s + t).lengthQueries = s.lengthQueries + t.lengthQueries := rfl

instance : AddCommMonoid Tally where
  add_assoc r s t := by ext <;> exact Nat.add_assoc ..
  zero_add t := by ext <;> exact Nat.zero_add _
  add_zero t := by ext <;> rfl
  add_comm s t := by ext <;> exact Nat.add_comm ..
  nsmul := nsmulRec

def ofEvent : HandleEvent → Tally
  | .issue => { issued := 1 }
  | .release => { released := 1 }
  | .dereference => { dereferences := 1 }
  | .elementRead => { elementReads := 1 }
  | .lengthQuery => { lengthQueries := 1 }

/-- Every number fits a counter of a ledger. -/
def Fits (t : Tally) : Prop :=
  t.issued < 2 ^ 64 ∧ t.released < 2 ^ 64 ∧ t.dereferences < 2 ^ 64 ∧ t.elementReads < 2 ^ 64 ∧
    t.lengthQueries < 2 ^ 64

instance (t : Tally) : Decidable t.Fits := by
  unfold Fits
  infer_instance

theorem Fits.of_add {s t : Tally} (h : (s + t).Fits) : s.Fits := by
  unfold Fits at h ⊢
  simp only [issued_add, released_add, dereferences_add, elementReads_add, lengthQueries_add] at h
  omega

/-- No number is greater than `n`. -/
def Within (t : Tally) (n : Nat) : Prop :=
  t.issued ≤ n ∧ t.released ≤ n ∧ t.dereferences ≤ n ∧ t.elementReads ≤ n ∧ t.lengthQueries ≤ n

instance (t : Tally) (n : Nat) : Decidable (t.Within n) := by
  unfold Within
  infer_instance

theorem Within.add {s t : Tally} {m n : Nat} (first : s.Within m) (second : t.Within n) :
    (s + t).Within (m + n) := by
  unfold Within at *
  simp only [issued_add, released_add, dereferences_add, elementReads_add, lengthQueries_add]
  omega

theorem Within.mono {t : Tally} {m n : Nat} (h : t.Within m) (less : m ≤ n) : t.Within n := by
  unfold Within at *
  omega

theorem Within.fits {t : Tally} {n : Nat} (h : t.Within n) (small : n < 2 ^ 64) : t.Fits := by
  unfold Within at h
  unfold Fits
  omega

theorem within_ofEvent (event : HandleEvent) : (ofEvent event).Within 1 := by
  cases event <;> simp [Within, ofEvent]

/-- How many events there are, of all kinds together. -/
def events (t : Tally) : Nat :=
  t.issued + t.released + t.dereferences + t.elementReads + t.lengthQueries

@[simp] theorem events_add (s t : Tally) : (s + t).events = s.events + t.events := by
  simp only [events, issued_add, released_add, dereferences_add, elementReads_add,
    lengthQueries_add]
  omega

@[simp] theorem events_ofEvent (event : HandleEvent) : (ofEvent event).events = 1 := by
  cases event <;> rfl

theorem fits_of_events {t : Tally} (few : t.events < 2 ^ 64) : t.Fits := by
  unfold events at few
  unfold Fits
  omega

end Tally

namespace HandleStats

def tally (stats : HandleStats) : Tally where
  issued := stats.issued.toNat
  released := stats.released.toNat
  dereferences := stats.dereferences.toNat
  elementReads := stats.elementReads.toNat
  lengthQueries := stats.lengthQueries.toNat

theorem fits_tally (stats : HandleStats) : stats.tally.Fits :=
  ⟨stats.issued.toNat_lt, stats.released.toNat_lt, stats.dereferences.toNat_lt,
    stats.elementReads.toNat_lt, stats.lengthQueries.toNat_lt⟩

theorem tally_injective : Function.Injective tally := by
  intro a b same
  obtain ⟨a₁, a₂, a₃, a₄, a₅⟩ := a
  obtain ⟨b₁, b₂, b₃, b₄, b₅⟩ := b
  simpa only [tally, Tally.mk.injEq, UInt64.toNat_inj, HandleStats.mk.injEq] using same

theorem tally_of_tally? {stats after : HandleStats} {event : HandleEvent}
    (h : stats.tally? event = some after) : after.tally = stats.tally + .ofEvent event := by
  cases event <;>
    (obtain ⟨n, counted, rfl⟩ := Option.map_eq_some_iff.1 h
     ext <;> simp [tally, Tally.ofEvent, toNat_of_successor? counted])

theorem not_fits_of_tally? {stats : HandleStats} {event : HandleEvent}
    (h : stats.tally? event = none) : ¬ (stats.tally + .ofEvent event).Fits := by
  intro fits
  cases event <;>
    (have full := successor?_eq_none_iff.1 (Option.map_eq_none_iff.1 h)
     simp only [Tally.Fits, tally, Tally.ofEvent, Tally.issued_add, Tally.released_add,
       Tally.dereferences_add, Tally.elementReads_add, Tally.lengthQueries_add] at fits
     omega)

theorem tally?_eq_none_iff {stats : HandleStats} {event : HandleEvent} :
    stats.tally? event = none ↔ ¬ (stats.tally + .ofEvent event).Fits := by
  constructor
  · exact not_fits_of_tally?
  · intro full
    cases taken : stats.tally? event with
    | none => rfl
    | some after => exact absurd (tally_of_tally? taken ▸ after.fits_tally) full

theorem toNat_live (stats : HandleStats) :
    stats.live.toNat = stats.issued.toNat - stats.released.toNat := by
  unfold live
  split
  · next order => exact UInt64.toNat_sub_of_le _ _ order
  · next more =>
    rw [UInt64.le_iff_toNat_le] at more
    rw [UInt64.toNat_zero]
    omega

/-- Some counter takes no further event. -/
def Full (stats : HandleStats) : Prop :=
  ∃ event, stats.tally? event = none

/-- What another counter takes does not make room in a full one. -/
theorem Full.of_tally? {stats after : HandleStats} {event : HandleEvent} (full : stats.Full)
    (taken : stats.tally? event = some after) : after.Full := by
  obtain ⟨first, refused⟩ := full
  refine ⟨first, tally?_eq_none_iff.2 fun fits => tally?_eq_none_iff.1 refused ?_⟩
  rw [tally_of_tally? taken, add_right_comm] at fits
  exact fits.of_add

/-- A counter is full only after as many events as it can count. -/
theorem Full.le_events {stats : HandleStats} (full : stats.Full) :
    2 ^ 64 ≤ stats.tally.events + 1 := by
  obtain ⟨event, refused⟩ := full
  by_contra few
  apply not_fits_of_tally? refused
  apply Tally.fits_of_events
  rw [Tally.events_add, Tally.events_ofEvent]
  omega

end HandleStats

end DebugArrays
