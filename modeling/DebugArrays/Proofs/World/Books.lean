import DebugArrays.Proofs.World.Exit

/-!
The books of an operation that goes through one handle: how often the handle is followed, and what
is taken, given back and kept. A scope leaves them in order if the step inside does, on every way
out.
-/
namespace DebugArrays

namespace HandleStats

/-- Handles issued and not released, where more than was issued may have been released. -/
def outstanding (stats : HandleStats) : Int :=
  (stats.issued.toNat : Int) - stats.released.toNat

theorem toNat_live_eq_toNat_outstanding (stats : HandleStats) :
    stats.live.toNat = stats.outstanding.toNat := by
  rw [toNat_live, outstanding]
  omega

end HandleStats

namespace World

/-- The handle is a reference to an object, and the debuggee lets it be followed. -/
def Follows (w : World) (h : Handle) : Prop :=
  ∃ id, h.referent = .reference id ∧ id < w.heap.length ∧ w.dereferenceFails = false

/-- Scoped access ends in the assertion: the handle is null, or what it reaches is no array. -/
def Asserts (w : World) (h : Handle) : Prop :=
  h.isNull = true ∨ ∃ object, w.reach? h = some object ∧ object.type.isArray = false

variable {w : World} {h object : Handle}

theorem isSome_follow?_iff : (w.follow? h).isSome = true ↔ w.Follows h := by
  obtain ⟨referent, type⟩ := h
  cases referent <;> simp [follow?, Follows, and_comm]

theorem follows_iff_of_reach? (reached : w.reach? h = some object) :
    w.Follows h ↔ h.isReference = true := by
  rw [← isSome_follow?_iff]
  unfold reach? at reached
  cases reference : h.isReference with
  | false =>
      obtain ⟨referent, type⟩ := h
      cases referent <;> simp_all [follow?, Handle.isReference]
  | true =>
      rw [reference, if_pos rfl] at reached
      simp [reached]

theorem not_follows_of_reach? (refused : w.reach? h = none) : ¬ w.Follows h := by
  rw [← isSome_follow?_iff]
  unfold reach? at refused
  split at refused
  · simp [refused]
  · cases refused

theorem not_follows_of_isNull (null : h.isNull = true) : ¬ w.Follows h := by
  rintro ⟨id, denoted, -⟩
  simp [Handle.isNull, denoted] at null

theorem asserts_iff_of_reach? (reached : w.reach? h = some object) :
    w.Asserts h ↔ object.type.isArray = false := by
  unfold Asserts
  rw [isNull_of_reach? reached, reached]
  simp

theorem not_asserts_of_refused (notNull : h.isNull = false) (refused : w.reach? h = none) :
    ¬ w.Asserts h := by
  unfold Asserts
  rw [notNull, refused]
  simp

end World

/-- The books from `w` to `v`: what was followed through `h`, what is kept on record, and how many
other handles were used up. All that was obtained besides is given back, and nothing else. -/
structure Booked (h : Handle) (w v : World) (passes : Prop) (kept : List Handle) (spent : Nat) :
    Prop where
  once : passes → w.Follows h → v.stats.dereferences.toNat = w.stats.dereferences.toNat + 1
  never : ¬ (passes ∧ w.Follows h) → v.stats.dereferences = w.stats.dereferences
  recorded : v.recorded = w.recorded ++ kept
  outstanding : v.stats.outstanding = w.stats.outstanding + 2 * kept.length
  live : kept = [] ∨ w.stats.released ≤ w.stats.issued →
    v.stats.live.toNat = w.stats.live.toNat + 2 * kept.length
  released : v.stats.released.toNat + w.stats.dereferences.toNat =
    w.stats.released.toNat + v.stats.dereferences.toNat + spent

namespace Tally

/-- A bill that gives back what it takes, but for two handles to each one kept. -/
structure Balances (t : Tally) (kept : List Handle) (spent : Nat) : Prop where
  released : t.released = t.dereferences + spent
  issued : t.issued = t.released + 2 * kept.length

/-- The one dereference that a bill can have, it has where there is something to follow. -/
def Follows (t : Tally) (reaches : Prop) : Prop :=
  reaches ∧ t.dereferences = 1 ∨ ¬ reaches ∧ t.dereferences = 0

theorem balances_zero : (0 : Tally).Balances [] 0 :=
  ⟨rfl, rfl⟩

theorem Balances.add {s t : Tally} {kept : List Handle} {spent : Nat} (hs : s.Balances [] 0)
    (ht : t.Balances kept spent) : (s + t).Balances kept spent := by
  obtain ⟨released, issued⟩ := hs
  obtain ⟨released', issued'⟩ := ht
  rw [List.length_nil] at issued
  constructor
  · simp only [released_add, dereferences_add]
    omega
  · simp only [issued_add, released_add]
    omega

theorem Follows.add {s t : Tally} {reaches : Prop} (h : s.Follows reaches)
    (still : t.dereferences = 0) : (s + t).Follows reaches := by
  unfold Follows
  rwa [dereferences_add, still, add_zero]

end Tally

namespace Handle

theorem balances_scopeBill (h : Handle) : h.scopeBill.Balances [] 0 := by
  unfold scopeBill
  cases h.isReference <;> exact ⟨rfl, rfl⟩

theorem follows_scopeBill {w : World} {h object : Handle} (reached : w.reach? h = some object) :
    h.scopeBill.Follows (w.Follows h) := by
  unfold scopeBill
  rw [World.follows_iff_of_reach? reached]
  cases h.isReference with
  | true => exact .inl ⟨rfl, rfl⟩
  | false => exact .inr ⟨by decide, rfl⟩

theorem within_scopeBill (h : Handle) : h.scopeBill.Within 1 := by
  unfold scopeBill
  cases h.isReference <;> decide

end Handle

theorem Booked.of_bill {h : Handle} {w v : World} {passes : Prop} {kept : List Handle}
    {spent : Nat} {bill : Tally} (paid : v.stats.tally = w.stats.tally + bill)
    (recorded : v.recorded = w.recorded ++ kept) (even : bill.Balances kept spent)
    (followed : bill.Follows (passes ∧ w.Follows h)) : Booked h w v passes kept spent := by
  obtain ⟨released, issued⟩ := even
  have issuedNow : v.stats.issued.toNat = w.stats.issued.toNat + bill.issued :=
    congrArg Tally.issued paid
  have releasedNow : v.stats.released.toNat = w.stats.released.toNat + bill.released :=
    congrArg Tally.released paid
  have followedNow : v.stats.dereferences.toNat = w.stats.dereferences.toNat + bill.dereferences :=
    congrArg Tally.dereferences paid
  have balance : v.stats.outstanding = w.stats.outstanding + 2 * kept.length := by
    unfold HandleStats.outstanding
    omega
  refine ⟨?_, ?_, recorded, balance, ?_, ?_⟩
  · intro past reaches
    obtain ⟨-, one⟩ | ⟨closed, -⟩ := followed
    · rw [followedNow, one]
    · exact absurd ⟨past, reaches⟩ closed
  · intro closed
    obtain ⟨reaches, -⟩ | ⟨-, zero⟩ := followed
    · exact absurd reaches closed
    · rw [zero, add_zero] at followedNow
      exact UInt64.toNat_inj.1 followedNow
  · intro order
    rw [HandleStats.toNat_live_eq_toNat_outstanding, HandleStats.toNat_live_eq_toNat_outstanding,
      balance]
    obtain rfl | order := order
    · rw [List.length_nil, Nat.cast_zero, mul_zero, add_zero, mul_zero, add_zero]
    · rw [UInt64.le_iff_toNat_le] at order
      unfold HandleStats.outstanding
      omega
  · omega

namespace Eval

variable {α β : Type} {step : Eval α} {h : Handle} {w : World} {passes : Prop}
  {kept : α → List Handle} {spent : α → Nat}

/-- Run in `w`, an operation through `h` leaves the books in order, whatever it answers. It faults
in one way only, by the assertion, and exactly where its gates let it come so far. -/
def Balanced (step : Eval α) (h : Handle) (w : World) (passes : Prop) (kept : α → List Handle)
    (spent : α → Nat) : Prop :=
  match step.runIn w with
  | (.ok a, v) => Booked h w v passes (kept a) (spent a) ∧ ¬ (passes ∧ w.Asserts h)
  | (.error fault, v) => Booked h w v passes [] 0 ∧ fault = .assertion ∧ passes ∧ w.Asserts h

theorem Ends.balanced_error {bill : Tally} (ends : step.Ends w bill (.error .assertion) w)
    (even : bill.Balances [] 0) (followed : bill.Follows (passes ∧ w.Follows h)) (past : passes)
    (asserts : w.Asserts h) : step.Balanced h w passes kept spent := by
  obtain ⟨stats, run, paid⟩ := ends
  unfold Balanced
  rw [run]
  exact ⟨.of_bill paid (List.append_nil _).symm even followed, rfl, past, asserts⟩

theorem Ends.balanced_ok {bill : Tally} {a : α} {after : World}
    (ends : step.Ends w bill (.ok a) after) (recorded : after.recorded = w.recorded ++ kept a)
    (even : bill.Balances (kept a) (spent a)) (followed : bill.Follows (passes ∧ w.Follows h))
    (calm : ¬ (passes ∧ w.Asserts h)) : step.Balanced h w passes kept spent := by
  obtain ⟨stats, run, paid⟩ := ends
  unfold Balanced
  rw [run]
  exact ⟨.of_bill paid recorded even followed, calm⟩

/-- A step that takes nothing, keeps nothing and says so leaves the books as they are. -/
theorem Ends.balanced_free {a : α} (ends : step.Ends w 0 (.ok a) w) (nothing : kept a = [])
    (unspent : spent a = 0) (apart : ¬ (passes ∧ w.Follows h)) (calm : ¬ (passes ∧ w.Asserts h)) :
    step.Balanced h w passes kept spent := by
  apply ends.balanced_ok
  · rw [nothing, List.append_nil]
  · rw [nothing, unspent]
    exact Tally.balances_zero
  · exact .inr ⟨apart, rfl⟩
  · exact calm

/-- An operation that is stopped at a gate does nothing. -/
theorem balanced_pure {a : α} (closed : ¬ passes) (nothing : kept a = []) (unspent : spent a = 0) :
    (pure a : Eval α).Balanced h w passes kept spent :=
  (ends_pure a w).balanced_free nothing unspent (fun past => closed past.1)
    fun past => closed past.1

theorem Balanced.bind_pure {kept : β → List Handle} {spent : β → Nat} {f : α → β}
    {next : α → Eval β}
    (even : step.Balanced h w passes (fun a => kept (f a)) fun a => spent (f a))
    (returned : ∀ a, next a = pure (f a)) : (step >>= next).Balanced h w passes kept spent := by
  unfold Balanced at even ⊢
  rw [runIn_bind]
  rcases run : step.runIn w with ⟨fault | a, v⟩
  · rw [run] at even
    exact even
  · rw [run] at even
    simp only [returned]
    exact even

/-- A step inside a scope answers, follows nothing, and gives back what it takes, but for two
handles to each one kept. -/
def Lends (step : Eval α) (w : World) (kept : α → List Handle) (spent : α → Nat) : Prop :=
  ∃ a t after, (∀ stats, step.Settles { w with stats } t a after) ∧
    after.recorded = w.recorded ++ kept a ∧ after.releaseForbidden = w.releaseForbidden ∧
    t.Balances (kept a) (spent a) ∧ t.dereferences = 0 ∧ t.Within 2

end Eval

open Eval

section Scope

variable {α : Type} {h : Handle} {step : Handle → Eval α} {w : World} {passes : Prop}
  {kept : Option α → List Handle} {spent : Option α → Nat}

/-- A scope leaves the books in order if the step inside does, on each of its ways out. -/
theorem Handle.balanced_withObject (past : passes) (free : w.releaseForbidden = false)
    (room : w.stats.tally.Within (2 ^ 64 - 4)) (nothing : kept none = [])
    (unspent : spent none = 0)
    (inside : ∀ object, w.reach? h = some object → object.type.isArray = true →
      (step object).Lends w (fun a => kept (some a)) fun a => spent (some a)) :
    (h.withObject step).Balanced h w passes kept spent := by
  -- a null handle, a refused dereference, an object that is no array, and the step on an array
  cases null : h.isNull with
  | true =>
      have apart := World.not_follows_of_isNull (w := w) null
      exact (ends_withObject_of_isNull null).balanced_error Tally.balances_zero
        (.inr ⟨fun reaches => apart reaches.2, rfl⟩) past (.inl null)
  | false =>
      cases reached : w.reach? h with
      | none =>
          exact (ends_withObject_of_refused null reached).balanced_free nothing unspent
            (fun reaches => World.not_follows_of_reach? reached reaches.2)
            fun asserts => World.not_asserts_of_refused null reached asserts.2
      | some object =>
          have followed : h.scopeBill.Follows (passes ∧ w.Follows h) := by
            rw [eq_true past, true_and]
            exact follows_scopeBill reached
          have asserts := World.asserts_iff_of_reach? reached
          cases array : object.type.isArray with
          | false =>
              have fits := (room.add h.within_scopeBill).fits (by decide)
              exact (ends_withObject_of_not_array reached array free fits).balanced_error
                h.balances_scopeBill followed past (asserts.2 array)
          | true =>
              obtain ⟨a, t, after, settles, recorded, same, even, still, small⟩ :=
                inside object reached array
              have fits := (room.add (h.within_scopeBill.add small)).fits (by decide)
              have settled := settles_withObject reached array settles fun _ => same.trans free
              refine (settled.ends fits).balanced_ok recorded (h.balances_scopeBill.add even)
                (followed.add still) fun broken => ?_
              rw [asserts, array] at broken
              cases broken.2

end Scope

end DebugArrays
