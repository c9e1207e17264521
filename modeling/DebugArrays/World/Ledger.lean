/-!
The ledger of handles: how many were issued and released, and how often the debuggee was asked. The
counters have 64 bits and never wrap: a full one takes no further event.
-/
namespace DebugArrays

inductive HandleEvent where
  | issue
  | release
  | dereference
  | elementRead
  | lengthQuery
deriving DecidableEq, Repr

structure HandleStats where
  issued : UInt64 := 0
  released : UInt64 := 0
  dereferences : UInt64 := 0
  elementReads : UInt64 := 0
  lengthQueries : UInt64 := 0
deriving DecidableEq, Repr

namespace HandleStats

/-- Handles issued and not released. -/
def live (stats : HandleStats) : UInt64 :=
  if stats.released ≤ stats.issued then stats.issued - stats.released else 0

def successor? (n : UInt64) : Option UInt64 :=
  if n.toNat + 1 < 0x1_0000_0000_0000_0000 then some (n + 1) else none

/-- The ledger after one more event; a full counter takes none. -/
def tally? (stats : HandleStats) : HandleEvent → Option HandleStats
  | .issue => (successor? stats.issued).map fun n => { stats with issued := n }
  | .release => (successor? stats.released).map fun n => { stats with released := n }
  | .dereference => (successor? stats.dereferences).map fun n => { stats with dereferences := n }
  | .elementRead => (successor? stats.elementReads).map fun n => { stats with elementReads := n }
  | .lengthQuery => (successor? stats.lengthQueries).map fun n => { stats with lengthQueries := n }

theorem toNat_of_successor? {n m : UInt64} (h : successor? n = some m) : m.toNat = n.toNat + 1 := by
  unfold successor? at h
  split at h
  · next fits =>
    cases h
    rw [UInt64.toNat_add]
    exact Nat.mod_eq_of_lt fits
  · cases h

theorem successor?_eq_none_iff {n : UInt64} :
    successor? n = none ↔ n.toNat = 0xFFFF_FFFF_FFFF_FFFF := by
  have bound := n.toNat_lt
  unfold successor?
  split
  · next fits => exact iff_of_false (Option.some_ne_none _) (by omega)
  · next full => exact iff_of_true rfl (by omega)

end HandleStats

end DebugArrays
