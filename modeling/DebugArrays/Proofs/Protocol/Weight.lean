import DebugArrays.Proofs.Json.Fields
import DebugArrays.Proofs.Json.Size
import DebugArrays.Protocol.Message
import Mathlib.Algebra.Ring.Nat

/-!
How heavy a request is: an upper bound of what it can need of a ledger, and no more than the length
of the text that it was read from.
-/
namespace DebugArrays

namespace Request

/-- What a request can need of the ledger, in shares of four events. -/
def weight : Request → Nat
  | .load snapshots => snapshots.length + 1
  | _ => 1

theorem weight_pos (r : Request) : 0 < r.weight := by
  cases r <;> simp [weight]

theorem length_le_weight (requests : List Request) :
    requests.length ≤ (requests.map weight).sum := by
  induction requests with
  | nil => exact Nat.le_refl 0
  | cons r rest ih =>
      have pos := r.weight_pos
      rw [List.length_cons, List.map_cons, List.sum_cons]
      omega

variable {r : Request}

theorem length_lt_size_of_snapshotsOf? {j : Json} {snapshots : List ArraySnapshot}
    (h : snapshotsOf? j = some snapshots) : snapshots.length < j.size := by
  obtain ⟨items, isArray, read⟩ := Option.bind_eq_some_iff.1 h
  cases j with
  | array listed =>
      cases isArray
      have same := Json.length_of_mapM read
      have bound := Json.length_le_sizeItems items
      simp only [Json.size]
      omega
  | _ => cases isArray

theorem weight_le_of_ofParams? {method : String} {params : List (String × Json)}
    (h : ofParams? method params = some r) : r.weight ≤ Json.sizeMembers params + 1 := by
  unfold ofParams? at h
  split at h
  · obtain ⟨snapshots, found, made⟩ := Option.bind_eq_some_iff.1 h
    cases made
    obtain ⟨member, there, read⟩ := Json.exists_of_field? found
    have small := length_lt_size_of_snapshotsOf? read
    have below := Json.size_le_sizeMembers there
    simp only [weight]
    omega
  · obtain ⟨name, -, made⟩ := Option.bind_eq_some_iff.1 h
    cases made
    exact Nat.le_add_left _ _
  · obtain ⟨name, -, rest⟩ := Option.bind_eq_some_iff.1 h
    obtain ⟨index, -, made⟩ := Option.bind_eq_some_iff.1 rest
    cases made
    exact Nat.le_add_left _ _
  · obtain ⟨name, -, rest⟩ := Option.bind_eq_some_iff.1 h
    obtain ⟨index, -, rest⟩ := Option.bind_eq_some_iff.1 rest
    obtain ⟨value, -, made⟩ := Option.bind_eq_some_iff.1 rest
    cases made
    exact Nat.le_add_left _ _
  · cases h

theorem weight_le_of_ofCall? {method : String} {params : Json}
    (h : ofCall? method params = some r) : r.weight ≤ params.size := by
  unfold ofCall? at h
  split at h
  · unfold ofMethod? at h
    split at h
    · cases h
      exact Nat.le_refl 1
    · cases h
      exact Nat.le_refl 1
    · cases h
  · exact weight_le_of_ofParams? h
  · cases h

theorem weight_le_of_ofMembers? {name? : Json → Option String} {members : List (String × Json)}
    (h : ofMembers? name? members = some r) : r.weight ≤ Json.sizeMembers members + 1 := by
  obtain ⟨method, -, rest⟩ := Option.bind_eq_some_iff.1 h
  obtain ⟨params, found, made⟩ := Option.bind_eq_some_iff.1 rest
  have small := weight_le_of_ofCall? made
  obtain rfl | ⟨member, there, read⟩ := Json.exists_of_fieldOr? found
  · exact Nat.le_trans small (Nat.le_add_left 1 _)
  · cases read
    exact Nat.le_trans small (Nat.le_succ_of_le (Json.size_le_sizeMembers there))

end Request

/-- A request takes a text that is at least as long as the request is heavy. -/
theorem Message.weight_le_of_requestOfText? {text : String} {m : Message Request}
    (h : requestOfText? text = some m) : m.content.weight ≤ text.toList.length := by
  obtain ⟨j, parsed, read⟩ := Option.bind_eq_some_iff.1 h
  refine Nat.le_trans ?_ (Json.size_of_parse? parsed)
  unfold ofJson? at read
  split at read
  · obtain ⟨version, -, rest⟩ := Option.bind_eq_some_iff.1 read
    obtain ⟨id, -, rest⟩ := Option.bind_eq_some_iff.1 rest
    obtain ⟨content, found, made⟩ := Option.bind_eq_some_iff.1 rest
    cases made
    exact Request.weight_le_of_ofMembers? found
  · cases read

end DebugArrays
