import DebugArrays.Json.Document
import DebugArrays.Json.Reader

/-!
How deep a tree nests: arrays and objects count, one inside the other. What is read from a text nests
no deeper than the reader allows, and putting a tree into its normal form does not deepen it.
-/
namespace DebugArrays.Json

mutual

/-- How many arrays and objects lie one inside the other. -/
def depth : Json → Nat
  | .array items => depthItems items + 1
  | .object members => depthMembers members + 1
  | .null => 0
  | .bool _ => 0
  | .number _ => 0
  | .string _ => 0

def depthItems : List Json → Nat
  | [] => 0
  | item :: rest => max (depth item) (depthItems rest)

def depthMembers : List (String × Json) → Nat
  | [] => 0
  | (_, value) :: rest => max (depth value) (depthMembers rest)

end

variable {n : Nat} {items : List Json} {members : List (String × Json)}

theorem depthItems_le_iff : depthItems items ≤ n ↔ ∀ item ∈ items, item.depth ≤ n := by
  induction items with
  | nil => simp [depthItems]
  | cons item rest ih => rw [depthItems, Nat.max_le, ih, List.forall_mem_cons]

theorem depthMembers_le_iff : depthMembers members ≤ n ↔ ∀ m ∈ members, m.2.depth ≤ n := by
  induction members with
  | nil => simp [depthMembers]
  | cons member rest ih => rw [depthMembers, Nat.max_le, ih, List.forall_mem_cons]

section Normal

theorem depthMembers_sortMembers_le (members : List (String × Json)) :
    depthMembers (sortMembers members) ≤ depthMembers members := by
  suffices general : ∀ sorted, depthMembers sorted ≤ depthMembers members → ∀ rest,
      depthMembers rest ≤ depthMembers members →
      depthMembers (rest.foldl (fun sorted member => insertMember member sorted) sorted) ≤
        depthMembers members from
    general [] (Nat.zero_le _) members (Nat.le_refl _)
  intro sorted bounded rest
  induction rest generalizing sorted with
  | nil => exact fun _ => bounded
  | cons member rest ih =>
      intro both
      rw [depthMembers_le_iff, List.forall_mem_cons] at both
      refine ih _ ?_ (depthMembers_le_iff.2 both.2)
      rw [depthMembers_le_iff] at bounded ⊢
      intro m inserted
      rcases mem_insertMember inserted with same | old
      · exact same ▸ both.1
      · exact bounded m old

mutual

/-- The normal form nests no deeper. -/
theorem depth_normalize_le : ∀ j : Json, j.normalize.depth ≤ j.depth
  | .array items => Nat.succ_le_succ (depthItems_normalizeItems_le items)
  | .object members =>
    Nat.succ_le_succ (Nat.le_trans (depthMembers_sortMembers_le _)
      (depthMembers_normalizeMembers_le members))
  | .null => Nat.le_refl _
  | .bool _ => Nat.le_refl _
  | .number _ => Nat.le_refl _
  | .string _ => Nat.le_refl _

theorem depthItems_normalizeItems_le : ∀ items, depthItems (normalizeItems items) ≤ depthItems items
  | [] => Nat.le_refl _
  | item :: rest => by
    have first := depth_normalize_le item
    have others := depthItems_normalizeItems_le rest
    simp only [normalizeItems, depthItems]
    omega

theorem depthMembers_normalizeMembers_le :
    ∀ members, depthMembers (normalizeMembers members) ≤ depthMembers members
  | [] => Nat.le_refl _
  | (_, value) :: rest => by
    have first := depth_normalize_le value
    have others := depthMembers_normalizeMembers_le rest
    simp only [normalizeMembers, depthMembers]
    omega

end

end Normal

section Reader

variable {fuel depth : Nat} {cs rest : List Char}

/-- What a budget of steps allows to read keeps to the budget of nesting. -/
structure KeepsDepth (fuel : Nat) : Prop where
  value : ∀ {depth cs j rest}, readValue fuel depth cs = some (j, rest) → j.depth ≤ depth
  items : ∀ {depth cs items rest}, readItems fuel depth cs = some (items, rest) →
    depthItems items ≤ depth
  members : ∀ {depth cs members rest}, readMembers fuel depth cs = some (members, rest) →
    depthMembers members ≤ depth

namespace KeepsDepth

theorem readValue (less : KeepsDepth fuel) {j : Json}
    (h : readValue (fuel + 1) depth cs = some (j, rest)) : j.depth ≤ depth := by
  unfold Json.readValue at h
  split at h
  · cases h
    exact Nat.zero_le _
  · cases h
    exact Nat.zero_le _
  · cases h
    exact Nat.zero_le _
  · obtain ⟨⟨s, rest⟩, -, made⟩ := Option.map_eq_some_iff.1 h
    cases made
    exact Nat.zero_le _
  · split at h
    · cases h
    · next opened =>
      split at h
      · cases h
        simp only [Json.depth, depthItems]
        omega
      · obtain ⟨⟨items, rest⟩, read, made⟩ := Option.map_eq_some_iff.1 h
        cases made
        have inside := less.items read
        simp only [Json.depth]
        omega
  · split at h
    · cases h
    · next opened =>
      split at h
      · cases h
        simp only [Json.depth, depthMembers]
        omega
      · obtain ⟨⟨members, rest⟩, read, made⟩ := Option.map_eq_some_iff.1 h
        cases made
        have inside := less.members read
        simp only [Json.depth]
        omega
  · obtain ⟨⟨n, rest⟩, -, made⟩ := Option.map_eq_some_iff.1 h
    cases made
    exact Nat.zero_le _

theorem readItems (less : KeepsDepth fuel) {items : List Json}
    (h : readItems (fuel + 1) depth cs = some (items, rest)) : depthItems items ≤ depth := by
  unfold Json.readItems at h
  split at h
  · cases h
  · next item after read =>
    have first := less.value read
    split at h
    · cases h
      simpa [depthItems] using first
    · obtain ⟨⟨items, rest⟩, later, made⟩ := Option.map_eq_some_iff.1 h
      cases made
      exact Nat.max_le.2 ⟨first, less.items later⟩
    · cases h

theorem readMembers (less : KeepsDepth fuel) {members : List (String × Json)}
    (h : readMembers (fuel + 1) depth cs = some (members, rest)) :
    depthMembers members ≤ depth := by
  unfold Json.readMembers at h
  split at h
  · split at h
    · cases h
    · split at h
      · split at h
        · cases h
        · next value after read =>
          have first := less.value read
          split at h
          · cases h
            simpa [depthMembers] using first
          · obtain ⟨⟨members, rest⟩, later, made⟩ := Option.map_eq_some_iff.1 h
            cases made
            exact Nat.max_le.2 ⟨first, less.members later⟩
          · cases h
      · cases h
  · cases h

end KeepsDepth

theorem keepsDepth (fuel : Nat) : KeepsDepth fuel := by
  induction fuel with
  | zero => exact ⟨nofun, nofun, nofun⟩
  | succ fuel less => exact ⟨less.readValue, less.readItems, less.readMembers⟩

end Reader

theorem depth_le_of_parse? {text : String} {j : Json} (h : parse? text = some j) :
    j.depth ≤ maxDepth := by
  unfold parse? at h
  dsimp only at h
  split at h
  · next tree rest read =>
    have bounded := (keepsDepth _).value read
    split at h
    · cases h
      exact bounded
    · cases h
  · cases h

end DebugArrays.Json
