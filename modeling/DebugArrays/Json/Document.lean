import DebugArrays.Json.Basic

/-!
Free-form JSON as a value. A document is a tree whose objects have distinct keys in the order of
their code points. Every tree denotes one document: of a repeated key the last occurrence counts.
-/
namespace DebugArrays

namespace Json

/-- Puts a member into its place among sorted members, over an older one of the same key. -/
def insertMember (member : String × Json) : List (String × Json) → List (String × Json)
  | [] => [member]
  | first :: rest =>
    if member.1 < first.1 then member :: first :: rest
    else if member.1 = first.1 then member :: rest
    else first :: insertMember member rest

def sortMembers (members : List (String × Json)) : List (String × Json) :=
  members.foldl (fun sorted member => insertMember member sorted) []

mutual

def normalize : Json → Json
  | .array items => .array (normalizeItems items)
  | .object members => .object (sortMembers (normalizeMembers members))
  | .null => .null
  | .bool b => .bool b
  | .number n => .number n
  | .string s => .string s

def normalizeItems : List Json → List Json
  | [] => []
  | item :: rest => normalize item :: normalizeItems rest

def normalizeMembers : List (String × Json) → List (String × Json)
  | [] => []
  | (key, value) :: rest => (key, normalize value) :: normalizeMembers rest

end

def Sorted (members : List (String × Json)) : Prop :=
  members.Pairwise fun a b => a.1 < b.1

mutual

def Canonical : Json → Prop
  | .array items => CanonicalItems items
  | .object members => Sorted members ∧ CanonicalMembers members
  | .null => True
  | .bool _ => True
  | .number _ => True
  | .string _ => True

def CanonicalItems : List Json → Prop
  | [] => True
  | item :: rest => Canonical item ∧ CanonicalItems rest

def CanonicalMembers : List (String × Json) → Prop
  | [] => True
  | (_, value) :: rest => Canonical value ∧ CanonicalMembers rest

end

theorem mem_insertMember {member m : String × Json} {members : List (String × Json)}
    (h : m ∈ insertMember member members) : m = member ∨ m ∈ members := by
  induction members with
  | nil => simpa [insertMember] using h
  | cons first rest ih =>
    unfold insertMember at h
    split at h
    · simpa using h
    · split at h
      · rcases List.mem_cons.1 h with h | h
        · exact .inl h
        · exact .inr (List.mem_cons_of_mem _ h)
      · rcases List.mem_cons.1 h with h | h
        · exact .inr (h ▸ List.mem_cons_self)
        · exact (ih h).imp_right (List.mem_cons_of_mem _)

theorem sorted_insertMember {member : String × Json} {members : List (String × Json)}
    (h : Sorted members) : Sorted (insertMember member members) := by
  induction members with
  | nil => simp [insertMember, Sorted]
  | cons first rest ih =>
    have parts := List.pairwise_cons.1 h
    unfold insertMember
    split
    · next lt =>
      refine List.pairwise_cons.2 ⟨fun m hm => ?_, h⟩
      rcases List.mem_cons.1 hm with rfl | hm
      · exact lt
      · exact String.lt_trans lt (parts.1 m hm)
    · next notLt =>
      split
      · next same =>
        exact List.pairwise_cons.2 ⟨fun m hm => same ▸ parts.1 m hm, parts.2⟩
      · next other =>
        refine List.pairwise_cons.2 ⟨fun m hm => ?_, ih parts.2⟩
        rcases mem_insertMember hm with rfl | hm
        · exact Decidable.byContradiction fun notGt =>
            other (String.le_antisymm notGt notLt)
        · exact parts.1 m hm

theorem sorted_sortMembers (members : List (String × Json)) : Sorted (sortMembers members) := by
  suffices general : ∀ sorted, Sorted sorted →
      Sorted (members.foldl (fun sorted member => insertMember member sorted) sorted) from
    general [] List.Pairwise.nil
  induction members with
  | nil => exact fun _ h => h
  | cons member rest ih => exact fun _ h => ih _ (sorted_insertMember h)

theorem canonicalMembers_iff {members : List (String × Json)} :
    CanonicalMembers members ↔ ∀ m ∈ members, Canonical m.2 := by
  induction members with
  | nil => simp [CanonicalMembers]
  | cons member rest ih => simp [CanonicalMembers, ih]

theorem canonicalMembers_sortMembers {members : List (String × Json)}
    (h : CanonicalMembers members) : CanonicalMembers (sortMembers members) := by
  suffices general : ∀ sorted, CanonicalMembers sorted →
      CanonicalMembers
        (members.foldl (fun sorted member => insertMember member sorted) sorted) from
    general [] trivial
  rw [canonicalMembers_iff] at h
  induction members with
  | nil => exact fun _ hs => hs
  | cons member rest ih =>
    intro sorted hs
    refine ih (fun m hm => h m (List.mem_cons_of_mem _ hm)) _ ?_
    rw [canonicalMembers_iff] at hs ⊢
    intro m hm
    rcases mem_insertMember hm with rfl | hm
    · exact h m List.mem_cons_self
    · exact hs m hm

mutual

theorem canonical_normalize : ∀ j : Json, Canonical (normalize j)
  | .array items => canonicalItems_normalizeItems items
  | .object members =>
    ⟨sorted_sortMembers _, canonicalMembers_sortMembers (canonicalMembers_normalizeMembers members)⟩
  | .null => trivial
  | .bool _ => trivial
  | .number _ => trivial
  | .string _ => trivial

theorem canonicalItems_normalizeItems : ∀ items, CanonicalItems (normalizeItems items)
  | [] => trivial
  | item :: rest => ⟨canonical_normalize item, canonicalItems_normalizeItems rest⟩

theorem canonicalMembers_normalizeMembers :
    ∀ members, CanonicalMembers (normalizeMembers members)
  | [] => trivial
  | (_, value) :: rest => ⟨canonical_normalize value, canonicalMembers_normalizeMembers rest⟩

end

theorem insertMember_of_forall_lt {member : String × Json} {members : List (String × Json)}
    (h : ∀ m ∈ members, m.1 < member.1) : insertMember member members = members ++ [member] := by
  induction members with
  | nil => rfl
  | cons first rest ih =>
    have less : first.1 < member.1 := h first List.mem_cons_self
    have notLess : ¬member.1 < first.1 := fun gt => String.lt_irrefl _ (String.lt_trans less gt)
    have apart : member.1 ≠ first.1 := fun same => String.lt_irrefl _ (same ▸ less)
    simp [insertMember, notLess, apart, ih fun m hm => h m (List.mem_cons_of_mem _ hm)]

theorem sortMembers_of_sorted {members : List (String × Json)} (h : Sorted members) :
    sortMembers members = members := by
  suffices general : ∀ before, Sorted (before ++ members) →
      members.foldl (fun sorted member => insertMember member sorted) before =
        before ++ members from
    general [] h
  clear h
  induction members with
  | nil => simp
  | cons member rest ih =>
    intro before h
    have parts := List.pairwise_append.1 h
    have less : ∀ m ∈ before, m.1 < member.1 := fun m hm => parts.2.2 m hm member List.mem_cons_self
    rw [List.foldl_cons, insertMember_of_forall_lt less, ih (before ++ [member]) (by simpa using h)]
    simp

mutual

/-- A canonical tree is its own normal form. -/
theorem normalize_of_canonical : ∀ j : Json, Canonical j → normalize j = j
  | .array items, h => congrArg Json.array (normalizeItems_of_canonical items h)
  | .object members, h => by
    rw [normalize, normalizeMembers_of_canonical members h.2, sortMembers_of_sorted h.1]
  | .null, _ => rfl
  | .bool _, _ => rfl
  | .number _, _ => rfl
  | .string _, _ => rfl

theorem normalizeItems_of_canonical :
    ∀ items, CanonicalItems items → normalizeItems items = items
  | [], _ => rfl
  | item :: rest, h => by
    rw [normalizeItems, normalize_of_canonical item h.1, normalizeItems_of_canonical rest h.2]

theorem normalizeMembers_of_canonical :
    ∀ members, CanonicalMembers members → normalizeMembers members = members
  | [], _ => rfl
  | (key, value) :: rest, h => by
    rw [normalizeMembers, normalize_of_canonical value h.1, normalizeMembers_of_canonical rest h.2]

end

end Json

/-- A JSON value without a history: sorted, distinct keys throughout. -/
structure Document where
  tree : Json
  canonical : tree.Canonical

namespace Document

@[ext] theorem ext {a b : Document} (h : a.tree = b.tree) : a = b := by
  cases a; cases b; cases h; rfl

end Document

def Json.toDocument (j : Json) : Document :=
  ⟨j.normalize, j.canonical_normalize⟩

@[simp] theorem Document.toDocument_tree (d : Document) : d.tree.toDocument = d :=
  Document.ext (Json.normalize_of_canonical d.tree d.canonical)

end DebugArrays
