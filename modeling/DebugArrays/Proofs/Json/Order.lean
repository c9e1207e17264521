import DebugArrays.Json.Document
import DebugArrays.Proofs.Json.Fields
import Mathlib.Data.List.Forall2

/-!
Order, extra members and repeated keys. Free-form JSON is one document whatever the order of an
object's members is, typed fields are read alike from members that differ in order or under other
keys, and nothing is read under a key that repeats.
-/
namespace DebugArrays.Json

/-- Free-form JSON in another order: within it members of objects without repeated keys have moved. -/
inductive Reordered : Json → Json → Prop
  | refl (j : Json) : Reordered j j
  | trans {j k l : Json} : Reordered j k → Reordered k l → Reordered j l
  | members {a b : List (String × Json)} (distinct : (a.map Prod.fst).Nodup) (moved : a.Perm b) :
      Reordered (.object a) (.object b)
  | member {j k : Json} (before : List (String × Json)) (key : String)
      (after : List (String × Json)) : Reordered j k →
      Reordered (.object (before ++ (key, j) :: after)) (.object (before ++ (key, k) :: after))
  | item {j k : Json} (before after : List Json) : Reordered j k →
      Reordered (.array (before ++ j :: after)) (.array (before ++ k :: after))

section Documents

variable {a b members : List (String × Json)} {j k : Json}

theorem normalizeItems_eq_map (items : List Json) : normalizeItems items = items.map normalize := by
  induction items with
  | nil => rfl
  | cons item rest ih => rw [normalizeItems, ih, List.map_cons]

theorem normalizeMembers_eq_map (members : List (String × Json)) :
    normalizeMembers members = members.map fun m => (m.1, normalize m.2) := by
  induction members with
  | nil => rfl
  | cons member rest ih => rw [normalizeMembers, ih, List.map_cons]

theorem perm_insertMember {member : String × Json} (fresh : ∀ m ∈ members, m.1 ≠ member.1) :
    (insertMember member members).Perm (member :: members) := by
  induction members with
  | nil => exact .refl _
  | cons first rest ih =>
      rw [List.forall_mem_cons] at fresh
      unfold insertMember
      split
      · exact .refl _
      · rw [if_neg (Ne.symm fresh.1)]
        exact ((ih fresh.2).cons first).trans (.swap member first rest)

/-- Without repeated keys sorting loses nothing. -/
theorem perm_sortMembers (distinct : (members.map Prod.fst).Nodup) :
    (sortMembers members).Perm members := by
  suffices general : ∀ sorted : List (String × Json),
      ((sorted ++ members).map Prod.fst).Nodup →
      (members.foldl (fun sorted member => insertMember member sorted) sorted).Perm
        (sorted ++ members) from general [] distinct
  clear distinct
  induction members with
  | nil =>
      intro sorted _
      rw [List.append_nil]
      exact .refl _
  | cons member rest ih =>
      intro sorted distinct
      have moved : (sorted ++ member :: rest).Perm (member :: sorted ++ rest) := List.perm_middle
      have apart := (moved.map Prod.fst).nodup_iff.1 distinct
      rw [List.cons_append, List.map_cons, List.nodup_cons] at apart
      have inserted : (insertMember member sorted).Perm (member :: sorted) := by
        apply perm_insertMember
        intro m there same
        exact apart.1 (same ▸ List.mem_map_of_mem (List.mem_append_left rest there))
      have both := inserted.append_right rest
      refine ((ih _ ?_).trans both).trans moved.symm
      exact ((both.trans moved.symm).map Prod.fst).nodup_iff.2 distinct

theorem sortMembers_eq_of_perm (distinct : (a.map Prod.fst).Nodup) (moved : a.Perm b) :
    sortMembers a = sortMembers b := by
  have distinct' := (moved.map Prod.fst).nodup_iff.1 distinct
  have same := ((perm_sortMembers distinct).trans moved).trans (perm_sortMembers distinct').symm
  refine same.eq_of_pairwise ?_ (sorted_sortMembers a) (sorted_sortMembers b)
  intro m n _ _ less more
  exact absurd (String.lt_trans less more) (String.lt_irrefl _)

/-- Free-form JSON in another order is the same document. -/
theorem Reordered.normalize_eq (h : Reordered j k) : j.normalize = k.normalize := by
  induction h with
  | refl j => rfl
  | trans _ _ first second => exact first.trans second
  | members distinct moved =>
      simp only [normalize, normalizeMembers_eq_map]
      congr 1
      refine sortMembers_eq_of_perm ?_ (moved.map _)
      rwa [List.map_map]
  | member before key after _ ih => simp only [normalize, normalizeMembers_eq_map,
      List.map_append, List.map_cons, ih]
  | item before after _ ih => simp only [normalize, normalizeItems_eq_map, List.map_append,
      List.map_cons, ih]

theorem Reordered.toDocument_eq (h : Reordered j k) : j.toDocument = k.toDocument :=
  Document.ext h.normalize_eq

end Documents

/-- What is decoded is the same from a tree and from its normal form. -/
def IgnoresOrder {α : Type} (decode : Json → Option α) : Prop :=
  ∀ j : Json, decode j.normalize = decode j

theorem IgnoresOrder.eq_of_reordered {α : Type} {decode : Json → Option α} {j k : Json}
    (ignores : IgnoresOrder decode) (h : Reordered j k) : decode j = decode k := by
  rw [← ignores j, h.normalize_eq, ignores k]

theorem ignoresOrder_toString? : IgnoresOrder toString? := fun j => by cases j <;> rfl

theorem ignoresOrder_toUInt32? : IgnoresOrder toUInt32? := fun j => by cases j <;> rfl

section Members

variable {α : Type} {keys : List String} {R : String → Json → Json → Prop} {key : String}
  {decode : Json → Option α} {default a : α} {m n : List (String × Json)}

/-- Members that differ in order or under other keys: what they have under `keys` is, in some order,
related value by value. -/
def SameFields (keys : List String) (R : String → Json → Json → Prop)
    (m n : List (String × Json)) : Prop :=
  ∃ moved, (m.filter (·.1 ∈ keys)).Perm moved ∧
    List.Forall₂ (fun x y => x.1 = y.1 ∧ R x.1 x.2 y.2) moved (n.filter (·.1 ∈ keys))

/-- The same known members in another order. -/
theorem SameFields.of_perm (refl : ∀ key j, R key j j)
    (known : (m.filter (·.1 ∈ keys)).Perm (n.filter (·.1 ∈ keys))) : SameFields keys R m n :=
  ⟨_, known, List.forall₂_same.2 fun x _ => ⟨rfl, refl x.1 x.2⟩⟩

/-- The same members but for the value of one. -/
theorem SameFields.of_middle (refl : ∀ key j, R key j j) {j k : Json} (related : R key j k)
    (before after : List (String × Json)) :
    SameFields keys R (before ++ (key, j) :: after) (before ++ (key, k) :: after) := by
  refine ⟨_, .refl _, List.rel_filter ?_ (List.rel_append ?_ (.cons ⟨rfl, related⟩ ?_))⟩
  · intro x y both
    dsimp only
    rw [both.1]
  · exact List.forall₂_same.2 fun x _ => ⟨rfl, refl x.1 x.2⟩
  · exact List.forall₂_same.2 fun x _ => ⟨rfl, refl x.1 x.2⟩

inductive Occurrence.Alike (R : Json → Json → Prop) : Occurrence → Occurrence → Prop
  | absent : Alike R .absent .absent
  | once {j k : Json} (related : R j k) : Alike R (.once j) (.once k)
  | repeated : Alike R .repeated .repeated

theorem filter_key (known : key ∈ keys) (m : List (String × Json)) :
    (m.filter (·.1 ∈ keys)).filter (·.1 == key) = m.filter (·.1 == key) := by
  rw [List.filter_filter]
  apply List.filter_congr
  intro x _
  by_cases same : x.1 = key
  · simp [same, known]
  · simp [same]

theorem SameFields.occurrence_alike (same : SameFields keys R m n) (known : key ∈ keys) :
    (occurrence key m).Alike (R key) (occurrence key n) := by
  obtain ⟨moved, perm, related⟩ := same
  have perm := perm.filter (·.1 == key)
  have related : List.Forall₂ (fun x y => x.1 = y.1 ∧ R x.1 x.2 y.2) (moved.filter (·.1 == key))
      ((n.filter (·.1 ∈ keys)).filter (·.1 == key)) := by
    refine List.rel_filter ?_ related
    intro x y both
    dsimp only
    rw [both.1]
  have named : ∀ x ∈ moved.filter (·.1 == key), x.1 = key := fun x there =>
    eq_of_beq (List.mem_filter.1 there).2
  rw [filter_key known] at perm related
  unfold occurrence
  generalize m.filter (·.1 == key) = found at perm
  generalize n.filter (·.1 == key) = found' at related
  generalize moved.filter (·.1 == key) = between at perm related named
  cases related with
  | nil =>
      rw [List.perm_nil.1 perm]
      exact .absent
  | cons first rest =>
      cases rest with
      | nil =>
          rw [List.perm_singleton.1 perm]
          have here := named _ List.mem_cons_self
          exact .once (here ▸ first.2)
      | cons second rest =>
          have many := perm.length_eq
          match found, many with
          | _ :: _ :: _, _ => exact .repeated

theorem SameFields.field?_eq (same : SameFields keys R m n) (known : key ∈ keys)
    (read : ∀ j k, R key j k → decode j = decode k) : field? key decode m = field? key decode n := by
  have alike := same.occurrence_alike known
  unfold field?
  generalize occurrence key m = found at alike
  generalize occurrence key n = found' at alike
  cases alike with
  | absent => rfl
  | once related => exact read _ _ related
  | repeated => rfl

theorem SameFields.fieldOr?_eq (same : SameFields keys R m n) (known : key ∈ keys)
    (read : ∀ j k, R key j k → decode j = decode k) :
    fieldOr? key default decode m = fieldOr? key default decode n := by
  have alike := same.occurrence_alike known
  unfold fieldOr?
  generalize occurrence key m = found at alike
  generalize occurrence key n = found' at alike
  cases alike with
  | absent => rfl
  | once related => exact read _ _ related
  | repeated => rfl

/-- More than one member has the key. -/
abbrev Repeats (key : String) (m : List (String × Json)) : Prop :=
  2 ≤ m.countP (·.1 == key)

theorem occurrence_of_repeats (twice : Repeats key m) : occurrence key m = .repeated := by
  rw [Repeats, List.countP_eq_length_filter] at twice
  unfold occurrence
  generalize m.filter (·.1 == key) = found at twice
  match found, twice with
  | _ :: _ :: _, _ => rfl

theorem not_repeats_of_field? (h : field? key decode m = some a) : ¬Repeats key m := by
  intro twice
  rw [field?, occurrence_of_repeats twice] at h
  cases h

theorem not_repeats_of_fieldOr? (h : fieldOr? key default decode m = some a) :
    ¬Repeats key m := by
  intro twice
  rw [fieldOr?, occurrence_of_repeats twice] at h
  cases h

end Members

end DebugArrays.Json
