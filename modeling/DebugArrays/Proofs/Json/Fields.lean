import DebugArrays.Json.Fields

/-!
Fields of an object, read off its members one by one: a member of another key does not matter, and
the first of a key counts if there is no second. Items of an array are decoded each on its own.
-/
namespace DebugArrays.Json

variable {α : Type} {key other : String} {decode : Json → Option α} {default a : α} {value : Json}
  {members : List (String × Json)}

@[simp] theorem occurrence_nil (key : String) : occurrence key [] = .absent := by
  rw [occurrence, List.filter_nil]

@[simp] theorem occurrence_cons_of_ne (apart : other ≠ key) :
    occurrence key ((other, value) :: members) = occurrence key members := by
  unfold occurrence
  rw [List.filter_cons_of_neg]
  simpa using apart

theorem occurrence_cons_self (alone : occurrence key members = .absent) :
    occurrence key ((key, value) :: members) = .once value := by
  unfold occurrence at alone ⊢
  split at alone
  · next none => rw [List.filter_cons_of_pos (by simp), none]
  · cases alone
  · cases alone

@[simp] theorem field?_nil (key : String) (decode : Json → Option α) :
    field? key decode [] = none := rfl

@[simp] theorem field?_cons_of_ne (apart : other ≠ key) :
    field? key decode ((other, value) :: members) = field? key decode members := by
  rw [field?, field?, occurrence_cons_of_ne apart]

@[simp] theorem field?_cons_self (alone : occurrence key members = .absent) :
    field? key decode ((key, value) :: members) = decode value := by
  rw [field?, occurrence_cons_self alone]

@[simp] theorem fieldOr?_nil (key : String) (default : α) (decode : Json → Option α) :
    fieldOr? key default decode [] = some default := rfl

@[simp] theorem fieldOr?_cons_of_ne (apart : other ≠ key) :
    fieldOr? key default decode ((other, value) :: members) =
      fieldOr? key default decode members := by
  rw [fieldOr?, fieldOr?, occurrence_cons_of_ne apart]

@[simp] theorem fieldOr?_cons_self (alone : occurrence key members = .absent) :
    fieldOr? key default decode ((key, value) :: members) = decode value := by
  rw [fieldOr?, occurrence_cons_self alone]

theorem mem_of_occurrence (h : occurrence key members = .once value) : (key, value) ∈ members := by
  unfold occurrence at h
  split at h
  · cases h
  · next member alone =>
    cases h
    have kept : member ∈ members.filter (·.1 == key) := alone ▸ List.mem_singleton_self member
    obtain ⟨there, same⟩ := List.mem_filter.1 kept
    cases eq_of_beq same
    exact there
  · cases h

/-- A member is the value of its key, or one of several. -/
theorem occurrence_of_mem (there : (key, value) ∈ members) :
    occurrence key members = .once value ∨ occurrence key members = .repeated := by
  have kept : (key, value) ∈ members.filter (·.1 == key) :=
    List.mem_filter.2 ⟨there, beq_self_eq_true key⟩
  unfold occurrence
  generalize members.filter (·.1 == key) = found at kept
  match found with
  | [] => cases kept
  | [member] =>
      cases List.mem_singleton.1 kept
      exact .inl rfl
  | _ :: _ :: _ => exact .inr rfl

theorem mem_of_field? (h : field? key decode members = some a) :
    ∃ value, (key, value) ∈ members ∧ decode value = some a := by
  unfold field? at h
  split at h
  · next value found => exact ⟨value, mem_of_occurrence found, h⟩
  · cases h

theorem exists_of_field? (h : field? key decode members = some a) :
    ∃ member ∈ members, decode member.2 = some a := by
  obtain ⟨value, there, read⟩ := mem_of_field? h
  exact ⟨_, there, read⟩

theorem exists_of_fieldOr? (h : fieldOr? key default decode members = some a) :
    a = default ∨ ∃ member ∈ members, decode member.2 = some a := by
  unfold fieldOr? at h
  split at h
  · cases h
    exact .inl rfl
  · next value found =>
    exact .inr ⟨_, mem_of_occurrence found, h⟩
  · cases h

theorem decode_of_field? (h : field? key decode members = some a) (there : (key, value) ∈ members) :
    decode value = some a := by
  unfold field? at h
  rcases occurrence_of_mem there with once | repeated
  · rwa [once] at h
  · rw [repeated] at h
    cases h

theorem decode_of_fieldOr? (h : fieldOr? key default decode members = some a)
    (there : (key, value) ∈ members) : decode value = some a := by
  unfold fieldOr? at h
  rcases occurrence_of_mem there with once | repeated
  · rwa [once] at h
  · rw [repeated] at h
    cases h

theorem map_of_mapM {items : List Json} {as : List α} (h : items.mapM decode = some as) :
    items.map decode = as.map some := by
  induction items generalizing as with
  | nil =>
      cases h
      rfl
  | cons item rest ih =>
      rw [List.mapM_cons] at h
      obtain ⟨a, read, later⟩ := Option.bind_eq_some_iff.1 h
      obtain ⟨others, readOthers, made⟩ := Option.bind_eq_some_iff.1 later
      cases made
      rw [List.map_cons, List.map_cons, read, ih readOthers]

theorem length_of_mapM {items : List Json} {as : List α} (h : items.mapM decode = some as) :
    as.length = items.length := by
  rw [← List.length_map some, ← map_of_mapM h, List.length_map]

theorem exists_of_mem_mapM {items : List Json} {as : List α} (h : items.mapM decode = some as)
    (there : a ∈ as) : ∃ item ∈ items, decode item = some a := by
  apply List.mem_map.1
  rw [map_of_mapM h]
  exact List.mem_map_of_mem there

end DebugArrays.Json
