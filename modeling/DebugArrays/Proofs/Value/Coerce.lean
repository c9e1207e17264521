import DebugArrays.Value.Coerce

/-!
The types of decoded values.
-/
namespace DebugArrays

namespace Value

variable {v u : Value} {p : Primitive}

theorem primitive?_of_ofInt? {kind : IntKind} {n : Int} (h : ofInt? kind n = some v) :
    v.primitive? = some (.int kind) := by
  obtain ⟨inRange, made⟩ := Option.dite_none_right_eq_some.1 h
  cases made
  rfl

/-- A coerced value has the type it was coerced to. -/
theorem primitive?_of_coerce? (h : v.coerce? p = some u) : u.primitive? = some p := by
  unfold coerce? at h
  split at h
  · next same =>
    cases h
    exact same
  · cases p with
    | bool => cases h
    | string => cases h
    | char =>
        cases v with
        | string s =>
            obtain ⟨c, -, rfl⟩ := Option.map_eq_some_iff.1 h
            rfl
        | _ => cases h
    | int kind =>
        obtain ⟨n, -, made⟩ := Option.bind_eq_some_iff.1 h
        exact primitive?_of_ofInt? made
    | float precision =>
        cases precision with
        | single =>
            obtain ⟨x, -, made⟩ := Option.bind_eq_some_iff.1 h
            obtain ⟨-, narrowed⟩ := Option.ite_none_right_eq_some.1 made
            cases narrowed
            rfl
        | double =>
            obtain ⟨x, -, rfl⟩ := Option.map_eq_some_iff.1 h
            rfl

/-- What has the type already stays as it is. -/
theorem coerce?_of_primitive? (typed : v.primitive? = some p) : v.coerce? p = some v :=
  if_pos typed

theorem primitive?_of_ofJson? {j : Json} (h : ofJson? j p = some v) : v.primitive? = some p := by
  obtain ⟨u, -, coerced⟩ := Option.bind_eq_some_iff.1 h
  exact primitive?_of_coerce? coerced

theorem ofJson?_of_isNull {j : Json} (h : j.isNull = true) (p : Primitive) :
    ofJson? j p = none := by
  cases j <;> first | rfl | cases h

theorem typeName_of_primitive? (h : v.primitive? = some p) : v.typeName = p.keyword := by
  cases v <;> cases h <;> rfl

theorem isNull_of_primitive? (h : v.primitive? = some p) : v.isNull = false := by
  cases v <;> first | rfl | cases h

theorem eq_ref_of_primitive? (untyped : v.primitive? = none) :
    ∃ address typeName, v = ref address typeName := by
  cases v with
  | ref address typeName => exact ⟨address, typeName, rfl⟩
  | _ => cases untyped

/-- Whether the value is a float that is not a number. -/
def isNaN : Value → Bool
  | .float _ x => x.isNaN
  | _ => false

end Value

end DebugArrays
