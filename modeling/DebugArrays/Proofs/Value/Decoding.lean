import DebugArrays.Proofs.Binary.Finite
import DebugArrays.Proofs.Value.Coerce

/-!
What decoding takes from JSON. An integer type takes an integer in its range and nothing else, a
double any number, a single each number that stays finite; what is taken is not altered.
-/
namespace DebugArrays

theorem natAbs_le_of_isWideInt {n : Int} (wide : IsWideInt n) : n.natAbs ≤ 2 ^ 64 := by
  unfold IsWideInt at wide
  omega

namespace Value

/-- No float among the values is infinite or a NaN. -/
def IsFinite : Value → Prop
  | .float _ x => x.isFinite = true
  | _ => True

/-- The value that an element of a type holds for a JSON value. -/
inductive HeldAs : Json → Primitive → Value → Prop
  | bool (b : Bool) : HeldAs (.bool b) .bool (.bool b)
  | string (s : String) : HeldAs (.string s) .string (.string s)
  | char (c : Char) : HeldAs (.string (String.singleton c)) .char (.char c)
  | int (kind : IntKind) (n : Int) (wide : IsWideInt n) (inRange : kind.Contains n) :
      HeldAs (.number (.integer n wide)) (.int kind) (.int kind n inRange)
  | double (n : JsonNumber) : HeldAs (.number n) (.float .double) (.float .double n.toDouble)
  | single (n : JsonNumber) (finite : (n.toDouble.convert .single).isFinite = true) :
      HeldAs (.number n) (.float .single) (.float .single (n.toDouble.convert .single))

variable {v : Value} {j : Json} {p : Primitive} {kind : IntKind} {n : Int}

theorem singleChar?_eq_some_iff {s : String} {c : Char} :
    singleChar? s = some c ↔ s = String.singleton c := by
  unfold singleChar?
  constructor
  · intro h
    split at h
    · next c' only =>
      cases h
      exact String.toList_inj.1 (by rw [only, String.toList_singleton])
    · cases h
  · rintro rfl
    rw [String.toList_singleton]

theorem ofInt?_eq_some_iff :
    ofInt? kind n = some v ↔ ∃ inRange : kind.Contains n, v = .int kind n inRange := by
  unfold ofInt?
  constructor
  · intro h
    obtain ⟨inRange, made⟩ := Option.dite_none_right_eq_some.1 h
    cases made
    exact ⟨inRange, rfl⟩
  · rintro ⟨inRange, rfl⟩
    exact dif_pos inRange

theorem narrow?_of_finite {x : Binary64} (finite : (x.convert .single).isFinite = true) :
    narrow? x = some (.float .single (x.convert .single)) := by
  unfold narrow?
  dsimp only
  rw [finite, Bool.true_or, if_pos rfl]

theorem narrow?_eq_some_iff {x : Binary64} (finite : x.isFinite = true) :
    narrow? x = some v ↔
      (x.convert .single).isFinite = true ∧ v = .float .single (x.convert .single) := by
  constructor
  · intro h
    obtain ⟨kept, narrowed⟩ := Option.ite_none_right_eq_some.1 h
    rw [finite, Bool.not_true, Bool.or_false] at kept
    exact ⟨kept, (Option.some.inj narrowed).symm⟩
  · rintro ⟨kept, rfl⟩
    exact narrow?_of_finite kept

/-- Between integer types the range alone decides, also where the type stays. -/
theorem coerce?_int_int (inRange : kind.Contains n) (other : IntKind) :
    (Value.int kind n inRange).coerce? (.int other) = ofInt? other n := by
  unfold coerce?
  split
  · next same =>
    cases same
    exact (ofInt?_eq_some_iff.2 ⟨inRange, rfl⟩).symm
  · rfl

theorem coerce?_double {x : Binary64} (double : v.toDouble? = some x) :
    v.coerce? (.float .double) = some (.float .double x) := by
  have converted : v.convert? (.float .double) = v.toDouble?.map (.float .double) := rfl
  unfold coerce?
  rw [converted, double]
  split
  · next same =>
    cases v <;> cases same
    cases double
    rfl
  · rfl

/-- Whatever is not a single yet becomes one by way of a double. -/
theorem coerce?_single {x : Binary64} (other : v.primitive? ≠ some (.float .single))
    (double : v.toDouble? = some x) : v.coerce? (.float .single) = narrow? x := by
  have converted : v.convert? (.float .single) = v.toDouble?.bind narrow? := rfl
  unfold coerce?
  rw [if_neg other, converted, double, Option.bind_some]

/-- A number is neither a truth value nor text. -/
theorem coerce?_of_toDouble? {x : Binary64} (double : v.toDouble? = some x) :
    v.coerce? .bool = none ∧ v.coerce? .char = none ∧ v.coerce? .string = none := by
  cases v with
  | int kind n inRange => exact ⟨rfl, rfl, rfl⟩
  | float precision x => exact ⟨rfl, rfl, rfl⟩
  | bool b => cases double
  | char c => cases double
  | string s => cases double
  | ref address typeName => cases double

/-- The value of a JSON number, of whichever wide type, is that number. -/
theorem ofScalar?_number (n : JsonNumber) : ∃ v, ofScalar? (.number n) = some v ∧
    v.primitive? ≠ some (.float .single) ∧ v.toDouble? = some n.toDouble ∧
    ∀ kind, v.coerce? (.int kind) = n.toInt?.bind (ofInt? kind) := by
  cases n with
  | integer n wide =>
      have whole : ∀ kind (inRange : kind.Contains n),
          (Value.int kind n inRange).primitive? ≠ some (.float .single) := by
        intro kind inRange same
        cases same
      refine ⟨ofWideInt n wide, rfl, ?_⟩
      unfold ofWideInt
      split
      · exact ⟨whole _ _, rfl, fun kind => coerce?_int_int _ kind⟩
      · exact ⟨whole _ _, rfl, fun kind => coerce?_int_int _ kind⟩
  | double x finite =>
      have wide : (Value.float .double x).primitive? ≠ some (.float .single) := by
        intro same
        cases same
      exact ⟨.float .double x, rfl, wide, rfl, fun kind => rfl⟩

theorem isFinite_toDouble (n : JsonNumber) : n.toDouble.isFinite = true := by
  cases n with
  | integer n wide => exact Binary.isFinite_ofInt .double (natAbs_le_of_isWideInt wide)
  | double x finite => exact finite

theorem ofJson?_number_eq_some_iff {n : JsonNumber} :
    ofJson? (.number n) p = some v ↔ HeldAs (.number n) p v := by
  obtain ⟨u, scalar, other, double, integer⟩ := ofScalar?_number n
  have decoded : ofJson? (.number n) p = u.coerce? p := by
    unfold ofJson?
    rw [scalar, Option.bind_some]
  rw [decoded]
  cases p with
  | int kind =>
      rw [integer]
      constructor
      · intro h
        obtain ⟨k, whole, made⟩ := Option.bind_eq_some_iff.1 h
        obtain ⟨inRange, rfl⟩ := ofInt?_eq_some_iff.1 made
        cases n with
        | integer m wide =>
            cases whole
            exact .int kind k wide inRange
        | double x finite => cases whole
      · intro held
        cases held with
        | int kind n wide inRange => exact ofInt?_eq_some_iff.2 ⟨inRange, rfl⟩
  | float precision =>
      cases precision with
      | single =>
          rw [coerce?_single other double, narrow?_eq_some_iff (isFinite_toDouble n)]
          constructor
          · rintro ⟨finite, rfl⟩
            exact .single n finite
          · intro held
            cases held with
            | single n finite => exact ⟨finite, rfl⟩
      | double =>
          rw [coerce?_double double, Option.some.injEq]
          constructor
          · rintro rfl
            exact .double n
          · intro held
            cases held with
            | double n => rfl
  | bool =>
      rw [(coerce?_of_toDouble? double).1]
      exact ⟨nofun, nofun⟩
  | char =>
      rw [(coerce?_of_toDouble? double).2.1]
      exact ⟨nofun, nofun⟩
  | string =>
      rw [(coerce?_of_toDouble? double).2.2]
      exact ⟨nofun, nofun⟩

theorem ofJson?_bool_eq_some_iff {b : Bool} :
    ofJson? (.bool b) p = some v ↔ HeldAs (.bool b) p v := by
  cases p with
  | bool =>
      constructor
      · intro h
        cases h
        exact .bool b
      · intro held
        cases held
        rfl
  | float precision => cases precision <;> exact ⟨nofun, nofun⟩
  | char => exact ⟨nofun, nofun⟩
  | int kind => exact ⟨nofun, nofun⟩
  | string => exact ⟨nofun, nofun⟩

theorem ofJson?_string_eq_some_iff {s : String} :
    ofJson? (.string s) p = some v ↔ HeldAs (.string s) p v := by
  cases p with
  | string =>
      constructor
      · intro h
        cases h
        exact .string s
      · intro held
        cases held
        rfl
  | char =>
      constructor
      · intro h
        obtain ⟨c, only, rfl⟩ := Option.map_eq_some_iff.1 h
        cases singleChar?_eq_some_iff.1 only
        exact .char c
      · intro held
        cases held with
        | char c => exact Option.map_eq_some_iff.2 ⟨c, singleChar?_eq_some_iff.2 rfl, rfl⟩
  | float precision => cases precision <;> exact ⟨nofun, nofun⟩
  | bool => exact ⟨nofun, nofun⟩
  | int kind => exact ⟨nofun, nofun⟩

theorem ofJson?_eq_some_iff : ofJson? j p = some v ↔ HeldAs j p v := by
  cases j with
  | bool b => exact ofJson?_bool_eq_some_iff
  | string s => exact ofJson?_string_eq_some_iff
  | number n => exact ofJson?_number_eq_some_iff
  | null => exact ⟨nofun, nofun⟩
  | array items => exact ⟨nofun, nofun⟩
  | object members => exact ⟨nofun, nofun⟩

/-- Decoding makes no infinity and no NaN. -/
theorem isFinite_of_ofJson? (h : ofJson? j p = some v) : v.IsFinite := by
  cases ofJson?_eq_some_iff.1 h with
  | bool b => trivial
  | string s => trivial
  | char c => trivial
  | int kind n wide inRange => trivial
  | double n => exact isFinite_toDouble n
  | single n finite => exact finite

/-- Decoding takes exactly what an element of the type can hold, as the value it then holds. That
value is of the type, and finite. -/
theorem ofJson?_exact (j : Json) (p : Primitive) :
    (∀ v, ofJson? j p = some v ↔ HeldAs j p v) ∧
      ∀ v, ofJson? j p = some v → v.primitive? = some p ∧ v.IsFinite :=
  ⟨fun _ => ofJson?_eq_some_iff, fun _ h => ⟨primitive?_of_ofJson? h, isFinite_of_ofJson? h⟩⟩

end Value

end DebugArrays
