import DebugArrays.Proofs.Binary.Widening
import DebugArrays.Proofs.Value.Decoding

/-!
Coercions one after the other. A value that was coerced without being rounded is coerced on like the
value it came from, so a stop at another type on the way changes nothing.
-/
namespace DebugArrays.Value

variable {v w u : Value} {p q : Primitive} {kind : IntKind} {n : Int}

/-- Where coercion does not round: on the way to a type that is no float, and from a float to the
wide one. -/
inductive Unrounded : Value → Primitive → Prop
  | exact {v : Value} {p : Primitive} (other : ∀ precision, p ≠ .float precision) : Unrounded v p
  | widened {precision : Precision} (x : Binary precision) :
      Unrounded (.float precision x) (.float .double)

/-- An integer is coerced by its number alone. -/
theorem coerce?_int_congr {other : IntKind} (inRange : kind.Contains n)
    (inOther : other.Contains n) (p : Primitive) :
    (Value.int kind n inRange).coerce? p = (Value.int other n inOther).coerce? p := by
  have double : ∀ kind (inRange : kind.Contains n),
      (Value.int kind n inRange).toDouble? = some (.ofInt .double n) := fun _ _ => rfl
  have notSingle : ∀ kind (inRange : kind.Contains n),
      (Value.int kind n inRange).primitive? ≠ some (.float .single) := fun _ _ => nofun
  have text := coerce?_of_toDouble? (double kind inRange)
  have text' := coerce?_of_toDouble? (double other inOther)
  cases p with
  | int target => rw [coerce?_int_int, coerce?_int_int]
  | float precision =>
      cases precision with
      | single =>
          rw [coerce?_single (notSingle kind inRange) (double kind inRange),
            coerce?_single (notSingle other inOther) (double other inOther)]
      | double =>
          rw [coerce?_double (double kind inRange), coerce?_double (double other inOther)]
  | bool => rw [text.1, text'.1]
  | char => rw [text.2.1, text'.2.1]
  | string => rw [text.2.2, text'.2.2]

/-- What is no number becomes nothing else, a string of one character apart. -/
theorem coerce?_of_toDouble?_eq_none (noNumber : v.toDouble? = none)
    (other : v.primitive? ≠ some p) (noChar : p = .char → ∀ s, v ≠ .string s) :
    v.coerce? p = none := by
  have noInteger : v.toInt? = none := by
    cases v with
    | int kind n inRange => cases noNumber
    | _ => rfl
  unfold coerce?
  rw [if_neg other]
  cases p with
  | bool => rfl
  | string => rfl
  | int kind => rw [convert?, noInteger, Option.bind_none]
  | float precision => cases precision <;> simp only [convert?, noNumber] <;> rfl
  | char =>
      cases v with
      | string s => exact absurd rfl (noChar rfl s)
      | _ => rfl

/-- What a value becomes where nothing is rounded: what it is, the same integer of another type, the
one character of a string, or a wider float. -/
inductive Becomes : Value → Value → Prop
  | same (v : Value) : Becomes v v
  | int {kind other : IntKind} {n : Int} (inRange : kind.Contains n) (inOther : other.Contains n) :
      Becomes (.int kind n inRange) (.int other n inOther)
  | char (c : Char) : Becomes (.string (String.singleton c)) (.char c)
  | widened (x : Binary32) : Becomes (.float .single x) (.float .double (x.convert .double))

theorem becomes_of_coerce? (exact : Unrounded v p) (first : v.coerce? p = some w) :
    Becomes v w := by
  by_cases typed : v.primitive? = some p
  · rw [coerce?_of_primitive? typed] at first
    cases first
    exact .same v
  · unfold coerce? at first
    rw [if_neg typed] at first
    cases exact with
    | @widened precision x =>
        cases precision with
        | single =>
            cases first
            exact .widened x
        | double => exact absurd rfl typed
    | exact other =>
        cases p with
        | bool => cases first
        | string => cases first
        | float precision => exact absurd rfl (other precision)
        | int target =>
            obtain ⟨n, whole, made⟩ := Option.bind_eq_some_iff.1 first
            obtain ⟨inTarget, rfl⟩ := ofInt?_eq_some_iff.1 made
            cases v with
            | int kind m inRange =>
                cases whole
                exact .int inRange inTarget
            | _ => cases whole
        | char =>
            cases v with
            | string s =>
                obtain ⟨c, only, rfl⟩ := Option.map_eq_some_iff.1 first
                cases singleChar?_eq_some_iff.1 only
                exact .char c
            | _ => cases first

/-- A character is coerced to nothing else. -/
theorem eq_of_coerce?_char {c : Char} (second : (Value.char c).coerce? q = some u) :
    q = .char ∧ u = .char c := by
  by_cases typed : (Value.char c).primitive? = some q
  · cases typed
    exact ⟨rfl, (Option.some.inj second).symm⟩
  · rw [coerce?_of_toDouble?_eq_none rfl typed fun _ _ => nofun] at second
    cases second

/-- A widened float is coerced to the wide type, as it is, or back. -/
theorem coerce?_widened {x : Binary32}
    (second : (Value.float .double (x.convert .double)).coerce? q = some u) :
    q = .float .double ∧ u = .float .double (x.convert .double) ∨
      q = .float .single ∧ u = .float .single ((x.convert .double).convert .single) := by
  cases q with
  | float precision =>
      cases precision with
      | double => exact .inl ⟨rfl, (Option.some.inj second).symm⟩
      | single =>
          obtain ⟨-, narrowed⟩ := Option.ite_none_right_eq_some.1 second
          exact .inr ⟨rfl, (Option.some.inj narrowed).symm⟩
  | _ => cases second

theorem isNaN_narrowed_widened {x : Binary32} (noNumber : x.isNaN = true) :
    ((x.convert .double).convert .single).isNaN = true := by
  have widened : x.convert .double = Binary.nan .double := if_pos noNumber
  rw [widened]
  decide

/-- A stop on the way changes nothing, as long as nothing is rounded there. Of what is not a number
only that is kept. -/
theorem coerce?_of_stop (exact : Unrounded v p) (first : v.coerce? p = some w)
    (second : w.coerce? q = some u) :
    ∃ direct, v.coerce? q = some direct ∧
      (direct = u ∨ v.isNaN = true ∧ direct.isNaN = true ∧ u.isNaN = true) := by
  cases becomes_of_coerce? exact first with
  | same => exact ⟨u, second, .inl rfl⟩
  | int inRange inOther => exact ⟨u, by rw [coerce?_int_congr inRange inOther, second], .inl rfl⟩
  | char c =>
      obtain ⟨rfl, rfl⟩ := eq_of_coerce?_char second
      cases primitive?_of_coerce? first
      exact ⟨.char c, first, .inl rfl⟩
  | widened x =>
      obtain ⟨rfl, rfl⟩ | ⟨rfl, rfl⟩ := coerce?_widened second
      · exact ⟨_, rfl, .inl rfl⟩
      · refine ⟨.float .single x, rfl, ?_⟩
        cases number : x.isNaN with
        | false => exact .inl (by rw [Binary.narrowed_widened number])
        | true => exact .inr ⟨number, number, isNaN_narrowed_widened number⟩

/-- Coercion fits together. To coerce in two steps, without rounding in the first, is to coerce at
once. What comes out has the type that was asked for, and stays as it is when that is asked again.
Between integer types the range of the target decides, and the number is kept. References, truth
values and strings become nothing else, but for the character of a string. -/
theorem coerce?_coherent (v : Value) :
    (∀ p w q u, Unrounded v p → v.coerce? p = some w → w.coerce? q = some u →
      ∃ direct, v.coerce? q = some direct ∧
        (direct = u ∨ v.isNaN = true ∧ direct.isNaN = true ∧ u.isNaN = true)) ∧
    (∀ p w, v.coerce? p = some w → w.primitive? = some p ∧ w.coerce? p = some w) ∧
    (∀ n kind, v.toInt? = some n →
      ((v.coerce? (.int kind)).isSome = true ↔ kind.Contains n) ∧
      ∀ w, v.coerce? (.int kind) = some w → w.toInt? = some n) ∧
    ∀ p, v.primitive? ≠ some p →
      (∃ address typeName, v = .ref address typeName) ∨ (∃ b, v = .bool b) ∨
        (∃ s, v = .string s) ∧ p ≠ .char →
      v.coerce? p = none := by
  refine ⟨fun p w q u exact first second => coerce?_of_stop exact first second, ?_, ?_, ?_⟩
  · intro p w coerced
    have typed := primitive?_of_coerce? coerced
    exact ⟨typed, coerce?_of_primitive? typed⟩
  · intro n kind whole
    cases v with
    | int source m inRange =>
        cases whole
        rw [coerce?_int_int]
        refine ⟨Option.isSome_dite, ?_⟩
        intro w made
        obtain ⟨inTarget, rfl⟩ := ofInt?_eq_some_iff.1 made
        rfl
    | _ => cases whole
  · rintro p other (⟨address, typeName, rfl⟩ | ⟨b, rfl⟩ | ⟨⟨s, rfl⟩, noChar⟩)
    · exact coerce?_of_toDouble?_eq_none rfl other fun _ _ => nofun
    · exact coerce?_of_toDouble?_eq_none rfl other fun _ _ => nofun
    · exact coerce?_of_toDouble?_eq_none rfl other fun char => absurd char noChar

/-- By way of a byte 200 becomes a short; a signed byte it does not fit, and a string is no number. -/
theorem coerce?_coherent_byte :
    Unrounded (.int .int64 200 (by decide)) (.int .uint8) ∧
      (Value.int .int64 200 (by decide)).coerce? (.int .uint8) =
        some (.int .uint8 200 (by decide)) ∧
      (Value.int .uint8 200 (by decide)).coerce? (.int .int16) =
        some (.int .int16 200 (by decide)) ∧
      (Value.int .int64 200 (by decide)).coerce? (.int .int16) =
        some (.int .int16 200 (by decide)) ∧
      ((Value.int .int64 200 (by decide)).coerce? (.int .int8)).isSome ≠ true ∧
      (Value.string "200").coerce? (.int .int64) = none := by
  have exact : Unrounded (.int .int64 200 (by decide)) (.int .uint8) := .exact fun _ => nofun
  obtain ⟨steps, -, ranges, -⟩ := coerce?_coherent (.int .int64 200 (by decide))
  obtain ⟨-, -, -, nothing⟩ := coerce?_coherent (.string "200")
  obtain ⟨direct, found, same | ⟨noNumber, -⟩⟩ := steps _ _ (.int .int16) _ exact rfl rfl
  · refine ⟨exact, rfl, rfl, same ▸ found, ?_, ?_⟩
    · rw [ne_eq, (ranges 200 .int8 rfl).1]
      decide
    · exact nothing (.int .int64) nofun (.inr (.inr ⟨⟨_, rfl⟩, nofun⟩))
  · cases noNumber

end DebugArrays.Value
