import DebugArrays.Types.DebugType

/-!
Names of types are uniquely readable. What a name ends with tells arrays and managed pointers from
the rest, and what stands between the last brackets tells the shape of an array.
-/
namespace DebugArrays

theorem Primitive.keyword_injective {p q : Primitive} (same : p.keyword = q.keyword) : p = q := by
  have all : ∀ p ∈ Primitive.all, ∀ q ∈ Primitive.all, p.keyword = q.keyword → p = q := by decide
  exact all p p.mem_all q q.mem_all same

/-- The last opening bracket is where two equal texts that end in brackets divide. -/
theorem append_brackets_inj {front front' inside inside' : List Char} (closed : '[' ∉ inside)
    (closed' : '[' ∉ inside')
    (same : front ++ '[' :: inside ++ [']'] = front' ++ '[' :: inside' ++ [']']) :
    front = front' ∧ inside = inside' := by
  have apart : ∀ {middle inside inside' : List Char}, '[' ∉ inside →
      '[' :: inside = middle ++ '[' :: inside' → middle = [] := by
    intro middle inside inside' closed split
    cases middle with
    | nil => rfl
    | cons c more =>
        rw [List.cons_append, List.cons.injEq] at split
        rw [split.2] at closed
        exact absurd (List.mem_append_right more List.mem_cons_self) closed
  obtain ⟨middle, rfl, split⟩ | ⟨middle, rfl, split⟩ :=
    List.append_eq_append_iff.1 (List.append_cancel_right same)
  · cases apart closed split
    rw [List.nil_append, List.cons.injEq] at split
    exact ⟨(List.append_nil front).symm, split.2⟩
  · cases apart closed' split
    rw [List.nil_append, List.cons.injEq] at split
    exact ⟨List.append_nil front', split.2.symm⟩

namespace DebugType

/-- A name that no other kind of type can have. -/
abbrev IsClassName (name : String) : Prop :=
  (∀ p ∈ Primitive.all, name ≠ p.keyword) ∧
    name.toList.getLast? ≠ some ']' ∧ name.toList.getLast? ≠ some '&'

/-- Ranks count from one, and classes do not look like other types. -/
def Nameable : DebugType → Prop
  | .primitive _ => True
  | .szArray element => element.Nameable
  | .mdArray element rank => 1 ≤ rank ∧ element.Nameable
  | .byRef target => target.Nameable
  | .named name => IsClassName name

instance decidableNameable : (type : DebugType) → Decidable type.Nameable
  | .primitive _ => .isTrue trivial
  | .szArray element => decidableNameable element
  | .mdArray element rank =>
    have := decidableNameable element
    inferInstanceAs (Decidable (1 ≤ rank ∧ element.Nameable))
  | .byRef target => decidableNameable target
  | .named name => inferInstanceAs (Decidable (IsClassName name))

/-- What stands between the brackets of an array that is not single-dimensional and zero-based. -/
def rankMarks (rank : UInt32) : List Char :=
  if rank ≤ 1 then ['*'] else List.replicate (rank.toNat - 1) ','

theorem rankSuffix_eq (rank : UInt32) : rankSuffix rank = '[' :: rankMarks rank ++ [']'] := by
  unfold rankSuffix rankMarks
  split <;> rfl

theorem not_mem_rankMarks (rank : UInt32) : '[' ∉ rankMarks rank := by
  unfold rankMarks
  split
  · decide
  · intro member
    exact absurd (List.eq_of_mem_replicate member) (by decide)

theorem rankMarks_ne_nil (rank : UInt32) : rankMarks rank ≠ [] := by
  unfold rankMarks
  split
  · exact List.cons_ne_nil _ _
  · next several =>
    rw [UInt32.not_le, UInt32.lt_iff_toNat_lt] at several
    rw [ne_eq, List.replicate_eq_nil_iff]
    exact Nat.sub_ne_zero_of_lt several

theorem rankMarks_injective {rank rank' : UInt32} (counted : 1 ≤ rank) (counted' : 1 ≤ rank')
    (same : rankMarks rank = rankMarks rank') : rank = rank' := by
  rw [UInt32.le_iff_toNat_le] at counted counted'
  have star : ∀ n, ['*'] ≠ List.replicate n ',' := by
    intro n equal
    have member : '*' ∈ List.replicate n ',' := equal ▸ List.mem_singleton_self _
    exact absurd (List.eq_of_mem_replicate member) (by decide)
  unfold rankMarks at same
  rw [← UInt32.toNat_inj]
  split at same
  · next one =>
    split at same
    · next one' =>
      rw [UInt32.le_iff_toNat_le] at one one'
      exact Nat.le_antisymm (Nat.le_trans one counted') (Nat.le_trans one' counted)
    · exact absurd same (star _)
  · split at same
    · exact absurd same.symm (star _)
    · have commas := congrArg List.length same
      rw [List.length_replicate, List.length_replicate] at commas
      exact Nat.sub_one_cancel counted counted' commas

theorem nameChars_szArray (element : DebugType) :
    (szArray element).nameChars = element.nameChars ++ '[' :: [] ++ [']'] := by
  rw [nameChars, List.append_assoc]
  rfl

theorem nameChars_mdArray (element : DebugType) (rank : UInt32) :
    (mdArray element rank).nameChars = element.nameChars ++ '[' :: rankMarks rank ++ [']'] := by
  rw [nameChars, rankSuffix_eq, ← List.append_assoc]

/-- The character at the end of a name that says what kind of type it is of. -/
def terminator : DebugType → Option Char
  | .szArray _ => some ']'
  | .mdArray _ _ => some ']'
  | .byRef _ => some '&'
  | .primitive _ => none
  | .named _ => none

theorem terminator_eq {type : DebugType} (nameable : type.Nameable) :
    type.terminator = type.nameChars.getLast?.filter fun c => c = ']' ∨ c = '&' := by
  cases type with
  | primitive p =>
      have all : ∀ p ∈ Primitive.all,
          none = p.keyword.toList.getLast?.filter fun c => c = ']' ∨ c = '&' := by decide
      exact all p p.mem_all
  | szArray element =>
      rw [nameChars, List.getLast?_append]
      rfl
  | mdArray element rank =>
      rw [nameChars, rankSuffix_eq, ← List.append_assoc, List.getLast?_append]
      rfl
  | byRef target =>
      rw [nameChars, List.getLast?_append]
      rfl
  | named name =>
      refine (Option.filter_eq_none_iff.2 fun c last => ?_).symm
      rw [decide_eq_true_eq]
      rintro (rfl | rfl)
      · exact nameable.2.1 last
      · exact nameable.2.2 last

/-- Types with equal names are of one kind. -/
theorem terminator_eq_of_nameChars {s t : DebugType} (left : s.Nameable) (right : t.Nameable)
    (same : s.nameChars = t.nameChars) : s.terminator = t.terminator := by
  rw [terminator_eq left, terminator_eq right, same]

theorem nameChars_injective {s t : DebugType} (left : s.Nameable) (right : t.Nameable)
    (same : s.nameChars = t.nameChars) : s = t := by
  induction s generalizing t with
  | primitive p =>
      have kind := terminator_eq_of_nameChars left right same
      cases t with
      | primitive q => rw [Primitive.keyword_injective (String.toList_inj.1 same)]
      | named name => exact absurd (String.toList_inj.1 same).symm (right.1 p p.mem_all)
      | szArray _ | mdArray _ _ | byRef _ => cases kind
  | named name =>
      have kind := terminator_eq_of_nameChars left right same
      cases t with
      | primitive p => exact absurd (String.toList_inj.1 same) (left.1 p p.mem_all)
      | named other => rw [String.toList_inj.1 same]
      | szArray _ | mdArray _ _ | byRef _ => cases kind
  | byRef target ih =>
      have kind := terminator_eq_of_nameChars left right same
      cases t with
      | byRef other =>
          simp only [nameChars] at same
          rw [ih (t := other) left right (List.append_cancel_right same)]
      | primitive _ | named _ | szArray _ | mdArray _ _ => cases kind
  | szArray element ih =>
      have kind := terminator_eq_of_nameChars left right same
      cases t with
      | szArray other =>
          simp only [nameChars] at same
          rw [ih (t := other) left right (List.append_cancel_right same)]
      | mdArray other rank =>
          rw [nameChars_szArray, nameChars_mdArray] at same
          obtain ⟨-, marks⟩ := append_brackets_inj List.not_mem_nil (not_mem_rankMarks rank) same
          exact absurd marks.symm (rankMarks_ne_nil rank)
      | primitive _ | named _ | byRef _ => cases kind
  | mdArray element rank ih =>
      have kind := terminator_eq_of_nameChars left right same
      cases t with
      | szArray other =>
          rw [nameChars_szArray, nameChars_mdArray] at same
          obtain ⟨-, marks⟩ := append_brackets_inj (not_mem_rankMarks rank) List.not_mem_nil same
          exact absurd marks (rankMarks_ne_nil rank)
      | mdArray other rank' =>
          rw [nameChars_mdArray, nameChars_mdArray] at same
          obtain ⟨front, marks⟩ :=
            append_brackets_inj (not_mem_rankMarks rank) (not_mem_rankMarks rank') same
          rw [ih left.2 right.2 front, rankMarks_injective left.1 right.1 marks]
      | primitive _ | named _ | byRef _ => cases kind

/-- Types are told apart by their names. -/
theorem name_eq_iff {s t : DebugType} (left : s.Nameable) (right : t.Nameable) :
    s.name = t.name ↔ s = t := by
  constructor
  · intro same
    exact nameChars_injective left right (String.ofList_injective same)
  · rintro rfl
    rfl

/-- Brackets and commas in the name of the class do not blur what is outside of it. -/
theorem name_eq_iff_gridOfVectors :
    Nameable (.byRef (.mdArray (.szArray (.named "Map[,K")) 2)) ∧
      Nameable (.byRef (.szArray (.mdArray (.named "Map[,K") 2))) ∧
      name (.byRef (.mdArray (.szArray (.named "Map[,K")) 2)) ≠
        name (.byRef (.szArray (.mdArray (.named "Map[,K") 2))) := by
  have left : Nameable (.byRef (.mdArray (.szArray (.named "Map[,K")) 2)) := by decide
  have right : Nameable (.byRef (.szArray (.mdArray (.named "Map[,K") 2))) := by decide
  exact ⟨left, right, fun same => nomatch (name_eq_iff left right).1 same⟩

end DebugType

end DebugArrays
