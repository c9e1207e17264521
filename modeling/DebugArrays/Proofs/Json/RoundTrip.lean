import DebugArrays.Proofs.Json.Depth
import DebugArrays.Proofs.Json.Number
import DebugArrays.Proofs.Json.Size
import DebugArrays.Proofs.Json.String

/-!
Writing and reading back. Every tree that nests no deeper than the reader allows is read back from
its text as it was, doubles, escapes and repeated keys included.
-/
namespace DebugArrays.Json

variable {fuel depth : Nat} {cs rest : List Char} {c : Char}

theorem skipSpace_cons (visible : isSpace c = false) (cs : List Char) :
    skipSpace (c :: cs) = c :: cs :=
  List.dropWhile_cons_of_neg (by rw [visible]; exact Bool.false_ne_true)

theorem endsNumber_nil : EndsNumber [] :=
  ⟨nofun, nofun⟩

theorem endsNumber_cons (mark : c ∈ [',', ']', '\x7d']) (cs : List Char) : EndsNumber (c :: cs) := by
  obtain ⟨noDigit, others⟩ : c.isDigit = false ∧ c ≠ '.' ∧ c ≠ 'e' ∧ c ≠ 'E' := by
    simp only [List.mem_cons, List.not_mem_nil, or_false] at mark
    rcases mark with rfl | rfl | rfl <;> decide
  constructor
  · rintro d ⟨⟩
    exact noDigit
  · rintro d ⟨⟩
    exact others

/-- A text that starts like a value: not with a blank, and not with the end of an array. -/
def Begins (cs : List Char) : Prop :=
  ∃ first more, cs = first :: more ∧ isSpace first = false ∧ first ≠ ']'

theorem Begins.append (begins : Begins cs) (rest : List Char) : Begins (cs ++ rest) := by
  obtain ⟨first, more, rfl, visible, opening⟩ := begins
  exact ⟨first, more ++ rest, rfl, visible, opening⟩

/-- The characters that a number starts with. -/
def StartsNumber (c : Char) : Prop :=
  c = '-' ∨ c.isDigit = true

instance (c : Char) : Decidable (StartsNumber c) := by
  unfold StartsNumber
  infer_instance

theorem exists_numberText_cons (n : JsonNumber) :
    ∃ first more, numberText n = first :: more ∧ StartsNumber first := by
  obtain ⟨t, written, -⟩ := NumberToken.exists_of_number n
  rw [← written]
  exact t.exists_chars_cons

theorem StartsNumber.visible (starts : StartsNumber c) : isSpace c = false := by
  simp only [isSpace, Bool.or_eq_false_iff, beq_eq_false_iff_ne]
  refine ⟨⟨⟨?_, ?_⟩, ?_⟩, ?_⟩ <;>
    (rintro rfl
     exact absurd starts (by decide))

theorem begins_chars (j : Json) : Begins j.chars := by
  cases j with
  | null => exact ⟨'n', _, rfl, rfl, by decide⟩
  | bool b =>
      cases b with
      | true => exact ⟨'t', _, rfl, rfl, by decide⟩
      | false => exact ⟨'f', _, rfl, rfl, by decide⟩
  | number n =>
      obtain ⟨first, more, written, starts⟩ := exists_numberText_cons n
      refine ⟨first, more, written, starts.visible, ?_⟩
      rintro rfl
      exact absurd starts (by decide)
  | string s => exact ⟨'"', _, rfl, rfl, by decide⟩
  | array items => exact ⟨'[', _, rfl, rfl, by decide⟩
  | object members => exact ⟨'\x7b', _, rfl, rfl, by decide⟩

/-- What follows an item of an array. -/
def itemTail : List Json → List Char
  | [] => [']']
  | item :: items => ',' :: itemChars (item :: items)

/-- What follows the value of a member of an object. -/
def memberTail : List (String × Json) → List Char
  | [] => ['\x7d']
  | member :: members => ',' :: memberChars (member :: members)

theorem itemChars_cons (item : Json) (items : List Json) :
    itemChars (item :: items) = item.chars ++ itemTail items := by
  cases items <;> rw [itemChars, itemTail]

theorem memberChars_cons (key : String) (value : Json) (members : List (String × Json)) :
    memberChars ((key, value) :: members) =
      quoted key ++ ':' :: (value.chars ++ memberTail members) := by
  cases members <;> rw [memberChars, memberTail]

theorem endsNumber_itemTail (items : List Json) (rest : List Char) :
    EndsNumber (itemTail items ++ rest) := by
  cases items with
  | nil => exact endsNumber_cons (by decide) _
  | cons item items => exact endsNumber_cons (by decide) _

theorem endsNumber_memberTail (members : List (String × Json)) (rest : List Char) :
    EndsNumber (memberTail members ++ rest) := by
  cases members with
  | nil => exact endsNumber_cons (by decide) _
  | cons member members => exact endsNumber_cons (by decide) _

section Dispatch

/-! What the reader does once it knows the first character of a value. -/

theorem readValue_of_startsNumber (starts : StartsNumber c) (cs : List Char) :
    readValue (fuel + 1) depth (c :: cs) =
      (readNumber (c :: cs)).map fun (n, rest) => (.number n, rest) := by
  unfold readValue
  rw [skipSpace_cons starts.visible]
  split <;> try rfl
  all_goals
    next same =>
    cases same
    exact absurd starts (by decide)

theorem readValue_quote (cs : List Char) :
    readValue (fuel + 1) depth ('"' :: cs) =
      (readString .plain [] cs).map fun (s, rest) => (.string s, rest) := rfl

theorem readValue_bracket (room : 0 < depth) (begins : Begins cs) :
    readValue (fuel + 1) depth ('[' :: cs) =
      (readItems fuel (depth - 1) cs).map fun (items, rest) => (.array items, rest) := by
  obtain ⟨first, more, rfl, visible, opening⟩ := begins
  change (if depth = 0 then none else _) = _
  rw [if_neg (Nat.ne_of_gt room), skipSpace_cons visible]
  split
  · next same =>
    cases same
    exact absurd rfl opening
  · rfl

theorem readValue_brackets (room : 0 < depth) (cs : List Char) :
    readValue (fuel + 1) depth ('[' :: ']' :: cs) = some (.array [], cs) := by
  have opened : readValue (fuel + 1) depth ('[' :: ']' :: cs) =
      if depth = 0 then none else some (.array [], cs) := rfl
  rw [opened, if_neg (Nat.ne_of_gt room)]

theorem readValue_braces (room : 0 < depth) (cs : List Char) :
    readValue (fuel + 1) depth ('\x7b' :: '\x7d' :: cs) = some (.object [], cs) := by
  have opened : readValue (fuel + 1) depth ('\x7b' :: '\x7d' :: cs) =
      if depth = 0 then none else some (.object [], cs) := rfl
  rw [opened, if_neg (Nat.ne_of_gt room)]

theorem readValue_brace (room : 0 < depth) (cs : List Char) :
    readValue (fuel + 1) depth ('\x7b' :: '"' :: cs) =
      (readMembers fuel (depth - 1) ('"' :: cs)).map
        fun (members, rest) => (.object members, rest) := by
  have opened : readValue (fuel + 1) depth ('\x7b' :: '"' :: cs) =
      if depth = 0 then none
      else (readMembers fuel (depth - 1) ('"' :: cs)).map
        fun (members, rest) => (.object members, rest) := rfl
  rw [opened, if_neg (Nat.ne_of_gt room)]

theorem readItems_close {item : Json} (read : readValue fuel depth cs = some (item, ']' :: rest)) :
    readItems (fuel + 1) depth cs = some ([item], rest) := by
  rw [readItems, read]
  rfl

theorem readItems_comma {item : Json} (read : readValue fuel depth cs = some (item, ',' :: rest)) :
    readItems (fuel + 1) depth cs =
      (readItems fuel depth rest).map fun (items, rest) => (item :: items, rest) := by
  rw [readItems, read]
  rfl

variable {key : String} {value : Json} {more : List Char}

theorem readMembers_quote (named : readString .plain [] cs = some (key, ':' :: more))
    (read : readValue fuel depth more = some (value, rest)) :
    readMembers (fuel + 1) depth ('"' :: cs) =
      match skipSpace rest with
      | '\x7d' :: rest => some ([(key, value)], rest)
      | ',' :: rest =>
        (readMembers fuel depth rest).map fun (members, rest) => ((key, value) :: members, rest)
      | _ => none := by
  rw [readMembers, skipSpace_cons rfl]
  split
  · next opened =>
    cases opened
    rw [named]
    dsimp only
    rw [skipSpace_cons rfl]
    split
    · next separated =>
      cases separated
      rewrite [read]
      rfl
    · next other => exact absurd rfl (other more)
  · next other => exact absurd rfl (other cs)

theorem readMembers_close (named : readString .plain [] cs = some (key, ':' :: more))
    (read : readValue fuel depth more = some (value, '\x7d' :: rest)) :
    readMembers (fuel + 1) depth ('"' :: cs) = some ([(key, value)], rest) := by
  rw [readMembers_quote named read]
  rfl

theorem readMembers_comma (named : readString .plain [] cs = some (key, ':' :: more))
    (read : readValue fuel depth more = some (value, ',' :: rest)) :
    readMembers (fuel + 1) depth ('"' :: cs) =
      (readMembers fuel depth rest).map fun (members, rest) => ((key, value) :: members, rest) := by
  rw [readMembers_quote named read]
  rfl

end Dispatch

/-- What a budget of steps is enough to read back. The budget is told by the size of the tree. -/
structure ReadsBack (fuel : Nat) : Prop where
  value : ∀ {j depth rest}, 2 * j.size ≤ fuel → j.depth ≤ depth → EndsNumber rest →
    readValue fuel depth (j.chars ++ rest) = some (j, rest)
  items : ∀ {item items depth rest}, 2 * sizeItems (item :: items) + 1 ≤ fuel →
    depthItems (item :: items) ≤ depth →
    readItems fuel depth (itemChars (item :: items) ++ rest) = some (item :: items, rest)
  members : ∀ {member members depth rest}, 2 * sizeMembers (member :: members) + 1 ≤ fuel →
    depthMembers (member :: members) ≤ depth →
    readMembers fuel depth (memberChars (member :: members) ++ rest) =
      some (member :: members, rest)

namespace ReadsBack

theorem readValue (less : ReadsBack fuel) {j : Json} (steps : 2 * j.size ≤ fuel + 1)
    (nested : j.depth ≤ depth) (ends : EndsNumber rest) :
    readValue (fuel + 1) depth (j.chars ++ rest) = some (j, rest) := by
  cases j with
  | null => rfl
  | bool b => cases b <;> rfl
  | number n =>
      have read := readNumber_numberText n ends
      obtain ⟨first, more, written, starts⟩ := exists_numberText_cons n
      rw [chars]
      rw [written, List.cons_append] at read ⊢
      rw [readValue_of_startsNumber starts, read, Option.map_some]
  | string s =>
      obtain ⟨body, quote, read⟩ := readString_quoted s rest
      rw [chars, quote, readValue_quote, read, Option.map_some]
  | array items =>
      simp only [size, Json.depth] at steps nested
      cases items with
      | nil => exact readValue_brackets (by omega) rest
      | cons item items =>
          have begins : Begins (itemChars (item :: items) ++ rest) := by
            rw [itemChars_cons]
            exact ((begins_chars item).append _).append rest
          rw [chars, List.cons_append, readValue_bracket (by omega) begins,
            less.items (by omega) (by omega), Option.map_some]
  | object members =>
      simp only [size, Json.depth] at steps nested
      cases members with
      | nil => exact readValue_braces (by omega) rest
      | cons member members =>
          obtain ⟨key, value⟩ := member
          have read : Json.readMembers fuel (depth - 1)
              (memberChars ((key, value) :: members) ++ rest) = some ((key, value) :: members, rest) :=
            less.members (by omega) (by omega)
          rw [chars, List.cons_append]
          rw [memberChars_cons, quoted] at read ⊢
          rw [List.cons_append, List.append_assoc, List.cons_append] at read ⊢
          rw [readValue_brace (by omega), read, Option.map_some]

theorem readItems (less : ReadsBack fuel) {item : Json} {items : List Json}
    (steps : 2 * sizeItems (item :: items) ≤ fuel) (nested : depthItems (item :: items) ≤ depth) :
    readItems (fuel + 1) depth (itemChars (item :: items) ++ rest) =
      some (item :: items, rest) := by
  have pos := item.size_pos
  simp only [sizeItems, depthItems] at steps nested
  have first : Json.readValue fuel depth (item.chars ++ (itemTail items ++ rest)) =
      some (item, itemTail items ++ rest) :=
    less.value (by omega) (by omega) (endsNumber_itemTail items rest)
  rw [itemChars_cons, List.append_assoc]
  cases items with
  | nil => exact readItems_close first
  | cons next items =>
      have others : Json.readItems fuel depth (itemChars (next :: items) ++ rest) =
          some (next :: items, rest) := less.items (by omega) (by omega)
      rw [itemTail, List.cons_append] at first ⊢
      rw [readItems_comma first, others, Option.map_some]

theorem readMembers (less : ReadsBack fuel) {member : String × Json}
    {members : List (String × Json)} (steps : 2 * sizeMembers (member :: members) ≤ fuel)
    (nested : depthMembers (member :: members) ≤ depth) :
    readMembers (fuel + 1) depth (memberChars (member :: members) ++ rest) =
      some (member :: members, rest) := by
  obtain ⟨key, value⟩ := member
  have pos := value.size_pos
  simp only [sizeMembers, depthMembers] at steps nested
  have first : Json.readValue fuel depth (value.chars ++ (memberTail members ++ rest)) =
      some (value, memberTail members ++ rest) :=
    less.value (by omega) (by omega) (endsNumber_memberTail members rest)
  obtain ⟨body, quote, named⟩ :=
    readString_quoted key (':' :: (value.chars ++ (memberTail members ++ rest)))
  rw [memberChars_cons, List.append_assoc, List.cons_append, List.append_assoc, quote]
  cases members with
  | nil => exact readMembers_close named first
  | cons next members =>
      have others : Json.readMembers fuel depth (memberChars (next :: members) ++ rest) =
          some (next :: members, rest) := less.members (by omega) (by omega)
      rw [memberTail, List.cons_append] at first named
      rw [readMembers_comma named first, others, Option.map_some]

end ReadsBack

theorem readsBack (fuel : Nat) : ReadsBack fuel := by
  induction fuel with
  | zero =>
      refine ⟨?_, ?_, ?_⟩
      · intro j _ _ steps
        have pos := j.size_pos
        omega
      · intro _ _ _ _ steps
        omega
      · intro _ _ _ _ steps
        omega
  | succ fuel less =>
      refine ⟨less.readValue, ?_, ?_⟩
      · intro _ _ _ _ steps
        exact less.readItems (by omega)
      · intro _ _ _ _ steps
        exact less.readMembers (by omega)

section Length

mutual

/-- A node takes at least one character. -/
theorem size_le_length_chars : ∀ j : Json, j.size ≤ j.chars.length
  | .null => by decide
  | .bool true => by decide
  | .bool false => by decide
  | .number n => by
    obtain ⟨first, more, written, -⟩ := exists_numberText_cons n
    rw [chars, written]
    exact Nat.succ_le_succ (Nat.zero_le _)
  | .string s => Nat.succ_le_succ (Nat.zero_le _)
  | .array items => Nat.succ_le_succ (sizeItems_le_length_itemChars items)
  | .object members => Nat.succ_le_succ (sizeMembers_le_length_memberChars members)

theorem sizeItems_le_length_itemChars : ∀ items, sizeItems items ≤ (itemChars items).length
  | [] => Nat.zero_le _
  | [item] => by
    have first := size_le_length_chars item
    simp only [sizeItems, itemChars, List.length_append]
    omega
  | item :: next :: rest => by
    have first := size_le_length_chars item
    have others := sizeItems_le_length_itemChars (next :: rest)
    rw [sizeItems, itemChars, List.length_append, List.length_cons]
    omega

theorem sizeMembers_le_length_memberChars :
    ∀ members, sizeMembers members ≤ (memberChars members).length
  | [] => Nat.zero_le _
  | [(key, value)] => by
    have first := size_le_length_chars value
    simp only [sizeMembers, memberChars, List.length_append, List.length_cons]
    omega
  | (key, value) :: next :: rest => by
    have first := size_le_length_chars value
    have others := sizeMembers_le_length_memberChars (next :: rest)
    rw [sizeMembers, memberChars, List.length_append, List.length_cons, List.length_append,
      List.length_cons]
    omega

end

end Length

/-- A tree that the reader has the depth for is read back from its text. -/
theorem parse?_compact {j : Json} (nested : j.depth ≤ maxDepth) : parse? j.compact = some j := by
  have short := j.size_le_length_chars
  have read := (readsBack (2 * j.chars.length + 2)).value (by omega) nested endsNumber_nil
  unfold parse? compact
  rw [List.append_nil] at read
  simp only [String.toList_ofList, read]
  rfl

/-- Distinct trees have distinct texts, however deep they nest. -/
theorem compact_injective {j k : Json} (same : j.compact = k.compact) : j = k := by
  have chars : j.chars = k.chars := String.ofList_injective same
  have left : readValue (2 * max j.size k.size) (max j.depth k.depth) (j.chars ++ []) =
      some (j, []) := (readsBack _).value (by omega) (by omega) endsNumber_nil
  have right : readValue (2 * max j.size k.size) (max j.depth k.depth) (k.chars ++ []) =
      some (k, []) := (readsBack _).value (by omega) (by omega) endsNumber_nil
  rw [chars, right] at left
  cases left
  rfl

end DebugArrays.Json
