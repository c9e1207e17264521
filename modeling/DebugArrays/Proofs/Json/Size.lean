import DebugArrays.Json.Reader

/-!
How large a tree can be that is read from a text: no larger than the text is long, since each node
takes at least one character.
-/
namespace DebugArrays.Json

mutual

/-- The nodes of a tree. -/
def size : Json → Nat
  | .array items => sizeItems items + 1
  | .object members => sizeMembers members + 1
  | .null => 1
  | .bool _ => 1
  | .number _ => 1
  | .string _ => 1

def sizeItems : List Json → Nat
  | [] => 0
  | item :: rest => size item + sizeItems rest

def sizeMembers : List (String × Json) → Nat
  | [] => 0
  | (_, value) :: rest => size value + sizeMembers rest

end

theorem size_pos (j : Json) : 0 < j.size := by
  cases j <;> simp [size]

theorem length_le_sizeItems (items : List Json) : items.length ≤ sizeItems items := by
  induction items with
  | nil => exact Nat.le_refl 0
  | cons item rest ih =>
      have pos := item.size_pos
      simp only [List.length_cons, sizeItems]
      omega

theorem size_le_sizeMembers {members : List (String × Json)} {member : String × Json}
    (h : member ∈ members) : member.2.size ≤ sizeMembers members := by
  induction members with
  | nil => cases h
  | cons first rest ih =>
      obtain ⟨key, value⟩ := first
      simp only [sizeMembers]
      obtain same | later := List.mem_cons.1 h
      · subst same
        exact Nat.le_add_right _ _
      · have below := ih later
        omega

theorem length_skipSpace_le (cs : List Char) : (skipSpace cs).length ≤ cs.length :=
  (List.dropWhile_sublist _).length_le

theorem length_lt_of_skipSpace {cs rest : List Char} {c : Char} (h : skipSpace cs = c :: rest) :
    rest.length < cs.length := by
  have space := length_skipSpace_le cs
  rwa [h] at space

section Tokens

variable {cs rest : List Char}

theorem length_of_readString {state : StringState} {read : List Char} {s : String}
    (h : readString state read cs = some (s, rest)) : rest.length ≤ cs.length := by
  induction cs generalizing state read with
  | nil =>
      unfold readString at h
      cases h
  | cons c cs ih =>
      unfold readString at h
      split at h
      · cases h
      · next same =>
        cases same
        cases h
        exact Nat.le_succ _
      · next same =>
        cases same
        split at h
        · cases h
        · exact Nat.le_succ_of_le (ih h)
        · exact Nat.le_succ_of_le (ih h)

theorem length_of_readDigits {digits : List Char} (h : readDigits cs = some (digits, rest)) :
    rest.length < cs.length := by
  unfold readDigits at h
  have split := congrArg List.length (List.takeWhile_append_dropWhile (p := Char.isDigit) (l := cs))
  rw [List.length_append] at split
  cases front : cs.takeWhile Char.isDigit with
  | nil =>
      rw [front] at h
      cases h
  | cons c more =>
      rw [front] at h split
      cases h
      rw [List.length_cons] at split
      omega

theorem length_of_readWhole {digits : List Char} (h : readWhole cs = some (digits, rest)) :
    rest.length < cs.length := by
  unfold readWhole at h
  split at h
  · cases h
    exact Nat.lt_succ_self _
  · exact length_of_readDigits h

theorem length_of_readFraction {fraction : Option (List Char)}
    (h : readFraction cs = some (fraction, rest)) : rest.length ≤ cs.length := by
  unfold readFraction at h
  split at h
  · obtain ⟨⟨digits, after⟩, read, same⟩ := Option.map_eq_some_iff.1 h
    cases same
    exact Nat.le_succ_of_le (Nat.le_of_lt (length_of_readDigits read))
  · cases h
    exact Nat.le_refl _

theorem length_of_readExponent {exponent : Option Int}
    (h : readExponent cs = some (exponent, rest)) : rest.length ≤ cs.length := by
  unfold readExponent at h
  split at h
  · split at h
    · split at h <;>
        (obtain ⟨⟨digits, after⟩, read, same⟩ := Option.map_eq_some_iff.1 h
         cases same
         have shorter := length_of_readDigits read
         simp only [List.length_cons] at shorter ⊢
         omega)
    · cases h
      exact Nat.le_refl _
  · cases h
    exact Nat.le_refl _

theorem length_of_readNumber {n : JsonNumber} (h : readNumber cs = some (n, rest)) :
    rest.length < cs.length := by
  unfold readNumber at h
  split at h
  next negative ds signed =>
    -- a sign, if there is one, only makes the text before the digits longer
    have signless : ds.length ≤ cs.length := by
      split at signed
      · cases signed
        exact Nat.le_succ _
      · cases signed
        exact Nat.le_refl _
    obtain ⟨⟨whole, afterWhole⟩, first, read⟩ := Option.bind_eq_some_iff.1 h
    obtain ⟨⟨fraction, afterFraction⟩, second, read⟩ := Option.bind_eq_some_iff.1 read
    obtain ⟨⟨exponent, afterExponent⟩, third, read⟩ := Option.bind_eq_some_iff.1 read
    obtain ⟨m, -, same⟩ := Option.bind_eq_some_iff.1 read
    cases same
    have w := length_of_readWhole first
    have f := length_of_readFraction second
    have e := length_of_readExponent third
    omega

end Tokens

section Trees

variable {fuel depth : Nat} {cs rest : List Char}

/-- What a budget of steps allows to read takes at least one character for each node. -/
structure Consumes (fuel : Nat) : Prop where
  value : ∀ {depth cs j rest}, readValue fuel depth cs = some (j, rest) →
    j.size + rest.length ≤ cs.length
  items : ∀ {depth cs items rest}, readItems fuel depth cs = some (items, rest) →
    sizeItems items + rest.length ≤ cs.length
  members : ∀ {depth cs members rest}, readMembers fuel depth cs = some (members, rest) →
    sizeMembers members + rest.length ≤ cs.length

namespace Consumes

theorem readValue (less : Consumes fuel) {j : Json}
    (h : readValue (fuel + 1) depth cs = some (j, rest)) : j.size + rest.length ≤ cs.length := by
  unfold Json.readValue at h
  split at h
  · next same =>
    cases h
    have front := length_lt_of_skipSpace same
    simp only [List.length_cons, size] at front ⊢
    omega
  · next same =>
    cases h
    have front := length_lt_of_skipSpace same
    simp only [List.length_cons, size] at front ⊢
    omega
  · next same =>
    cases h
    have front := length_lt_of_skipSpace same
    simp only [List.length_cons, size] at front ⊢
    omega
  · next after same =>
    have front := length_lt_of_skipSpace same
    obtain ⟨⟨s, rest⟩, read, made⟩ := Option.map_eq_some_iff.1 h
    cases made
    have inside := length_of_readString read
    simp only [size]
    omega
  · next after same =>
    have front := length_lt_of_skipSpace same
    split at h
    · cases h
    · split at h
      · next close =>
        cases h
        have back := length_lt_of_skipSpace close
        simp only [size, sizeItems]
        omega
      · obtain ⟨⟨items, rest⟩, read, made⟩ := Option.map_eq_some_iff.1 h
        cases made
        have space := length_skipSpace_le after
        have inside := less.items read
        simp only [size]
        omega
  · next after same =>
    have front := length_lt_of_skipSpace same
    split at h
    · cases h
    · split at h
      · next close =>
        cases h
        have back := length_lt_of_skipSpace close
        simp only [size, sizeMembers]
        omega
      · obtain ⟨⟨members, rest⟩, read, made⟩ := Option.map_eq_some_iff.1 h
        cases made
        have space := length_skipSpace_le after
        have inside := less.members read
        simp only [size]
        omega
  · have space := length_skipSpace_le cs
    obtain ⟨⟨n, rest⟩, read, made⟩ := Option.map_eq_some_iff.1 h
    cases made
    have shorter := length_of_readNumber read
    simp only [size]
    omega

theorem readItems (less : Consumes fuel) {items : List Json}
    (h : readItems (fuel + 1) depth cs = some (items, rest)) :
    sizeItems items + rest.length ≤ cs.length := by
  unfold Json.readItems at h
  split at h
  · cases h
  · next item after read =>
    have first := less.value read
    split at h
    · next same =>
      cases h
      have back := length_lt_of_skipSpace same
      simp only [sizeItems]
      omega
    · next same =>
      have comma := length_lt_of_skipSpace same
      obtain ⟨⟨items, rest⟩, later, made⟩ := Option.map_eq_some_iff.1 h
      cases made
      have others := less.items later
      simp only [sizeItems]
      omega
    · cases h

theorem readMembers (less : Consumes fuel) {members : List (String × Json)}
    (h : readMembers (fuel + 1) depth cs = some (members, rest)) :
    sizeMembers members + rest.length ≤ cs.length := by
  unfold Json.readMembers at h
  split at h
  · next opened same =>
    have quote := length_lt_of_skipSpace same
    split at h
    · cases h
    · next key named read =>
      have inside := length_of_readString read
      split at h
      · next after same =>
        have colon := length_lt_of_skipSpace same
        split at h
        · cases h
        · next value valued read =>
          have first := less.value read
          split at h
          · next same =>
            cases h
            have back := length_lt_of_skipSpace same
            simp only [sizeMembers]
            omega
          · next same =>
            have comma := length_lt_of_skipSpace same
            obtain ⟨⟨members, rest⟩, later, made⟩ := Option.map_eq_some_iff.1 h
            cases made
            have others := less.members later
            simp only [sizeMembers]
            omega
          · cases h
      · cases h
  · cases h

end Consumes

theorem consumes (fuel : Nat) : Consumes fuel := by
  induction fuel with
  | zero => exact ⟨nofun, nofun, nofun⟩
  | succ fuel less => exact ⟨less.readValue, less.readItems, less.readMembers⟩

end Trees

theorem size_of_parse? {text : String} {j : Json} (h : parse? text = some j) :
    j.size ≤ text.toList.length := by
  unfold parse? at h
  dsimp only at h
  split at h
  · next tree rest read =>
    have taken := (consumes _).value read
    split at h
    · cases h
      omega
    · cases h
  · cases h

end DebugArrays.Json
