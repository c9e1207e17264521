import DebugArrays.Proofs.Json.Order
import DebugArrays.Proofs.Json.RoundTrip
import DebugArrays.Types.Descriptor

/-!
Serialized type descriptors. A type is read back from its tree and from its text, so that distinct
types have distinct texts, while their names may be the same. At every level of the type the members
of an array are read in whatever order they stand and whatever else stands among them; in a text
they may also go without their keys.
-/
namespace DebugArrays.DebugType

open Json (SameFields)

/-- The keys of an array that is not single-dimensional and zero-based. -/
def arrayKeys : List String :=
  ["element", "rank"]

/-- Descriptors that differ, at any level of the type, in the order of an array's members and in
members of keys that an array does not have; in a text also in whether the members go by their keys
or by position. -/
inductive Rearranged (source : Json.Source) : Json → Json → Prop
  | refl (j : Json) : Rearranged source j j
  | symm {j k : Json} : Rearranged source j k → Rearranged source k j
  | trans {j k l : Json} : Rearranged source j k → Rearranged source k l → Rearranged source j l
  | members {a b : List (String × Json)}
      (known : (a.filter (·.1 ∈ arrayKeys)).Perm (b.filter (·.1 ∈ arrayKeys))) :
      Rearranged source (.object [("md_array", .object a)]) (.object [("md_array", .object b)])
  | positions (parsed : source = .text) (element rank : Json) :
      Rearranged source
        (.object [("md_array", .object [("element", element), ("rank", rank)])])
        (.object [("md_array", .array [element, rank])])
  | element {j k : Json} (before after : List (String × Json)) : Rearranged source j k →
      Rearranged source (.object [("md_array", .object (before ++ ("element", j) :: after))])
        (.object [("md_array", .object (before ++ ("element", k) :: after))])
  | szArray {j k : Json} : Rearranged source j k →
      Rearranged source (.object [("sz_array", j)]) (.object [("sz_array", k)])
  | byRef {j k : Json} : Rearranged source j k →
      Rearranged source (.object [("by_ref", j)]) (.object [("by_ref", k)])

variable {source : Json.Source} {a b : List (String × Json)} {j k : Json} {key : String}

theorem elementTypes_eq_map (source : Json.Source) (members : List (String × Json)) :
    elementTypes source members =
      (members.filter (·.1 == "element")).map fun m => ofJson? source m.2 := by
  induction members with
  | nil => rw [elementTypes, List.filter_nil, List.map_nil]
  | cons member rest ih =>
      rw [elementTypes]
      split
      · next named => rw [List.filter_cons_of_pos (by simp [named]), List.map_cons, ih]
      · next other => rw [List.filter_cons_of_neg (by simp [other]), ih]

/-- The two fields of an array are read like those of any other object. -/
theorem ofJson?_mdArray (source : Json.Source) (members : List (String × Json)) :
    ofJson? source (.object [("md_array", .object members)]) =
      (Json.field? "element" (ofJson? source) members).bind fun element =>
        (Json.field? "rank" Json.toUInt32? members).map (mdArray element) := by
  rw [ofJson?, elementTypes_eq_map]
  generalize Json.field? "rank" Json.toUInt32? members = rank
  unfold Json.field? Json.occurrence
  generalize members.filter (·.1 == "element") = found
  match found with
  | [] => rfl
  | [member] =>
      simp only [List.map_cons, List.map_nil]
      cases ofJson? source member.2 <;> cases rank <;> rfl
  | first :: second :: rest =>
      -- Refused for the second one, but only after a look at the first.
      simp only [List.map_cons]
      cases ofJson? source first.2 <;> cases rank <;> rfl

theorem ofJson?_positions (element rank : Json) :
    ofJson? .text (.object [("md_array", .array [element, rank])]) =
      ofJson? .text (.object [("md_array", .object [("element", element), ("rank", rank)])]) := by
  rw [ofJson?_mdArray, ofJson?]
  rfl

@[simp] theorem ofJson?_toJson (source : Json.Source) (type : DebugType) :
    ofJson? source type.toJson = some type := by
  induction type with
  | primitive p => simp [toJson, ofJson?]
  | szArray element ih => simp [toJson, ofJson?, ih]
  | mdArray element rank ih => simp [toJson, ofJson?_mdArray, ih]
  | byRef target ih => simp [toJson, ofJson?, ih]
  | named name => simp [toJson, ofJson?, Json.toString?]

theorem toJson_injective {s t : DebugType} (same : s.toJson = t.toJson) : s = t := by
  have read := ofJson?_toJson .tree s
  rw [same, ofJson?_toJson] at read
  exact (Option.some.inj read).symm

/-- Values of an array's member that are read alike, where only the element has another form. -/
inductive ReadAlike (source : Json.Source) (key : String) : Json → Json → Prop
  | refl (j : Json) : ReadAlike source key j j
  | element {j k : Json} (named : key = "element") (same : ofJson? source j = ofJson? source k) :
      ReadAlike source key j k

theorem ReadAlike.ofJson?_eq (alike : ReadAlike source key j k) :
    ofJson? source j = ofJson? source k := by
  cases alike with
  | refl => rfl
  | element _ same => exact same

theorem ReadAlike.eq_of_ne (alike : ReadAlike source key j k) (other : key ≠ "element") :
    j = k := by
  cases alike with
  | refl => rfl
  | element named => exact absurd named other

theorem ofJson?_eq_of_sameFields (same : SameFields arrayKeys (ReadAlike source) a b) :
    ofJson? source (.object [("md_array", .object a)]) =
      ofJson? source (.object [("md_array", .object b)]) := by
  rw [ofJson?_mdArray, ofJson?_mdArray, same.field?_eq (by decide) fun _ _ => ReadAlike.ofJson?_eq,
    same.field?_eq (by decide) fun _ _ alike => congrArg _ (alike.eq_of_ne (by decide))]

theorem Rearranged.ofJson?_eq (moved : Rearranged source j k) :
    ofJson? source j = ofJson? source k := by
  induction moved with
  | refl j => rfl
  | symm _ ih => exact ih.symm
  | trans _ _ first second => exact first.trans second
  | members known => exact ofJson?_eq_of_sameFields (.of_perm (fun _ => .refl) known)
  | positions parsed element rank =>
      subst parsed
      exact (ofJson?_positions element rank).symm
  | @element j k before after _ ih =>
      -- The members around the element are the same; it is read alike by induction.
      have alike : SameFields arrayKeys (ReadAlike source) (before ++ ("element", j) :: after)
          (before ++ ("element", k) :: after) :=
        .of_middle (fun _ => .refl) (.element rfl ih) before after
      exact ofJson?_eq_of_sameFields alike
  | szArray _ ih => simp only [ofJson?, ih]
  | byRef _ ih => simp only [ofJson?, ih]

/-- Descriptors survive. A type is read back from what is written of it, distinct types have
distinct texts although they may share a name, and decoding does not see how the members of arrays
are arranged, so that every arrangement of a type's descriptor is read back as the type. -/
theorem descriptors_survive :
    (∀ type : DebugType, (∀ source, ofJson? source type.toJson = some type) ∧
      (type.toJson.depth ≤ 127 → ofText? type.toJson.compact = some type)) ∧
    (∀ s t : DebugType, s.toJson.compact = t.toJson.compact ↔ s = t) ∧
    (∃ s t : DebugType, s ≠ t ∧ s.name = t.name) ∧
    (∀ (source : Json.Source) (j k : Json), Rearranged source j k →
      ofJson? source j = ofJson? source k) ∧
    ∀ (type : DebugType) (j : Json), Rearranged .text type.toJson j → j.depth ≤ 127 →
      ofText? j.compact = some type := by
  have read : ∀ (type : DebugType) (j : Json), Rearranged .text type.toJson j → j.depth ≤ 127 →
      ofText? j.compact = some type := by
    intro type j moved nested
    rw [ofText?, Json.parse?_compact nested, Option.bind_some, ← moved.ofJson?_eq, ofJson?_toJson]
  refine ⟨?_, ?_, ?_, fun _ _ _ moved => moved.ofJson?_eq, read⟩
  · intro type
    exact ⟨fun source => ofJson?_toJson source type, read type type.toJson (.refl _)⟩
  · intro s t
    constructor
    · intro same
      exact toJson_injective (Json.compact_injective same)
    · rintro rfl
      rfl
  · exact ⟨.primitive (.int .int32), .named "int", nofun, rfl⟩

/-- A cube of vectors of arrays with another lower bound. The members of the outer array are moved
and another one is put among them, those of the inner array are there by position. -/
theorem descriptors_survive_cube :
    let type : DebugType := .byRef (.mdArray (.szArray (.mdArray (.named "int[]") 1)) 3)
    let inner (array : Json) : Json := .object [("sz_array", .object [("md_array", array)])]
    let front : List (String × Json) := [("rank", .uint32 3), ("lower", .array [.uint32 1])]
    let cube (element : Json) : Json :=
      .object [("by_ref", .object [("md_array", .object (front ++ [("element", element)]))])]
    let moved := cube (inner (.array [(named "int[]").toJson, .uint32 1]))
    type.toJson.depth ≤ 127 ∧ ofText? type.toJson.compact = some type ∧
      Rearranged .text type.toJson moved ∧ moved.depth ≤ 127 ∧
      ofJson? .text type.toJson = ofJson? .text moved ∧ ofText? moved.compact = some type := by
  intro type inner front cube moved
  have shallow : type.toJson.depth ≤ 127 := by decide
  have shallow' : moved.depth ≤ 127 := by decide
  have outside : Rearranged .text type.toJson
      (cube (inner (.object [("element", (named "int[]").toJson), ("rank", .uint32 1)]))) :=
    .byRef (.members (.swap _ _ []))
  have inside : Rearranged .text
      (inner (.object [("element", (named "int[]").toJson), ("rank", .uint32 1)]))
      (inner (.array [(named "int[]").toJson, .uint32 1])) :=
    .szArray (.positions rfl _ _)
  have both : Rearranged .text type.toJson moved :=
    .trans outside (.byRef (.element front [] inside))
  exact ⟨shallow, (descriptors_survive.1 type).2 shallow, both, shallow',
    descriptors_survive.2.2.2.1 .text type.toJson moved both,
    descriptors_survive.2.2.2.2 type moved both shallow'⟩

end DebugArrays.DebugType
