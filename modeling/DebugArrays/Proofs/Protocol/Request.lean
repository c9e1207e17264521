import DebugArrays.Proofs.Protocol.Message

/-!
Requests on the wire. A request is read back from what is written of it; and what was read from any
text, loosely laid out as it may be, nests no deeper when it is written again, so that it is read
back as well.
-/
namespace DebugArrays

namespace ArraySnapshot

theorem elementsOf?_trees (elements : List Document) :
    elementsOf? (.array (elements.map Document.tree)) = some elements := by
  have back : Json.toDocument ∘ Document.tree = id := funext Document.toDocument_tree
  rw [elementsOf?, Json.toItems?, Option.map_some, List.map_map, back, List.map_id]

theorem ofJson?_toJson (s : ArraySnapshot) : ofJson? s.toJson = some s := by
  obtain ⟨name, elementType, elements, byReference, rank⟩ := s
  cases byReference <;>
    simp [ofJson?, toJson, ofMembers?, elementsOf?_trees, byReferenceOf?, Json.toNullable?,
      Json.toString?, Json.toBool?]

end ArraySnapshot

namespace Request

theorem snapshotsOf?_trees (snapshots : List ArraySnapshot) :
    snapshotsOf? (.array (snapshots.map ArraySnapshot.toJson)) = some snapshots := by
  rw [snapshotsOf?, Json.toItems?, Option.bind_some]
  induction snapshots with
  | nil => rfl
  | cons s rest ih =>
      rw [List.map_cons, List.mapM_cons, ArraySnapshot.ofJson?_toJson, ih]
      rfl

/-- A method and its parameters tell the request. -/
theorem ofCall?_params? (r : Request) : ofCall? r.method (r.params?.getD .null) = some r := by
  cases r with
  | load snapshots => simp [ofCall?, method, params?, ofParams?, snapshotsOf?_trees]
  | length name => simp [ofCall?, method, params?, ofParams?, Json.toString?]
  | element name index => simp [ofCall?, method, params?, ofParams?, Json.toString?]
  | store name index value => simp [ofCall?, method, params?, ofParams?, Json.toString?]
  | stats => rfl
  | shutdown => rfl

/-- The members of a request tell it, also among those of an envelope. -/
theorem ofMessageMembers?_envelope (version id : Json) (r : Request) :
    ofMessageMembers? (("jsonrpc", version) :: ("id", id) :: r.toMembers) = some r := by
  have call := r.ofCall?_params?
  unfold ofMessageMembers? ofMembers? toMembers
  cases params : r.params? with
  | none =>
      rw [params, Option.getD_none] at call
      simp [Json.toLooseName?, Json.toName?, call]
  | some params =>
      rw [params, Option.getD_some] at call
      simp [Json.toLooseName?, Json.toName?, call]

theorem unenveloped_toMembers (r : Request) : Message.Unenveloped r.toMembers := by
  unfold toMembers
  constructor <;> cases r.params? <;> simp

end Request

section Nesting

/-! What was read is written with no more nesting than it had, or with that of its own shape. -/

theorem Json.depth_le_depthMembers {members : List (String × Json)} {m : String × Json}
    (there : m ∈ members) : m.2.depth ≤ depthMembers members :=
  depthMembers_le_iff.1 (Nat.le_refl _) m there

theorem Json.depth_le_depthItems {items : List Json} {item : Json} (there : item ∈ items) :
    item.depth ≤ depthItems items :=
  depthItems_le_iff.1 (Nat.le_refl _) item there

namespace ArraySnapshot

variable {s : ArraySnapshot} {j : Json}

theorem depth_toJson (s : ArraySnapshot) :
    s.toJson.depth = Json.depthItems (s.elements.map Document.tree) + 2 := by
  obtain ⟨name, elementType, elements, byReference, rank⟩ := s
  cases byReference <;>
    simp [toJson, Json.depth, Json.depthMembers, Json.uint32]

theorem depth_elementsOf? {elements : List Document} (h : elementsOf? j = some elements) :
    Json.depthItems (elements.map Document.tree) + 1 ≤ j.depth := by
  obtain ⟨items, isArray, rfl⟩ := Option.map_eq_some_iff.1 h
  cases j with
  | array listed =>
      cases isArray
      apply Nat.succ_le_succ
      rw [Json.depthItems_le_iff, List.map_map]
      intro tree member
      obtain ⟨item, there, rfl⟩ := List.mem_map.1 member
      exact Nat.le_trans item.depth_normalize_le (Json.depth_le_depthItems there)
  | _ => cases isArray

theorem depth_le_of_ofMembers? {members : List (String × Json)} (h : ofMembers? members = some s) :
    s.toJson.depth ≤ max 2 (Json.depthMembers members + 1) := by
  obtain ⟨name, -, rest⟩ := Option.bind_eq_some_iff.1 h
  obtain ⟨elementType, -, rest⟩ := Option.bind_eq_some_iff.1 rest
  obtain ⟨elements, found, rest⟩ := Option.bind_eq_some_iff.1 rest
  obtain ⟨byReference, -, rest⟩ := Option.bind_eq_some_iff.1 rest
  obtain ⟨rank, -, made⟩ := Option.bind_eq_some_iff.1 rest
  cases made
  rw [depth_toJson]
  rcases Json.exists_of_fieldOr? found with rfl | ⟨member, there, read⟩
  · exact Nat.le_max_left _ _
  · have inside := depth_elementsOf? read
    have below := Json.depth_le_depthMembers there
    dsimp only
    omega

theorem depth_le_of_elements {items : List Json} {given : Json} (there : given ∈ items)
    (found : elementsOf? given = some s.elements) :
    s.toJson.depth ≤ max 2 (Json.depthItems items + 1) := by
  have inside := depth_elementsOf? found
  have below := Json.depth_le_depthItems there
  rw [depth_toJson]
  omega

theorem depth_le_of_ofItems? {items : List Json} (h : ofItems? items = some s) :
    s.toJson.depth ≤ max 2 (Json.depthItems items + 1) := by
  unfold ofItems? at h
  split at h
  · obtain ⟨name, -, h⟩ := Option.bind_eq_some_iff.1 h
    obtain ⟨elementType, -, h⟩ := Option.bind_eq_some_iff.1 h
    split at h
    · cases h
      rw [depth_toJson]
      exact Nat.le_max_left _ _
    · obtain ⟨elements, found, made⟩ := Option.bind_eq_some_iff.1 h
      cases made
      exact depth_le_of_elements (by simp) found
    · obtain ⟨elements, found, h⟩ := Option.bind_eq_some_iff.1 h
      obtain ⟨byReference, -, made⟩ := Option.bind_eq_some_iff.1 h
      cases made
      exact depth_le_of_elements (by simp) found
    · obtain ⟨elements, found, h⟩ := Option.bind_eq_some_iff.1 h
      obtain ⟨byReference, -, h⟩ := Option.bind_eq_some_iff.1 h
      obtain ⟨rank, -, made⟩ := Option.bind_eq_some_iff.1 h
      cases made
      exact depth_le_of_elements (by simp) found
    · cases h
  · cases h

theorem depth_le_of_ofJson? (h : ofJson? j = some s) : s.toJson.depth ≤ max 2 j.depth := by
  cases j with
  | object members => exact depth_le_of_ofMembers? h
  | array items => exact depth_le_of_ofItems? h
  | _ => cases h

end ArraySnapshot

namespace Request

variable {r : Request} {method : String}

theorem depth_snapshotsOf? {j : Json} {snapshots : List ArraySnapshot}
    (h : snapshotsOf? j = some snapshots) :
    Json.depthItems (snapshots.map ArraySnapshot.toJson) + 1 ≤ max 3 j.depth := by
  obtain ⟨items, isArray, read⟩ := Option.bind_eq_some_iff.1 h
  cases j with
  | array listed =>
      cases isArray
      have each : Json.depthItems (snapshots.map ArraySnapshot.toJson) ≤
          max 2 (Json.depthItems items) := by
        rw [Json.depthItems_le_iff]
        intro tree member
        obtain ⟨s, there, rfl⟩ := List.mem_map.1 member
        obtain ⟨item, listed, made⟩ := Json.exists_of_mem_mapM read there
        have bound := ArraySnapshot.depth_le_of_ofJson? made
        have below := Json.depth_le_depthItems listed
        omega
      simp only [Json.depth]
      omega
  | _ => cases isArray

theorem depth_le_of_ofParams? {params : List (String × Json)} (h : ofParams? method params = some r) :
    ∀ written ∈ r.params?, written.depth ≤ max 4 (Json.depthMembers params + 1) := by
  unfold ofParams? at h
  split at h
  · obtain ⟨snapshots, found, made⟩ := Option.bind_eq_some_iff.1 h
    cases made
    obtain ⟨member, there, read⟩ := Json.exists_of_field? found
    have inside := depth_snapshotsOf? read
    have below := Json.depth_le_depthMembers there
    rintro written ⟨⟩
    simp only [Json.depth, Json.depthMembers]
    omega
  · obtain ⟨name, -, made⟩ := Option.bind_eq_some_iff.1 h
    cases made
    rintro written ⟨⟩
    simp only [Json.depth, Json.depthMembers]
    omega
  · obtain ⟨name, -, rest⟩ := Option.bind_eq_some_iff.1 h
    obtain ⟨index, -, made⟩ := Option.bind_eq_some_iff.1 rest
    cases made
    rintro written ⟨⟩
    simp only [Json.depth, Json.depthMembers, Json.int64]
    omega
  · obtain ⟨name, -, rest⟩ := Option.bind_eq_some_iff.1 h
    obtain ⟨index, -, rest⟩ := Option.bind_eq_some_iff.1 rest
    obtain ⟨value, found, made⟩ := Option.bind_eq_some_iff.1 rest
    cases made
    obtain ⟨member, there, read⟩ := Json.exists_of_field? found
    cases read
    have normal := member.2.depth_normalize_le
    have below := Json.depth_le_depthMembers there
    rintro written ⟨⟩
    simp only [Json.depth, Json.depthMembers, Json.int64, Json.toDocument]
    omega
  · cases h

theorem depth_le_of_ofCall? {params : Json} (h : ofCall? method params = some r) :
    ∀ written ∈ r.params?, written.depth ≤ max 4 params.depth := by
  unfold ofCall? at h
  split at h
  · unfold ofMethod? at h
    split at h
    · cases h
      nofun
    · cases h
      nofun
    · cases h
  · exact depth_le_of_ofParams? h
  · cases h

theorem depth_le_of_ofMembers? {name? : Json → Option String} {members : List (String × Json)}
    (h : ofMembers? name? members = some r) :
    Json.depthMembers r.toMembers ≤ max 4 (Json.depthMembers members) := by
  obtain ⟨method, -, rest⟩ := Option.bind_eq_some_iff.1 h
  obtain ⟨params, found, made⟩ := Option.bind_eq_some_iff.1 rest
  have bound := depth_le_of_ofCall? made
  have given : params.depth ≤ Json.depthMembers members := by
    rcases Json.exists_of_fieldOr? found with rfl | ⟨member, there, read⟩
    · exact Nat.zero_le _
    · cases read
      exact Json.depth_le_depthMembers there
  unfold toMembers
  cases written : r.params? with
  | none => simp [Json.depthMembers, Json.depth]
  | some params =>
      have nested := bound params written
      simp only [Json.depthMembers, Json.depth]
      omega

end Request

end Nesting

namespace Message

variable {m : Message Request}

theorem requestOfText?_requestText (nested : (m.toJson Request.toMembers).depth ≤ Json.maxDepth) :
    requestOfText? (requestText m) = some m := by
  apply read_text m.content.unenveloped_toMembers _ nested
  intro version id
  exact m.content.ofMessageMembers?_envelope version id

/-- What is written of a message that was read has at least the depth that the reader has. -/
theorem depth_le_of_requestOfText? {text : String} (h : requestOfText? text = some m) :
    (m.toJson Request.toMembers).depth ≤ Json.maxDepth := by
  obtain ⟨j, parsed, read⟩ := Option.bind_eq_some_iff.1 h
  have bounded := Json.depth_le_of_parse? parsed
  unfold ofJson? at read
  split at read
  · next members =>
    obtain ⟨version, -, rest⟩ := Option.bind_eq_some_iff.1 read
    obtain ⟨id, -, rest⟩ := Option.bind_eq_some_iff.1 rest
    obtain ⟨content, found, made⟩ := Option.bind_eq_some_iff.1 rest
    cases made
    have inside := Request.depth_le_of_ofMembers? found
    have enveloped := depth_toJson_le ⟨version, id, content⟩ Request.toMembers
    simp only [Json.depth, Json.maxDepth] at bounded enveloped ⊢
    omega
  · cases read

/-- Requests survive the wire. One that nests no deeper than the reader allows is read back as it
was written; and whatever text was read, what is written of it is read back as the same, with the
same text when it is written once more. -/
theorem requests_survive :
    (∀ m : Message Request, (m.toJson Request.toMembers).depth ≤ 127 →
      requestOfText? (requestText m) = some m) ∧
    ∀ (text : String) (m : Message Request), requestOfText? text = some m →
      ∃ again, requestOfText? (requestText m) = some again ∧ again = m ∧
        requestText again = requestText m := by
  constructor
  · intro m nested
    exact requestOfText?_requestText nested
  · intro text m read
    exact ⟨m, requestOfText?_requestText (depth_le_of_requestOfText? read), rfl, rfl⟩

/-- A message with a double, a key out of order and no id. -/
def sampleMessage : Message Request where
  version := "2.0"
  id := none
  content := .store "xs" (-1) (Json.toDocument
    (.array [.number (.double ⟨true, 0x3FB999999999999A, by decide⟩ (by decide)),
      .object [("b", .null), ("a", .string "\t")]]))

/-- A message whose members are out of order, with one that means nothing and a snapshot by
position. -/
def sampleText : String :=
  "\x7b\"params\":\x7b\"arrays\":[[\"xs\",\"double\",[1E-1,null,-0]]]\x7d," ++
    "\"extra\":[],\"method\":\"initialize\",\"id\":7,\"jsonrpc\":\"2.0\"\x7d"

theorem requests_survive_sample :
    requestOfText? (requestText sampleMessage) = some sampleMessage ∧
      ∃ m, requestOfText? sampleText = some m ∧ requestOfText? (requestText m) = some m := by
  have shallow : (sampleMessage.toJson Request.toMembers).depth ≤ 127 := by decide +kernel
  have accepted : (requestOfText? sampleText).isSome = true := by decide +kernel
  obtain ⟨m, read⟩ := Option.isSome_iff_exists.1 accepted
  obtain ⟨again, back, same, -⟩ := requests_survive.2 sampleText m read
  rw [same] at back
  exact ⟨requests_survive.1 sampleMessage shallow, m, read, back⟩

end Message

end DebugArrays
