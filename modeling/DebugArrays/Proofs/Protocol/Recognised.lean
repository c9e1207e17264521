import DebugArrays.Proofs.Json.Order
import DebugArrays.Protocol.Message

/-!
A request depends on its recognised members alone. At each level, the message, its parameters and
the snapshots in them, order and other keys do not matter, and a recognised key must not repeat.
-/
namespace DebugArrays

open Json (Reordered SameFields Repeats IgnoresOrder)

namespace ArraySnapshot

def keys : List String :=
  ["name", "element_type", "elements", "by_reference", "rank"]

/-- Snapshots that differ in order and, as objects, in members of other keys. -/
inductive Alike : Json → Json → Prop
  | refl (j : Json) : Alike j j
  | fields {a b : List (String × Json)} (same : SameFields keys (fun _ => Reordered) a b) :
      Alike (.object a) (.object b)
  | items {a b : List Json} (same : List.Forall₂ Reordered a b) : Alike (.array a) (.array b)

theorem ignoresOrder_elementsOf? : IgnoresOrder elementsOf? := by
  intro j
  cases j with
  | array items =>
      simp only [Json.normalize, Json.normalizeItems_eq_map, elementsOf?, Json.toItems?,
        Option.map_some, List.map_map]
      congr 2
      funext item
      exact Document.ext (Json.normalize_of_canonical _ item.canonical_normalize)
  | _ => rfl

theorem ignoresOrder_byReferenceOf? : IgnoresOrder byReferenceOf? := fun j => by cases j <;> rfl

variable {a b : List (String × Json)} {j k : Json}

theorem ofMembers?_eq_of_sameFields (same : SameFields keys (fun _ => Reordered) a b) :
    ofMembers? a = ofMembers? b := by
  unfold ofMembers?
  rw [same.field?_eq (by decide) fun _ _ => Json.ignoresOrder_toString?.eq_of_reordered,
    same.field?_eq (by decide) fun _ _ => Json.ignoresOrder_toString?.eq_of_reordered,
    same.fieldOr?_eq (by decide) fun _ _ => ignoresOrder_elementsOf?.eq_of_reordered,
    same.fieldOr?_eq (by decide) fun _ _ => ignoresOrder_byReferenceOf?.eq_of_reordered,
    same.fieldOr?_eq (by decide) fun _ _ => Json.ignoresOrder_toUInt32?.eq_of_reordered]

theorem ofItems?_map_normalize (items : List Json) :
    ofItems? (items.map Json.normalize) = ofItems? items := by
  have string := Json.ignoresOrder_toString?
  have elements := ignoresOrder_elementsOf?
  have byReference := ignoresOrder_byReferenceOf?
  have rank := Json.ignoresOrder_toUInt32?
  unfold IgnoresOrder at string elements byReference rank
  match items with
  | [] => rfl
  | [_] => rfl
  | [_, _] => simp only [List.map, ofItems?, string]
  | [_, _, _] => simp only [List.map, ofItems?, string, elements]
  | [_, _, _, _] => simp only [List.map, ofItems?, string, elements, byReference]
  | [_, _, _, _, _] => simp only [List.map, ofItems?, string, elements, byReference, rank]
  | _ :: _ :: _ :: _ :: _ :: _ :: _ => simp only [List.map, ofItems?, string]

theorem ofItems?_eq_of_reordered {items others : List Json}
    (same : List.Forall₂ Reordered items others) : ofItems? items = ofItems? others := by
  have forms : items.map Json.normalize = others.map Json.normalize := by
    induction same with
    | nil => rfl
    | cons first _ ih => rw [List.map_cons, List.map_cons, first.normalize_eq, ih]
  rw [← ofItems?_map_normalize, forms, ofItems?_map_normalize]

theorem Alike.ofJson?_eq (same : Alike j k) : ofJson? j = ofJson? k := by
  cases same with
  | refl j => rfl
  | fields same => exact ofMembers?_eq_of_sameFields same
  | items same => exact ofItems?_eq_of_reordered same

theorem not_repeats_of_ofMembers? {key : String} {s : ArraySnapshot}
    (h : ofMembers? a = some s) (known : key ∈ keys) : ¬Repeats key a := by
  obtain ⟨name, readName, h⟩ := Option.bind_eq_some_iff.1 h
  obtain ⟨elementType, readType, h⟩ := Option.bind_eq_some_iff.1 h
  obtain ⟨elements, readElements, h⟩ := Option.bind_eq_some_iff.1 h
  obtain ⟨byReference, readReference, h⟩ := Option.bind_eq_some_iff.1 h
  obtain ⟨rank, readRank, -⟩ := Option.bind_eq_some_iff.1 h
  simp only [keys, List.mem_cons, List.not_mem_nil, or_false] at known
  rcases known with rfl | rfl | rfl | rfl | rfl
  · exact Json.not_repeats_of_field? readName
  · exact Json.not_repeats_of_field? readType
  · exact Json.not_repeats_of_fieldOr? readElements
  · exact Json.not_repeats_of_fieldOr? readReference
  · exact Json.not_repeats_of_fieldOr? readRank

end ArraySnapshot

namespace Request

/-- The keys of a method's parameters. -/
def paramKeys : String → List String
  | "initialize" => ["arrays"]
  | "length" => ["name"]
  | "element" => ["name", "index"]
  | "store" => ["name", "index", "value"]
  | _ => []

/-- Values of a parameter that differ within snapshots or within a free-form value. -/
inductive ParamAlike (key : String) : Json → Json → Prop
  | refl (j : Json) : ParamAlike key j j
  | snapshots {items others : List Json} (named : key = "arrays")
      (same : List.Forall₂ ArraySnapshot.Alike items others) :
      ParamAlike key (.array items) (.array others)
  | freeForm {j k : Json} (named : key = "value") (same : Reordered j k) : ParamAlike key j k

inductive ParamsAlike (method : String) : Json → Json → Prop
  | refl (j : Json) : ParamsAlike method j j
  | fields {a b : List (String × Json)} (same : SameFields (paramKeys method) ParamAlike a b) :
      ParamsAlike method (.object a) (.object b)

variable {a b : List (String × Json)} {j k : Json} {method key : String}

theorem snapshotsOf?_eq_of_alike (same : ParamAlike "arrays" j k) :
    snapshotsOf? j = snapshotsOf? k := by
  cases same with
  | refl j => rfl
  | freeForm named => exact absurd named (by decide)
  | snapshots _ same =>
      unfold snapshotsOf? Json.toItems?
      rw [Option.bind_some, Option.bind_some]
      induction same with
      | nil => rfl
      | cons first _ ih => rw [List.mapM_cons, List.mapM_cons, first.ofJson?_eq, ih]

theorem ParamAlike.eq_of_plain (same : ParamAlike key j k) (arrays : key ≠ "arrays")
    (value : key ≠ "value") : j = k := by
  cases same with
  | refl j => rfl
  | snapshots named => exact absurd named arrays
  | freeForm named => exact absurd named value

theorem toDocument_eq_of_alike (same : ParamAlike "value" j k) : j.toDocument = k.toDocument := by
  cases same with
  | refl j => rfl
  | snapshots named => exact absurd named (by decide)
  | freeForm _ same => exact same.toDocument_eq

theorem ofParams?_eq_of_sameFields (same : SameFields (paramKeys method) ParamAlike a b) :
    ofParams? method a = ofParams? method b := by
  have name : ∀ j k, ParamAlike "name" j k → j.toString? = k.toString? := fun _ _ same =>
    congrArg _ (same.eq_of_plain (by decide) (by decide))
  have index : ∀ j k, ParamAlike "index" j k → j.toInt64? = k.toInt64? := fun _ _ same =>
    congrArg _ (same.eq_of_plain (by decide) (by decide))
  unfold ofParams?
  split
  · rw [same.field?_eq (by decide) fun _ _ => snapshotsOf?_eq_of_alike]
  · rw [same.field?_eq (by decide) name]
  · rw [same.field?_eq (by decide) name, same.field?_eq (by decide) index]
  · rw [same.field?_eq (by decide) name, same.field?_eq (by decide) index,
      same.field?_eq (by decide) fun _ _ same => congrArg some (toDocument_eq_of_alike same)]
  · rfl

theorem ParamsAlike.ofCall?_eq (same : ParamsAlike method j k) :
    ofCall? method j = ofCall? method k := by
  cases same with
  | refl j => rfl
  | fields same => exact ofParams?_eq_of_sameFields same

theorem not_repeats_of_ofParams? {r : Request} (h : ofParams? method a = some r)
    (known : key ∈ paramKeys method) : ¬Repeats key a := by
  unfold ofParams? at h
  unfold paramKeys at known
  split at h
  · obtain ⟨arrays, readArrays, -⟩ := Option.bind_eq_some_iff.1 h
    cases List.mem_singleton.1 known
    exact Json.not_repeats_of_field? readArrays
  · obtain ⟨name, readName, -⟩ := Option.bind_eq_some_iff.1 h
    cases List.mem_singleton.1 known
    exact Json.not_repeats_of_field? readName
  · obtain ⟨name, readName, h⟩ := Option.bind_eq_some_iff.1 h
    obtain ⟨index, readIndex, -⟩ := Option.bind_eq_some_iff.1 h
    simp only [List.mem_cons, List.not_mem_nil, or_false] at known
    rcases known with rfl | rfl
    · exact Json.not_repeats_of_field? readName
    · exact Json.not_repeats_of_field? readIndex
  · obtain ⟨name, readName, h⟩ := Option.bind_eq_some_iff.1 h
    obtain ⟨index, readIndex, h⟩ := Option.bind_eq_some_iff.1 h
    obtain ⟨value, readValue, -⟩ := Option.bind_eq_some_iff.1 h
    simp only [List.mem_cons, List.not_mem_nil, or_false] at known
    rcases known with rfl | rfl | rfl
    · exact Json.not_repeats_of_field? readName
    · exact Json.not_repeats_of_field? readIndex
    · exact Json.not_repeats_of_field? readValue
  · cases h

/-- No snapshot of a request that loads repeats a key. -/
theorem not_repeats_of_snapshotsOf? {snapshots : List ArraySnapshot} {items : List Json}
    (h : snapshotsOf? (.array items) = some snapshots) (there : .object a ∈ items)
    (known : key ∈ ArraySnapshot.keys) : ¬Repeats key a := by
  have read : ArraySnapshot.ofJson? (.object a) ∈ snapshots.map some := by
    rw [← Json.map_of_mapM h]
    exact List.mem_map_of_mem there
  obtain ⟨s, -, made⟩ := List.mem_map.1 read
  exact ArraySnapshot.not_repeats_of_ofMembers? made.symm known

/-- The keys of a message that carries a request. -/
def messageKeys : List String :=
  ["jsonrpc", "id", "method", "params"]

/-- Some member names the method. -/
def Names (method : String) (members : List (String × Json)) : Prop :=
  ∃ tag, ("method", tag) ∈ members ∧ tag.toLooseName? = some method

/-- Values of a message's member that differ within the parameters of the method it names. -/
inductive MemberAlike (members : List (String × Json)) (key : String) : Json → Json → Prop
  | refl (j : Json) : MemberAlike members key j j
  | params {j k : Json} (named : key = "params")
      (same : ∀ method, Names method members → ParamsAlike method j k) :
      MemberAlike members key j k

/-- Messages that differ only in the order of their members, of their parameters, of the fields of
snapshots and of free-form objects, and in members of keys that are not defined there. -/
inductive MessageAlike : Json → Json → Prop
  | fields {a b : List (String × Json)} (same : SameFields messageKeys (MemberAlike a) a b) :
      MessageAlike (.object a) (.object b)

/-- A message with a key that its level defines and that occurs there twice. -/
inductive RepeatsField : Json → Prop
  | message {members : List (String × Json)} {key : String} (known : key ∈ messageKeys)
      (twice : Repeats key members) : RepeatsField (.object members)
  | params {members params : List (String × Json)} {method key : String}
      (given : Names method members) (there : ("params", .object params) ∈ members)
      (known : key ∈ paramKeys method) (twice : Repeats key params) :
      RepeatsField (.object members)
  | snapshot {members params fields : List (String × Json)} {items : List Json} {key : String}
      (given : Names "initialize" members) (there : ("params", .object params) ∈ members)
      (listed : ("arrays", .array items) ∈ params) (item : .object fields ∈ items)
      (known : key ∈ ArraySnapshot.keys) (twice : Repeats key fields) :
      RepeatsField (.object members)

theorem MemberAlike.eq_of_ne {members : List (String × Json)} (same : MemberAlike members key j k)
    (other : key ≠ "params") : j = k := by
  cases same with
  | refl => rfl
  | params named => exact absurd named other

theorem ofMessageMembers?_eq_of_sameFields (same : SameFields messageKeys (MemberAlike a) a b) :
    ofMessageMembers? a = ofMessageMembers? b := by
  have tag : Json.field? "method" Json.toLooseName? a = Json.field? "method" Json.toLooseName? b :=
    same.field?_eq (by decide) fun _ _ alike => congrArg _ (alike.eq_of_ne (by decide))
  have params : (Json.occurrence "params" a).Alike (MemberAlike a "params")
      (Json.occurrence "params" b) := same.occurrence_alike (by decide)
  unfold ofMessageMembers? ofMembers? Json.fieldOr?
  rw [← tag]
  cases named : Json.field? "method" Json.toLooseName? a with
  | none => rfl
  | some method =>
      have given : Names method a := Json.mem_of_field? named
      generalize Json.occurrence "params" a = found at params
      generalize Json.occurrence "params" b = found' at params
      cases params with
      | absent => rfl
      | repeated => rfl
      | once related =>
          cases related with
          | refl => rfl
          | params _ same => exact (same method given).ofCall?_eq

theorem MessageAlike.ofJson?_eq (same : MessageAlike j k) :
    Message.ofJson? ofMessageMembers? j = Message.ofJson? ofMessageMembers? k := by
  cases same with
  | fields same =>
      unfold Message.ofJson?
      dsimp only
      rw [ofMessageMembers?_eq_of_sameFields same,
        same.field?_eq (by decide) fun _ _ alike => congrArg _ (alike.eq_of_ne (by decide)),
        same.fieldOr?_eq (by decide) fun _ _ alike => congrArg _ (alike.eq_of_ne (by decide))]

/-- What a decoded message was read from: its version, its id, its method and the parameters. -/
theorem exists_of_ofJson? {members : List (String × Json)} {m : Message Request}
    (h : Message.ofJson? ofMessageMembers? (.object members) = some m) :
    Json.field? "jsonrpc" Json.toString? members = some m.version ∧
      Json.fieldOr? "id" none (Json.toNullable? Json.toUInt64?) members = some m.id ∧
      ∃ method params, Json.field? "method" Json.toLooseName? members = some method ∧
        Json.fieldOr? "params" .null some members = some params ∧
        ofCall? method params = some m.content := by
  obtain ⟨version, readVersion, h⟩ := Option.bind_eq_some_iff.1 h
  obtain ⟨id, readId, h⟩ := Option.bind_eq_some_iff.1 h
  obtain ⟨content, readContent, made⟩ := Option.bind_eq_some_iff.1 h
  cases made
  obtain ⟨method, readMethod, readContent⟩ := Option.bind_eq_some_iff.1 readContent
  obtain ⟨params, readParams, called⟩ := Option.bind_eq_some_iff.1 readContent
  exact ⟨readVersion, readId, method, params, readMethod, readParams, called⟩

/-- A message with parameters is decoded by the method it names from those very parameters. -/
theorem ofParams?_of_ofJson? {members params : List (String × Json)} {m : Message Request}
    (h : Message.ofJson? ofMessageMembers? (.object members) = some m)
    (given : Names method members) (there : ("params", .object params) ∈ members) :
    ofParams? method params = some m.content := by
  obtain ⟨-, -, named, passed, readMethod, readParams, called⟩ := exists_of_ofJson? h
  obtain ⟨tag, tagged, read⟩ := given
  cases read.symm.trans (Json.decode_of_field? readMethod tagged)
  cases Json.decode_of_fieldOr? readParams there
  exact called

theorem RepeatsField.ofJson?_eq_none (repeats : RepeatsField j) :
    Message.ofJson? ofMessageMembers? j = none := by
  apply Option.eq_none_iff_forall_ne_some.2
  intro m h
  cases repeats with
  | message known twice =>
      obtain ⟨readVersion, readId, method, params, readMethod, readParams, -⟩ := exists_of_ofJson? h
      simp only [messageKeys, List.mem_cons, List.not_mem_nil, or_false] at known
      rcases known with rfl | rfl | rfl | rfl
      · exact Json.not_repeats_of_field? readVersion twice
      · exact Json.not_repeats_of_fieldOr? readId twice
      · exact Json.not_repeats_of_field? readMethod twice
      · exact Json.not_repeats_of_fieldOr? readParams twice
  | params given there known twice =>
      exact not_repeats_of_ofParams? (ofParams?_of_ofJson? h given there) known twice
  | snapshot given there listed item known twice =>
      have loads := ofParams?_of_ofJson? h given there
      obtain ⟨arrays, readArrays, -⟩ := Option.bind_eq_some_iff.1 loads
      have read := Json.decode_of_field? readArrays listed
      exact not_repeats_of_snapshotsOf? read item known twice

/-- Decoding depends on the recognised members alone, and on each of them being there once. -/
theorem ofJson?_recognised :
    (∀ j k, MessageAlike j k →
        Message.ofJson? ofMessageMembers? j = Message.ofJson? ofMessageMembers? k) ∧
      ∀ j, RepeatsField j → Message.ofJson? ofMessageMembers? j = none :=
  ⟨fun _ _ same => same.ofJson?_eq, fun _ repeats => repeats.ofJson?_eq_none⟩

/-- A load with its members moved and other members added at all three levels, and one in which a
snapshot has two names. -/
theorem ofJson?_recognised_moved :
    let message (params : List (String × Json)) : List (String × Json) :=
      [("jsonrpc", .string "2.0"), ("method", .string "initialize"), ("params", .object params)]
    let fields (elements : Json) : List (String × Json) :=
      [("name", .string "xs"), ("element_type", .string "int"), ("elements", elements)]
    let first := fields (.array [.object [("a", .null), ("b", .null)]])
    let second := ("comment", .null) ::
      (fields (.array [.object [("b", .null), ("a", .null)]])).reverse
    let plain := Json.object (message [("arrays", .array [.object first])])
    let moved := Json.object (("version", .null) ::
      (message [("name", .null), ("arrays", .array [.object second])]).reverse)
    let doubled := Json.object (message [("arrays", .array [.object (("name", .null) :: first)])])
    MessageAlike plain moved ∧ RepeatsField doubled ∧
      Message.ofJson? ofMessageMembers? plain = Message.ofJson? ofMessageMembers? moved ∧
      (Message.ofJson? ofMessageMembers? moved).isSome = true ∧
      Message.ofJson? ofMessageMembers? doubled = none := by
  intro message fields first second plain moved doubled
  have elements : Reordered (.array [.object [("a", .null), ("b", .null)]])
      (.array [.object [("b", .null), ("a", .null)]]) :=
    .item [] [] (.members (by decide) (.swap _ _ _))
  have snapshots : SameFields ArraySnapshot.keys (fun _ => Reordered) first second :=
    ⟨first.reverse, (List.reverse_perm first).symm,
      .cons ⟨rfl, elements⟩ (.cons ⟨rfl, .refl _⟩ (.cons ⟨rfl, .refl _⟩ .nil))⟩
  have params : SameFields (paramKeys "initialize") ParamAlike [("arrays", .array [.object first])]
      [("name", .null), ("arrays", .array [.object second])] :=
    ⟨_, .refl _, .cons ⟨rfl, .snapshots rfl (.cons (.fields snapshots) .nil)⟩ .nil⟩
  have alike : MessageAlike plain moved := by
    refine .fields ⟨_, (List.reverse_perm _).symm, ?_⟩
    refine .cons ⟨rfl, .params rfl fun method given => ?_⟩ (.cons ⟨rfl, .refl _⟩
      (.cons ⟨rfl, .refl _⟩ .nil))
    obtain ⟨tag, there, read⟩ := given
    obtain rfl : tag = .string "initialize" := by simpa [message] using there
    cases read
    exact .fields params
  have repeats : RepeatsField doubled := by
    have known : "name" ∈ ArraySnapshot.keys := by decide
    have twice : Repeats "name" (("name", .null) :: first) := by decide
    have there : ("params", .object [("arrays", .array [.object (("name", .null) :: first)])]) ∈
        message [("arrays", .array [.object (("name", .null) :: first)])] := by simp [message]
    exact .snapshot ⟨.string "initialize", by simp [message], rfl⟩ there List.mem_cons_self
      List.mem_cons_self known twice
  exact ⟨alike, repeats, ofJson?_recognised.1 plain moved alike, by decide,
    ofJson?_recognised.2 doubled repeats⟩

end Request

end DebugArrays
