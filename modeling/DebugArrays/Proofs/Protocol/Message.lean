import DebugArrays.Proofs.Json.Fields
import DebugArrays.Proofs.Json.RoundTrip
import DebugArrays.Protocol.Message

/-!
The envelope of a message. It shares one object with its contents, so what it needs of them is that
they leave its two keys alone and are still read where these are.
-/
namespace DebugArrays

namespace Json

@[simp] theorem toNullable?_null {α : Type} (decode : Json → Option α) :
    toNullable? decode .null = some none := rfl

@[simp] theorem toNullable?_uint64 (n : UInt64) :
    toNullable? toUInt64? (uint64 n) = some (some n) := by
  have read : toNullable? toUInt64? (uint64 n) = (toUInt64? (uint64 n)).map some := rfl
  rw [read, toUInt64?_uint64, Option.map_some]

end Json

namespace Message

variable {α : Type} {m : Message α} {members : α → List (String × Json)}
  {content? : List (String × Json) → Option α}

/-- Members that leave the keys of the envelope to it. -/
structure Unenveloped (members : List (String × Json)) : Prop where
  version : Json.occurrence "jsonrpc" members = .absent
  id : Json.occurrence "id" members = .absent

theorem ofJson?_toJson (apart : Unenveloped (members m.content))
    (read : ∀ version id, content? (("jsonrpc", version) :: ("id", id) :: members m.content) =
      some m.content) : ofJson? content? (m.toJson members) = some m := by
  obtain ⟨version, id, content⟩ := m
  unfold ofJson? toJson
  cases id <;> simp [apart.version, apart.id, read, Json.toString?]

theorem depth_toJson_le (m : Message α) (members : α → List (String × Json)) :
    (m.toJson members).depth ≤ Json.depthMembers (members m.content) + 1 := by
  obtain ⟨version, id, content⟩ := m
  cases id <;> simp [toJson, Json.depth, Json.depthMembers, Json.uint64]

/-- A message that the reader has the depth for is read back from its text. -/
theorem read_text (apart : Unenveloped (members m.content))
    (read : ∀ version id, content? (("jsonrpc", version) :: ("id", id) :: members m.content) =
      some m.content) (nested : (m.toJson members).depth ≤ Json.maxDepth) :
    (Json.parse? (m.toJson members).compact).bind (ofJson? content?) = some m := by
  rw [Json.parse?_compact nested, Option.bind_some, ofJson?_toJson apart read]

end Message

end DebugArrays
