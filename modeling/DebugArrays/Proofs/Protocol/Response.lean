import DebugArrays.Proofs.Protocol.Message

/-!
Responses on the wire. No shape carries a tag, and a reader that ignores what it does not know tries
the shapes in order; still every response is read back as it was sent, whatever the envelope.
-/
namespace DebugArrays

theorem HandleStats.ofJson?_toJson (stats : HandleStats) : ofJson? stats.toJson = some stats := by
  simp [ofJson?, toJson]

namespace Response

/-- The members of a response tell its shape, also among those of an envelope. -/
theorem ofMembers?_envelope (version id : Json) (r : Response) :
    ofMembers? (("jsonrpc", version) :: ("id", id) :: r.toMembers) = some r := by
  cases r with
  | length found n => simp [ofMembers?, toMembers, Json.toBool?]
  | element value valueType => simp [ofMembers?, toMembers, Json.toString?]
  | stored accepted => simp [ofMembers?, toMembers, Json.toBool?]
  | stats ledger => simp [ofMembers?, toMembers, HandleStats.ofJson?_toJson]
  | success ok => simp [ofMembers?, toMembers, Json.toBool?]
  | error message => simp [ofMembers?, toMembers, Json.toString?]

theorem unenveloped_toMembers (r : Response) : Message.Unenveloped r.toMembers := by
  cases r <;> constructor <;> simp [toMembers]

theorem depthMembers_toMembers_le (r : Response) : Json.depthMembers r.toMembers ≤ 1 := by
  cases r <;> simp [toMembers, Json.depthMembers, Json.depth, Json.int64, HandleStats.toJson,
    Json.uint64]

end Response

namespace Message

theorem read_responseText (m : Message Response) : responseOfText? (responseText m) = some m := by
  have shallow := Nat.succ_le_succ m.content.depthMembers_toMembers_le
  apply read_text m.content.unenveloped_toMembers
  · intro version id
    exact m.content.ofMembers?_envelope version id
  · exact Nat.le_trans (m.depth_toJson_le _) (Nat.le_trans shallow (by decide))

/-- Every response is read back as it was sent, with its id; so no other one has its text. -/
theorem responseOfText?_responseText (m : Message Response) :
    responseOfText? (responseText m) = some m ∧
      ∀ other : Message Response, responseText other = responseText m → other = m := by
  refine ⟨m.read_responseText, ?_⟩
  intro other same
  have twice := other.read_responseText
  rw [same, m.read_responseText] at twice
  exact (Option.some.inj twice).symm

end Message

end DebugArrays
