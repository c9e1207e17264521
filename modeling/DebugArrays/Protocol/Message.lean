import DebugArrays.Json.Printer
import DebugArrays.Json.Reader
import DebugArrays.Protocol.Request
import DebugArrays.Protocol.Response

/-!
Messages: a protocol version, an id and the members of a request or a response, all in one object.
-/
namespace DebugArrays

structure Message (α : Type) where
  version : String
  id : Option UInt64
  content : α
deriving DecidableEq

namespace Message

variable {α : Type}

def new (id : UInt64) (content : α) : Message α :=
  { version := "2.0", id := some id, content }

def toJson (members : α → List (String × Json)) (m : Message α) : Json :=
  .object
    (("jsonrpc", .string m.version) ::
      ("id", match m.id with | some id => .uint64 id | none => .null) :: members m.content)

def ofJson? (content? : List (String × Json) → Option α) : Json → Option (Message α)
  | .object members => do
    let version ← Json.field? "jsonrpc" Json.toString? members
    let id ← Json.fieldOr? "id" none (Json.toNullable? Json.toUInt64?) members
    let content ← content? members
    return { version, id, content }
  | _ => none

def requestOfText? (text : String) : Option (Message Request) :=
  (Json.parse? text).bind (ofJson? Request.ofMessageMembers?)

def responseOfText? (text : String) : Option (Message Response) :=
  (Json.parse? text).bind (ofJson? Response.ofMembers?)

def requestText (m : Message Request) : String :=
  (m.toJson Request.toMembers).compact

def responseText (m : Message Response) : String :=
  (m.toJson Response.toMembers).compact

end Message

end DebugArrays
