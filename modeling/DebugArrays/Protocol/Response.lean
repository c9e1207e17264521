import DebugArrays.Json.Fields
import DebugArrays.World.Ledger

/-!
Responses. They carry no tag: a reader takes the first shape whose fields are all there, so the
fields of each shape have names of their own.
-/
namespace DebugArrays

namespace HandleStats

def toJson (stats : HandleStats) : Json :=
  .object
    [("issued", .uint64 stats.issued), ("released", .uint64 stats.released),
      ("dereferences", .uint64 stats.dereferences), ("element_reads", .uint64 stats.elementReads),
      ("length_queries", .uint64 stats.lengthQueries)]

/-- The counters by name, or all five by position. -/
def ofJson? : Json → Option HandleStats
  | .object members => do
    let issued ← Json.field? "issued" Json.toUInt64? members
    let released ← Json.field? "released" Json.toUInt64? members
    let dereferences ← Json.field? "dereferences" Json.toUInt64? members
    let elementReads ← Json.field? "element_reads" Json.toUInt64? members
    let lengthQueries ← Json.field? "length_queries" Json.toUInt64? members
    return { issued, released, dereferences, elementReads, lengthQueries }
  | .array [issued, released, dereferences, elementReads, lengthQueries] => do
    let issued ← issued.toUInt64?
    let released ← released.toUInt64?
    let dereferences ← dereferences.toUInt64?
    let elementReads ← elementReads.toUInt64?
    let lengthQueries ← lengthQueries.toUInt64?
    return { issued, released, dereferences, elementReads, lengthQueries }
  | _ => none

end HandleStats

inductive Response where
  | length (found : Bool) (n : Int64)
  | element (value valueType : String)
  | stored (accepted : Bool)
  | stats (ledger : HandleStats)
  | success (ok : Bool)
  | error (message : String)
deriving DecidableEq

namespace Response

def toMembers : Response → List (String × Json)
  | .length found n => [("found", .bool found), ("length", .int64 n)]
  | .element value valueType => [("value", .string value), ("value_type", .string valueType)]
  | .stored accepted => [("accepted", .bool accepted)]
  | .stats ledger => [("stats", ledger.toJson)]
  | .success ok => [("ok", .bool ok)]
  | .error message => [("error", .string message)]

def toJson (r : Response) : Json :=
  .object r.toMembers

/-- The first shape that the members fill. -/
def ofMembers? (members : List (String × Json)) : Option Response :=
  (do
    let found ← Json.field? "found" Json.toBool? members
    let n ← Json.field? "length" Json.toInt64? members
    return .length found n) <|>
  (do
    let value ← Json.field? "value" Json.toString? members
    let valueType ← Json.field? "value_type" Json.toString? members
    return .element value valueType) <|>
  (do
    let accepted ← Json.field? "accepted" Json.toBool? members
    return .stored accepted) <|>
  (do
    let ledger ← Json.field? "stats" HandleStats.ofJson? members
    return .stats ledger) <|>
  (do
    let ok ← Json.field? "ok" Json.toBool? members
    return .success ok) <|>
  (do
    let message ← Json.field? "error" Json.toString? members
    return .error message)

end Response

end DebugArrays
