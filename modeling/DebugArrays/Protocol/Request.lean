import DebugArrays.Heap.Snapshot
import DebugArrays.Json.Fields

/-!
Requests and the members that carry them: a method, and parameters for the methods that have some.
The order of members never matters, unknown ones are ignored, and known ones must not repeat.
-/
namespace DebugArrays

inductive Request where
  | load (arrays : List ArraySnapshot)
  | length (name : String)
  | element (name : String) (index : Int64)
  | store (name : String) (index : Int64) (value : Document)
  | stats
  | shutdown

namespace ArraySnapshot

def toJson (s : ArraySnapshot) : Json :=
  .object
    [("name", .string s.name), ("element_type", .string s.elementType),
      ("elements", .array (s.elements.map Document.tree)),
      ("by_reference", match s.byReference with | some b => .bool b | none => .null),
      ("rank", .uint32 s.rank)]

def elementsOf? (j : Json) : Option (List Document) :=
  j.toItems?.map fun items => items.map Json.toDocument

def byReferenceOf? (j : Json) : Option (Option Bool) :=
  j.toNullable? Json.toBool?

def ofMembers? (members : List (String × Json)) : Option ArraySnapshot := do
  let name ← Json.field? "name" Json.toString? members
  let elementType ← Json.field? "element_type" Json.toString? members
  let elements ← Json.fieldOr? "elements" [] elementsOf? members
  let byReference ← Json.fieldOr? "by_reference" none byReferenceOf? members
  let rank ← Json.fieldOr? "rank" 1 Json.toUInt32? members
  return { name, elementType, elements, byReference, rank }

/-- The fields by position; the last three may be left out. -/
def ofItems? : List Json → Option ArraySnapshot
  | name :: elementType :: rest => do
    let name ← name.toString?
    let elementType ← elementType.toString?
    match rest with
    | [] => return { name, elementType }
    | [elements] => return { name, elementType, elements := ← elementsOf? elements }
    | [elements, byReference] =>
      let elements ← elementsOf? elements
      let byReference ← byReferenceOf? byReference
      return { name, elementType, elements, byReference }
    | [elements, byReference, rank] =>
      let elements ← elementsOf? elements
      let byReference ← byReferenceOf? byReference
      let rank ← rank.toUInt32?
      return { name, elementType, elements, byReference, rank }
    | _ => none
  | _ => none

def ofJson? : Json → Option ArraySnapshot
  | .object members => ofMembers? members
  | .array items => ofItems? items
  | _ => none

end ArraySnapshot

namespace Request

def isShutdown : Request → Bool
  | .shutdown => true
  | _ => false

def method : Request → String
  | .load _ => "initialize"
  | .length _ => "length"
  | .element _ _ => "element"
  | .store _ _ _ => "store"
  | .stats => "stats"
  | .shutdown => "shutdown"

def params? : Request → Option Json
  | .load arrays => some (.object [("arrays", .array (arrays.map ArraySnapshot.toJson))])
  | .length name => some (.object [("name", .string name)])
  | .element name index => some (.object [("name", .string name), ("index", .int64 index)])
  | .store name index value =>
    some (.object [("name", .string name), ("index", .int64 index), ("value", value.tree)])
  | .stats => none
  | .shutdown => none

def toMembers (r : Request) : List (String × Json) :=
  ("method", .string r.method) ::
    match r.params? with
    | some params => [("params", params)]
    | none => []

def snapshotsOf? (j : Json) : Option (List ArraySnapshot) :=
  j.toItems?.bind fun items => items.mapM ArraySnapshot.ofJson?

def ofParams? (method : String) (params : List (String × Json)) : Option Request :=
  match method with
  | "initialize" => do
    let arrays ← Json.field? "arrays" snapshotsOf? params
    return .load arrays
  | "length" => do
    let name ← Json.field? "name" Json.toString? params
    return .length name
  | "element" => do
    let name ← Json.field? "name" Json.toString? params
    let index ← Json.field? "index" Json.toInt64? params
    return .element name index
  | "store" => do
    let name ← Json.field? "name" Json.toString? params
    let index ← Json.field? "index" Json.toInt64? params
    let value ← Json.field? "value" (fun j => some j.toDocument) params
    return .store name index value
  | _ => none

def ofMethod? : String → Option Request
  | "stats" => some .stats
  | "shutdown" => some .shutdown
  | _ => none

/-- The request of a method, whose parameters are an object or null for none. -/
def ofCall? (method : String) : Json → Option Request
  | .null => ofMethod? method
  | .object params => ofParams? method params
  | _ => none

/-- A request among members, with `name?` to read its method. No parameters are as good as null. -/
def ofMembers? (name? : Json → Option String) (members : List (String × Json)) :
    Option Request := do
  let method ← Json.field? "method" name? members
  let params ← Json.fieldOr? "params" .null some members
  ofCall? method params

/-- The request that shares its members with a message, where the method is read loosely. -/
def ofMessageMembers? (members : List (String × Json)) : Option Request :=
  ofMembers? Json.toLooseName? members

/-- A request by itself: its members, or method and parameters by position. -/
def ofJson? : Json → Option Request
  | .object members => ofMembers? Json.toName? members
  | .array [.string method, params] => ofCall? method params
  | _ => none

end Request

end DebugArrays
