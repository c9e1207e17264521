import DebugArrays.Json.Fields
import DebugArrays.Json.Reader
import DebugArrays.Types.DebugType

/-!
Serialized type descriptors: an object with one member, whose key says which kind of type it is.
A primitive carries nothing but its tag.
-/
namespace DebugArrays

def Primitive.ofJson? (j : Json) : Option Primitive :=
  j.toName?.bind ofTag?

@[simp] theorem Primitive.ofJson?_tag (p : Primitive) : ofJson? (.string p.tag) = some p :=
  ofTag?_tag p

namespace DebugType

def toJson : DebugType → Json
  | .primitive p => .object [("primitive", .string p.tag)]
  | .szArray element => .object [("sz_array", element.toJson)]
  | .mdArray element rank =>
    .object [("md_array", .object [("element", element.toJson), ("rank", .uint32 rank)])]
  | .byRef target => .object [("by_ref", target.toJson)]
  | .named name => .object [("class", .string name)]

mutual

def ofJson? (source : Json.Source) : Json → Option DebugType
  | .object [(key, value)] =>
    match key with
    | "primitive" => (Primitive.ofJson? value).map .primitive
    | "sz_array" => (ofJson? source value).map .szArray
    | "by_ref" => (ofJson? source value).map .byRef
    | "class" => value.toString?.map .named
    | "md_array" =>
      match value with
      | .object members =>
        match elementTypes source members, Json.field? "rank" Json.toUInt32? members with
        | [some element], some rank => some (.mdArray element rank)
        | _, _ => none
      | .array [element, rank] =>
        match source with
        | .text => (ofJson? source element).bind fun type => rank.toUInt32?.map (.mdArray type)
        | .tree => none
      | _ => none
    | _ => none
  | _ => none

/-- The types described by the members with the key `element`, which has to occur once. -/
def elementTypes (source : Json.Source) : List (String × Json) → List (Option DebugType)
  | [] => []
  | (key, value) :: rest =>
    if key = "element" then ofJson? source value :: elementTypes source rest
    else elementTypes source rest

end

def ofText? (text : String) : Option DebugType :=
  (Json.parse? text).bind (ofJson? .text)

end DebugType

end DebugArrays
