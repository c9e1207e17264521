import DebugArrays.Json.Basic

/-!
Reading typed fields out of an object's members. A field is found by its key wherever it stands,
other keys are ignored, and a key that occurs twice is never read.
-/
namespace DebugArrays.Json

/-- What a tree is read from: a text that is just being parsed, or the tree alone. It makes a
difference for the fields under a tag, which only a text may give by position. -/
inductive Source where
  | text
  | tree

inductive Occurrence where
  | absent
  | once (value : Json)
  | repeated

def occurrence (key : String) (members : List (String × Json)) : Occurrence :=
  match members.filter (·.1 == key) with
  | [] => .absent
  | [member] => .once member.2
  | _ => .repeated

def field? {α : Type} (key : String) (decode : Json → Option α) (members : List (String × Json)) :
    Option α :=
  match occurrence key members with
  | .once value => decode value
  | _ => none

/-- A field that stands for `default` when it is absent. -/
def fieldOr? {α : Type} (key : String) (default : α) (decode : Json → Option α)
    (members : List (String × Json)) : Option α :=
  match occurrence key members with
  | .absent => some default
  | .once value => decode value
  | .repeated => none

/-- The members under a tag with these fields. Values by position are as many as there are fields.
-/
def taggedMembers? (source : Source) (keys : List String) : Json → Option (List (String × Json))
  | .object members => some members
  | .array items =>
    match source with
    | .text => if items.length = keys.length then some (keys.zip items) else none
    | .tree => none
  | _ => none

end DebugArrays.Json
