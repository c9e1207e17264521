import DebugArrays.Types.DebugType

/-!
Accessor methods of arrays. An array type offers three by name; they are recognised and refused, so
that a caller does not look for them elsewhere.
-/
namespace DebugArrays

inductive Accessor where
  | get
  | set
  | address
deriving DecidableEq, Repr

/-- The accessor that a method is, given the type that declares it. -/
def Accessor.of? (declaring : DebugType) (method : String) : Option Accessor :=
  if declaring.isArray then
    match method with
    | "Get" => some .get
    | "Set" => some .set
    | "Address" => some .address
    | _ => none
  else none

/-- What an array answers when it is offered a method call. -/
inductive CallOutcome where
  | unsupported (accessor : Accessor)
  | notHandled
deriving DecidableEq, Repr

def CallOutcome.of (declaring : DebugType) (method : String) : CallOutcome :=
  match Accessor.of? declaring method with
  | some accessor => .unsupported accessor
  | none => .notHandled

end DebugArrays
