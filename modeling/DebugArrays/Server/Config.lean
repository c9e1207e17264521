import DebugArrays.Text.Blank

/-!
Configuration from the environment, read once at start: the log filter, and how arrays are held
when a snapshot does not say.
-/
namespace DebugArrays

structure Config where
  logFilter : String := "info"
  byReference : Bool := true
deriving DecidableEq, Repr

namespace Config

def logVariable : String := "DBGEVAL_LOG"

def byReferenceVariable : String := "DBGEVAL_BY_REFERENCE"

/-- The words that turn a switch off; every other word leaves it on. -/
def offWords : List String :=
  ["0", "false", "no", "off"]

/-- A blank log filter counts as none; any other is kept as it stands. -/
def ofLookup (lookup : String → Option String) : Config where
  logFilter := ((lookup logVariable).filter fun filter => !Text.isBlankText filter).getD "info"
  byReference :=
    match lookup byReferenceVariable with
    | some switch => !offWords.contains (Text.trim switch)
    | none => true

end Config

end DebugArrays
