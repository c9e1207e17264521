import DebugArrays.Binary.Round
import DebugArrays.Json.Basic
import DebugArrays.Value.Basic

/-!
Fitting a value to an element type, and reading one from JSON. Integers have to fit, and never come
from a float; floats come from integers and from the other precision; a string of one character may
become a character. A value that already has the type is left as it is.
-/
namespace DebugArrays.Value

def toDouble? : Value → Option Binary64
  | .int _ n _ => some (.ofInt .double n)
  | .float .single x => some (x.convert .double)
  | .float .double x => some x
  | _ => none

/-- The narrow float of a double. A finite double out of range has none. -/
def narrow? (x : Binary64) : Option Value :=
  let y := x.convert .single
  if y.isFinite || !x.isFinite then some (.float .single y) else none

/-- The character of a string that holds exactly one. -/
def singleChar? (s : String) : Option Char :=
  match s.toList with
  | [c] => some c
  | _ => none

/-- What a value becomes in an element of another type. -/
def convert? (v : Value) : Primitive → Option Value
  | .int kind => v.toInt?.bind (ofInt? kind)
  | .float .single => v.toDouble?.bind narrow?
  | .float .double => v.toDouble?.map (.float .double)
  | .char =>
    match v with
    | .string s => (singleChar? s).map .char
    | _ => none
  | .bool => none
  | .string => none

/-- The value as an element of type `p` holds it. -/
def coerce? (v : Value) (p : Primitive) : Option Value :=
  if v.primitive? = some p then some v else v.convert? p

/-- A JSON integer in a wide kind: the signed one where it fits, else the unsigned one. -/
def ofWideInt (n : Int) (inRange : IsWideInt n) : Value :=
  if h : n ≤ 0x7FFF_FFFF_FFFF_FFFF then .int .int64 n ⟨inRange.1, h⟩
  else .int .uint64 n ⟨show (0 : Int) ≤ n by omega, inRange.2⟩

/-- The value a JSON scalar stands for before an element type is known. -/
def ofScalar? : Json → Option Value
  | .bool b => some (.bool b)
  | .string s => some (.string s)
  | .number (.integer n inRange) => some (ofWideInt n inRange)
  | .number (.double x _) => some (.float .double x)
  | _ => none

def ofJson? (j : Json) (p : Primitive) : Option Value :=
  (ofScalar? j).bind fun v => v.coerce? p

end DebugArrays.Value
