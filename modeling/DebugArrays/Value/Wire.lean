import DebugArrays.Json.Fields
import DebugArrays.Json.Printer
import DebugArrays.Value.Coerce

/-!
The serialized form of a value: an object with one member, whose key names the variant. A narrow
float is written with its own digits, so the text is made here and not from a tree of doubles.
-/
namespace DebugArrays.Value

def variant : Value → String
  | .int .int8 _ _ => "I8"
  | .int .uint8 _ _ => "U8"
  | .int .int16 _ _ => "I16"
  | .int .uint16 _ _ => "U16"
  | .int .int32 _ _ => "I32"
  | .int .uint32 _ _ => "U32"
  | .int .int64 _ _ => "I64"
  | .int .uint64 _ _ => "U64"
  | .float .single _ => "F32"
  | .float .double _ => "F64"
  | .bool _ => "Bool"
  | .char _ => "Char"
  | .string _ => "String"
  | .ref _ _ => "Ref"

def payloadChars : Value → List Char
  | .int _ n _ => Text.integer n
  | .float .single x => x.text Json.singleStyle
  | .float .double x => x.text Json.doubleStyle
  | .bool b => (Json.bool b).chars
  | .char c => Json.quoted (String.singleton c)
  | .string s => Json.quoted s
  | .ref address typeName =>
    (Json.object [("address", .uint64 address), ("type_name", .string typeName)]).chars

def wireText (v : Value) : String :=
  String.ofList ('\x7b' :: Json.quoted v.variant ++ ':' :: v.payloadChars ++ ['\x7d'])

/-- A JSON number in a precision. Only here does a double out of range become infinite. -/
def ofNumber (precision : Precision) : JsonNumber → Value
  | .integer n _ => .float precision (.ofInt precision n)
  | .double x _ => .float precision (x.convert precision)

def ofPayload? (source : Json.Source) (variant : String) (payload : Json) : Option Value :=
  match variant with
  | "I8" => payload.toInt?.bind (ofInt? .int8)
  | "U8" => payload.toInt?.bind (ofInt? .uint8)
  | "I16" => payload.toInt?.bind (ofInt? .int16)
  | "U16" => payload.toInt?.bind (ofInt? .uint16)
  | "I32" => payload.toInt?.bind (ofInt? .int32)
  | "U32" => payload.toInt?.bind (ofInt? .uint32)
  | "I64" => payload.toInt?.bind (ofInt? .int64)
  | "U64" => payload.toInt?.bind (ofInt? .uint64)
  | "F32" => payload.toNumber?.map (ofNumber .single)
  | "F64" => payload.toNumber?.map (ofNumber .double)
  | "Bool" => payload.toBool?.map .bool
  | "Char" => (payload.toString?.bind singleChar?).map .char
  | "String" => payload.toString?.map .string
  | "Ref" => do
    let members ← payload.taggedMembers? source ["address", "type_name"]
    let address ← Json.field? "address" Json.toUInt64? members
    let typeName ← Json.field? "type_name" Json.toString? members
    return .ref address typeName
  | _ => none

def ofWire? (source : Json.Source) : Json → Option Value
  | .object [(variant, payload)] => ofPayload? source variant payload
  | _ => none

end DebugArrays.Value
