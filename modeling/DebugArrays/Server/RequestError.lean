import DebugArrays.Heap.Snapshot

/-!
Why a request gets an error for an answer.
-/
namespace DebugArrays

inductive RequestError where
  | unknownArray (name : String)
  | elementNotFound (name : String) (index : Int64)
  | unsupportedShape (name typeName : String)
  | typeMismatch (expected found : String)
  | snapshot (error : SnapshotError)
  | notInitialized

def RequestError.message : RequestError → String
  | .unknownArray name => "Unknown array: '" ++ name ++ "'"
  | .elementNotFound name index =>
    "Element " ++ .ofList (Text.integer index.toInt) ++ " of '" ++ name ++ "' not found"
  | .unsupportedShape name typeName =>
    "Unsupported operation on " ++ typeName ++ " '" ++ name ++
      "': only single-dimension zero-based arrays can be indexed"
  | .typeMismatch expected found =>
    "Type mismatch: expected " ++ expected ++ ", found " ++ found
  | .snapshot error => error.message
  | .notInitialized => "No arrays loaded; send 'initialize' first"

end DebugArrays
