import DebugArrays.Array.Accessor
import DebugArrays.Array.Address

/-!
The commands of a workbench and what they answer. A command names the handles, arrays and addresses
it works on, and may give a name to the one it makes.
-/
namespace DebugArrays

inductive Command where
  | alloc (type : DebugType) (slots : List Slot)
  | load (snapshot : ArraySnapshot)
  | reference (id : ObjectId) (target : String)
  | object (id : ObjectId) (target : String)
  | referenceAs (id : ObjectId) (type : DebugType) (target : String)
  | nullReference (type : DebugType) (target : String)
  | resetStats
  | dereferenceFails (on : Bool)
  | forbidRelease (on : Bool)
  | slot (id : ObjectId) (index : Nat)
  | setSlot (id : ObjectId) (index : Nat) (slot : Slot)
  | resize (id : ObjectId) (length : Nat)
  | retype (id : ObjectId) (type : DebugType)
  | objectType (id : ObjectId)
  | inspect (handle : String)
  | dereference (handle target : String)
  | elementAt (handle : String) (index : UInt32) (target : String)
  | slotCount (handle : String)
  | duplicate (handle target : String)
  | release (handle : String)
  | live (handle : String)
  | enter (handle : String)
  | record (handle target : String)
  | consume (handle : String)
  | write (handle : String) (index : UInt32) (value : Value)
  | clearRecorded
  | wrap (handle target : String)
  | arrayInfo (array : String)
  | arrayRead (array : String) (index : Int) (target : String)
  | arrayLoad (array : String) (index : Int)
  | arrayStore (array : String) (index : Int) (value : Value)
  | arrayWrite (array : String) (index : UInt32) (value : Value)
  | arrayLength (array : String)
  | arrayCall (array method : String) (declaring : Option DebugType)
  | arrayAddress (array : String) (index : Int) (target : String)
  | arrayDrop (array : String)
  | unwrap (array target : String)
  | addressInfo (address : String)
  | addressLoad (address : String)
  | addressRead (address target : String)
  | addressStore (address : String) (value : Value)
  | addressLength (address : String)
  | addressDrop (address : String)

/-- A handle as a user inspects it, with the value behind it. -/
structure HandleReport where
  handle : Handle
  value : Value
deriving DecidableEq

/-- An array object while it is held open. -/
structure ScopeReport where
  owned : Bool
  object : HandleReport
  count : Option UInt32
  inside : HandleStats
deriving DecidableEq

inductive Reply where
  | nothing
  | flag (b : Bool)
  | number (n : Nat)
  | slot (s : Option Slot)
  | descriptor (type : DebugType)
  | handle (report : Option HandleReport)
  | value (v : Option Value)
  | scope (report : Option ScopeReport)
  | array (view : ArrayView) (report : HandleReport)
  | address (index : Int) (cache : LengthCache) (typeName : String)
  | call (outcome : CallOutcome)
deriving DecidableEq

inductive CommandError where
  | noHandle
  | noArray
  | noAddress
  | shared
  | snapshot (error : SnapshotError)
  | fault (fault : Fault)

end DebugArrays
