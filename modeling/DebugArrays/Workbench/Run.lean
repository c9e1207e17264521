import DebugArrays.Caller.Basic
import DebugArrays.NameTable
import DebugArrays.Workbench.Command

/-!
A workbench is a caller with names: for the handles in the hand, the arrays and the addresses. A
command says by name what the caller does to what is at a place, and all that happens to the world
is an operation of the caller. An array whose name is gone stays where it is, so that its addresses
go on seeing it.
-/
namespace DebugArrays

structure Workbench where
  caller : Caller := {}
  hands : NameTable Nat := .empty
  arrays : NameTable Nat := .empty
  addresses : NameTable Nat := .empty

/-- What is missing where an operation finds nothing at a place. -/
def Operation.absence : Operation → CommandError
  | .unwrap _ | .arrayRead _ _ | .arrayLoad _ _ | .arrayStore _ _ _ | .arrayWrite _ _ _
  | .arrayLength _ | .arrayAddress _ _ => .noArray
  | .addressRead _ | .addressLoad _ | .addressStore _ _ => .noAddress
  | _ => .noHandle

abbrev Bench := ExceptT CommandError (StateM Workbench)

namespace Bench

variable {α β : Type}

def runOn (step : Bench α) (bench : Workbench) : Except CommandError α × Workbench :=
  (step.run.run bench).run

@[simp] theorem runOn_pure (a : α) (bench : Workbench) :
    (pure a : Bench α).runOn bench = (.ok a, bench) := rfl

@[simp] theorem runOn_throw (e : CommandError) (bench : Workbench) :
    (throw e : Bench α).runOn bench = (.error e, bench) := rfl

@[simp] theorem runOn_get (bench : Workbench) :
    (get : Bench Workbench).runOn bench = (.ok bench, bench) := rfl

@[simp] theorem runOn_set (other bench : Workbench) :
    (set other : Bench PUnit).runOn bench = (.ok ⟨⟩, other) := rfl

@[simp] theorem runOn_modify (f : Workbench → Workbench) (bench : Workbench) :
    (modify f : Bench PUnit).runOn bench = (.ok ⟨⟩, f bench) := rfl

/-- The outcome of a step as an answer, from which one goes on. -/
@[simp] theorem runOn_lift_run (step : Bench α) (bench : Workbench) :
    runOn (ExceptT.lift step.run) bench = (.ok (step.runOn bench).1, (step.runOn bench).2) := rfl

/-- A step goes on at the bench its predecessor left, and not at all after an error. -/
theorem runOn_bind (step : Bench α) (next : α → Bench β) (bench : Workbench) :
    (step >>= next).runOn bench =
      match step.runOn bench with
      | (.ok a, after) => (next a).runOn after
      | (.error e, after) => (.error e, after) := by
  rcases h : step.runOn bench with ⟨outcome, after⟩
  unfold runOn at h ⊢
  simp only [ExceptT.run_bind, StateT.run_bind, Id.run_bind, h]
  cases outcome <;> rfl

/-- A look that changes nothing. -/
def found (look : Workbench → Option α) (absence : CommandError) : Bench α := do
  match look (← get) with
  | some a => return a
  | none => throw absence

def hand (name : String) : Bench Nat :=
  found (·.hands.find? name) .noHandle

/-- The place of a handle that goes out of the hand, and its name with it. -/
def takeHand (name : String) : Bench Nat := do
  let place ← hand name
  modify fun bench => { bench with hands := bench.hands.erase name }
  return place

def array (name : String) : Bench Nat :=
  found (·.arrays.find? name) .noArray

def address (name : String) : Bench Nat :=
  found (·.addresses.find? name) .noAddress

def viewAt (place : Nat) : Bench ArrayView :=
  found (·.caller.arrays.at? place) .noArray

/-- Lets the caller do something. A fault leaves the world that it happened in. -/
def operate (op : Operation) : Bench Answer := do
  let bench ← get
  match bench.caller.perform op with
  | .ok (answer, caller) =>
    set { bench with caller }
    return answer
  | .error .missing => throw op.absence
  | .error (.fault fault world) =>
    set { bench with caller := { bench.caller with world } }
    throw (.fault fault)

/-- The reply to a command whose answer brings no handle. -/
def reply : Answer → Bench Reply
  | .flag b => return .flag b
  | .id id | .loaded (.ok id) => return .number id
  | .loaded (.error e) => throw (.snapshot e)
  | .value v => return .value v
  | .count (some n) => return .number n.toNat
  | .nothing | .count none | .handle _ | .guard _ => return .nothing

def answer (op : Operation) : Bench Reply := do
  reply (← operate op)

def report (lender : Lender) : Bench HandleReport := do
  let handle ← found (·.caller.lent? lender) .noHandle
  match ← operate (.value lender) with
  | .value (some value) => return { handle, value }
  | _ => throw .noHandle

/-- Names the handle that an operation brings. -/
def keep (target : String) (op : Operation) : Bench Reply := do
  let place := (← get).caller.hands.length
  match ← operate op with
  | .handle (some _) =>
    modify fun bench => { bench with hands := bench.hands.insert target place }
    return .handle (some (← report (.hand place)))
  | _ => return .handle none

/-- Runs a step and then leaves a guard, after a fault as well. The first fault stands. -/
def leaving (guard : Nat) (step : Bench α) : Bench α := do
  let inside ← ExceptT.lift step.run
  let left ← ExceptT.lift (operate (.leave guard)).run
  match inside, left with
  | .error (.fault fault), _ => throw (.fault fault)
  | _, .error e => throw e
  | .error e, .ok _ => throw e
  | .ok a, .ok _ => return a

def look (guard : Nat) (g : Guard) : Bench ScopeReport := do
  let object ← report (.guard guard)
  match ← operate (.slotCount (.guard guard)) with
  | .count count =>
    return { owned := g.owned, object, count, inside := (← get).caller.world.stats }
  | _ => throw .noHandle

/-- What can be seen inside the scope of a handle. -/
def enter (place : Nat) : Bench Reply := do
  let guard := (← get).caller.guards.length
  match ← operate (.acquire (.hand place)) with
  | .guard (some g) => return .scope (some (← leaving guard (look guard g)))
  | _ => return .scope none

def wrap (place : Nat) (target : String) : Bench Reply := do
  let array := (← get).caller.arrays.length
  let shape ← answer (.wrap place)
  modify fun bench => { bench with arrays := bench.arrays.insert target array }
  return shape

def takeAddress (array : Nat) (index : Int) (target : String) : Bench Reply := do
  let number := (← get).caller.addresses.length
  match ← operate (.arrayAddress array index) with
  | .flag true =>
    modify fun bench => { bench with addresses := bench.addresses.insert target number }
    return .flag true
  | _ => return .flag false

/-- An address with a name sees the array. -/
def isShared (array : Nat) (bench : Workbench) : Bool :=
  bench.addresses.values.any fun number =>
    bench.caller.addresses[number]?.any fun placed => placed.place == array

/-- Takes an array apart that no address sees. -/
def unwrap (name target : String) : Bench Reply := do
  let place ← array name
  if isShared place (← get) then throw .shared
  modify fun bench => { bench with arrays := bench.arrays.erase name }
  keep target (.unwrap place)

def perform : Command → Bench Reply
  | .alloc type slots => answer (.alloc type slots)
  | .load snapshot => answer (.load snapshot)
  | .reference id target => keep target (.reference id)
  | .object id target => keep target (.object id)
  | .referenceAs id type target => keep target (.referenceAs id type)
  | .nullReference type target => keep target (.nullReference type)
  | .resetStats => answer .resetStats
  | .dereferenceFails on => answer (.dereferenceFails on)
  | .forbidRelease on => answer (.forbidRelease on)
  | .slot id index => return .slot ((← get).caller.world.heap.slot? id index)
  | .setSlot id index slot => answer (.setSlot id index slot)
  | .resize id length => answer (.resize id length)
  | .retype id type => answer (.retype id type)
  | .objectType id => return .descriptor ((← get).caller.world.heap.typeOf id)
  | .inspect h => return .handle (some (← report (.hand (← hand h))))
  | .dereference h target => do keep target (.dereference (.hand (← hand h)))
  | .elementAt h index target => do keep target (.elementAt (.hand (← hand h)) index)
  | .slotCount h => do answer (.slotCount (.hand (← hand h)))
  | .duplicate h target => do keep target (.duplicate (.hand (← hand h)))
  | .release h => do answer (.release (← takeHand h))
  | .live h => do
    let _ ← hand h
    return .number (← get).caller.world.stats.live.toNat
  | .enter h => do enter (← hand h)
  | .record h target => do keep target (.record (← takeHand h))
  | .consume h => do answer (.consume (← takeHand h))
  | .write h index value => do answer (.write (.hand (← hand h)) index value)
  | .clearRecorded => answer .clearRecorded
  | .wrap h target => do wrap (← takeHand h) target
  | .arrayInfo a => do
    let place ← array a
    return .array (← viewAt place) (← report (.array place))
  | .arrayRead a index target => do keep target (.arrayRead (← array a) index)
  | .arrayLoad a index => do answer (.arrayLoad (← array a) index)
  | .arrayStore a index value => do answer (.arrayStore (← array a) index value)
  | .arrayWrite a index value => do answer (.arrayWrite (← array a) index value)
  | .arrayLength a => do answer (.arrayLength (← array a))
  | .arrayCall a method declaring => do
    let view ← viewAt (← array a)
    return .call (.of (declaring.getD view.type) method)
  | .arrayAddress a index target => do takeAddress (← array a) index target
  | .arrayDrop a => do
    let present := ((← get).arrays.find? a).isSome
    modify fun bench => { bench with arrays := bench.arrays.erase a }
    return .flag present
  | .unwrap a target => unwrap a target
  | .addressInfo d => do
    let number ← address d
    let address ← found (·.caller.address? number) .noAddress
    return .address address.index address.array.cache address.array.type.name
  | .addressLoad d => do answer (.addressLoad (← address d))
  | .addressRead d target => do keep target (.addressRead (← address d))
  | .addressStore d value => do answer (.addressStore (← address d) value)
  | .addressLength d => do
    let number ← address d
    let placed ← found (·.caller.addresses[number]?) .noAddress
    answer (.arrayLength placed.place)
  | .addressDrop d => do
    let present := ((← get).addresses.find? d).isSome
    modify fun bench => { bench with addresses := bench.addresses.erase d }
    return .flag present

end Bench

namespace Workbench

/-- The outcome of a command, and the bench after it. -/
def step (bench : Workbench) (command : Command) : Except CommandError Reply × Workbench :=
  (Bench.perform command).runOn bench

end Workbench

end DebugArrays
