import DebugArrays.World.Handle
import DebugArrays.World.Ledger

/-!
The world of one evaluation and the steps that change it. A step either answers or ends in a fault;
the world keeps what the step did before it, so a fault is visible in the ledger.
-/
namespace DebugArrays

structure World where
  heap : Heap := []
  stats : HandleStats := {}
  /-- The debuggee refuses every dereference. -/
  dereferenceFails : Bool := false
  /-- Giving a handle back is an error. -/
  releaseForbidden : Bool := false
  /-- Handles kept until the evaluation ends, oldest first. -/
  recorded : List Handle := []
deriving DecidableEq, Repr

inductive Fault where
  | assertion
  | overflow
  | forbiddenRelease (type : DebugType)
deriving DecidableEq, Repr

def Fault.message : Fault → String
  | .assertion => "assertion failed"
  | .overflow => "overflow"
  | .forbiddenRelease type =>
    "release of " ++ type.name ++ " handle while releases are forbidden"

abbrev Eval := ExceptT Fault (StateM World)

namespace Eval

variable {α β : Type}

def runIn (step : Eval α) (w : World) : Except Fault α × World :=
  (step.run.run w).run

@[simp] theorem runIn_pure (a : α) (w : World) : (pure a : Eval α).runIn w = (.ok a, w) := rfl

@[simp] theorem runIn_throw (fault : Fault) (w : World) :
    (throw fault : Eval α).runIn w = (.error fault, w) := rfl

@[simp] theorem runIn_get (w : World) : (get : Eval World).runIn w = (.ok w, w) := rfl

@[simp] theorem runIn_set (v w : World) : (set v : Eval PUnit).runIn w = (.ok ⟨⟩, v) := rfl

@[simp] theorem runIn_modify (f : World → World) (w : World) :
    (modify f : Eval PUnit).runIn w = (.ok ⟨⟩, f w) := rfl

/-- A step goes on in the world its predecessor left, and not at all after a fault. -/
theorem runIn_bind (step : Eval α) (next : α → Eval β) (w : World) :
    (step >>= next).runIn w =
      match step.runIn w with
      | (.ok a, v) => (next a).runIn v
      | (.error fault, v) => (.error fault, v) := by
  rcases h : step.runIn w with ⟨outcome, v⟩
  unfold runIn at h ⊢
  simp only [ExceptT.run_bind, StateT.run_bind, Id.run_bind, h]
  cases outcome <;> rfl

theorem runIn_map (f : α → β) (step : Eval α) (w : World) :
    (f <$> step).runIn w =
      match step.runIn w with
      | (.ok a, v) => (.ok (f a), v)
      | (.error fault, v) => (.error fault, v) := by
  rw [map_eq_pure_bind, runIn_bind]
  rfl

def count (event : HandleEvent) : Eval Unit := do
  let w ← get
  match w.stats.tally? event with
  | some stats => set { w with stats }
  | none => throw .overflow

def check (condition : Bool) : Eval Unit :=
  if condition then pure () else throw .assertion

/-- Runs a step whose fault, if it has one, is put off: the caller sees it as a value. -/
def observe (step : Eval α) : Eval (Except Fault α) :=
  ExceptT.mk fun w =>
    let (outcome, after) := step.runIn w
    (.ok outcome, after)

@[simp] theorem runIn_check (condition : Bool) (w : World) :
    (check condition).runIn w = (if condition then .ok () else .error .assertion, w) := by
  cases condition <;> rfl

@[simp] theorem runIn_observe (step : Eval α) (w : World) :
    (observe step).runIn w = (.ok (step.runIn w).1, (step.runIn w).2) := rfl

theorem runIn_count {event : HandleEvent} {w : World} {stats : HandleStats}
    (h : w.stats.tally? event = some stats) :
    (count event).runIn w = (.ok (), { w with stats }) := by
  simp [count, runIn_bind, h]

def alloc (type : DebugType) (slots : List Slot) : Eval ObjectId := do
  check type.isArray
  let w ← get
  set { w with heap := w.heap ++ [HeapObject.mk type slots] }
  return w.heap.length

end Eval

namespace Handle

def issue (referent : Referent) (type : DebugType) : Eval Handle := do
  Eval.count .issue
  return ⟨referent, type⟩

/-- A reference typed as its object is now. -/
def reference (id : ObjectId) : Eval Handle := do
  issue (.reference id) ((← get).heap.typeOf id)

def referenceAs (id : ObjectId) (type : DebugType) : Eval Handle :=
  issue (.reference id) type

def object (id : ObjectId) : Eval Handle := do
  issue (.object id) ((← get).heap.typeOf id)

def nullReference (type : DebugType) : Eval Handle :=
  issue .null type

/-- A second handle to the same data, to be released on its own. -/
def duplicate (h : Handle) : Eval Handle :=
  issue h.referent h.type

def release (h : Handle) : Eval Unit := do
  if (← get).releaseForbidden then throw (.forbiddenRelease h.type)
  else Eval.count .release

/-- Follows a reference to its object, by a new handle. What is no reference is not followed, and a
refused dereference is not counted. -/
def dereference (h : Handle) : Eval (Option Handle) := do
  match h.referent with
  | .reference id =>
    let w ← get
    if w.dereferenceFails || w.heap.length ≤ id then return none
    else
      Eval.count .dereference
      return some (← object id)
  | _ => return none

def ofSlot (elementType : DebugType) : Slot → Eval Handle
  | .value v => issue (.scalar v) elementType
  | .object id => reference id
  | .null => nullReference elementType

/-- Reads one element of an array object, by a new handle. A read past the end counts as well. -/
def elementAt (h : Handle) (index : UInt32) : Eval (Option Handle) := do
  match h.referent, h.type.element? with
  | .object id, some elementType =>
    Eval.count .elementRead
    match (← get).heap.slot? id index.toNat with
    | some slot => return some (← ofSlot elementType slot)
    | none => return none
  | _, _ => return none

/-- The number of slots of an array object, where 32 bits hold it. -/
def slotCount (h : Handle) : Eval (Option UInt32) := do
  match h.referent with
  | .object id =>
    Eval.count .lengthQuery
    match (← get).heap.object? id with
    | some object =>
      return if object.slots.length < 0x1_0000_0000 then some (.ofNat object.slots.length) else none
    | none => return none
  | _ => return none

/-- What the interpreter holds for the data; the handle stays. -/
def value (h : Handle) : Eval Value :=
  match h.value? with
  | some v => return v
  | none => throw .overflow

end Handle

end DebugArrays
