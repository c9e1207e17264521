import DebugArrays.Array.Address

/-!
A caller of the library: somebody who holds handles, arrays, element addresses and open guards, and
does one operation after the other. Nothing is said about which; every order of operations that goes
well is a run.
-/
namespace DebugArrays

/-- Things at numbered places. A place keeps its number, and stays empty once its thing is gone. -/
abbrev Shelf (α : Type) := List (Option α)

namespace Shelf

variable {α : Type}

def at? (s : Shelf α) (i : Nat) : Option α :=
  s[i]?.join

def put (s : Shelf α) (a : α) : Shelf α :=
  s ++ [some a]

def clear (s : Shelf α) (i : Nat) : Shelf α :=
  s.set i none

def replace (s : Shelf α) (i : Nat) (a : α) : Shelf α :=
  s.set i (some a)

end Shelf

/-- Where a handle is that an operation only borrows. -/
inductive Lender where
  | hand (i : Nat)
  | array (i : Nat)
  | guard (i : Nat)
deriving DecidableEq, Repr

/-- What a caller can do. Handles in the hand, arrays, guards and addresses go by their places. -/
inductive Operation where
  | alloc (type : DebugType) (slots : List Slot)
  | load (snapshot : ArraySnapshot)
  | reference (id : ObjectId)
  | referenceAs (id : ObjectId) (type : DebugType)
  | object (id : ObjectId)
  | nullReference (type : DebugType)
  | setSlot (id : ObjectId) (index : Nat) (slot : Slot)
  | resize (id : ObjectId) (length : Nat)
  | retype (id : ObjectId) (type : DebugType)
  | dereferenceFails (on : Bool)
  | forbidRelease (on : Bool)
  | resetStats
  | dereference (lender : Lender)
  | elementAt (lender : Lender) (index : UInt32)
  | slotCount (lender : Lender)
  | duplicate (lender : Lender)
  | value (lender : Lender)
  | release (hand : Nat)
  | acquire (lender : Lender)
  | leave (guard : Nat)
  | record (hand : Nat)
  | consume (hand : Nat)
  | write (lender : Lender) (index : UInt32) (v : Value)
  | clearRecorded
  | wrap (hand : Nat)
  | unwrap (array : Nat)
  | arrayRead (array : Nat) (index : Int)
  | arrayLoad (array : Nat) (index : Int)
  | arrayStore (array : Nat) (index : Int) (v : Value)
  | arrayWrite (array : Nat) (index : UInt32) (v : Value)
  | arrayLength (array : Nat)
  | arrayAddress (array : Nat) (index : Int)
  | addressRead (address : Nat)
  | addressLoad (address : Nat)
  | addressStore (address : Nat) (v : Value)

inductive Answer where
  | nothing
  | flag (b : Bool)
  | id (id : ObjectId)
  | loaded (outcome : Except SnapshotError ObjectId)
  | handle (h : Option Handle)
  | value (v : Option Value)
  | count (n : Option UInt32)
  | guard (g : Option Guard)

/-- Why an operation is not done: there is nothing at the place it names, or it ends in a fault. -/
inductive Refusal where
  | missing
  | fault (fault : Fault)

/-- An operation that is not done: why, and the world as a fault leaves it. -/
inductive Stop where
  | missing
  | fault (fault : Fault) (left : World)

def Stop.refusal : Stop → Refusal
  | .missing => .missing
  | .fault why _ => .fault why

/-- Where an address points: the place of its view, and the index. -/
structure PlacedAddress where
  place : Nat
  index : Int
deriving DecidableEq

structure Caller where
  world : World := {}
  hands : Shelf Handle := []
  arrays : Shelf ArrayView := []
  addresses : List PlacedAddress := []
  guards : Shelf Guard := []

namespace Caller

variable {α : Type}

abbrev Outcome := Except Stop (Answer × Caller)

/-- Goes on with a thing that has to be there. -/
def need (found : Option α) (next : α → Outcome) : Outcome :=
  match found with
  | some a => next a
  | none => .error .missing

/-- Runs a step in the caller's world and goes on with its answer. -/
def evaluate (c : Caller) (step : Eval α) (next : α → Caller → Answer × Caller) : Outcome :=
  match step.runIn c.world with
  | (.ok a, world) => .ok (next a { c with world })
  | (.error fault, world) => .error (.fault fault world)

def observe (c : Caller) (step : Eval α) (answer : α → Answer) : Outcome :=
  c.evaluate step fun a c => (answer a, c)

/-- A step that may bring a handle, which the caller then holds. -/
def gain (c : Caller) (step : Eval (Option Handle)) : Outcome :=
  c.evaluate step fun found c =>
    (.handle found, match found with
      | some h => { c with hands := c.hands.put h }
      | none => c)

def enter (c : Caller) (h : Handle) : Outcome :=
  c.evaluate h.acquire fun guard c =>
    (.guard guard, match guard with
      | some g => { c with guards := c.guards.put g }
      | none => c)

/-- Goes on with a handle that the caller gives out of the hand. -/
def spend (c : Caller) (hand : Nat) (next : Handle → Caller → Outcome) : Outcome :=
  need (c.hands.at? hand) fun h => next h { c with hands := c.hands.clear hand }

def change (c : Caller) (f : World → World) : Outcome :=
  c.observe (modify f) fun _ => .nothing

def lent? (c : Caller) : Lender → Option Handle
  | .hand i => c.hands.at? i
  | .array i => (c.arrays.at? i).map ArrayView.handle
  | .guard i => (c.guards.at? i).map Guard.object

/-- An address with the view as it is now. -/
def address? (c : Caller) (i : Nat) : Option ElementAddress :=
  c.addresses[i]?.bind fun placed =>
    (c.arrays.at? placed.place).map fun array => { array, index := placed.index }

def perform (c : Caller) : Operation → Outcome
  | .alloc type slots => c.observe (Eval.alloc type slots) .id
  | .load snapshot => c.observe (Eval.load snapshot) .loaded
  | .reference id => c.gain (some <$> Handle.reference id)
  | .referenceAs id type => c.gain (some <$> Handle.referenceAs id type)
  | .object id => c.gain (some <$> Handle.object id)
  | .nullReference type => c.gain (some <$> Handle.nullReference type)
  | .setSlot id index slot =>
    c.observe (do
      let w ← get
      set { w with heap := w.heap.setSlot id index slot }
      return w.heap.hasSlot id index) .flag
  | .resize id length => c.change fun w => { w with heap := w.heap.resize id length }
  | .retype id type => c.change fun w => { w with heap := w.heap.retype id type }
  | .dereferenceFails on => c.change fun w => { w with dereferenceFails := on }
  | .forbidRelease on => c.change fun w => { w with releaseForbidden := on }
  | .resetStats => c.change fun w => { w with stats := {} }
  | .dereference lender => need (c.lent? lender) fun h => c.gain h.dereference
  | .elementAt lender index => need (c.lent? lender) fun h => c.gain (h.elementAt index)
  | .slotCount lender => need (c.lent? lender) fun h => c.observe h.slotCount .count
  | .duplicate lender => need (c.lent? lender) fun h => c.gain (some <$> h.duplicate)
  | .value lender => need (c.lent? lender) fun h => c.observe h.value fun v => .value (some v)
  | .release hand => c.spend hand fun h c => c.observe h.release fun _ => .nothing
  | .acquire lender => need (c.lent? lender) fun h => c.enter h
  | .leave guard =>
    need (c.guards.at? guard) fun g =>
      { c with guards := c.guards.clear guard }.observe g.leave fun _ => .nothing
  | .record hand => c.spend hand fun h c => c.gain (some <$> h.record)
  | .consume hand => c.spend hand fun h c => c.observe h.consume fun v => .value (some v)
  | .write lender index v => need (c.lent? lender) fun h => c.observe (h.write index v) .flag
  | .clearRecorded => c.observe Eval.clearRecorded fun _ => .nothing
  | .wrap hand =>
    c.spend hand fun h c =>
      c.evaluate (ArrayView.ofHandle h) fun view c =>
        (.flag view.isSz, { c with arrays := c.arrays.put view })
  | .unwrap array =>
    need (c.arrays.at? array) fun view =>
      .ok (.handle (some view.handle),
        { c with arrays := c.arrays.clear array, hands := c.hands.put view.handle })
  | .arrayRead array index => need (c.arrays.at? array) fun view => c.gain (view.read index)
  | .arrayLoad array index =>
    need (c.arrays.at? array) fun view => c.observe (view.load index) .value
  | .arrayStore array index v =>
    need (c.arrays.at? array) fun view => c.observe (view.store index v) .flag
  | .arrayWrite array index v =>
    need (c.arrays.at? array) fun view => c.observe (view.write index v) .flag
  | .arrayLength array =>
    need (c.arrays.at? array) fun view =>
      c.evaluate view.length fun answer c =>
        (.count answer.1, { c with arrays := c.arrays.replace array answer.2 })
  | .arrayAddress array index =>
    need (c.arrays.at? array) fun view =>
      match view.address? index with
      | some made => .ok (.flag true, { c with addresses := c.addresses ++ [⟨array, made.index⟩] })
      | none => .ok (.flag false, c)
  | .addressRead address => need (c.address? address) fun a => c.gain a.read
  | .addressLoad address => need (c.address? address) fun a => c.observe a.load .value
  | .addressStore address v => need (c.address? address) fun a => c.observe (a.store v) .flag

def run (c : Caller) : List Operation → Except Refusal (List Answer × Caller)
  | [] => .ok ([], c)
  | op :: rest => do
    let (answer, c) ← (c.perform op).mapError Stop.refusal
    let (answers, c) ← run c rest
    return (answer :: answers, c)

end Caller

end DebugArrays
