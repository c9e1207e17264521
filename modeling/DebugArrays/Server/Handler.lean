import DebugArrays.Protocol.Request
import DebugArrays.Server.Config
import DebugArrays.Server.Session

/-!
The request handler: at most one session at a time, opened by a load request and closed by the next
one or by `shutdown`. A fault ends the handler, so the answer of a request comes with the handler
after it.
-/
namespace DebugArrays

structure Session where
  world : World := {}
  arrays : ArrayTable := .empty

structure Handler where
  config : Config
  session : Option Session := none

namespace Session

/-- Closes a session; what remains is its world, for the ledger's sake. -/
def close (s : Session) : Except Fault World :=
  match s.arrays.close.runIn s.world with
  | (.ok _, w) => .ok w
  | (.error fault, _) => .error fault

def ofSnapshots (byReference : Bool) (snapshots : List ArraySnapshot) :
    Except Fault (Except SnapshotError Session) :=
  match (ArrayTable.addAll byReference .empty snapshots).runIn {} with
  | (.ok (.ok arrays), world) => .ok (.ok { world, arrays })
  | (.ok (.error e), _) => .ok (.error e)
  | (.error fault, _) => .error fault

/-- Runs a request that leaves the table of arrays alone. -/
def query {α : Type} (s : Session) (step : ArrayTable → Eval α) : Except Fault (α × Session) :=
  match (step s.arrays).runIn s.world with
  | (.ok a, world) => .ok (a, { s with world })
  | (.error fault, _) => .error fault

/-- Runs a request that may change the table of arrays. -/
def update {α : Type} (s : Session) (step : ArrayTable → Eval (α × ArrayTable)) :
    Except Fault (α × Session) :=
  match (step s.arrays).runIn s.world with
  | (.ok (a, arrays), world) => .ok (a, { world, arrays })
  | (.error fault, _) => .error fault

end Session

namespace Handler

def new (config : Config) : Handler :=
  { config }

def closeSession (h : Handler) : Except Fault Unit :=
  match h.session with
  | some s => (fun _ => ()) <$> s.close
  | none => .ok ()

def respond : Except RequestError Response → Response
  | .ok response => response
  | .error e => .error e.message

/-- Runs a request on the session; without one the answer says so. -/
def withSession (h : Handler)
    (step : Session → Except Fault (Except RequestError Response × Session)) :
    Except Fault (Response × Handler) :=
  match h.session with
  | none => .ok (respond (.error .notInitialized), h)
  | some s => (step s).map fun (answer, s) => (respond answer, { h with session := some s })

def handle (h : Handler) : Request → Except Fault (Response × Handler)
  | .load snapshots => do
    h.closeSession
    match ← Session.ofSnapshots h.config.byReference snapshots with
    | .ok s => return (.success true, { h with session := some s })
    | .error e => return (respond (.error (.snapshot e)), { h with session := none })
  | .length name => h.withSession fun s => s.update fun arrays => arrays.length name
  | .element name index => h.withSession fun s => s.query fun arrays => arrays.element name index
  | .store name index value =>
    h.withSession fun s => s.query fun arrays => arrays.store name index value
  | .stats => h.withSession fun s => .ok (.ok (.stats s.world.stats), s)
  | .shutdown => do
    h.closeSession
    return (.success true, { h with session := none })

/-- The responses to requests in order. A fault ends them. -/
def handleAll (h : Handler) : List Request → List Response
  | [] => []
  | r :: rest =>
    match h.handle r with
    | .ok (response, h) => response :: handleAll h rest
    | .error _ => []

end Handler

end DebugArrays
