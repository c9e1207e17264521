import DebugArrays.Main
import DebugArrays.Workbench.Run
import DebugArrays.Types.Descriptor
import DebugArrays.Value.Wire
import DebugArrays.Proofs.World.Ownership
import DebugArrays.Proofs.Caller.Conservation
import DebugArrays.Proofs.Caller.Length
import DebugArrays.Proofs.Array.Access
import DebugArrays.Proofs.Value.Coerce
import DebugArrays.Proofs.Session.Traffic
import DebugArrays.Proofs.Session.Simulation
import DebugArrays.Proofs.Session.Loading
import DebugArrays.Proofs.Session.Refinement
import DebugArrays.Proofs.Session.Ledger
import DebugArrays.Proofs.Array.Mirror
import DebugArrays.Proofs.Caller.Interchange
import DebugArrays.Proofs.Session.History
import DebugArrays.Proofs.Session.Representation
import DebugArrays.Proofs.Session.Reset
import DebugArrays.Proofs.Server.Lines
import DebugArrays.Proofs.Session.Safety
import DebugArrays.Proofs.Session.StoreGate
import DebugArrays.Proofs.Json.RoundTrip
import DebugArrays.Proofs.Binary.Text
import DebugArrays.Proofs.Json.Number
import DebugArrays.Proofs.Json.String
import DebugArrays.Proofs.Json.Depth
import DebugArrays.Proofs.Protocol.Request
import DebugArrays.Proofs.Protocol.Response
import DebugArrays.Proofs.Array.Element
import DebugArrays.Proofs.World.Exit
import DebugArrays.Proofs.Array.Balance
import DebugArrays.Proofs.Array.Writing
import DebugArrays.Proofs.Caller.Address
import DebugArrays.Proofs.Heap.Snapshot
import DebugArrays.Proofs.Protocol.Recognised
import DebugArrays.Proofs.Value.Decoding
import DebugArrays.Proofs.Value.Narrowing
import DebugArrays.Proofs.Types.Name
import DebugArrays.Proofs.Types.Descriptor
import DebugArrays.Proofs.Binary.Widening
import DebugArrays.Proofs.Value.Chain
import DebugArrays.Proofs.Binary.Positional
import DebugArrays.Proofs.Value.Display
import DebugArrays.Proofs.Caller.Sentinel
import DebugArrays.Proofs.Workbench.Session
