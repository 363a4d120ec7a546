import Ominull.Response.AuditChain
import Ominull.Response.CompletedAt
import Ominull.Response.HeartbeatText
import Ominull.Auth.SignedBytes
import Ominull.Auth.Lock
import Ominull.Auth.ProofNonce
import Ominull.Agent.ManifestRun
import Ominull.Agent.RoutineRun
import Ominull.Hub.PlaybookOrder
import Ominull.Hub.MeshDelivery
import Ominull.Hub.CanaryOrder
import Ominull.Hub.RolloutRun
import Ominull.Evidence.Chain
import Ominull.Evidence.ChunkRun
import Ominull.Agent.ReplayRun
import Ominull.Agent.ReplayFailure
import Ominull.Vuln.Activation
import Ominull.Agent.HubBytes
import Ominull.Agent.TerminalProgram
import Ominull.Agent.Version
import Ominull.Screen.ViewOnly
import Ominull.Screen.Flow
import Ominull.Screen.Pause
import Ominull.Screen.Pipe
import Ominull.Terminal.Lifecycle
import Ominull.Terminal.Handover
import Ominull.Terminal.Idle
import Ominull.Auth.SignCount
import Ominull.Auth.ManifestBookRun
import Ominull.Auth.AutoIsolation
import Ominull.Auth.Recovery
import Ominull.Response.Packing
import Ominull.Auth.EnforcementClock
import Ominull.Auth.TrustEpochs
import Ominull.Response.ReservationRun
import Ominull.Hub.EnrolmentRun
import Ominull.Hub.RouterFlows
import Ominull.Hub.Uploads
import Ominull.Hub.AttributionRefresh
import Ominull.Hub.Window
import Ominull.Fabric.Compile
import Ominull.Detector.Workload
