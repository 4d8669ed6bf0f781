import Ignis.Lib.OrdMap
import Ignis.Lib.StepSystem
import Ignis.Lib.Caller
import Ignis.Lib.Fallible
import Ignis.Lib.ProcessTable
import Ignis.Lib.Places
import Ignis.Lib.Budget
import Ignis.Http.Zval
import Ignis.Http.Request
import Ignis.Http.FrontDoor
import Ignis.Reactor.Dispatcher
import Ignis.Reactor.ExactlyOnce
import Ignis.Reactor.Calls
import Ignis.Reactor.CallIds
import Ignis.Reactor.Waiting
import Ignis.Reactor.Inflight
import Ignis.Reactor.Answers
import Ignis.Reactor.Owner
import Ignis.Server.Listener
import Ignis.Server.Process
import Ignis.Server.DeadThread
import Ignis.Server.Drain
import Ignis.Loop.Output
import Ignis.Loop.Answering
import Ignis.Loop.Streaming
import Ignis.Loop.Frames
import Ignis.Loop.StreamedBody
import Ignis.Loop.Capture
import Ignis.Loop.GrpcRouter
import Ignis.Post
import Ignis.Superglobals
import Ignis.SuperglobalRuns
import Ignis.Scoped.Objects
import Ignis.Scoped.Effects
import Ignis.Scoped.Ledger
import Ignis.Scoped.Isolation
import Ignis.Scoped.Lifetimes
import Ignis.Scoped.References
import Ignis.Loop.Admission
import Ignis.Loop.AdmissionInvariant
import Ignis.Loop.Pool
import Ignis.Loop.PoolInvariant
import Ignis.Loop.PoolSwitch
import Ignis.Loop.PoolRunning
import Ignis.Loop.State
import Ignis.Loop.Parking
import Ignis.Loop.Poll
import Ignis.Loop.Effect
import Ignis.Loop.MainSteps
import Ignis.Loop.Jobs
import Ignis.Loop.Reachable
import Ignis.Loop.Partition
import Ignis.Loop.AdmissionRuns
import Ignis.Loop.Scope
import Ignis.Loop.Cancellation
import Ignis.Loop.CancelReach
import Ignis.Loop.CancelEarly
import Ignis.Loop.Views
import Ignis.Loop.Released
import Ignis.Park.Registry
import Ignis.Park.Calls
import Ignis.Park.Timeouts
import Ignis.Park.Coverage
import Ignis.Park.Blocking
import Ignis.Temporal.Values
import Ignis.Temporal.Codec
import Ignis.Temporal.Correlation
import Ignis.Temporal.Queries
import Ignis.Temporal.Activities
import Ignis.Temporal.Protojson
import Ignis.Temporal.Shutdown
import Ignis.Temporal.Waiters
import Ignis.Classic.Request
import Ignis.Classic.Globals
import Ignis.Classic.Sapi
import Ignis.Classic.Overlap
import Ignis.Temporal.Base64
import Ignis.Temporal.Wire
import Ignis.Temporal.Payloads
import Ignis.Temporal.Heartbeat
import Ignis.Workers.Master
import Ignis.Workers.Staffing
import Ignis.Workers.Slots
import Ignis.Workers.Signals
import Ignis.Watch.Settle
import Ignis.Watch.Events
import Ignis.Watch.Reload
import Ignis.Watch.ReloadBound
import Ignis.Watch.StaleCode
import Ignis.Workers.Shutdown
import Ignis.Reactor.TaskTable
import Ignis.Http.HeaderLines
import Ignis.Loop.StreamedHead
import Ignis.Server.Metrics
import Ignis.Loop.Ledger
import Ignis.Loop.Unobserved
import Ignis.Loop.MainCalls
import Ignis.Loop.Completions
import Ignis.Loop.MainOps
import Ignis.Server.Dispatch
import Ignis.Classic.Resolve
import Ignis.Lib.Leb128
import Ignis.Grpc.Proto
import Ignis.Loop.QueueMemory
import Ignis.Park.Gate
import Ignis.Park.Intervals
import Ignis.Loop.InputStream
import Ignis.Lib.Scan
import Ignis.Classic.Multipart
import Ignis.Revolt.Driver
import Ignis.Revolt.Watches
import Ignis.Server.Supervisor
import Ignis.Http.Decimal
import Ignis.Grpc.ClientStreams
import Ignis.Grpc.ClientCalls
import Ignis.Grpc.ClientRuns
import Ignis.Scoped.Copies
import Ignis.Symfony.FiberScope
import Ignis.Symfony.ScopedServices
import Ignis.Http.Exchange
import Ignis.Http.ExchangeRuns
import Ignis.Park.Flock
import Ignis.Park.FlockRuns
import Ignis.Server.Config
import Ignis.Server.Precedence
import Ignis.Http.Connections
import Ignis.Http.ConnectionRuns
