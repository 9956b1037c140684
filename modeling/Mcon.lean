import Mcon.Library.Containers
import Mcon.Library.Transition
import Mcon.Library.Environment
import Mcon.Library.Priorities
import Mcon.Library.Libc
import Mcon.IoUring
import Mcon.EpollEntry
import Mcon.IoQueue
import Mcon.Priorities
import Mcon.Instance
import Mcon.EventProcessing
import Mcon.CompletionLoop
import Mcon.Lifecycle
import Mcon.Slot
import Mcon.System
import Mcon.SmallStep
import Mcon.CallPaths
import Mcon.EventPaths
import Mcon.WellFormed
import Mcon.Indices
import Mcon.Operations
import Mcon.Payloads
import Mcon.Ownership
import Mcon.SlotTable
import Mcon.Connections
import Mcon.Activity
import Mcon.Accepts
import Mcon.Submission
import Mcon.InFlight
import Mcon.Atomicity
import Mcon.Shutdown
import Mcon.Registrations
import Mcon.Capacities
import Mcon.EventBounds
import Mcon.SessionEvents
import Mcon.SessionRecords
import Mcon.Generations
import Mcon.Hangups
import Mcon.CompletionWakeup
import Mcon.ListenWakeup
import Mcon.Descriptors
import Mcon.Batches
import Mcon.HandlerCalls
import Mcon.AfterShutdown
import Mcon.SourceRange
import Mcon.SourceAddresses
import Mcon.Library.Ledger
import Mcon.SessionSockets
import Mcon.Requests
import Mcon.Results
import Mcon.Refusals
import Mcon.Sizing
import Mcon.Progress
import Mcon.Rounds
import Mcon.OpenDescriptors
import Mcon.TestServer
import Mcon.TestServerSlots
import Mcon.TestServerLoop
import Mcon.HandedOut
import Mcon.Lives
import Mcon.Library.Holdings
import Mcon.Resources
import Mcon.ListeningSocket
import Mcon.Client
import Mcon.ClientConnections
import Mcon.ClientCommands
import Mcon.ClientOptions
