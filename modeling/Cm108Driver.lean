import Cm108Driver.Lib.Erasure
import Cm108Driver.Lib.Framing
import Cm108Driver.Lib.LeadingRun
import Cm108Driver.Lib.LittleEndian
import Cm108Driver.Lib.OrderStatistic
import Cm108Driver.Lib.PrefixParser
import Cm108Driver.Lib.Progress
import Cm108Driver.Lib.Runs
import Cm108Driver.Lib.Versioned
import Cm108Driver.Lib.Windows
import Cm108Driver.Types.Basic
import Cm108Driver.Types.Codec
import Cm108Driver.Types.Grammar
import Cm108Driver.Types.RoundTrip
import Cm108Driver.Ipc.ClientToServer
import Cm108Driver.Ipc.SliceFraming
import Cm108Driver.Hal.Attribution
import Cm108Driver.Hal.HidGpio
import Cm108Driver.Hal.IsoStream
import Cm108Driver.Hal.IsoThread
import Cm108Driver.Hal.MonoRoundTrip
import Cm108Driver.Hal.PacketStatus
import Cm108Driver.Hal.Pcm
import Cm108Driver.Hal.Pool
import Cm108Driver.Hal.RxRuns
import Cm108Driver.Shmem.Delivery
import Cm108Driver.Shmem.Linearizable
import Cm108Driver.Shmem.NotTorn
import Cm108Driver.Shmem.Progress
import Cm108Driver.Shmem.Seqlock
import Cm108Driver.Shmem.WriterGone
import Cm108Driver.Server.Changes
import Cm108Driver.Server.Convergence
import Cm108Driver.Server.DispatchStats
import Cm108Driver.Server.EdgeLog
import Cm108Driver.Server.Effects
import Cm108Driver.Server.FailedWrites
import Cm108Driver.Server.GpioOutput
import Cm108Driver.Server.GpioPoller
import Cm108Driver.Server.InTransit
import Cm108Driver.Server.Isolation
import Cm108Driver.Server.Latency
import Cm108Driver.Server.Moves
import Cm108Driver.Server.OnAir
import Cm108Driver.Server.Outbound
import Cm108Driver.Server.Registry
import Cm108Driver.Server.Replies
import Cm108Driver.Server.Responsive
import Cm108Driver.Server.RxPipeline
import Cm108Driver.Server.Session
import Cm108Driver.Server.SessionDevices
import Cm108Driver.Server.ShortReport
import Cm108Driver.Server.StatsWindows
import Cm108Driver.Server.Subscriptions
import Cm108Driver.Server.TxPipeline
import Cm108Driver.Server.Uplink
import Cm108Driver.Client.Answers
import Cm108Driver.Client.Calls
import Cm108Driver.Client.Departure
import Cm108Driver.Client.Events
import Cm108Driver.Client.Ffi
import Cm108Driver.Client.FreshStats
import Cm108Driver.Client.Hangup
import Cm108Driver.Client.Listening
import Cm108Driver.Client.PollEvent
import Cm108Driver.Client.Polling
import Cm108Driver.Client.Receiving
import Cm108Driver.Client.Watching
import Cm108Driver.Programs.Arrival
import Cm108Driver.Programs.Daemon
import Cm108Driver.Programs.DaemonStats
import Cm108Driver.Programs.Loopback
import Cm108Driver.Programs.Notified
