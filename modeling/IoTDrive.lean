import IoTDrive.Lib.Transition
import IoTDrive.Lib.Words
import IoTDrive.Lib.Memory
import IoTDrive.Lib.Pointer
import IoTDrive.Lib.Locks
import IoTDrive.Lib.Counting
import IoTDrive.Lib.Journal
import IoTDrive.Lib.Lookup
import IoTDrive.Lib.Owner
import IoTDrive.Lib.Drain
import IoTDrive.Lib.Delay
import IoTDrive.Lib.Transfer
import IoTDrive.Lib.Framing
import IoTDrive.Stripe.Splitter
import IoTDrive.Stripe.Manager
import IoTDrive.Stripe.Placement
import IoTDrive.Stripe.Partition
import IoTDrive.Stripe.RangeCheck
import IoTDrive.Message.Codec
import IoTDrive.Message.Datagram
import IoTDrive.Message.RoundTrip
import IoTDrive.Message.Encoder
import IoTDrive.Message.Bounds
import IoTDrive.Minion.File
import IoTDrive.Minion.Access
import IoTDrive.Minion.Commands
import IoTDrive.Master.Ticket
import IoTDrive.Master.Answers
import IoTDrive.Master.ReadPolicy
import IoTDrive.Master.WritePolicy
import IoTDrive.Master.Gather
import IoTDrive.Master.ReadCompletion
import IoTDrive.Master.Malformed
import IoTDrive.Master.Proxy
import IoTDrive.Master.Ledger
import IoTDrive.Master.FanOut
import IoTDrive.Master.Exchange
import IoTDrive.Master.Routing
import IoTDrive.Master.LastSend
import IoTDrive.Master.SendFailure
import IoTDrive.Master.State
import IoTDrive.Master.Steps
import IoTDrive.Master.Entries
import IoTDrive.Master.Replies
import IoTDrive.Master.Agreement
import IoTDrive.Master.Stores
import IoTDrive.Drive.Flat
import IoTDrive.System.Model
import IoTDrive.System.Tracking
import IoTDrive.System.Network
import IoTDrive.System.Answered
import IoTDrive.System.Sequential
import IoTDrive.System.Contents
import IoTDrive.System.Refinement
import IoTDrive.System.Execution
import IoTDrive.System.Simulation
import IoTDrive.System.FlatDrive
import IoTDrive.System.OneChunk
import IoTDrive.System.WriteJournal
import IoTDrive.System.Convergence
import IoTDrive.System.ReadJournal
import IoTDrive.System.Freshness
import IoTDrive.System.Healing
import IoTDrive.System.Degraded
import IoTDrive.System.Settling
import IoTDrive.Peer.Socket
import IoTDrive.Peer.Dropped
import IoTDrive.Peer.Addressed
import IoTDrive.Nbd.Stream
import IoTDrive.Nbd.Sync
import IoTDrive.Nbd.Transfer
import IoTDrive.Nbd.ReplyStream
import IoTDrive.Nbd.Blocking
import IoTDrive.Nbd.Link
import IoTDrive.Master.Locks
import IoTDrive.Master.Uids
import IoTDrive.Pool.Model
import IoTDrive.Pool.Ids
import IoTDrive.Pool.Tally
import IoTDrive.Pool.Accounting
import IoTDrive.Pool.Progress
import IoTDrive.Pool.Frozen
import IoTDrive.Pool.Order
import IoTDrive.Pool.Tasks
import IoTDrive.Sched.Model
import IoTDrive.Sched.NoLoss
import IoTDrive.Sched.OnTime
import IoTDrive.Queue.Waitable
import IoTDrive.EventLoop.Listener
import IoTDrive.EventLoop.Rounds
import IoTDrive.EventLoop.Shutdown
import IoTDrive.Framework.Dispatcher
import IoTDrive.Framework.Logger
import IoTDrive.Framework.Injection
import IoTDrive.Framework.Plugins
import IoTDrive.Framework.Inotify
import IoTDrive.Framework.Monitor
import IoTDrive.Framework.MonitorStop
import IoTDrive.Framework.Handleton
