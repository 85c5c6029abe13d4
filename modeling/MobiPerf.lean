import MobiPerf.Lib.Fallible
import MobiPerf.Lib.Occurrence
import MobiPerf.Lib.PriorityQueue
import MobiPerf.Lib.Transition
import MobiPerf.SocketProc.Basic
import MobiPerf.SocketProc.ProcFs
import MobiPerf.SocketProc.Table
import MobiPerf.SocketProc.Packet
import MobiPerf.SocketProc.IndexInvariant
import MobiPerf.SocketProc.Attribution
import MobiPerf.Capture.ExitFlag
import MobiPerf.Capture.AppIdLog
import MobiPerf.Lib.Custody
import MobiPerf.Scheduler.Concurrent
import MobiPerf.Scheduler.Deadline
import MobiPerf.Scheduler.Dispatch
import MobiPerf.Scheduler.Sequential
import MobiPerf.Lib.Interning
import MobiPerf.SocketProc.AppIds
import MobiPerf.SocketProc.Aborts
import MobiPerf.SocketProc.Uses
import MobiPerf.SocketProc.Bounds
import MobiPerf.Collector.Lifecycle
import MobiPerf.Checkin.Schedule
import MobiPerf.Checkin.Cookie
import MobiPerf.Scheduler.UserTasks
import MobiPerf.Lib.Refill
import MobiPerf.Scheduler.Checkins
import MobiPerf.Scheduler.Execution
import MobiPerf.Scheduler.CurrentTask
import MobiPerf.Scheduler.Policy
import MobiPerf.SocketProc.ReadOffsets
import MobiPerf.SocketProc.Freshness
import MobiPerf.SocketProc.ProcNames
import MobiPerf.Lib.Tokens
import MobiPerf.SocketProc.NetFormat
import MobiPerf.SocketProc.Join
import MobiPerf.Scheduler.Lineage
import MobiPerf.Lib.Rounding
import MobiPerf.Lib.Metering
import MobiPerf.Lib.Pattern
import MobiPerf.Measurements.Tasks
import MobiPerf.Capture.InputThread
import MobiPerf.Checkin.Retry
import MobiPerf.Lib.RefCount
import MobiPerf.Scheduler.Cloning
import MobiPerf.Scheduler.Consoles
import MobiPerf.Scheduler.Removal
import MobiPerf.Scheduler.Settling
import MobiPerf.Scheduler.Spacing
import MobiPerf.Scheduler.WakeLock
import MobiPerf.Capture.KeyDb
import MobiPerf.Capture.KeyEvents
import MobiPerf.Lib.DoWhile
import MobiPerf.Measurements.TCPAccounting
import MobiPerf.Measurements.TCPParams
import MobiPerf.Lib.Firsts
import MobiPerf.Lib.Mean
import MobiPerf.Measurements.Hops
import MobiPerf.Measurements.HopLimit
import MobiPerf.Measurements.Addresses
import MobiPerf.Measurements.PingStatistics
import MobiPerf.Measurements.PingReplies
import MobiPerf.Scheduler.ConsoleStore
import MobiPerf.Collector.NetworkTrace
import MobiPerf.Collector.TcpdumpProcess
import MobiPerf.Measurements.HttpHeaders
import MobiPerf.Measurements.HttpBody
import MobiPerf.Measurements.Progress
import MobiPerf.Measurements.UDPReception
import MobiPerf.Measurements.UplinkReply
import MobiPerf.Lib.Machine
import MobiPerf.Lib.Flow
import MobiPerf.Lib.Visit
import MobiPerf.Capture.Bpf
import MobiPerf.Lib.Chunks
import MobiPerf.Capture.FilterMemory
import MobiPerf.Capture.FilterGraph
import MobiPerf.Capture.FilterExpr
import MobiPerf.Capture.FilterLayout
import MobiPerf.Capture.FilterSearch
import MobiPerf.Capture.FilterCompile
import MobiPerf.Capture.FilterArith
import MobiPerf.Capture.FilterLang
import MobiPerf.Capture.FilterKernel
import MobiPerf.Lib.SharedRing
import MobiPerf.Capture.PacketRing
import MobiPerf.Lib.Records
import MobiPerf.Capture.Savefile
import MobiPerf.Capture.OfflineRead
