import Simple.Lib.Machine
import Simple.Coro.Task
import Simple.Coro.AwaitCorrect
import Simple.Lib.Intrusive
import Simple.Lib.Heap
import Simple.Containers.TimerQueue
import Simple.Coro.Cancellation
import Simple.Coro.CancellationCalls
import Simple.Coro.Tokens
import Simple.Coro.Mutex
import Simple.Coro.MutexOwner
import Simple.Coro.MutexFair
import Simple.Coro.Parallel
import Simple.Coro.ParallelJoin
import Simple.Coro.ParallelCancel
import Simple.Coro.Scheduler
import Simple.Coro.SchedulerPlaces
import Simple.Coro.SchedulerInv
import Simple.Coro.SchedulerSteps
import Simple.Coro.Wakeup
import Simple.Coro.AsyncSession
import Simple.Lib.Cyclic
import Simple.Lib.Program
import Simple.Shm.Buffer
import Simple.Shm.Ledger
import Simple.Shm.Producer
import Simple.Shm.Consumer
import Simple.Shm.Spsc
import Simple.Lib.Bytes
import Simple.Shm.Channel
import Simple.Gobang.Link
import Simple.Containers.MemoryBuffer
import Simple.Gobang.Codec
import Simple.Gobang.GateMaster
import Simple.Gobang.MasterTables
import Simple.Gobang.MasterView
import Simple.Gobang.MasterBinding
import Simple.Gobang.MasterOffline
import Simple.Gobang.Gate
import Simple.Gobang.GateServices
import Simple.Gobang.GateOnline
import Simple.Lib.Replica
import Simple.Gobang.GateConnector
import Simple.Gobang.GateNotes
import Simple.Gobang.GateWired
import Simple.Gobang.GateHears
import Simple.Gobang.Subscription
import Simple.Gobang.MasterOwnership
import Simple.Gobang.GateWire
import Simple.Gobang.System
import Simple.Gobang.Agreement
import Simple.Coro.Network
import Simple.Coro.NetworkReads
import Simple.Coro.NetworkEof
import Simple.Coro.NetworkProcess
import Simple.Coro.NetworkAccept
import Simple.Net.KcpIsolation
import Simple.Net.KcpClient
import Simple.Web.WebSocket
import Simple.Web.WebSocketRead
import Simple.Web.WebSocketRoundTrip
import Simple.Web.WebSocketControl
import Simple.Web.HandshakeInterop
import Simple.Lib.Blocks
import Simple.Lib.Sha1
import Simple.Utils.Base64
import Simple.Utils.Sha1
import Simple.Net.TcpClient
import Simple.Shm.Restart
import Simple.Containers.Queue
import Simple.Containers.QueueChain
import Simple.Containers.QueueLossless
import Simple.Containers.QueueEmpty
import Simple.Gobang.DbProxy
import Simple.Gobang.DbCreate
import Simple.Gobang.DbRecords
import Simple.Gobang.DbUpdate
import Simple.Gobang.DbUpdateOrder
import Simple.Lib.Suffix
import Simple.Utils.TrieAc
import Simple.Utils.TrieWords
import Simple.Utils.TrieLinks
import Simple.Utils.TrieDfa
import Simple.Web.WebSocketBuffer
import Simple.Gobang.ProxyFrames
import Simple.Gobang.Proxy
import Simple.Gobang.ProxyOrder
import Simple.Gobang.MasterFlags
import Simple.Gobang.StatusReports
import Simple.Gobang.StatusAgreement
import Simple.Lib.Utf8
import Simple.Utils.TrieReplace
import Simple.Utils.TrieRebuild
import Simple.Lib.Md5
import Simple.Utils.Md5
import Simple.Utils.HashReuse
import Simple.Lib.Hmac
import Simple.Utils.Hmac
import Simple.Coro.TaskOperators
import Simple.Coro.TaskAnd
import Simple.Coro.TaskOr
import Simple.Gobang.Login
import Simple.Containers.TimerRuns
import Simple.Lib.Scan
import Simple.Web.HttpGrammar
import Simple.Gobang.RpcSessions
import Simple.Application.EventSystem
import Simple.Containers.TimerHandBack
import Simple.Gobang.RemoteGate
import Simple.Gobang.RemoteGateRotation
import Simple.Containers.BufferMemory
import Simple.Containers.BufferViews
import Simple.Containers.BufferOperations
import Simple.Containers.BufferRefinement
import Simple.Containers.BufferLimits
import Simple.Web.WebSocketLimits
import Simple.Lib.Compaction
import Simple.Shm.ChannelSelect
import Simple.Containers.HeapRaw
import Simple.Lib.WeakOrder
import Simple.Containers.HeapRawShape
import Simple.Containers.HeapRawLinks
import Simple.Containers.HeapRawOrder
import Simple.Containers.HeapRawRuns
import Simple.Lib.Checked
import Simple.Web.HttpNumbers
import Simple.Web.WebSocketFragments
import Simple.Lib.Calendar
import Simple.Utils.Time
import Simple.Log.LogSystem
import Simple.Log.FileNames
import Simple.Log.FileAppender
import Simple.Log.Flags
import Simple.Log.Formatter
import Simple.Gobang.Client
import Simple.Gobang.Forwarding
import Simple.Gobang.FrameStream
import Simple.Coro.ThreadPool
import Simple.Log.Archive
import Simple.Log.Pipeline
import Simple.Gobang.Exchange
import Simple.Gobang.ExchangeCalls
import Simple.Log.Console
import Simple.Net.SocketIds
import Simple.Application.Services
import Simple.Application.Frames
import Simple.Gobang.ProxyAlone
