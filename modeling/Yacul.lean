import Yacul.Support.Transition
import Yacul.Support.SharedExclusive
import Yacul.Support.Roster
import Yacul.Support.Bytes
import Yacul.Basic.Alignment
import Yacul.LockRange.Wakeup
import Yacul.LockRange.Preference
import Yacul.LockId.Exclusion
import Yacul.Transformation.Compressors
import Yacul.Memory.BufferBounds
import Yacul.Memory.BufferSharing
import Yacul.Memory.BufferRings
import Yacul.Memory.ArenaLayout
import Yacul.Memory.ArenaMarks
import Yacul.ThreadPool.Minimum
import Yacul.ThreadPool.Shutdown
import Yacul.ThreadPool.DelayScheduler
import Yacul.ThreadPool.Conservation
import Yacul.ThreadPool.WaitForTasks
import Yacul.Qos.State
import Yacul.Qos.Machine
import Yacul.Qos.Moves
import Yacul.Support.Counter
import Yacul.Qos.Ledger
import Yacul.Qos.Settlement
import Yacul.Qos.Capacity
import Yacul.Qos.Depth
import Yacul.Qos.Wakeup
import Yacul.Qos.Lifecycle
import Yacul.Qos.Drain
import Yacul.Transformation.Hashers
import Yacul.Transformation.Checksummers
import Yacul.Misc.ScopedExecLedger
import Yacul.Transformation.CompressorSharing
import Yacul.Misc.MonitorJoin
import Yacul.System.PopenWrapper
import Yacul.System.PopenHang
import Yacul.System.PopenDeadlock
import Yacul.System.PopenTimerPipe
import Yacul.Misc.MonitorSignals
import Yacul.Misc.MonitorStats
import Yacul.Misc.MonitorRestarts
import Yacul.Misc.MonitorBackoff
import Yacul.ThreadPool.Maximum
import Yacul.ThreadPool.Resume
import Yacul.ThreadPool.FinishWakeup
import Yacul.ThreadPool.Pause
import Yacul.ThreadPool.Reschedule
import Yacul.ThreadPool.Forced
import Yacul.ThreadPool.Statistics
import Yacul.ThreadPool.Cancellation
import Yacul.ThreadPool.Registry
import Yacul.Qos.Notices
import Yacul.Qos.RoundRobin
import Yacul.ThreadPool.ParallelFor
import Yacul.ThreadPool.ParallelTransform
import Yacul.Concurrency.Spinlock
import Yacul.Memory.BufferSlices
import Yacul.Memory.BufferSplits
import Yacul.Memory.CursorEnd
import Yacul.Qos.TokenBucket
import Yacul.Qos.TryDequeue
import Yacul.Qos.Rejection
import Yacul.Qos.Tokens
import Yacul.Memory.CursorWrites
import Yacul.Memory.BufferChains
import Yacul.Memory.ArenaScopes
import Yacul.Memory.ArenaMetrics
import Yacul.Memory.ArenaAllocator
import Yacul.LockRange.Scans
import Yacul.ThreadPool.SubmitAt
import Yacul.System.ShellEscape
import Yacul.System.PopenCapture
import Yacul.System.PopenDelivery
import Yacul.System.PopenEnviron
import Yacul.System.PopenExit
import Yacul.System.PopenMoves
import Yacul.System.CpuUsage
import Yacul.Support.Scanning
import Yacul.System.ProcStat
import Yacul.System.SysFiles
import Yacul.System.ProcessStat
import Yacul.System.CpuFreshness
import Yacul.Misc.MonitorWait
import Yacul.Support.Bits
import Yacul.Basic.IntegralType
import Yacul.Basic.PowersOfTwo
import Yacul.Basic.Rounding
import Yacul.Support.WordMixing
import Yacul.Hashing.MurmurHash3
import Yacul.Hashing.Collisions
import Yacul.Hashing.Hash
import Yacul.ThreadPool.Timing
import Yacul.Support.Rendering
import Yacul.System.MemoryInfo
import Yacul.System.SysTables
import Yacul.Support.Hex
import Yacul.System.ListeningPorts
import Yacul.System.BackgroundRefresh
import Yacul.ThreadPool.Lines
import Yacul.ThreadPool.Order
import Yacul.System.PopenDescriptors
import Yacul.System.PopenAccounts
import Yacul.Support.Keyed
import Yacul.System.NetworkInfo
import Yacul.System.Caches
import Yacul.Memory.RingCalls
