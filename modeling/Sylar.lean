import Sylar.Library.Machine
import Sylar.Library.OrderedSet
import Sylar.Timers.Manager
import Sylar.Timers.Invariant
import Sylar.Timers.Handles
import Sylar.Timers.Due
import Sylar.Timers.Liveness
import Sylar.Timers.Expiry
import Sylar.Timers.Emptied
import Sylar.Timers.Cancel
import Sylar.Timers.Early
import Sylar.Timers.Front
import Sylar.Timers.Waiting
import Sylar.Fiber
import Sylar.EventTable.Epoll
import Sylar.EventTable.FdContext
import Sylar.EventTable.Operations
import Sylar.EventTable.Invariant
import Sylar.EventTable.Race
import Sylar.EventTable.Waiters
import Sylar.EventTable.Reports
import Sylar.EventTable.Waking
import Sylar.EventTable.Growth
import Sylar.EventTable.Fired
import Sylar.Library.Exclusive
import Sylar.Library.Tally
import Sylar.Scheduler.Queue
import Sylar.Scheduler.Scan
import Sylar.Scheduler.Pool
import Sylar.Scheduler.Moves
import Sylar.Scheduler.Tasks
import Sylar.Scheduler.Pinning
import Sylar.Scheduler.Handoff
import Sylar.Scheduler.Wakeup
import Sylar.Scheduler.Stopping
import Sylar.Scheduler.CallbackFiber
import Sylar.Scheduler.Shutdown
import Sylar.Scheduler.Finished
import Sylar.Hook.FdManager
import Sylar.Hook.Leftovers
import Sylar.Hook.Nonblock
import Sylar.Hook.DoIo
import Sylar.Hook.Descriptors
import Sylar.Hook.Suspension
import Sylar.Hook.Closing
import Sylar.Hook.Cleanup
import Sylar.Hook.Readiness
import Sylar.Hook.Connect
import Sylar.Hook.ConnectTimeout
import Sylar.Hook.Timeouts
import Sylar.Hook.Sleep
import Sylar.Hook.Options
import Sylar.Hook.Threads
import Sylar.Library.Sweep
import Sylar.Log.Formatter
import Sylar.Log.Scanner
import Sylar.Log.Directives
import Sylar.Log.Lossless
import Sylar.Log.Manager
import Sylar.Log.Listener
import Sylar.Log.Latest
import Sylar.Log.Identity
import Sylar.Library.Yaml
import Sylar.Log.Encoding
import Sylar.Log.Dump
import Sylar.Log.Safety
import Sylar.Library.FileStream
import Sylar.Log.FileAppender
import Sylar.Log.Escape
import Sylar.Log.Delivery
import Sylar.Config.Var
import Sylar.Config.Registry
import Sylar.Config.Load
import Sylar.Config.Loadable
import Sylar.Config.Registered
import Sylar.Config.Chain
import Sylar.Config.Atomic
import Sylar.Address
import Sylar.Threads.Guards
import Sylar.Threads.Start
import Sylar.Threads.Join
import Sylar.Fibers.Switching
import Sylar.Config.Cast
import Sylar.Config.Reload
import Sylar.Scheduler.Bypass
import Sylar.Scheduler.Drained
import Sylar.Scheduler.ExactlyOnce
import Sylar.Scheduler.Lifetime
import Sylar.Timers.Rate
import Sylar.Timers.Reactors
import Sylar.Library.LockOrder
import Sylar.Threads.Locks
import Sylar.Library.Refinement
import Sylar.Timers.Armed
import Sylar.Scheduler.Completed
import Sylar.Scheduler.Clocked
import Sylar.Scheduler.TimerCallbacks
