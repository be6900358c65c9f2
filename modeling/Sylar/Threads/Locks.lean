/-
**The locks of the program: in which order they are taken.**

Each function of the library that takes a lock is written down as a skeleton: its guards as scopes,
with what is called inside them. Branches are left open, also those on data, loops run any number of
times, and a virtual call is any of its targets. A log line is a call of `Logger::log`, an assertion
may write one, and `leave` is a context switch, `epoll_wait` or `pthread_join`. A callback that is
dropped takes no more than fibers with it. The semaphore on which the constructor of a `Thread`
waits, under the mutex of its scheduler, is not here: the new thread takes no lock before it posts.

* `Lock`, `Lock.rank` — the mutexes and their order: configuration, event loop, scheduler, timers,
  logging, descriptors.
* `Operation.code` — the functions, under their names in the source. `Operation.above_code` — **each
  takes its locks in the order, and leaves its thread with none.**
* `above_logIniter`, `above_hookIniter` — so do the listeners that the library installs.
* `no_deadlock` — **whatever flows of control call**, who cannot move waits for somebody who can,
  and all of them finish. `listener_waits_for_itself` — a listener that does not keep to the order.
-/

import Sylar.Library.LockOrder

namespace Sylar.Threads.Locks

open Sylar.Library
open Skeleton

/-- A logger: `LoggerManager::m_root`, or another one. -/
inductive LoggerId
  | root
  | other (id : Nat)
  deriving DecidableEq

/-- The mutexes; the numbers tell the objects of a class apart. -/
inductive Lock
  /-- `Config::GetMutex()` -/
  | config
  /-- `ConfigVar::m_mutex` -/
  | configVar (id : Nat)
  /-- `IOManager::m_mutex` -/
  | ioManager (pool : Nat)
  /-- `IOManager::FdContext::m_mutex` -/
  | fdContext (pool fd : Nat)
  /-- `Scheduler::m_mutex` -/
  | scheduler (pool : Nat)
  /-- `TimerManager::m_mutex` -/
  | timerManager (pool : Nat)
  /-- `LoggerManager::m_mutex` -/
  | loggerManager
  /-- `Logger::m_mutex` -/
  | logger (id : LoggerId)
  /-- `LogAppender::m_mutex` -/
  | appender (id : Nat)
  /-- `FdManger::m_mutex` -/
  | fdManger
  deriving DecidableEq

/-- **The order.** -/
def Lock.rank : Lock → Nat
  | config => 1
  | configVar _ => 2
  | ioManager _ => 3
  | fdContext _ _ => 4
  | scheduler _ => 5
  | timerManager _ => 6
  | loggerManager => 7
  | logger (.other _) => 8
  | logger .root => 9
  | appender _ => 10
  | fdManger => 11

abbrev Code := Skeleton Lock

/-- The scope of a `Mutex::Lock`, or of a `WriteLock`. -/
abbrev writing (lock : Lock) (body : Code) : Code := .locked .exclusive lock body

/-- The scope of a `ReadLock`. -/
abbrev reading (lock : Lock) (body : Code) : Code := .locked .shared lock body

/-- The code takes its locks in the order, above `r`. -/
abbrev Above (r : Nat) (code : Code) : Prop := code.Climbs Lock.rank r

variable {r : Nat}

/-! ### Descriptors -/

def FdManger.getFdCtx : Code :=
  .all [reading .fdManger .skip, perhaps (writing .fdManger .skip)]

def FdManger.delFdCtx : Code := writing .fdManger .skip

/-- A stream that writes may end in the hook of `write`, which asks for the context of its file. -/
def stream : Code := perhaps FdManger.getFdCtx

/-! ### Logging -/

def LogAppender.setFormatter (a : Nat) : Code := writing (.appender a) .skip

def LogAppender.getFormatter (a : Nat) : Code := writing (.appender a) .skip

def StdoutLogAppender.log (a : Nat) : Code := perhaps (writing (.appender a) stream)

/-- `close` writes what the stream has left. -/
def FileLogAppender.reopen (a : Nat) : Code := writing (.appender a) stream

def FileLogAppender.log (a : Nat) : Code :=
  perhaps (.all [FileLogAppender.reopen a, writing (.appender a) stream])

def LogAppender.log (a : Nat) : Code := .either (StdoutLogAppender.log a) (FileLogAppender.log a)

/-- Of either class. -/
def LogAppender.toYamlString (a : Nat) : Code := writing (.appender a) .skip

/-- `~LogAppender`: the stream of a file is closed. -/
def LogAppender.drop : Code := stream

/-- The root logger has no `m_root`. -/
def Logger.logRoot : Code := perhaps (writing (.logger .root) (many (.any LogAppender.log)))

/-- `m_root` is null, or the root logger. -/
def Logger.log : LoggerId → Code
  | .root => Logger.logRoot
  | .other id =>
      perhaps (writing (.logger (.other id)) (.either (many (.any LogAppender.log))
        (perhaps Logger.logRoot)))

/-- Any logger. -/
def anyLogger (code : LoggerId → Code) : Code :=
  .either (code .root) (.any fun id => code (.other id))

/-- `SYLAR_LOG_DEBUG` and the others, on any logger. -/
def logLine : Code := perhaps (anyLogger Logger.log)

/-- `SYLAR_ASSERT`: one that fails writes a backtrace first. -/
def assertion : Code := perhaps (.all [logLine, Logger.log .root])

def Logger.addAppender (l : LoggerId) : Code :=
  writing (.logger l) (.any fun a => .all [LogAppender.getFormatter a,
    perhaps (LogAppender.setFormatter a)])

def Logger.delAppender (l : LoggerId) : Code := writing (.logger l) (perhaps LogAppender.drop)

def Logger.clearAppenders (l : LoggerId) : Code := writing (.logger l) (many LogAppender.drop)

def Logger.setFormatter (l : LoggerId) : Code := writing (.logger l) .skip

/-- The overload with a pattern. -/
def Logger.setPattern (l : LoggerId) : Code := perhaps (Logger.setFormatter l)

def Logger.toYamlString (l : LoggerId) : Code :=
  writing (.logger l) (many (.any LogAppender.toYamlString))

/-- `~Logger` -/
def Logger.drop : Code := many LogAppender.drop

def LoggerManager.getLogger : Code := writing .loggerManager .skip

def LoggerManager.addLogger : Code := writing .loggerManager (perhaps Logger.drop)

def LoggerManager.toYamlString : Code :=
  writing .loggerManager (many (anyLogger Logger.toYamlString))

/-- What `LogIniter` adds to `g_log_defines`. -/
def LogIniter.listener : Code :=
  .all [logLine,
    many (.all [perhaps LoggerManager.getLogger, perhaps (anyLogger Logger.setPattern),
      many (anyLogger Logger.addAppender), LoggerManager.addLogger]),
    many (.all [LoggerManager.getLogger, anyLogger Logger.clearAppenders])]

/-- What `_Hook_initer` adds to `g_tcp_connect_timeout`. -/
def HookIniter.listener : Code := logLine

/-! ### Fibers -/

/-- `Fiber::Fiber()`, if the thread has none yet. -/
def Fiber.GetThis : Code := perhaps (.all [logLine, assertion])

/-- `~Fiber`, of whoever goes with what is dropped. -/
def Fiber.drops : Code := many (.all [logLine, assertion])

/-- The constructor with a callback, which may look up its stack size. -/
def Fiber.new : Code :=
  .all [perhaps (.any fun id => reading (.configVar id) .skip), assertion, logLine]

/-- `Yield_to_Hold` and `Yield_to_Ready`, and the end of `MainFunc`, which do not all log. -/
def Fiber.Yield_to_Hold : Code := .all [Fiber.GetThis, logLine, .leave]

/-! ### The scheduler and its event loop -/

/-- `Scheduler::tickle` does nothing; `IOManager::tickle` writes to the pipe. -/
def IOManager.tickle : Code := perhaps (.all [stream, assertion])

/-- Of one task, or of many. -/
def Scheduler.schedule (pool : Nat) : Code :=
  .all [writing (.scheduler pool) .skip, perhaps IOManager.tickle]

def Scheduler.stopping (pool : Nat) : Code := writing (.scheduler pool) .skip

/-- `Thread::Thread` -/
def Thread.new : Code := perhaps logLine

def Scheduler.start (pool : Nat) : Code :=
  writing (.scheduler pool) (perhaps (.all [logLine, assertion, many Thread.new]))

def TimerManager.get_next_timeout (pool : Nat) : Code := reading (.timerManager pool) .skip

/-- Of either class. -/
def IOManager.stopping (pool : Nat) : Code :=
  .all [perhaps (TimerManager.get_next_timeout pool), perhaps (Scheduler.stopping pool)]

def Scheduler.stop (pool : Nat) : Code :=
  .all [perhaps (.all [logLine, IOManager.stopping pool]),
    -- unless that was the answer
    perhaps (.all [assertion,
      perhaps (.all [IOManager.stopping pool, perhaps (.all [logLine, assertion, .leave])]),
      many IOManager.tickle,
      writing (.scheduler pool) .skip,
      -- `join`
      many (.all [.leave, perhaps logLine]),
      IOManager.stopping pool])]

/-- A round of `run`, which may be its first or its last: the scan, the switch to what it finds, and
what comes of it. -/
def Scheduler.run (pool : Nat) : Code :=
  .all [perhaps (.all [perhaps Fiber.GetThis, Fiber.new]),
    writing (.scheduler pool) (many assertion), perhaps IOManager.tickle,
    .either logLine (.all [perhaps Fiber.new, many assertion, .leave,
      .either (Scheduler.schedule pool) logLine, assertion]),
    Fiber.drops]

/-- `add_timer` of a timer that is made, under a lock that it gives back, and what comes after. -/
def TimerManager.add_timer (pool : Nat) : Code :=
  .all [writing (.timerManager pool) (perhaps logLine), perhaps (.all [logLine, IOManager.tickle])]

def Timer.cancel (pool : Nat) : Code := writing (.timerManager pool) Fiber.drops

def Timer.refresh (pool : Nat) : Code := TimerManager.add_timer pool

def Timer.reset (pool : Nat) : Code := perhaps (TimerManager.add_timer pool)

/-- The first timer that goes back gives the lock back; what follows is done without it. -/
def TimerManager.list_expired_cbs (pool : Nat) : Code :=
  .all [reading (.timerManager pool) .skip,
    perhaps (.all [writing (.timerManager pool) (.all [Fiber.drops, perhaps logLine]),
      many (.all [perhaps logLine, perhaps (.all [logLine, IOManager.tickle]), Fiber.drops])])]

/-- The scheduler is the one of who registered. -/
def FdContext.triggerEvent : Code := .all [logLine, many assertion, .any Scheduler.schedule]

def IOManager.add_event (pool fd : Nat) : Code :=
  .all [reading (.ioManager pool) .skip, perhaps (writing (.ioManager pool) .skip),
    writing (.fdContext pool fd) (.either (.all [logLine, assertion])
      (.either logLine (.all [logLine, many assertion,
        perhaps (.all [Fiber.GetThis, assertion])])))]

/-- The guard of `fd_ctx->m_mutex` is a copy of the mutex, which nobody locks: here, and in
`cancel_event` and `cancel_all`. -/
def IOManager.del_event (pool : Nat) : Code :=
  .all [reading (.ioManager pool) logLine,
    perhaps (.either logLine (.all [assertion, Fiber.drops]))]

def IOManager.cancel_event (pool : Nat) : Code :=
  .all [reading (.ioManager pool) logLine, perhaps (.either logLine FdContext.triggerEvent)]

def IOManager.cancel_all (pool : Nat) : Code :=
  .all [reading (.ioManager pool) logLine,
    perhaps (.either logLine (.all [perhaps FdContext.triggerEvent, perhaps FdContext.triggerEvent,
      assertion]))]

/-- The loop in `idle` over what `epoll_wait` has reported: the pipe, which is read through the
hook, and descriptors. -/
def IOManager.reports (pool : Nat) : Code :=
  many (.either (many FdManger.getFdCtx) (.any fun fd => .all [logLine,
    writing (.fdContext pool fd) (.all [logLine, perhaps (.either logLine (.all [
      perhaps (.all [logLine, FdContext.triggerEvent]),
      perhaps (.all [logLine, FdContext.triggerEvent])]))])]))

/-- A round of `idle`, which may be its last. -/
def IOManager.idle (pool : Nat) : Code :=
  .all [IOManager.stopping pool, logLine,
    perhaps (.all [
      -- `epoll_wait`, and again as long as it is interrupted
      .leave, many (.all [logLine, .leave]),
      TimerManager.list_expired_cbs pool, perhaps (.all [logLine, Scheduler.schedule pool]),
      logLine, IOManager.reports pool, Fiber.GetThis, .leave])]

/-! ### The hooks -/

def doIo (pool fd : Nat) : Code :=
  .all [FdManger.getFdCtx,
    many (.all [perhaps (TimerManager.add_timer pool), IOManager.add_event pool fd,
      .either (.all [logLine, perhaps (Timer.cancel pool)])
        (.all [Fiber.Yield_to_Hold, perhaps (Timer.cancel pool)])])]

/-- `sleep`, `usleep` and `nanosleep` -/
def sleep (pool : Nat) : Code :=
  perhaps (.all [Fiber.GetThis, TimerManager.add_timer pool, Fiber.Yield_to_Hold])

/-- `socket`, `fcntl`, `ioctl` and `setsockopt` -/
def socketOption : Code := perhaps FdManger.getFdCtx

def connectWithTimeout (pool fd : Nat) : Code :=
  perhaps <| .all [FdManger.getFdCtx,
    perhaps (.all [perhaps (TimerManager.add_timer pool), IOManager.add_event pool fd,
      .either (.all [perhaps (Timer.cancel pool), logLine])
        (.all [Fiber.Yield_to_Hold, perhaps (Timer.cancel pool)])])]

def accept (pool fd : Nat) : Code := .all [doIo pool fd, perhaps FdManger.getFdCtx]

def close (pool : Nat) : Code :=
  perhaps (.all [FdManger.getFdCtx,
    perhaps (.all [IOManager.cancel_all pool, FdManger.delFdCtx])])

/-! ### The configuration -/

def ConfigVar.toString (id : Nat) : Code :=
  .all [reading (.configVar id) .skip, perhaps (Logger.log .root)]

def ConfigVar.getValue (id : Nat) : Code := reading (.configVar id) .skip

def ConfigVar.getListener (id : Nat) : Code := reading (.configVar id) .skip

/-- `addListener` and `delListener` -/
def ConfigVar.addListener (id : Nat) : Code := writing (.configVar id) .skip

section

-- the listeners of a variable, and what `Visit` is given
variable (listeners : Nat → Code) (visitor : Code)

/-- A listener runs under the lock; one that throws ends the call. -/
def ConfigVar.setValue (id : Nat) : Code :=
  .all [reading (.configVar id) (many (listeners id)), perhaps (writing (.configVar id) .skip)]

def ConfigVar.fromString (id : Nat) : Code :=
  .all [perhaps (ConfigVar.setValue listeners id), perhaps (Logger.log .root)]

/-- A variable of another type under the name is printed. -/
def Config.Lookup : Code :=
  writing .config (.either (Logger.log .root) (.all [
    perhaps (.all [.any ConfigVar.toString, Logger.log .root]), perhaps (Logger.log .root)]))

/-- `LookupBase`, and `Lookup` without a default. -/
def Config.LookupBase : Code := reading .config .skip

def Config.LoadFromYaml : Code :=
  .all [many (Logger.log .root), many (.all [Config.LookupBase,
    perhaps (.any (ConfigVar.fromString listeners))])]

def Config.Visit : Code := reading .config (many visitor)

end

/-! ### From where they climb -/

@[simp] theorem above_getFdCtx : Above r FdManger.getFdCtx ↔ r < 11 := by
  simp [FdManger.getFdCtx, Climbs, Lock.rank]

@[simp] theorem above_delFdCtx : Above r FdManger.delFdCtx ↔ r < 11 := by
  simp [FdManger.delFdCtx, Climbs, Lock.rank]

@[simp] theorem above_stream : Above r stream ↔ r < 11 := by
  simp [stream]

@[simp] theorem above_appenderLog (a : Nat) : Above r (LogAppender.log a) ↔ r < 10 := by
  simp [LogAppender.log, StdoutLogAppender.log, FileLogAppender.log, FileLogAppender.reopen, Climbs,
    Lock.rank]

@[simp] theorem above_logRoot : Above r Logger.logRoot ↔ r < 9 := by
  simp [Logger.logRoot, Climbs, Lock.rank]

@[simp] theorem above_anyLogger {code : LoggerId → Code} :
    Above r (anyLogger code) ↔ ∀ l, Above r (code l) := by
  refine ⟨fun above l => ?_, fun above => ⟨above .root, fun id => above (.other id)⟩⟩
  cases l with
  | root => exact above.1
  | other id => exact above.2 id

@[simp] theorem above_log_root : Above r (Logger.log .root) ↔ r < 9 := above_logRoot

@[simp] theorem above_log_other (id : Nat) : Above r (Logger.log (.other id)) ↔ r < 8 := by
  simp [Logger.log, Climbs, Lock.rank]

@[simp] theorem above_logLine : Above r logLine ↔ r < 8 := by
  simp only [logLine, climbs_perhaps, above_anyLogger]
  refine ⟨fun above => (above_log_other 0).mp (above (.other 0)), fun low l => ?_⟩
  cases l with
  | root => exact above_log_root.mpr (by omega)
  | other id => exact (above_log_other id).mpr low

@[simp] theorem above_assertion : Above r assertion ↔ r < 8 := by
  simp [assertion]
  omega

/-! #### Fibers, schedulers and event loops -/

@[simp] theorem above_getThis : Above r Fiber.GetThis ↔ r < 8 := by
  simp [Fiber.GetThis]

@[simp] theorem above_drops : Above r Fiber.drops ↔ r < 8 := by
  simp [Fiber.drops]

@[simp] theorem above_newFiber : Above r Fiber.new ↔ r < 2 := by
  simp [Fiber.new, Climbs, Lock.rank]
  omega

@[simp] theorem above_yield : Above r Fiber.Yield_to_Hold ↔ r = 0 := by
  simp [Fiber.Yield_to_Hold, Climbs]
  omega

@[simp] theorem above_tickle : Above r IOManager.tickle ↔ r < 8 := by
  simp [IOManager.tickle]
  omega

@[simp] theorem above_schedule (pool : Nat) : Above r (Scheduler.schedule pool) ↔ r < 5 := by
  simp [Scheduler.schedule, Climbs, Lock.rank]
  omega

@[simp] theorem above_stopping (pool : Nat) : Above r (IOManager.stopping pool) ↔ r < 5 := by
  simp [IOManager.stopping, TimerManager.get_next_timeout, Scheduler.stopping, Climbs, Lock.rank]
  omega

@[simp] theorem above_addTimer (pool : Nat) : Above r (TimerManager.add_timer pool) ↔ r < 6 := by
  simp [TimerManager.add_timer, Climbs, Lock.rank]
  omega

@[simp] theorem above_cancel (pool : Nat) : Above r (Timer.cancel pool) ↔ r < 6 := by
  simp [Timer.cancel, Climbs, Lock.rank]

@[simp] theorem above_listExpired (pool : Nat) :
    Above r (TimerManager.list_expired_cbs pool) ↔ r < 6 := by
  simp [TimerManager.list_expired_cbs, Climbs, Lock.rank]
  omega

@[simp] theorem above_trigger : Above r FdContext.triggerEvent ↔ r < 5 := by
  simp [FdContext.triggerEvent, Climbs]
  omega

@[simp] theorem above_addEvent (pool fd : Nat) : Above r (IOManager.add_event pool fd) ↔ r < 3 := by
  simp [IOManager.add_event, Climbs, Lock.rank]
  omega

@[simp] theorem above_cancelAll (pool : Nat) : Above r (IOManager.cancel_all pool) ↔ r < 3 := by
  simp [IOManager.cancel_all, Climbs, Lock.rank]
  omega

@[simp] theorem above_doIo (pool fd : Nat) : Above r (doIo pool fd) ↔ r = 0 := by
  simp [doIo, Climbs]
  omega

/-! #### Loggers and the configuration -/

@[simp] theorem above_dropLogger : Above r Logger.drop ↔ r < 11 := by
  simp [Logger.drop, LogAppender.drop]

/-- In the scope of a logger's lock there are only appenders. -/
theorem above_scope {body : Code} (low : r < 8) (above : Above 9 body) (l : LoggerId) :
    Above r (writing (.logger l) body) := by
  cases l with
  | root => exact ⟨low.trans (show 8 < 9 by decide), above⟩
  | other => exact ⟨low, above.mono (show 8 ≤ 9 by decide)⟩

theorem above_addAppender (low : r < 8) (l : LoggerId) : Above r (Logger.addAppender l) :=
  above_scope low (by
    simp [LogAppender.getFormatter, LogAppender.setFormatter, Climbs, Lock.rank]) l

theorem above_clearAppenders (low : r < 8) (l : LoggerId) : Above r (Logger.clearAppenders l) :=
  above_scope low (by simp [LogAppender.drop]) l

theorem above_delAppender (low : r < 8) (l : LoggerId) : Above r (Logger.delAppender l) :=
  above_scope low (by simp [LogAppender.drop]) l

theorem above_setPattern (low : r < 8) (l : LoggerId) : Above r (Logger.setPattern l) :=
  climbs_perhaps.mpr (above_scope low (show Above 9 .skip from trivial) l)

theorem above_dumpLogger (low : r < 8) (l : LoggerId) : Above r (Logger.toYamlString l) :=
  above_scope low (by simp [LogAppender.toYamlString, Climbs, Lock.rank]) l

@[simp] theorem above_toString (id : Nat) : Above r (ConfigVar.toString id) ↔ r < 2 := by
  simp [ConfigVar.toString, Climbs, Lock.rank]
  omega

/-- **The listener of `g_log_defines`** climbs from the variable it listens to. -/
theorem above_logIniter : Above 2 LogIniter.listener := by
  simp [LogIniter.listener, LoggerManager.getLogger, LoggerManager.addLogger, Climbs, Lock.rank,
    above_setPattern, above_addAppender, above_clearAppenders]

theorem above_hookIniter : Above 2 HookIniter.listener := above_logLine.mpr (by decide)

section

variable {listeners : Nat → Code}

theorem above_setValue (listen : ∀ id, Above 2 (listeners id)) (id : Nat) :
    Above 0 (ConfigVar.setValue listeners id) := by
  simp [ConfigVar.setValue, Climbs, Lock.rank, listen id]

theorem above_fromString (listen : ∀ id, Above 2 (listeners id)) (id : Nat) :
    Above 0 (ConfigVar.fromString listeners id) := by
  simp [ConfigVar.fromString, above_setValue listen id]

end

/-! ### Calls -/

/-- The functions that take a lock, those that call them, and the rounds of the two loops. -/
inductive Operation
  | getFdCtx
  | delFdCtx
  | setAppenderFormatter (a : Nat)
  | getAppenderFormatter (a : Nat)
  | appenderLog (a : Nat)
  | reopen (a : Nat)
  | dumpAppender (a : Nat)
  | log (l : LoggerId)
  | addAppender (l : LoggerId)
  | delAppender (l : LoggerId)
  | clearAppenders (l : LoggerId)
  | setFormatter (l : LoggerId)
  | dumpLogger (l : LoggerId)
  | getLogger
  | addLogger
  | dumpLoggers
  | lookup
  | lookupBase
  | loadFromYaml
  | visit
  | toString (id : Nat)
  | getValue (id : Nat)
  | getListener (id : Nat)
  | addListener (id : Nat)
  | setValue (id : Nat)
  | fromString (id : Nat)
  | newFiber
  | getThis
  | yieldToHold
  | start (pool : Nat)
  | stop (pool : Nat)
  | schedule (pool : Nat)
  | run (pool : Nat)
  | idle (pool : Nat)
  | stopping (pool : Nat)
  | addTimer (pool : Nat)
  | cancelTimer (pool : Nat)
  | refreshTimer (pool : Nat)
  | resetTimer (pool : Nat)
  | getNextTimeout (pool : Nat)
  | listExpiredCbs (pool : Nat)
  | addEvent (pool fd : Nat)
  | delEvent (pool : Nat)
  | cancelEvent (pool : Nat)
  | cancelAll (pool : Nat)
  | doIo (pool fd : Nat)
  | socketOption
  | sleep (pool : Nat)
  | connect (pool fd : Nat)
  | accept (pool fd : Nat)
  | close (pool : Nat)

/-- What each does. -/
def Operation.code (listeners : Nat → Code) (visitor : Code) : Operation → Code
  | getFdCtx => perhaps FdManger.getFdCtx
  | delFdCtx => FdManger.delFdCtx
  | setAppenderFormatter a => LogAppender.setFormatter a
  | getAppenderFormatter a => LogAppender.getFormatter a
  | appenderLog a => LogAppender.log a
  | reopen a => FileLogAppender.reopen a
  | dumpAppender a => LogAppender.toYamlString a
  | log l => Logger.log l
  | addAppender l => Logger.addAppender l
  | delAppender l => Logger.delAppender l
  | clearAppenders l => Logger.clearAppenders l
  | setFormatter l => Logger.setPattern l
  | dumpLogger l => Logger.toYamlString l
  | getLogger => LoggerManager.getLogger
  | addLogger => LoggerManager.addLogger
  | dumpLoggers => LoggerManager.toYamlString
  | lookup => Config.Lookup
  | lookupBase => Config.LookupBase
  | loadFromYaml => Config.LoadFromYaml listeners
  | visit => Config.Visit visitor
  | toString id => ConfigVar.toString id
  | getValue id => ConfigVar.getValue id
  | getListener id => ConfigVar.getListener id
  | addListener id => ConfigVar.addListener id
  | setValue id => ConfigVar.setValue listeners id
  | fromString id => ConfigVar.fromString listeners id
  | newFiber => Fiber.new
  | getThis => Fiber.GetThis
  | yieldToHold => Fiber.Yield_to_Hold
  | start pool => Scheduler.start pool
  | stop pool => Scheduler.stop pool
  | schedule pool => Scheduler.schedule pool
  | run pool => Scheduler.run pool
  | idle pool => IOManager.idle pool
  | stopping pool => IOManager.stopping pool
  | addTimer pool => TimerManager.add_timer pool
  | cancelTimer pool => Timer.cancel pool
  | refreshTimer pool => Timer.refresh pool
  | resetTimer pool => Timer.reset pool
  | getNextTimeout pool => TimerManager.get_next_timeout pool
  | listExpiredCbs pool => TimerManager.list_expired_cbs pool
  | addEvent pool fd => IOManager.add_event pool fd
  | delEvent pool => IOManager.del_event pool
  | cancelEvent pool => IOManager.cancel_event pool
  | cancelAll pool => IOManager.cancel_all pool
  | doIo pool fd => Locks.doIo pool fd
  | socketOption => Locks.socketOption
  | sleep pool => Locks.sleep pool
  | connect pool fd => Locks.connectWithTimeout pool fd
  | accept pool fd => Locks.accept pool fd
  | close pool => Locks.close pool

/-- **Every function takes its locks in the order, and leaves its thread with none.** -/
theorem Operation.above_code {listeners : Nat → Code} {visitor : Code}
    (listen : ∀ id, Above 2 (listeners id)) (visits : Above 1 visitor) (operation : Operation) :
    Above 0 (operation.code listeners visitor) := by
  cases operation with
  | getFdCtx | delFdCtx | appenderLog | newFiber | getThis | yieldToHold | schedule | stopping |
      addTimer | cancelTimer | listExpiredCbs | addEvent | cancelAll | doIo | toString =>
    simp [Operation.code]
  | setAppenderFormatter | getAppenderFormatter | dumpAppender =>
    exact ⟨Nat.zero_lt_succ 9, trivial⟩
  | reopen a => exact ⟨Nat.zero_lt_succ 9, above_stream.mpr (show 10 < 11 by decide)⟩
  | log l => exact above_anyLogger.mp (climbs_perhaps.mp (above_logLine.mpr (by decide))) l
  | addAppender l => exact above_addAppender (by decide) l
  | delAppender l => exact above_delAppender (by decide) l
  | clearAppenders l => exact above_clearAppenders (by decide) l
  | setFormatter l => exact above_setPattern (by decide) l
  | dumpLogger l => exact above_dumpLogger (by decide) l
  | getLogger => exact ⟨by decide, trivial⟩
  | addLogger => simp [Operation.code, LoggerManager.addLogger, Climbs, Lock.rank]
  | dumpLoggers =>
    simp [Operation.code, LoggerManager.toYamlString, Climbs, Lock.rank, above_dumpLogger]
  | lookup => simp [Operation.code, Config.Lookup, Climbs, Lock.rank]
  | lookupBase => exact ⟨by decide, trivial⟩
  | loadFromYaml =>
    simp [Operation.code, Config.LoadFromYaml, Config.LookupBase, Climbs, Lock.rank,
      above_fromString listen]
  | visit => simp [Operation.code, Config.Visit, Climbs, Lock.rank, visits]
  | getValue | getListener | addListener => exact ⟨Nat.zero_lt_two, trivial⟩
  | setValue id => exact above_setValue listen id
  | fromString id => exact above_fromString listen id
  | start pool => simp [Operation.code, Scheduler.start, Thread.new, Climbs, Lock.rank]
  | stop pool => simp [Operation.code, Scheduler.stop, Climbs, Lock.rank]
  | run pool => simp [Operation.code, Scheduler.run, Climbs, Lock.rank]
  | idle pool => simp [Operation.code, IOManager.idle, IOManager.reports, Climbs, Lock.rank]
  | refreshTimer pool => simp [Operation.code, Timer.refresh]
  | resetTimer pool => simp [Operation.code, Timer.reset]
  | getNextTimeout pool => exact ⟨Nat.zero_lt_succ 5, trivial⟩
  | delEvent pool => simp [Operation.code, IOManager.del_event, Climbs, Lock.rank]
  | cancelEvent pool => simp [Operation.code, IOManager.cancel_event, Climbs, Lock.rank]
  | socketOption => simp [Operation.code, Locks.socketOption]
  | sleep pool => simp [Operation.code, Locks.sleep]
  | connect pool fd => simp [Operation.code, Locks.connectWithTimeout, Climbs]
  | accept pool fd => simp [Operation.code, Locks.accept]
  | close pool => simp [Operation.code, Locks.close]

/-- **No deadlock.** Whatever flows of control call, one after the other, and whether or not the
read-write locks prefer writers: who cannot move waits, through a chain of flows, for one that can;
flows of which none can move have finished their calls and hold no lock; no run goes on forever; no
two flows hold one lock unless both read; and a flow leaves its thread without locks. Listeners and
visitors are to keep to the order. -/
theorem no_deadlock {n : Nat} (prefersWriters : Bool) (listeners : Nat → Code) (visitor : Code)
    (listen : ∀ id, Above 2 (listeners id)) (visits : Above 1 visitor)
    (calls : Fin n → List Operation) (s : Flows Lock n)
    (reached : (flows prefersWriters fun i =>
      (calls i).map (Operation.code listeners visitor)).Reachable s) :
    (∀ i, (s i).todo ≠ [] → ∃ j, Relation.ReflTransGen (s.WaitsFor prefersWriters) i j ∧
      ∀ choice, (s.step prefersWriters (j, choice)).isSome = true) ∧
      ((∀ event, s.step prefersWriters event = none) → ∀ i, (s i).todo = [] ∧ (s i).held = []) ∧
      (∀ run : Nat → Flows Lock n, run 0 = s →
        ∃ k, ∀ event, (run k).step prefersWriters event ≠ some (run (k + 1))) ∧
      s.Unclashed ∧ ∀ i rest, (s i).todo = .call .leave :: rest → (s i).held = [] := by
  have climb : ∀ i, ∀ p ∈ (calls i).map (Operation.code listeners visitor), Above 0 p := by
    intro i p called
    obtain ⟨operation, -, rfl⟩ := List.mem_map.mp called
    exact operation.above_code listen visits
  obtain ⟨ordered, unclashed⟩ := Flows.reachable climb reached
  exact ⟨fun i busy => Flows.exists_moves ordered i busy,
    fun stuck => Flows.finished_of_stuck ordered stuck,
    fun run _ => Flows.runs_end prefersWriters run, unclashed,
    fun i rest leaves => (ordered i).leaving leaves⟩

/-- What the library listens with. -/
def installed (_ : Nat) : Code := .either LogIniter.listener HookIniter.listener

/-- One flow prints the loggers, the other one writes a log line. -/
def dumpsAndLogs (i : Fin 2) : List Code :=
  (if i = 0 then [.dumpLoggers] else [.log .root]).map
    (Operation.code installed (.any ConfigVar.toString))

/-- The library's listeners, and a visitor that prints: a log line waits for a dump of the
loggers. -/
theorem no_deadlock_dump :
    ∃ s : Flows Lock 2, (flows true dumpsAndLogs).Reachable s ∧ s.WaitsFor true 1 0 ∧
      (s 0).held = [(.exclusive, .logger .root), (.exclusive, .loggerManager)] ∧
      ∃ j, Relation.ReflTransGen (s.WaitsFor true) 1 j ∧
        ∀ choice, (s.step true (j, choice)).isSome = true := by
  have run : ∃ s, (flows true dumpsAndLogs).Reachable s ∧ decide (s.WaitsFor true 1 0 ∧
      (s 0).held = [(.exclusive, .logger .root), (.exclusive, .loggerManager)]) = true :=
    Machine.reachable_of_replay rfl [(0, 0), (0, 1), (0, 0), (0, 0), (0, 0), (1, 1)] _ (by decide)
  obtain ⟨s, reached, check⟩ := run
  obtain ⟨waits, holds⟩ := of_decide_eq_true check
  have busy : (s 1).todo ≠ [] := by
    obtain ⟨want, wants, -⟩ := id waits
    exact Flow.busy_of_wants wants
  exact ⟨s, reached, waits, holds, (no_deadlock true installed (.any ConfigVar.toString)
    (fun _ => ⟨above_logIniter, above_hookIniter⟩) (fun id => (above_toString id).mpr (by decide))
    (fun i => if i = 0 then [.dumpLoggers] else [.log .root]) s reached).1 1 busy⟩

/-- A listener that adds another one to its variable waits for the lock that it runs under. -/
theorem listener_waits_for_itself :
    ∃ s : Flows Lock 1, (flows false fun _ =>
        [Operation.code ConfigVar.addListener .skip (.setValue 0)]).Reachable s ∧
      s.WaitsFor false 0 0 := by
  have run : ∃ s, (flows false fun _ : Fin 1 =>
      [Operation.code ConfigVar.addListener .skip (.setValue 0)]).Reachable s ∧
      decide (s.WaitsFor false 0 0) = true :=
    Machine.reachable_of_replay rfl [(0, 0), (0, 0), (0, 1), (0, 0)] _ (by decide)
  obtain ⟨s, reached, waits⟩ := run
  exact ⟨s, reached, of_decide_eq_true waits⟩

end Sylar.Threads.Locks
