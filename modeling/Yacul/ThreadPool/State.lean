import Mathlib.Data.Int.Notation
import Mathlib.Data.List.Basic
import Mathlib.Logic.Function.Basic

/-!
# The state of the thread pool

The shared variables of `ThreadPool`, the threads that act on them, and the
sections under its mutexes.  A thread is a program counter; the pool keeps one
for each worker, one for the delay scheduler and one for each call that a
client has made.  A mutex that is held from one step to the next is a Boolean;
a condition variable is the list of the threads that sleep on it and have not
been notified.
-/

namespace Yacul
namespace ThreadPool

/-! ## Configuration and statistics -/

/-- `TaskPriority`. -/
inductive TaskPriority
  | kLow
  | kNormal
  | kHigh
  | kCritical
deriving DecidableEq, Repr

/-- The value of the enumerator. -/
def TaskPriority.value : TaskPriority → ℕ
  | .kLow => 0
  | .kNormal => 1
  | .kHigh => 2
  | .kCritical => 3

/-- `std::chrono::milliseconds` on the clock, which counts nanoseconds. -/
def milliseconds (n : ℤ) : ℤ := n * 1000000

/-- `std::clamp`. -/
def clamp (v lo hi : UInt32) : UInt32 :=
  if v < lo then lo else if hi < v then hi else v

theorem le_clamp {v lo hi : UInt32} (h : lo ≤ hi) : lo ≤ clamp v lo hi := by
  unfold clamp
  split
  · exact UInt32.le_refl lo
  · split
    · exact h
    · exact UInt32.not_lt.mp ‹_›

/-- `ThreadPoolConfig`; durations are in milliseconds. -/
structure ThreadPoolConfig where
  minThreads : UInt32
  maxThreads : UInt32
  initialThreads : UInt32
  maxQueueSize : UInt32
  threadIdleTimeout : ℤ
  delaySchedulerInterval : ℤ
  enableWorkStealing : Bool
  enablePriorityQueue : Bool
  enableDelayedTasks : Bool
deriving DecidableEq, Repr

/-- `ThreadPoolStats`. -/
structure ThreadPoolStats where
  tasksSubmitted : UInt64 := 0
  tasksCompleted : UInt64 := 0
  tasksFailed : UInt64 := 0
  delayedTasksSubmitted : UInt64 := 0
  delayedTasksExecuted : UInt64 := 0
  tasksCancelled : UInt64 := 0
  activeThreads : UInt32 := 0
  queueSize : UInt32 := 0
  delayedQueueSize : UInt32 := 0
deriving DecidableEq, Repr

/-! ## Tasks -/

/-- What the body of a recurring task captures; `cancelled` is the index of
its flag. -/
structure Recurring where
  interval : ℤ
  priority : TaskPriority
  cancelled : ℕ
deriving DecidableEq, Repr

/-- The callable behind a submission. -/
inductive Body
  | user
  | recurring (r : Recurring)
deriving DecidableEq, Repr

/-- The function object that goes through the queues: the wrapper of
`SubmitWithPriority`, or that of `SubmitDelayedWithPriority` with its
cancellation flag. -/
inductive Wrapper
  | immediate
  | delayed (cancelled : ℕ) (body : Body)
deriving DecidableEq, Repr

/-- A wrapper; `id` numbers the accepted submissions. -/
structure Task where
  id : ℕ
  wrapper : Wrapper
deriving DecidableEq, Repr

/-- The recurring body inside a task. -/
def Task.recurring? (t : Task) : Option Recurring :=
  match t.wrapper with
  | .delayed _ (.recurring r) => some r
  | _ => none

/-- `PriorityTask`. -/
structure PriorityTask where
  priority : TaskPriority
  task : Task
deriving DecidableEq, Repr

/-- `DelayedTask`. -/
structure DelayedTask where
  executeTime : ℤ
  priority : TaskPriority
  task : Task
  taskId : UInt64
deriving DecidableEq, Repr

/-- `DelayedTask::operator<`: the left task comes after the right one. -/
def DelayedTask.before (a b : DelayedTask) : Bool :=
  if a.executeTime ≠ b.executeTime then b.executeTime < a.executeTime
  else a.priority.value < b.priority.value

/-! ## Threads -/

/-- The public operations, besides `TaskHandle::Cancel`. -/
inductive Call
  | submit (priority : TaskPriority)
  | submitDelayed (delay : ℤ) (priority : TaskPriority)
  | submitRecurring (interval : ℤ) (priority : TaskPriority)
  | cancelTask (taskId : UInt64)
  | waitForTasks
  | pause
  | resume
  | shutdown (waitForTasks : Bool)
  | shutdownNow
  | resize (newSize : UInt32)
  | getThreadCount
  | setMaxQueueSize (maxSize : UInt32)
  | resetStats
deriving DecidableEq, Repr

/-- What follows `WaitForTasks`. -/
inductive WaitNext
  | ret
  | shutdown
deriving DecidableEq, Repr

/-- Where a call is. -/
inductive CallPc
  /-- The section of `EnqueueTask`. -/
  | enqueueTask (priority : TaskPriority)
  | notifyOne
  /-- `TryExpandPool`: `GetThreadCount`, `GetQueueSize` and
  `GetActiveThreadCount`. -/
  | expandThreads
  | expandQueue (threadCount : UInt32)
  | expandActive (threadCount : UInt32)
  /-- `AddWorkerThread`; `target` is the size a `Resize` grows to. -/
  | addThreadId (target : Option UInt32)
  | addThread (threadId : UInt32) (target : Option UInt32)
  /-- `SubmitDelayedWithPriority`. -/
  | delayedPrepare (delay : ℤ) (priority : TaskPriority) (body : Body)
  | delayedInsert (executeTime : ℤ) (priority : TaskPriority)
      (taskId : UInt64) (cancelled : ℕ) (body : Body)
  | delayedNotify
  /-- `SubmitRecurringWithPriority`. -/
  | recurringPrepare (interval : ℤ) (priority : TaskPriority)
  | recurringRegister (taskId : UInt64) (r : Recurring)
  | cancelTask (taskId : UInt64)
  /-- `WaitForTasks`; `before` are the tasks placed on the shared queue before
  the call. -/
  | waitTest (before : List ℕ) (next : WaitNext)
  | waitHeld (before : List ℕ) (next : WaitNext)
  | waitAsleep (before : List ℕ) (next : WaitNext)
  | pause
  | resume
  | resumeNotify
  /-- `Shutdown` and `ShutdownNow` (`now`). -/
  | shutdownSet (now : Bool)
  | shutdownNotify
  | shutdownNotifyDelayed
  | shutdownNotifyPause
  | joinScheduler
  | lockThreads
  | join (k : ℕ)
  /-- `Resize`. -/
  | resizeLog (newSize : UInt32)
  | resizeGrow (newSize : UInt32)
  | resizeShrink (newSize : UInt32)
  | resizeNotify
  | getThreadCount
  | setMaxQueueSize (maxSize : UInt32)
  | resetStats
  | done
deriving DecidableEq, Repr

/-- Inside a counted wrapper. -/
inductive Phase
  /-- In the user's callable, between two calls to the pool. -/
  | user
  | call (pc : CallPc)
  /-- The tests of the recurring body, and its `SubmitDelayedWithPriority`. -/
  | recurringTest
  | rescheduleTest
  | reschedule (pc : CallPc)
deriving DecidableEq, Repr

/-- Where a worker is in `WorkerLoop`. -/
inductive WorkerPc
  | spawned
  | top
  /-- The wait on `pause_condition_`. -/
  | pauseTest
  | pauseHeld
  | pauseAsleep
  /-- `shutdown_` and `GetQueueSize() == 0`. -/
  | shutdownTest
  | drainTest
  /-- The three places a task can come from. -/
  | localQueue
  | sharedQueue
  | steal
  /-- `last_work_time` and the wrapper. -/
  | gotTask (t : Task)
  | wrapper (t : Task)
  | count (t : Task)
  | running (t : Task) (phase : Phase)
  | returned (t : Task)
  | uncount (t : Task)
  | notifyFinish
  /-- The retirement check and the wait on `condition_`. -/
  | idleTest
  | retire
  | idleCheck
  | idleHeld (deadline : ℤ)
  | idleAsleep (deadline : ℤ)
  | idleRetest (deadline : ℤ)
  | exited
deriving DecidableEq, Repr

/-- A worker thread. -/
structure Worker where
  threadId : UInt32
  lastWorkTime : ℤ
  pc : WorkerPc
deriving DecidableEq, Repr

/-- The worker moves on to `pc`. -/
def Worker.goto (w : Worker) (pc : WorkerPc) : Worker :=
  { w with pc := pc }

@[simp, grind =] theorem Worker.goto_pc (w : Worker) (pc : WorkerPc) :
    (w.goto pc).pc = pc := rfl

/-- The call that the task of the worker is in. -/
def Worker.call? (w : Worker) : Option CallPc :=
  match w.pc with
  | .running _ (.call pc) | .running _ (.reschedule pc) => some pc
  | _ => none

/-- Where the delay scheduler is. -/
inductive SchedulerPc
  | test
  | process
  | lock (now : ℤ)
  /-- The loop under `delayed_queue_mutex_` that collects ready tasks. -/
  | collect (now : ℤ) (ready : List DelayedTask)
  | push (ready : List DelayedTask)
  | notify (count : ℕ)
  /-- The wait on `delayed_condition_`; `waitTest` and `waitHeld` hold
  `delayed_queue_mutex_`. -/
  | prepare
  | waitTest (nextWake : ℤ)
  | waitHeld (nextWake : ℤ)
  | asleep (nextWake since : ℤ)
  | exited
deriving DecidableEq, Repr

/-- A thread that can be inside a call. -/
inductive Caller
  | client (n : ℕ)
  | worker (i : ℕ)
deriving DecidableEq, Repr

/-- The choices the environment makes for a step: which element or sleeper is
picked, whether a wait times out, whether the callable throws, and what the
callable calls next. -/
structure Choice where
  index : ℕ := 0
  timeout : Bool := false
  throws : Bool := false
  call : Option Call := none
deriving DecidableEq, Repr

/-! ## The pool -/

structure State where
  config : ThreadPoolConfig
  clock : ℤ
  shutdown : Bool
  paused : Bool
  nextTaskId : UInt64
  nextThreadId : UInt32
  /-- `threads_`: the workers whose handles it holds. -/
  threads : List ℕ
  localQueues : List (List Task)
  tasks : List Task
  priorityTasks : List PriorityTask
  delayedTasks : List DelayedTask
  cancelledTasks : UInt64 → Option ℕ
  /-- The cancellation flags ever created. -/
  flags : List Bool
  stats : ThreadPoolStats
  queueHeld : Bool
  threadsHeld : Bool
  /-- Sleepers on `condition_`, `pause_condition_`, `finish_condition_` and
  `delayed_condition_`. -/
  idleSleepers : List ℕ
  pauseSleepers : List ℕ
  finishSleepers : List Caller
  schedulerSleeps : Bool
  workers : List Worker
  scheduler : Option SchedulerPc
  clients : List CallPc
  /-- A `CHECK` has failed. -/
  aborted : Bool
  /-- History: the number of accepted submissions; the tasks placed on the
  shared queue, those whose wrapper has been invoked, those finished, those
  found cancelled by the scheduler, those dropped by `ShutdownNow`; and the
  tasks each return from `WaitForTasks` answers for. -/
  accepted : ℕ
  queued : List ℕ
  invoked : List ℕ
  finished : List ℕ
  dropped : List ℕ
  discarded : List ℕ
  waitReturns : List (List ℕ)

/-- `delayed_queue_mutex_` is free: only the scheduler keeps it from one step
to the next. -/
def State.delayedFree (s : State) : Bool :=
  match s.scheduler with
  | some (.collect _ _) | some (.waitTest _) | some (.waitHeld _) => false
  | _ => true

/-- The flag `f` is set. -/
def State.flag (s : State) (f : ℕ) : Bool :=
  s.flags.getD f false

/-- `GetThreadCount`. -/
def State.threadCount (s : State) : UInt32 :=
  UInt32.ofNat s.threads.length

/-- The calls in progress: those of the clients and those made by tasks. -/
def State.calls (s : State) : List CallPc :=
  s.clients ++ s.workers.filterMap Worker.call?

/-! ## Sections -/

/-- A section that takes a mutex runs when the mutex is free. -/
def whenFree {β : Type*} (held : Bool) (result : β) : Option β :=
  if held then none else some result

@[simp] theorem whenFree_eq_some {β : Type*} {held : Bool} {r x : β} :
    whenFree held r = some x ↔ held = false ∧ r = x := by
  cases held <;> simp [whenFree]

/-- A task goes onto the shared queue. -/
def pushTask (s : State) (priority : TaskPriority) (t : Task) : State :=
  let s := { s with
    stats := { s.stats with queueSize := s.stats.queueSize + 1 }
    queued := t.id :: s.queued }
  if s.config.enablePriorityQueue then
    { s with priorityTasks := s.priorityTasks ++ [⟨priority, t⟩] }
  else { s with tasks := s.tasks ++ [t] }

/-- `ThreadPool::DequeueTask`; `k` picks among the tasks of the highest
priority. -/
def dequeueTask (s : State) (k : ℕ) : Option (Option Task × State) :=
  if s.config.enablePriorityQueue && !s.priorityTasks.isEmpty then
    match s.priorityTasks[k]? with
    | none => none
    | some top =>
        if s.priorityTasks.all fun p => p.priority.value ≤ top.priority.value
        then
          some (some top.task, { s with
            priorityTasks := s.priorityTasks.eraseIdx k
            stats := { s.stats with queueSize := s.stats.queueSize - 1 } })
        else none
  else
    match s.tasks with
    | [] => some (none, s)
    | t :: rest =>
        some (some t, { s with
          tasks := rest
          stats := { s.stats with queueSize := s.stats.queueSize - 1 } })

/-- The front of the local queue `slot` is taken. -/
def popLocal (s : State) (slot : ℕ) : Option (Task × State) :=
  match s.localQueues[slot]? with
  | some (t :: rest) =>
      some (t, { s with localQueues := s.localQueues.set slot rest })
  | _ => none

/-- `ThreadPool::StealTask`: the first non-empty queue of another slot. -/
def stealTask (s : State) (own : ℕ) : Option (Task × State) :=
  ((List.range s.localQueues.length).filter (· ≠ own)).findSome? fun slot =>
    popLocal s slot

/-- `condition_.notify_one()`; `k` picks the sleeper. -/
def notifyOne (s : State) (k : ℕ) : Option State :=
  if s.idleSleepers = [] then some s
  else if k ∈ s.idleSleepers then
    some { s with idleSleepers := s.idleSleepers.erase k }
  else none

/-- The section of `AddWorkerThread`. -/
def addWorkerThread (s : State) (threadId : UInt32) : State :=
  { s with
    threads := s.threads ++ [s.workers.length]
    workers := s.workers ++
      [{ threadId := threadId, lastWorkTime := s.clock, pc := .spawned }] }

/-- The section of `ShutdownNow` that drains the queues. -/
def drainQueues (s : State) : State :=
  { s with
    tasks := []
    priorityTasks := []
    delayedTasks := []
    cancelledTasks := fun _ => none
    localQueues := s.localQueues.map fun _ => []
    stats := { s.stats with queueSize := 0, delayedQueueSize := 0 }
    discarded :=
      s.tasks.map Task.id ++ s.priorityTasks.map (fun p => p.task.id) ++
        s.delayedTasks.map (fun d => d.task.id) ++
          s.localQueues.flatten.map Task.id ++ s.discarded }

end ThreadPool
end Yacul
