import Yacul.Support.Transition
import Yacul.ThreadPool.Calls

/-!
# The thread pool as a step function

`workerStep` follows `WorkerLoop` and the wrappers it runs, `schedulerStep`
follows `DelaySchedulerLoop`, and `step` interleaves any number of client
calls with the workers, the delay scheduler and the clock.
-/

namespace Yacul
namespace ThreadPool

/-! ## Workers -/

/-- The first place a task is looked for. -/
def takeTask (s : State) : WorkerPc :=
  if s.config.enableWorkStealing then .localQueue else .sharedQueue

/-- The slot of a worker in the local queues. -/
def Worker.slot (w : Worker) (s : State) : ℕ :=
  w.threadId.toNat % s.localQueues.length

/-- The predicate of the idle wait. -/
def idleWakes (s : State) : Bool :=
  s.shutdown || 0 < s.stats.queueSize || s.paused

/-- The wrapper starts: a delayed one tests its flag first. -/
def startWrapper (s : State) (w : Worker) (t : Task) : State × Worker :=
  match t.wrapper with
  | .immediate =>
      ({ s with stats :=
          { s.stats with activeThreads := s.stats.activeThreads + 1 } },
        w.goto (.running t .user))
  | .delayed cancelled _ =>
      if s.flag cancelled then
        ({ s with
            finished := t.id :: s.finished
            stats :=
              { s.stats with tasksCancelled := s.stats.tasksCancelled + 1 } },
          w.goto .top)
      else (s, w.goto (.count t))

/-- The recurring body counts the outcome of the user's callable. -/
def countRecurring (s : State) (throws : Bool) : State :=
  if throws then
    { s with stats := { s.stats with tasksFailed := s.stats.tasksFailed + 1 } }
  else
    { s with stats :=
        { s.stats with tasksCompleted := s.stats.tasksCompleted + 1 } }

/-- `std::packaged_task` has returned, whether or not the callable threw. -/
def countCompleted (s : State) (t : Task) : State :=
  { s with stats := { s.stats with
      tasksCompleted := s.stats.tasksCompleted + 1
      delayedTasksExecuted := s.stats.delayedTasksExecuted +
        if t.wrapper = .immediate then 0 else 1 } }

/-- One move inside a counted wrapper. -/
def runningStep (s : State) (i : ℕ) (w : Worker) (t : Task) (ch : Choice) :
    Phase → Option (State × Worker)
  | .user =>
      match ch.call with
      | some op => some (s, w.goto (.running t (.call (startCall s op))))
      | none =>
          match t.recurring? with
          | none => some (s, w.goto (.returned t))
          | some _ =>
              some (countRecurring s ch.throws,
                w.goto (.running t .rescheduleTest))
  | .call pc =>
      if pc = .done then some (s, w.goto (.running t .user))
      else (callStep s (.worker i) ch pc).map fun (s', pc') =>
        (s', w.goto (.running t (.call pc')))
  | .recurringTest =>
      t.recurring?.map fun r =>
        (s, w.goto (if s.flag r.cancelled || s.shutdown then .returned t
          else .running t .user))
  | .rescheduleTest =>
      t.recurring?.map fun r =>
        (s, w.goto (if s.flag r.cancelled || s.shutdown then .returned t
          else .running t (.reschedule
            (.delayedPrepare r.interval r.priority (.recurring r)))))
  | .reschedule pc =>
      if pc = .done then some (s, w.goto (.returned t))
      else (callStep s (.worker i) ch pc).map fun (s', pc') =>
        (s', w.goto (.running t (.reschedule pc')))

/-- One move of worker `i` in `WorkerLoop`.  A worker that adds a thread
extends `workers`; its own entry is rewritten by `step`. -/
def workerStep (s : State) (i : ℕ) (w : Worker) (ch : Choice) :
    Option (State × Worker) :=
  match w.pc with
  | .spawned => some (s, { w with lastWorkTime := s.clock, pc := .top })
  | .top => some (s, w.goto (if s.paused then .pauseTest else .shutdownTest))
  | .pauseTest =>
      whenFree s.queueHeld <|
        if !s.paused || s.shutdown then (s, w.goto .shutdownTest)
        else ({ s with queueHeld := true }, w.goto .pauseHeld)
  | .pauseHeld =>
      some ({ s with
          queueHeld := false
          pauseSleepers := i :: s.pauseSleepers },
        w.goto .pauseAsleep)
  | .pauseAsleep =>
      some ({ s with pauseSleepers := s.pauseSleepers.erase i },
        w.goto .pauseTest)
  | .shutdownTest =>
      some (s, w.goto (if s.shutdown then .drainTest else takeTask s))
  | .drainTest =>
      some (s, w.goto (if s.stats.queueSize = 0 then .exited else takeTask s))
  | .localQueue =>
      whenFree s.queueHeld <|
        match popLocal s (w.slot s) with
        | some (t, s') => (s', w.goto (.gotTask t))
        | none => (s, w.goto .sharedQueue)
  | .sharedQueue =>
      if s.queueHeld then none
      else (dequeueTask s ch.index).map fun (t, s') =>
        (s', w.goto (match t with
          | some t => .gotTask t
          | none => if s.config.enableWorkStealing then .steal else .idleTest))
  | .steal =>
      whenFree s.queueHeld <|
        match stealTask s (w.slot s) with
        | some (t, s') => (s', w.goto (.gotTask t))
        | none => (s, w.goto .idleTest)
  | .gotTask t =>
      some ({ s with invoked := t.id :: s.invoked },
        { w with lastWorkTime := s.clock, pc := .wrapper t })
  | .wrapper t => some (startWrapper s w t)
  | .count t =>
      some ({ s with stats :=
          { s.stats with activeThreads := s.stats.activeThreads + 1 } },
        w.goto (.running t
          (if t.recurring?.isSome then .recurringTest else .user)))
  | .running t phase => runningStep s i w t ch phase
  | .returned t => some (countCompleted s t, w.goto (.uncount t))
  | .uncount t =>
      some ({ s with
          finished := t.id :: s.finished
          stats :=
            { s.stats with activeThreads := s.stats.activeThreads - 1 } },
        w.goto .notifyFinish)
  | .notifyFinish => some ({ s with finishSleepers := [] }, w.goto .top)
  | .idleTest =>
      some (s, w.goto
        (if milliseconds s.config.threadIdleTimeout < s.clock - w.lastWorkTime
          then .retire else .idleCheck))
  | .retire =>
      whenFree s.threadsHeld
        (s, w.goto
          (if s.config.minThreads < s.threadCount then .exited
            else .idleCheck))
  | .idleCheck =>
      whenFree s.queueHeld <|
        if idleWakes s then (s, w.goto .top)
        else ({ s with queueHeld := true },
          w.goto (.idleHeld (s.clock + milliseconds 50)))
  | .idleHeld deadline =>
      some ({ s with
          queueHeld := false
          idleSleepers := i :: s.idleSleepers },
        w.goto (.idleAsleep deadline))
  | .idleAsleep deadline =>
      some ({ s with idleSleepers := s.idleSleepers.erase i },
        w.goto (.idleRetest deadline))
  | .idleRetest deadline =>
      whenFree s.queueHeld <|
        if idleWakes s || (ch.timeout && deadline ≤ s.clock) then
          (s, w.goto .top)
        else ({ s with queueHeld := true }, w.goto (.idleHeld deadline))
  | .exited => none

/-! ## The delay scheduler -/

/-- `delayed_tasks_.top().execute_time`. -/
def topTime (s : State) : Option ℤ :=
  (s.delayedTasks.map DelayedTask.executeTime).min?

/-- `delayed_tasks_.top()` is popped; `k` picks among equal tasks. -/
def popDelayed (s : State) (k : ℕ) : Option (DelayedTask × State) :=
  match s.delayedTasks[k]? with
  | none => none
  | some top =>
      if s.delayedTasks.all fun d => !top.before d then
        some (top, { s with
          delayedTasks := s.delayedTasks.eraseIdx k
          stats := { s.stats with
            delayedQueueSize := s.stats.delayedQueueSize - 1 } })
      else none

/-- What happens to a popped task: a cancelled one is dropped and leaves the
registry. -/
def collectReady (s : State) (now : ℤ) (ready : List DelayedTask)
    (d : DelayedTask) : State × SchedulerPc :=
  if (s.cancelledTasks d.taskId).any s.flag then
    ({ s with
        cancelledTasks := Function.update s.cancelledTasks d.taskId none
        dropped := d.task.id :: s.dropped
        stats :=
          { s.stats with tasksCancelled := s.stats.tasksCancelled + 1 } },
      .collect now ready)
  else (s, .collect now (ready ++ [d]))

/-- Some pending task is due at `now`. -/
def taskDue (s : State) (now : ℤ) : Bool :=
  (topTime s).any fun t => t ≤ now

/-- One move of the delay scheduler. -/
def schedulerStep (s : State) (ch : Choice) :
    SchedulerPc → Option (State × SchedulerPc)
  | .test => some (s, if s.shutdown then .exited else .process)
  | .process => some (s, .lock s.clock)
  | .lock now => some (s, .collect now [])
  | .collect now ready =>
      if taskDue s now then
        (popDelayed s ch.index).map fun (d, s') => collectReady s' now ready d
      else some (s, if ready.isEmpty then .prepare else .push ready)
  | .push ready =>
      whenFree s.queueHeld
        (ready.foldl (fun s d => pushTask s d.priority d.task) s,
          .notify ready.length)
  | .notify count =>
      if count = 1 then
        (notifyOne s ch.index).map fun s' => (s', .prepare)
      else some ({ s with idleSleepers := [] }, .prepare)
  | .prepare =>
      some (s, .waitTest ((topTime s).getD
        (s.clock + milliseconds s.config.delaySchedulerInterval)))
  | .waitTest nextWake =>
      some (s, if s.shutdown || taskDue s s.clock then .test
        else .waitHeld nextWake)
  | .waitHeld nextWake =>
      some ({ s with schedulerSleeps := true }, .asleep nextWake s.clock)
  | .asleep nextWake _ =>
      some ({ s with schedulerSleeps := false },
        if ch.timeout && nextWake ≤ s.clock then .test else .waitTest nextWake)
  | .exited => none

/-! ## The whole pool -/

/-- What can happen next. -/
inductive Action
  | tick (elapsed : ℕ)
  /-- A client starts a call; a client makes a move in its call. -/
  | call (op : Call)
  | client (n : ℕ) (choice : Choice)
  | worker (i : ℕ) (choice : Choice)
  | scheduler (choice : Choice)
  /-- `TaskHandle::Cancel`. -/
  | cancel (flag : ℕ)
deriving DecidableEq, Repr

/-- One step of the pool; the process ends at a failed `CHECK`. -/
def step (s : State) (a : Action) : Option State :=
  if s.aborted then none
  else match a with
    | .tick elapsed => some { s with clock := s.clock + elapsed }
    | .call op => some { s with clients := s.clients ++ [startCall s op] }
    | .client n ch =>
        s.clients[n]?.bind fun pc =>
          (callStep s (.client n) ch pc).map fun (s', pc') =>
            { s' with clients := s'.clients.set n pc' }
    | .worker i ch =>
        s.workers[i]?.bind fun w =>
          (workerStep s i w ch).map fun (s', w') =>
            { s' with workers := s'.workers.set i w' }
    | .scheduler ch =>
        s.scheduler.bind fun pc =>
          (schedulerStep s ch pc).map fun (s', pc') =>
            { s' with scheduler := some pc' }
    | .cancel f => some (setFlag s f)

/-- A configuration that passes the `CHECK`s of the constructor. -/
structure CheckedConfig where
  config : ThreadPoolConfig
  one_le_maxThreads : 1 ≤ config.maxThreads
  minThreads_le_maxThreads : config.minThreads ≤ config.maxThreads

/-- The constructor clamps the number of initial threads. -/
def CheckedConfig.clamped (c : CheckedConfig) : ThreadPoolConfig :=
  { c.config with
    initialThreads :=
      clamp c.config.initialThreads c.config.minThreads c.config.maxThreads }

/-- The pool after its constructor, at time `clock`. -/
def construct (c : CheckedConfig) (clock : ℤ) : State where
  config := c.clamped
  clock := clock
  shutdown := false
  paused := false
  nextTaskId := 1
  nextThreadId := c.clamped.initialThreads
  threads := List.range c.clamped.initialThreads.toNat
  localQueues :=
    if c.config.enableWorkStealing then
      List.replicate c.config.maxThreads.toNat []
    else []
  tasks := []
  priorityTasks := []
  delayedTasks := []
  cancelledTasks := fun _ => none
  flags := []
  stats := {}
  queueHeld := false
  threadsHeld := false
  idleSleepers := []
  pauseSleepers := []
  finishSleepers := []
  schedulerSleeps := false
  workers := (List.range c.clamped.initialThreads.toNat).map fun i =>
    { threadId := UInt32.ofNat i, lastWorkTime := clock, pc := .spawned }
  scheduler := if c.config.enableDelayedTasks then some .test else none
  clients := []
  aborted := false
  accepted := 0
  queued := []
  invoked := []
  finished := []
  dropped := []
  discarded := []
  waitReturns := []

/-- Two threads, of which one has to stay. -/
def pairConfig : CheckedConfig where
  config :=
    { minThreads := 1
      maxThreads := 2
      initialThreads := 2
      maxQueueSize := 10000
      threadIdleTimeout := 30000
      delaySchedulerInterval := 10
      enableWorkStealing := false
      enablePriorityQueue := true
      enableDelayedTasks := false }
  one_le_maxThreads := by decide
  minThreads_le_maxThreads := by decide

/-- The states a pool starts in. -/
def initial : Set State :=
  { s | ∃ c clock, s = construct c clock }

/-- Reachable by runs whose steps are all allowed. -/
abbrev ReachableVia (allowed : State → Action → Prop) : State → Prop :=
  Transition.ReachableVia step allowed initial

end ThreadPool
end Yacul
