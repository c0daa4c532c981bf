import Yacul.ThreadPool.State

/-!
# The public operations of the thread pool

A call goes from one section to the next; `callStep` is one of these moves.
The same function serves the calls of clients and those that a running task
makes.
-/

namespace Yacul
namespace ThreadPool

/-- The section of `EnqueueTask`, past its two checks. -/
def enqueueTask (s : State) (priority : TaskPriority) : State :=
  let s' := pushTask s priority { id := s.accepted, wrapper := .immediate }
  { s' with
    accepted := s.accepted + 1
    stats := { s'.stats with tasksSubmitted := s.stats.tasksSubmitted + 1 } }

/-- A fresh task id and a fresh cancellation flag. -/
def newTaskId (s : State) : State :=
  { s with
    nextTaskId := s.nextTaskId + 1
    flags := s.flags ++ [false] }

/-- The section of `SubmitDelayedWithPriority`, past its check. -/
def insertDelayed (s : State) (executeTime : ℤ) (priority : TaskPriority)
    (taskId : UInt64) (cancelled : ℕ) (body : Body) : State :=
  { s with
    delayedTasks := s.delayedTasks ++
      [{ executeTime := executeTime
         priority := priority
         task := { id := s.accepted, wrapper := .delayed cancelled body }
         taskId := taskId }]
    cancelledTasks := Function.update s.cancelledTasks taskId (some cancelled)
    accepted := s.accepted + 1
    stats := { s.stats with
      delayedTasksSubmitted := s.stats.delayedTasksSubmitted + 1
      delayedQueueSize := s.stats.delayedQueueSize + 1 } }

/-- A flag is stored `true`. -/
def setFlag (s : State) (f : ℕ) : State :=
  { s with flags := s.flags.set f true }

/-- `ThreadPool::CancelTask`. -/
def cancelTask (s : State) (taskId : UInt64) : State :=
  match s.cancelledTasks taskId with
  | some f => setFlag s f
  | none => s

/-- The predicate of `WaitForTasks`. -/
def allTasksFinished (s : State) : Bool :=
  s.stats.queueSize = 0 && s.stats.activeThreads = 0

/-- `ThreadPool::ResetStats`. -/
def resetStats (s : State) : State :=
  { s with stats := { s.stats with
      tasksSubmitted := 0
      tasksCompleted := 0
      tasksFailed := 0
      delayedTasksSubmitted := 0
      delayedTasksExecuted := 0
      tasksCancelled := 0 } }

/-- The section of `Shutdown` and, with `now`, of `ShutdownNow`. -/
def setShutdown (s : State) (now : Bool) : State :=
  let s' := { s with shutdown := true }
  if now then drainQueues s' else s'

/-- `std::thread::join` on worker `i` returns: the worker has left
`WorkerLoop`. -/
def State.exited (s : State) (i : ℕ) : Bool :=
  s.workers[i]?.any fun w => w.pc = .exited

/-- One move of a call made by `who`. -/
def callStep (s : State) (who : Caller) (ch : Choice) :
    CallPc → Option (State × CallPc)
  | .enqueueTask priority =>
      whenFree s.queueHeld <|
        if s.shutdown then ({ s with aborted := true }, .done)
        else if s.config.maxQueueSize > 0 &&
            s.config.maxQueueSize ≤ s.stats.queueSize then (s, .done)
        else (enqueueTask s priority, .notifyOne)
  | .notifyOne => (notifyOne s ch.index).map fun s' => (s', .expandThreads)
  | .expandThreads =>
      whenFree s.threadsHeld
        (s, if s.config.maxThreads ≤ s.threadCount then .done
          else .expandQueue s.threadCount)
  | .expandQueue threadCount =>
      some (s, if threadCount * 2 < s.stats.queueSize
        then .expandActive threadCount else .done)
  | .expandActive threadCount =>
      some (s, if threadCount ≤ s.stats.activeThreads
        then .addThreadId none else .done)
  | .addThreadId target =>
      some ({ s with nextThreadId := s.nextThreadId + 1 },
        .addThread s.nextThreadId target)
  | .addThread threadId target =>
      whenFree s.threadsHeld
        (addWorkerThread s threadId,
          match target with
          | none => .done
          | some newSize => .resizeGrow newSize)
  | .delayedPrepare delay priority body =>
      some (if s.config.enableDelayedTasks then
          (newTaskId s, .delayedInsert (s.clock + milliseconds delay) priority
            s.nextTaskId s.flags.length body)
        else ({ s with aborted := true }, .done))
  | .delayedInsert executeTime priority taskId cancelled body =>
      whenFree (!s.delayedFree) <|
        if s.shutdown then ({ s with aborted := true }, .done)
        else (insertDelayed s executeTime priority taskId cancelled body,
          .delayedNotify)
  | .delayedNotify => some ({ s with schedulerSleeps := false }, .done)
  | .recurringPrepare interval priority =>
      some (if s.config.enableDelayedTasks then
          (newTaskId s,
            .recurringRegister s.nextTaskId
              ⟨interval, priority, s.flags.length⟩)
        else ({ s with aborted := true }, .done))
  | .recurringRegister taskId r =>
      whenFree (!s.delayedFree)
        ({ s with
            cancelledTasks :=
              Function.update s.cancelledTasks taskId (some r.cancelled) },
          .delayedPrepare 0 r.priority (.recurring r))
  | .cancelTask taskId => whenFree (!s.delayedFree) (cancelTask s taskId, .done)
  | .waitTest before next =>
      whenFree s.queueHeld <|
        if allTasksFinished s then
          ({ s with waitReturns := before :: s.waitReturns },
            match next with
            | .ret => .done
            | .shutdown => .shutdownSet false)
        else ({ s with queueHeld := true }, .waitHeld before next)
  | .waitHeld before next =>
      some ({ s with
          queueHeld := false
          finishSleepers := who :: s.finishSleepers },
        .waitAsleep before next)
  | .waitAsleep before next =>
      some ({ s with finishSleepers := s.finishSleepers.erase who },
        .waitTest before next)
  | .pause => some ({ s with paused := true }, .done)
  | .resume => some ({ s with paused := false }, .resumeNotify)
  | .resumeNotify => some ({ s with pauseSleepers := [] }, .done)
  | .shutdownSet now =>
      whenFree (s.queueHeld || !s.delayedFree)
        (setShutdown s now, .shutdownNotify)
  | .shutdownNotify =>
      some ({ s with idleSleepers := [] }, .shutdownNotifyDelayed)
  | .shutdownNotifyDelayed =>
      some ({ s with schedulerSleeps := false }, .shutdownNotifyPause)
  | .shutdownNotifyPause =>
      some ({ s with pauseSleepers := [] }, .joinScheduler)
  | .joinScheduler =>
      whenFree (!(s.scheduler = none || s.scheduler = some .exited))
        (s, .lockThreads)
  | .lockThreads =>
      whenFree s.threadsHeld ({ s with threadsHeld := true }, .join 0)
  | .join k =>
      match s.threads[k]? with
      | none => some ({ s with threads := [], threadsHeld := false }, .done)
      | some i =>
          -- A thread that joins itself gets an exception.
          if who = .worker i then some ({ s with threadsHeld := false }, .done)
          else whenFree (!s.exited i) (s, .join (k + 1))
  | .resizeLog newSize => whenFree s.threadsHeld (s, .resizeGrow newSize)
  | .resizeGrow newSize =>
      whenFree s.threadsHeld
        (s, if s.threadCount < newSize then .addThreadId (some newSize)
          else .resizeShrink newSize)
  | .resizeShrink newSize =>
      whenFree s.threadsHeld
        (s, if newSize < s.threadCount then .resizeNotify else .done)
  | .resizeNotify =>
      whenFree s.threadsHeld ({ s with idleSleepers := [] }, .done)
  | .getThreadCount => whenFree s.threadsHeld (s, .done)
  | .setMaxQueueSize maxSize =>
      some ({ s with config := { s.config with maxQueueSize := maxSize } },
        .done)
  | .resetStats => some (resetStats s, .done)
  | .done => none

/-- Where a call starts. -/
def startCall (s : State) : Call → CallPc
  | .submit priority => .enqueueTask priority
  | .submitDelayed delay priority => .delayedPrepare delay priority .user
  | .submitRecurring interval priority => .recurringPrepare interval priority
  | .cancelTask taskId => .cancelTask taskId
  | .waitForTasks => .waitTest s.queued .ret
  | .pause => .pause
  | .resume => .resume
  | .shutdown true => .waitTest s.queued .shutdown
  | .shutdown false => .shutdownSet false
  | .shutdownNow => .shutdownSet true
  | .resize newSize =>
      .resizeLog (clamp newSize s.config.minThreads s.config.maxThreads)
  | .getThreadCount => .getThreadCount
  | .setMaxQueueSize maxSize => .setMaxQueueSize maxSize
  | .resetStats => .resetStats

end ThreadPool
end Yacul
