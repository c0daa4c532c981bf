import Yacul.Support.Roster
import Yacul.ThreadPool.Machine

/-!
# What a step of the thread pool can do

Most moves touch only condition variables and program counters.  The others
are listed once, for a move of a call, of a worker and of the scheduler; the
invariants of the later modules are checked against these lists.
-/

namespace Yacul
namespace ThreadPool

/-- The workers, the calls and the flag of a shutdown. -/
structure SameThreads (s s' : State) : Prop where
  minThreads : s'.config.minThreads = s.config.minThreads
  shutdown : s'.shutdown = s.shutdown
  threads : s'.threads = s.threads
  threadsHeld : s'.threadsHeld = s.threadsHeld
  workers : s'.workers = s.workers
  clients : s'.clients = s.clients

/-- The clock, the delay scheduler and what it waits for. -/
structure SameTimer (s s' : State) : Prop where
  clock : s'.clock = s.clock
  interval :
    s'.config.delaySchedulerInterval = s.config.delaySchedulerInterval
  scheduler : s'.scheduler = s.scheduler
  schedulerSleeps : s'.schedulerSleeps = s.schedulerSleeps
  delayedTasks : s'.delayedTasks = s.delayedTasks

/-- The workers, the calls and the delay scheduler. -/
structure SameControl (s s' : State) : Prop
    extends SameThreads s s', SameTimer s s'

/-- The local queues and what is recorded about tasks that have left the
queues. -/
structure SameHistory (s s' : State) : Prop where
  localQueues : s'.localQueues = s.localQueues
  invoked : s'.invoked = s.invoked
  finished : s'.finished = s.finished
  dropped : s'.dropped = s.dropped
  discarded : s'.discarded = s.discarded
  waitReturns : s'.waitReturns = s.waitReturns

/-- The parts of the state that most moves leave alone. -/
structure Quiet (s s' : State) : Prop
    extends SameControl s s', SameHistory s s' where
  tasks : s'.tasks = s.tasks
  priorityTasks : s'.priorityTasks = s.priorityTasks
  queueSize : s'.stats.queueSize = s.stats.queueSize
  delayedQueueSize : s'.stats.delayedQueueSize = s.stats.delayedQueueSize
  activeThreads : s'.stats.activeThreads = s.stats.activeThreads
  accepted : s'.accepted = s.accepted
  queued : s'.queued = s.queued

/-- The parts of the state that only a call changes. -/
structure SameCallParts (s s' : State) : Prop where
  minThreads : s'.config.minThreads = s.config.minThreads
  shutdown : s'.shutdown = s.shutdown
  threads : s'.threads = s.threads
  discarded : s'.discarded = s.discarded
  waitReturns : s'.waitReturns = s.waitReturns

theorem Quiet.refl (s : State) : Quiet s s := by
  repeat' constructor

theorem SameControl.callParts {s s' : State} (h : SameControl s s')
    (h' : SameHistory s s') : SameCallParts s s' :=
  ⟨h.minThreads, h.shutdown, h.threads, h'.discarded, h'.waitReturns⟩

theorem SameControl.refl (s : State) : SameControl s s := by
  repeat' constructor

theorem SameThreads.trans {s₁ s₂ s₃ : State} (h : SameThreads s₁ s₂)
    (h' : SameThreads s₂ s₃) : SameThreads s₁ s₃ where
  minThreads := h'.minThreads.trans h.minThreads
  shutdown := h'.shutdown.trans h.shutdown
  threads := h'.threads.trans h.threads
  threadsHeld := h'.threadsHeld.trans h.threadsHeld
  workers := h'.workers.trans h.workers
  clients := h'.clients.trans h.clients

theorem SameTimer.trans {s₁ s₂ s₃ : State} (h : SameTimer s₁ s₂)
    (h' : SameTimer s₂ s₃) : SameTimer s₁ s₃ where
  clock := h'.clock.trans h.clock
  interval := h'.interval.trans h.interval
  scheduler := h'.scheduler.trans h.scheduler
  schedulerSleeps := h'.schedulerSleeps.trans h.schedulerSleeps
  delayedTasks := h'.delayedTasks.trans h.delayedTasks

theorem SameControl.trans {s₁ s₂ s₃ : State} (h : SameControl s₁ s₂)
    (h' : SameControl s₂ s₃) : SameControl s₁ s₃ :=
  ⟨h.toSameThreads.trans h'.toSameThreads,
    h.toSameTimer.trans h'.toSameTimer⟩

theorem SameHistory.refl (s : State) : SameHistory s s := by
  constructor <;> rfl

theorem SameHistory.trans {s₁ s₂ s₃ : State} (h : SameHistory s₁ s₂)
    (h' : SameHistory s₂ s₃) : SameHistory s₁ s₃ where
  localQueues := h'.localQueues.trans h.localQueues
  invoked := h'.invoked.trans h.invoked
  finished := h'.finished.trans h.finished
  dropped := h'.dropped.trans h.dropped
  discarded := h'.discarded.trans h.discarded
  waitReturns := h'.waitReturns.trans h.waitReturns

theorem pushTask_same (s : State) (priority : TaskPriority) (t : Task) :
    SameControl s (pushTask s priority t) ∧
      SameHistory s (pushTask s priority t) := by
  unfold pushTask
  dsimp only
  split <;> repeat' constructor

/-- The scheduler pushes its batch. -/
theorem pushReady_same (ready : List DelayedTask) (s : State) :
    SameControl s
        (ready.foldl (fun s d => pushTask s d.priority d.task) s) ∧
      SameHistory s
        (ready.foldl (fun s d => pushTask s d.priority d.task) s) := by
  induction ready generalizing s with
  | nil => exact ⟨SameControl.refl s, SameHistory.refl s⟩
  | cons d ready ih =>
      have hpush := pushTask_same s d.priority d.task
      have hrest := ih (pushTask s d.priority d.task)
      exact ⟨hpush.1.trans hrest.1, hpush.2.trans hrest.2⟩

theorem enqueueTask_same (s : State) (priority : TaskPriority) :
    SameControl s (enqueueTask s priority) ∧
      SameHistory s (enqueueTask s priority) := by
  have hpush := pushTask_same s priority ⟨s.accepted, .immediate⟩
  exact ⟨hpush.1.trans (by repeat' constructor),
    hpush.2.trans (by repeat' constructor)⟩

theorem notifyOne_quiet {s s' : State} {k : ℕ}
    (h : notifyOne s k = some s') : Quiet s s' := by
  unfold notifyOne at h
  split at h
  · obtain rfl : s = s' := Option.some.inj h
    exact Quiet.refl s
  · split at h
    · obtain rfl := Option.some.inj h
      repeat' constructor
    · exact absurd h (by simp)

theorem cancelTask_quiet (s : State) (taskId : UInt64) :
    Quiet s (cancelTask s taskId) := by
  unfold cancelTask
  split
  · repeat' constructor
  · exact Quiet.refl s

/-! ## Calls -/

/-- What a move of a call does to the pool. -/
inductive CallEffect (s : State) (who : Caller) :
    CallPc → State → CallPc → Prop
  | quiet {pc pc' : CallPc} {s' : State} (hq : Quiet s s') :
      CallEffect s who pc s' pc'
  | enqueue (priority : TaskPriority) (hopen : s.shutdown = false) :
      CallEffect s who (.enqueueTask priority) (enqueueTask s priority)
        .notifyOne
  | insert (executeTime : ℤ) (priority : TaskPriority) (taskId : UInt64)
      (cancelled : ℕ) (body : Body) (hopen : s.shutdown = false)
      (hfree : s.delayedFree = true) :
      CallEffect s who
        (.delayedInsert executeTime priority taskId cancelled body)
        (insertDelayed s executeTime priority taskId cancelled body)
        .delayedNotify
  | wakeScheduler {pc pc' : CallPc}
      (hpc : pc = .delayedNotify ∨ pc = .shutdownNotifyDelayed) :
      CallEffect s who pc { s with schedulerSleeps := false } pc'
  | addThread (threadId : UInt32) (target : Option UInt32)
      {pc' : CallPc} (hfree : s.threadsHeld = false) :
      CallEffect s who (.addThread threadId target)
        (addWorkerThread s threadId) pc'
  | waitReturn (before : List ℕ) (next : WaitNext) {pc' : CallPc}
      (hdone : allTasksFinished s = true) :
      CallEffect s who (.waitTest before next)
        { s with waitReturns := before :: s.waitReturns } pc'
  | setShutdown (now : Bool) (hfree : s.delayedFree = true) :
      CallEffect s who (.shutdownSet now) (setShutdown s now) .shutdownNotify
  | lockThreads (hfree : s.threadsHeld = false) :
      CallEffect s who .lockThreads { s with threadsHeld := true } (.join 0)
  | joined (k : ℕ) (hend : s.threads[k]? = none) :
      CallEffect s who (.join k)
        { s with threads := [], threadsHeld := false } .done
  | joinSelf (k i : ℕ) (hself : s.threads[k]? = some i)
      (hwho : who = .worker i) :
      CallEffect s who (.join k) { s with threadsHeld := false } .done

theorem callStep_effect {s s' : State} {who : Caller} {ch : Choice}
    {pc pc' : CallPc} (h : callStep s who ch pc = some (s', pc')) :
    CallEffect s who pc s' pc' := by
  cases pc with
  | enqueueTask priority =>
      simp only [callStep, whenFree_eq_some] at h
      obtain ⟨-, h⟩ := h
      split at h
      · obtain ⟨rfl, rfl⟩ := Prod.mk.inj h
        exact .quiet (by repeat' constructor)
      · rename_i hopen
        split at h
        · obtain ⟨rfl, rfl⟩ := Prod.mk.inj h
          exact .quiet (Quiet.refl s)
        · obtain ⟨rfl, rfl⟩ := Prod.mk.inj h
          exact .enqueue priority (by simpa using hopen)
  | notifyOne =>
      simp only [callStep, Option.map_eq_some_iff, Prod.mk.injEq] at h
      obtain ⟨s₁, hs₁, rfl, rfl⟩ := h
      exact .quiet (notifyOne_quiet hs₁)
  | delayedInsert executeTime priority taskId cancelled body =>
      simp only [callStep, whenFree_eq_some] at h
      obtain ⟨hfree, h⟩ := h
      split at h
      · obtain ⟨rfl, rfl⟩ := Prod.mk.inj h
        exact .quiet (by repeat' constructor)
      · rename_i hopen
        obtain ⟨rfl, rfl⟩ := Prod.mk.inj h
        exact .insert _ _ _ _ _ (by simpa using hopen) (by simpa using hfree)
  | delayedPrepare delay priority body =>
      simp only [callStep, Option.some.injEq] at h
      split at h <;> obtain ⟨rfl, rfl⟩ := Prod.mk.inj h
      all_goals exact .quiet (by repeat' constructor)
  | recurringPrepare interval priority =>
      simp only [callStep, Option.some.injEq] at h
      split at h <;> obtain ⟨rfl, rfl⟩ := Prod.mk.inj h
      all_goals exact .quiet (by repeat' constructor)
  | waitTest before next =>
      simp only [callStep, whenFree_eq_some] at h
      obtain ⟨-, h⟩ := h
      split at h
      · rename_i hdone
        obtain ⟨rfl, rfl⟩ := Prod.mk.inj h
        exact .waitReturn before next hdone
      · obtain ⟨rfl, rfl⟩ := Prod.mk.inj h
        exact .quiet (by repeat' constructor)
  | join k =>
      simp only [callStep] at h
      split at h
      · rename_i hend
        simp only [Option.some.injEq, Prod.mk.injEq] at h
        obtain ⟨rfl, rfl⟩ := h
        exact .joined k hend
      · rename_i i hi
        split at h
        · rename_i hwho
          simp only [Option.some.injEq, Prod.mk.injEq] at h
          obtain ⟨rfl, rfl⟩ := h
          exact .joinSelf k i hi hwho
        · simp only [whenFree_eq_some, Prod.mk.injEq] at h
          obtain ⟨-, rfl, rfl⟩ := h
          exact .quiet (Quiet.refl s)
  | delayedNotify =>
      simp only [callStep, Option.some.injEq, Prod.mk.injEq] at h
      obtain ⟨rfl, rfl⟩ := h
      exact .wakeScheduler (.inl rfl)
  | shutdownNotifyDelayed =>
      simp only [callStep, Option.some.injEq, Prod.mk.injEq] at h
      obtain ⟨rfl, rfl⟩ := h
      exact .wakeScheduler (.inr rfl)
  | addThread threadId target =>
      simp only [callStep, whenFree_eq_some, Prod.mk.injEq] at h
      obtain ⟨hfree, rfl, rfl⟩ := h
      exact .addThread threadId target hfree
  | shutdownSet now =>
      simp only [callStep, whenFree_eq_some, Prod.mk.injEq] at h
      obtain ⟨hfree, rfl, rfl⟩ := h
      exact .setShutdown now (by simp_all)
  | lockThreads =>
      simp only [callStep, whenFree_eq_some, Prod.mk.injEq] at h
      obtain ⟨hfree, rfl, rfl⟩ := h
      exact .lockThreads hfree
  | cancelTask taskId =>
      simp only [callStep, whenFree_eq_some, Prod.mk.injEq] at h
      obtain ⟨-, rfl, rfl⟩ := h
      exact .quiet (cancelTask_quiet s taskId)
  | done => exact absurd h (by simp [callStep])
  | expandThreads | getThreadCount | resizeNotify | joinScheduler =>
      simp only [callStep, whenFree_eq_some, Prod.mk.injEq] at h
      obtain ⟨-, rfl, rfl⟩ := h
      exact .quiet (by repeat' constructor)
  | resizeLog newSize | resizeGrow newSize | resizeShrink newSize =>
      simp only [callStep, whenFree_eq_some, Prod.mk.injEq] at h
      obtain ⟨-, rfl, rfl⟩ := h
      exact .quiet (Quiet.refl s)
  | recurringRegister taskId r =>
      simp only [callStep, whenFree_eq_some, Prod.mk.injEq] at h
      obtain ⟨-, rfl, rfl⟩ := h
      exact .quiet (by repeat' constructor)
  | _ =>
      -- The remaining moves take no mutex.
      simp only [callStep, Option.some.injEq, Prod.mk.injEq] at h
      obtain ⟨rfl, rfl⟩ := h
      exact .quiet (by repeat' constructor)

/-- `pc'` can come after `pc` in a call. -/
inductive CallPc.Follows : CallPc → CallPc → Prop
  | finish (pc : CallPc) : Follows pc .done
  | enqueued (priority : TaskPriority) :
      Follows (.enqueueTask priority) .notifyOne
  | notified : Follows .notifyOne .expandThreads
  | expandQueue (threadCount : UInt32) :
      Follows .expandThreads (.expandQueue threadCount)
  | expandActive (threadCount : UInt32) :
      Follows (.expandQueue threadCount) (.expandActive threadCount)
  | expand (threadCount : UInt32) :
      Follows (.expandActive threadCount) (.addThreadId none)
  | addThread (threadId : UInt32) (target : Option UInt32) :
      Follows (.addThreadId target) (.addThread threadId target)
  | added (threadId newSize : UInt32) :
      Follows (.addThread threadId (some newSize)) (.resizeGrow newSize)
  | prepared (delay executeTime : ℤ) (priority : TaskPriority)
      (taskId : UInt64) (cancelled : ℕ) (body : Body) :
      Follows (.delayedPrepare delay priority body)
        (.delayedInsert executeTime priority taskId cancelled body)
  | inserted (executeTime : ℤ) (priority : TaskPriority) (taskId : UInt64)
      (cancelled : ℕ) (body : Body) :
      Follows (.delayedInsert executeTime priority taskId cancelled body)
        .delayedNotify
  | recurringPrepared (interval : ℤ) (priority : TaskPriority)
      (taskId : UInt64) (cancelled : ℕ) :
      Follows (.recurringPrepare interval priority)
        (.recurringRegister taskId ⟨interval, priority, cancelled⟩)
  | registered (taskId : UInt64) (r : Recurring) :
      Follows (.recurringRegister taskId r)
        (.delayedPrepare 0 r.priority (.recurring r))
  | hold (before : List ℕ) (next : WaitNext) :
      Follows (.waitTest before next) (.waitHeld before next)
  | fallAsleep (before : List ℕ) (next : WaitNext) :
      Follows (.waitHeld before next) (.waitAsleep before next)
  | wake (before : List ℕ) (next : WaitNext) :
      Follows (.waitAsleep before next) (.waitTest before next)
  | waited (before : List ℕ) :
      Follows (.waitTest before .shutdown) (.shutdownSet false)
  | resumed : Follows .resume .resumeNotify
  | shutdownNotify (now : Bool) : Follows (.shutdownSet now) .shutdownNotify
  | shutdownNotifyDelayed : Follows .shutdownNotify .shutdownNotifyDelayed
  | shutdownNotifyPause : Follows .shutdownNotifyDelayed .shutdownNotifyPause
  | joinScheduler : Follows .shutdownNotifyPause .joinScheduler
  | lockThreads : Follows .joinScheduler .lockThreads
  | join : Follows .lockThreads (.join 0)
  | joinNext (k : ℕ) : Follows (.join k) (.join (k + 1))
  | resizeGrow (newSize : UInt32) :
      Follows (.resizeLog newSize) (.resizeGrow newSize)
  | resizeAdd (newSize : UInt32) :
      Follows (.resizeGrow newSize) (.addThreadId (some newSize))
  | resizeShrink (newSize : UInt32) :
      Follows (.resizeGrow newSize) (.resizeShrink newSize)
  | resizeNotify (newSize : UInt32) :
      Follows (.resizeShrink newSize) .resizeNotify

theorem callStep_follows {s s' : State} {who : Caller} {ch : Choice}
    {pc pc' : CallPc} (h : callStep s who ch pc = some (s', pc')) :
    pc.Follows pc' := by
  cases pc with
  | join k =>
      simp only [callStep] at h
      split at h
      · simp only [Option.some.injEq, Prod.mk.injEq] at h
        rw [← h.2]
        exact .finish _
      · grind [CallPc.Follows, whenFree_eq_some]
  | _ =>
      simp only [callStep, whenFree_eq_some, Option.map_eq_some_iff,
        Option.some.injEq, Prod.mk.injEq] at h
      grind [CallPc.Follows]

/-! ## Workers -/

/-- How far a worker is with a task. -/
inductive Stage
  | free
  | taken (t : Task)
  | invoked (t : Task)
  | counted (t : Task)
deriving DecidableEq, Repr

/-- The stage a worker is in. -/
def Worker.stage (w : Worker) : Stage :=
  match w.pc with
  | .gotTask t => .taken t
  | .wrapper t | .count t => .invoked t
  | .running t _ | .returned t | .uncount t => .counted t
  | _ => .free

/-- The task at the front of `tasks_` is taken. -/
def popFront (s : State) : State :=
  { s with
    tasks := s.tasks.tail
    stats := { s.stats with queueSize := s.stats.queueSize - 1 } }

/-- The task at position `k` of `priority_tasks_` is taken. -/
def popPriority (s : State) (k : ℕ) : State :=
  { s with
    priorityTasks := s.priorityTasks.eraseIdx k
    stats := { s.stats with queueSize := s.stats.queueSize - 1 } }

/-- What a move of a worker does to the pool. -/
inductive WorkerEffect (s : State) (i : ℕ) (w : Worker) (ch : Choice) :
    State → Worker → Prop
  | quiet {s' : State} {w' : Worker} (hq : Quiet s s')
      (hstage : w'.stage = w.stage) (hcall' : w'.call? = none) :
      WorkerEffect s i w ch s' w'
  | start {w' : Worker} {op : Call} {t : Task} (hop : ch.call = some op)
      (hpc : w.pc = .running t .user)
      (hcall' : w'.call? = some (startCall s op))
      (hstage : w'.stage = w.stage) : WorkerEffect s i w ch s w'
  | reschedule {w' : Worker} (r : Recurring)
      (hcall' : w'.call? =
        some (.delayedPrepare r.interval r.priority (.recurring r)))
      (hstage : w'.stage = w.stage) : WorkerEffect s i w ch s w'
  | call {s' : State} {w' : Worker} {pc pc' : CallPc}
      (hpc : w.call? = some pc) (hpc' : w'.call? = some pc')
      (hcall : callStep s (.worker i) ch pc = some (s', pc'))
      (hstage : w'.stage = w.stage) : WorkerEffect s i w ch s' w'
  | takeFront {t : Task} {rest : List Task} (htasks : s.tasks = t :: rest)
      (hstage : w.stage = .free) :
      WorkerEffect s i w ch (popFront s) (w.goto (.gotTask t))
  | takePriority {p : PriorityTask} {k : ℕ}
      (htask : s.priorityTasks[k]? = some p) (hstage : w.stage = .free) :
      WorkerEffect s i w ch (popPriority s k) (w.goto (.gotTask p.task))
  | takeLocal {t : Task} {s' : State} {slot : ℕ}
      (htask : popLocal s slot = some (t, s')) (hstage : w.stage = .free) :
      WorkerEffect s i w ch s' (w.goto (.gotTask t))
  | invoke {t : Task} {w' : Worker} (hstage : w.stage = .taken t)
      (hstage' : w'.stage = .invoked t) (hcall' : w'.call? = none) :
      WorkerEffect s i w ch { s with invoked := t.id :: s.invoked } w'
  | skip {t : Task} {w' : Worker} (hstage : w.stage = .invoked t)
      (hstage' : w'.stage = .free) (hcall' : w'.call? = none) :
      WorkerEffect s i w ch
        { s with
          finished := t.id :: s.finished
          stats :=
            { s.stats with tasksCancelled := s.stats.tasksCancelled + 1 } } w'
  | count {t : Task} {w' : Worker} (hstage : w.stage = .invoked t)
      (hstage' : w'.stage = .counted t) (hcall' : w'.call? = none) :
      WorkerEffect s i w ch
        { s with stats :=
            { s.stats with activeThreads := s.stats.activeThreads + 1 } } w'
  | uncount {t : Task} {w' : Worker} (hstage : w.stage = .counted t)
      (hstage' : w'.stage = .free) (hcall' : w'.call? = none) :
      WorkerEffect s i w ch
        { s with
          finished := t.id :: s.finished
          stats :=
            { s.stats with activeThreads := s.stats.activeThreads - 1 } } w'

theorem dequeueTask_some {s s' : State} {k : ℕ} {t : Task}
    (h : dequeueTask s k = some (some t, s')) :
    (∃ p, s.priorityTasks[k]? = some p ∧ p.task = t ∧ s' = popPriority s k) ∨
      ∃ rest, s.tasks = t :: rest ∧ s' = popFront s := by
  unfold dequeueTask at h
  split at h
  · split at h
    · exact absurd h (by simp)
    · rename_i top htop
      split at h
      · simp only [Option.some.injEq, Prod.mk.injEq] at h
        obtain ⟨rfl, rfl⟩ := h
        exact .inl ⟨top, htop, rfl, rfl⟩
      · exact absurd h (by simp)
  · split at h
    · exact absurd h (by simp)
    · rename_i t' rest htasks
      simp only [Option.some.injEq, Prod.mk.injEq] at h
      obtain ⟨rfl, rfl⟩ := h
      exact .inr ⟨rest, htasks, by simp [popFront, htasks]⟩

theorem dequeueTask_none {s s' : State} {k : ℕ}
    (h : dequeueTask s k = some (none, s')) : s = s' := by
  unfold dequeueTask at h
  split at h
  · split at h
    · exact absurd h (by simp)
    · split at h <;> exact absurd h (by simp)
  · split at h
    · simp only [Option.some.injEq, Prod.mk.injEq, true_and] at h
      exact h
    · exact absurd h (by simp)

/-- Taking from a local queue touches only the local queues. -/
theorem popLocal_some {s s' : State} {slot : ℕ} {t : Task}
    (h : popLocal s slot = some (t, s')) :
    s' = { s with localQueues := s'.localQueues } := by
  unfold popLocal at h
  split at h
  · simp only [Option.some.injEq, Prod.mk.injEq] at h
    rw [← h.2]
  · exact absurd h (by simp)

theorem stealTask_some {s s' : State} {own : ℕ} {t : Task}
    (h : stealTask s own = some (t, s')) :
    ∃ slot, popLocal s slot = some (t, s') := by
  obtain ⟨slot, -, hslot⟩ := List.exists_of_findSome?_eq_some h
  exact ⟨slot, hslot⟩

/-- A move inside a counted wrapper is quiet, or a move of the task's call. -/
theorem runningStep_effect {s s' : State} {i : ℕ} {w w' : Worker}
    {ch : Choice} {t : Task} {phase : Phase}
    (hpc : w.pc = .running t phase)
    (h : runningStep s i w t ch phase = some (s', w')) :
    WorkerEffect s i w ch s' w' := by
  have hstage : w.stage = .counted t := by simp [Worker.stage, hpc]
  cases phase with
  | user =>
      simp only [runningStep] at h
      split at h
      · rename_i op hop
        simp only [Option.some.injEq, Prod.mk.injEq] at h
        obtain ⟨rfl, rfl⟩ := h
        exact .start hop hpc rfl hstage.symm
      · split at h
        · simp only [Option.some.injEq, Prod.mk.injEq] at h
          obtain ⟨rfl, rfl⟩ := h
          exact .quiet (Quiet.refl s) hstage.symm rfl
        · simp only [Option.some.injEq, Prod.mk.injEq] at h
          obtain ⟨rfl, rfl⟩ := h
          refine .quiet ?_ hstage.symm rfl
          unfold countRecurring
          split <;> repeat' constructor
  | call pc =>
      simp only [runningStep] at h
      split at h
      · simp only [Option.some.injEq, Prod.mk.injEq] at h
        obtain ⟨rfl, rfl⟩ := h
        exact .quiet (Quiet.refl s) hstage.symm rfl
      · simp only [Option.map_eq_some_iff, Prod.mk.injEq] at h
        obtain ⟨⟨s₁, pc'⟩, hcall, rfl, rfl⟩ := h
        exact .call (by simp [Worker.call?, hpc]) rfl hcall hstage.symm
  | recurringTest =>
      simp only [runningStep, Option.map_eq_some_iff, Prod.mk.injEq] at h
      obtain ⟨r, -, rfl, rfl⟩ := h
      split <;> exact .quiet (Quiet.refl s) hstage.symm rfl
  | rescheduleTest =>
      simp only [runningStep, Option.map_eq_some_iff, Prod.mk.injEq] at h
      obtain ⟨r, -, rfl, rfl⟩ := h
      split
      · exact .quiet (Quiet.refl s) hstage.symm rfl
      · exact .reschedule r rfl hstage.symm
  | reschedule pc =>
      simp only [runningStep] at h
      split at h
      · simp only [Option.some.injEq, Prod.mk.injEq] at h
        obtain ⟨rfl, rfl⟩ := h
        exact .quiet (Quiet.refl s) hstage.symm rfl
      · simp only [Option.map_eq_some_iff, Prod.mk.injEq] at h
        obtain ⟨⟨s₁, pc'⟩, hcall, rfl, rfl⟩ := h
        exact .call (by simp [Worker.call?, hpc]) rfl hcall hstage.symm

theorem startWrapper_effect {s s' : State} {i : ℕ} {w w' : Worker}
    {ch : Choice} {t : Task} (hstage : w.stage = .invoked t)
    (h : startWrapper s w t = (s', w')) : WorkerEffect s i w ch s' w' := by
  unfold startWrapper at h
  split at h
  · obtain ⟨rfl, rfl⟩ := Prod.mk.inj h
    exact .count hstage rfl rfl
  · split at h
    · obtain ⟨rfl, rfl⟩ := Prod.mk.inj h
      exact .skip hstage rfl rfl
    · obtain ⟨rfl, rfl⟩ := Prod.mk.inj h
      exact .quiet (Quiet.refl s) hstage.symm rfl

theorem workerStep_effect {s s' : State} {i : ℕ} {w w' : Worker}
    {ch : Choice} (h : workerStep s i w ch = some (s', w')) :
    WorkerEffect s i w ch s' w' := by
  cases hpc : w.pc with
  | localQueue =>
      simp only [workerStep, hpc, whenFree_eq_some] at h
      obtain ⟨-, h⟩ := h
      split at h
      · rename_i t s₁ htask
        obtain ⟨rfl, rfl⟩ := Prod.mk.inj h
        exact .takeLocal htask (by simp [Worker.stage, hpc])
      · obtain ⟨rfl, rfl⟩ := Prod.mk.inj h
        exact .quiet (Quiet.refl s) (by simp [Worker.stage, hpc]) rfl
  | sharedQueue =>
      simp only [workerStep, hpc, Option.ite_none_left_eq_some,
        Option.map_eq_some_iff, Prod.mk.injEq] at h
      obtain ⟨-, ⟨t, s₁⟩, hdeq, rfl, rfl⟩ := h
      cases t with
      | none =>
          obtain rfl := dequeueTask_none hdeq
          dsimp only
          split
          all_goals
            exact .quiet (Quiet.refl s) (by simp [Worker.stage, hpc]) rfl
      | some t =>
          have hstage : w.stage = .free := by simp [Worker.stage, hpc]
          obtain ⟨p, hp, rfl, rfl⟩ | ⟨rest, htasks, rfl⟩ :=
            dequeueTask_some hdeq
          · exact .takePriority hp hstage
          · exact .takeFront htasks hstage
  | steal =>
      simp only [workerStep, hpc, whenFree_eq_some] at h
      obtain ⟨-, h⟩ := h
      split at h
      · rename_i t s₁ hsteal
        obtain ⟨rfl, rfl⟩ := Prod.mk.inj h
        obtain ⟨slot, htask⟩ := stealTask_some hsteal
        exact .takeLocal htask (by simp [Worker.stage, hpc])
      · obtain ⟨rfl, rfl⟩ := Prod.mk.inj h
        exact .quiet (Quiet.refl s) (by simp [Worker.stage, hpc]) rfl
  | gotTask t =>
      simp only [workerStep, hpc, Option.some.injEq, Prod.mk.injEq] at h
      obtain ⟨rfl, rfl⟩ := h
      exact .invoke (by simp [Worker.stage, hpc]) rfl rfl
  | wrapper t =>
      simp only [workerStep, hpc, Option.some.injEq] at h
      exact startWrapper_effect (by simp [Worker.stage, hpc]) h
  | count t =>
      simp only [workerStep, hpc, Option.some.injEq, Prod.mk.injEq] at h
      obtain ⟨rfl, rfl⟩ := h
      refine .count (by simp [Worker.stage, hpc]) rfl ?_
      split <;> rfl
  | running t phase =>
      simp only [workerStep, hpc] at h
      exact runningStep_effect hpc h
  | returned t =>
      simp only [workerStep, hpc, Option.some.injEq, Prod.mk.injEq] at h
      obtain ⟨rfl, rfl⟩ := h
      exact .quiet (by repeat' constructor) (by simp [Worker.stage, hpc]) rfl
  | uncount t =>
      simp only [workerStep, hpc, Option.some.injEq, Prod.mk.injEq] at h
      obtain ⟨rfl, rfl⟩ := h
      exact .uncount (by simp [Worker.stage, hpc]) rfl rfl
  | pauseTest | idleCheck | idleRetest deadline =>
      simp only [workerStep, hpc, whenFree_eq_some] at h
      obtain ⟨-, h⟩ := h
      split at h <;> obtain ⟨rfl, rfl⟩ := Prod.mk.inj h
      all_goals
        exact .quiet (by repeat' constructor)
          (by simp [Worker.stage, hpc]) rfl
  | retire =>
      simp only [workerStep, hpc, whenFree_eq_some, Prod.mk.injEq] at h
      obtain ⟨-, rfl, rfl⟩ := h
      split
      all_goals
        exact .quiet (Quiet.refl s) (by simp [Worker.stage, hpc]) rfl
  | shutdownTest | drainTest =>
      simp only [workerStep, hpc, Option.some.injEq, Prod.mk.injEq] at h
      obtain ⟨rfl, rfl⟩ := h
      unfold takeTask
      split <;> [skip; split]
      all_goals
        exact .quiet (Quiet.refl s) (by simp [Worker.stage, hpc]) rfl
  | top | idleTest =>
      simp only [workerStep, hpc, Option.some.injEq, Prod.mk.injEq] at h
      obtain ⟨rfl, rfl⟩ := h
      split
      all_goals
        exact .quiet (Quiet.refl s) (by simp [Worker.stage, hpc]) rfl
  | exited => exact absurd h (by simp [workerStep, hpc])
  | _ =>
      simp only [workerStep, hpc, Option.some.injEq, Prod.mk.injEq] at h
      obtain ⟨rfl, rfl⟩ := h
      exact .quiet (by repeat' constructor) (by simp [Worker.stage, hpc]) rfl

theorem runningStep_pc {s s' : State} {i : ℕ} {w w' : Worker}
    {ch : Choice} {t : Task} {phase : Phase}
    (h : runningStep s i w t ch phase = some (s', w')) :
    w'.pc = .returned t ∨ ∃ phase', w'.pc = .running t phase' := by
  cases phase <;>
    grind [runningStep, Option.map_eq_some_iff]

theorem startWrapper_pc {s s' : State} {w w' : Worker} {t : Task}
    (h : startWrapper s w t = (s', w')) :
    w'.pc = .top ∨ w'.pc = .count t ∨ w'.pc = .running t .user := by
  grind [startWrapper]

/-- Where a worker gets to from each place of `WorkerLoop`, and what it finds
there. -/
inductive WorkerPc.Follows (s : State) (w : Worker) :
    WorkerPc → WorkerPc → Prop
  | start : Follows s w .spawned .top
  | pause (hpaused : s.paused = true) : Follows s w .top .pauseTest
  | work (hpaused : s.paused = false) : Follows s w .top .shutdownTest
  | resume (hopen : s.paused = false ∨ s.shutdown = true) :
      Follows s w .pauseTest .shutdownTest
  | pauseHold (hpaused : s.paused = true) (hopen : s.shutdown = false) :
      Follows s w .pauseTest .pauseHeld
  | pauseSleep : Follows s w .pauseHeld .pauseAsleep
  | pauseWake : Follows s w .pauseAsleep .pauseTest
  | drain (hshutdown : s.shutdown = true) : Follows s w .shutdownTest .drainTest
  | searchLocal (hopen : s.shutdown = false) :
      Follows s w .shutdownTest .localQueue
  | searchShared (hopen : s.shutdown = false) :
      Follows s w .shutdownTest .sharedQueue
  | drained (hempty : s.stats.queueSize = 0) : Follows s w .drainTest .exited
  | drainLocal : Follows s w .drainTest .localQueue
  | drainShared : Follows s w .drainTest .sharedQueue
  | takeLocal {t : Task} {s' : State}
      (htask : popLocal s (w.slot s) = some (t, s')) :
      Follows s w .localQueue (.gotTask t)
  | noLocal : Follows s w .localQueue .sharedQueue
  | takeShared {t : Task} {k : ℕ} {s' : State}
      (htask : dequeueTask s k = some (some t, s')) :
      Follows s w .sharedQueue (.gotTask t)
  | trySteal : Follows s w .sharedQueue .steal
  | noShared : Follows s w .sharedQueue .idleTest
  | stolen {t : Task} {s' : State}
      (htask : stealTask s (w.slot s) = some (t, s')) :
      Follows s w .steal (.gotTask t)
  | noneStolen : Follows s w .steal .idleTest
  | invoke (t : Task) : Follows s w (.gotTask t) (.wrapper t)
  | skip (t : Task) : Follows s w (.wrapper t) .top
  | pass (t : Task) : Follows s w (.wrapper t) (.count t)
  | enter (t : Task) : Follows s w (.wrapper t) (.running t .user)
  | count (t : Task) (hnone : t.recurring? = none) :
      Follows s w (.count t) (.running t .user)
  | countRecurring (t : Task) : Follows s w (.count t) (.running t .recurringTest)
  | run (t : Task) (phase phase' : Phase) :
      Follows s w (.running t phase) (.running t phase')
  | done (t : Task) (phase : Phase) :
      Follows s w (.running t phase) (.returned t)
  | uncount (t : Task) : Follows s w (.returned t) (.uncount t)
  | uncounted (t : Task) : Follows s w (.uncount t) .notifyFinish
  | notified : Follows s w .notifyFinish .top
  | tryRetire (hidle : milliseconds s.config.threadIdleTimeout <
      s.clock - w.lastWorkTime) : Follows s w .idleTest .retire
  | idle : Follows s w .idleTest .idleCheck
  | retired (hcount : s.config.minThreads < s.threadCount) :
      Follows s w .retire .exited
  | kept : Follows s w .retire .idleCheck
  | idleWakes : Follows s w .idleCheck .top
  | idleHold (deadline : ℤ) : Follows s w .idleCheck (.idleHeld deadline)
  | idleSleep (deadline : ℤ) :
      Follows s w (.idleHeld deadline) (.idleAsleep deadline)
  | idleWake (deadline : ℤ) :
      Follows s w (.idleAsleep deadline) (.idleRetest deadline)
  | idleOver (deadline : ℤ) : Follows s w (.idleRetest deadline) .top
  | idleAgain (deadline : ℤ) :
      Follows s w (.idleRetest deadline) (.idleHeld deadline)

theorem workerStep_follows {s s' : State} {i : ℕ} {w w' : Worker}
    {ch : Choice} (h : workerStep s i w ch = some (s', w')) :
    w.pc.Follows s w w'.pc := by
  cases hpc : w.pc with
  | running t phase =>
      simp only [workerStep, hpc] at h
      obtain hret | ⟨phase', hrun⟩ := runningStep_pc h
      · rw [hret]
        exact .done t phase
      · rw [hrun]
        exact .run t phase phase'
  | wrapper t =>
      simp only [workerStep, hpc, Option.some.injEq] at h
      obtain htop | hcount | hrun := startWrapper_pc h
      · rw [htop]
        exact .skip t
      · rw [hcount]
        exact .pass t
      · rw [hrun]
        exact .enter t
  | top =>
      simp only [workerStep, hpc, Option.some.injEq, Prod.mk.injEq] at h
      obtain ⟨-, rfl⟩ := h
      cases hpaused : s.paused with
      | true => exact .pause hpaused
      | false => exact .work hpaused
  | pauseTest =>
      simp only [workerStep, hpc, whenFree_eq_some] at h
      obtain ⟨-, h⟩ := h
      split at h
      · next hopen =>
          obtain ⟨-, rfl⟩ := Prod.mk.inj h
          exact .resume (by simpa using hopen)
      · next hheld =>
          obtain ⟨-, rfl⟩ := Prod.mk.inj h
          have hboth : s.paused = true ∧ s.shutdown = false := by
            simpa using hheld
          exact .pauseHold hboth.1 hboth.2
  | shutdownTest =>
      simp only [workerStep, hpc, Option.some.injEq, Prod.mk.injEq] at h
      obtain ⟨-, rfl⟩ := h
      unfold takeTask
      cases hshutdown : s.shutdown with
      | true => exact .drain hshutdown
      | false =>
          cases s.config.enableWorkStealing with
          | true => exact .searchLocal hshutdown
          | false => exact .searchShared hshutdown
  | drainTest =>
      simp only [workerStep, hpc, Option.some.injEq, Prod.mk.injEq] at h
      obtain ⟨-, rfl⟩ := h
      unfold takeTask
      by_cases hempty : s.stats.queueSize = 0
      · rw [if_pos hempty]
        exact .drained hempty
      · rw [if_neg hempty]
        cases s.config.enableWorkStealing with
        | true => exact .drainLocal
        | false => exact .drainShared
  | localQueue =>
      simp only [workerStep, hpc, whenFree_eq_some] at h
      obtain ⟨-, h⟩ := h
      split at h
      · next htask =>
          obtain ⟨-, rfl⟩ := Prod.mk.inj h
          exact .takeLocal htask
      · obtain ⟨-, rfl⟩ := Prod.mk.inj h
        exact .noLocal
  | sharedQueue =>
      simp only [workerStep, hpc, Option.ite_none_left_eq_some,
        Option.map_eq_some_iff, Prod.mk.injEq] at h
      obtain ⟨-, ⟨t, s₁⟩, htask, -, rfl⟩ := h
      cases t with
      | some t => exact .takeShared htask
      | none =>
          dsimp only [Worker.goto_pc]
          split
          · exact .trySteal
          · exact .noShared
  | steal =>
      simp only [workerStep, hpc, whenFree_eq_some] at h
      obtain ⟨-, h⟩ := h
      split at h
      · next htask =>
          obtain ⟨-, rfl⟩ := Prod.mk.inj h
          exact .stolen htask
      · obtain ⟨-, rfl⟩ := Prod.mk.inj h
        exact .noneStolen
  | count t =>
      simp only [workerStep, hpc, Option.some.injEq, Prod.mk.injEq] at h
      obtain ⟨-, rfl⟩ := h
      cases hrecurring : t.recurring? with
      | none => exact .count t hrecurring
      | some r => exact .countRecurring t
  | idleTest =>
      simp only [workerStep, hpc, Option.some.injEq, Prod.mk.injEq] at h
      obtain ⟨-, rfl⟩ := h
      dsimp only [Worker.goto_pc]
      split
      · next hidle => exact .tryRetire hidle
      · exact .idle
  | retire =>
      simp only [workerStep, hpc, whenFree_eq_some, Prod.mk.injEq] at h
      obtain ⟨-, -, rfl⟩ := h
      dsimp only [Worker.goto_pc]
      split
      · next hcount => exact .retired hcount
      · exact .kept
  | idleCheck =>
      simp only [workerStep, hpc, whenFree_eq_some] at h
      obtain ⟨-, h⟩ := h
      split at h
      · obtain ⟨-, rfl⟩ := Prod.mk.inj h
        exact .idleWakes
      · obtain ⟨-, rfl⟩ := Prod.mk.inj h
        exact .idleHold _
  | idleRetest deadline =>
      simp only [workerStep, hpc, whenFree_eq_some] at h
      obtain ⟨-, h⟩ := h
      split at h
      · obtain ⟨-, rfl⟩ := Prod.mk.inj h
        exact .idleOver deadline
      · obtain ⟨-, rfl⟩ := Prod.mk.inj h
        exact .idleAgain deadline
  | exited =>
      simp only [workerStep, hpc] at h
      cases h
  | _ =>
      simp only [workerStep, hpc, Option.some.injEq, Prod.mk.injEq] at h
      obtain ⟨-, rfl⟩ := h
      constructor

/-- How a worker gets out of `WorkerLoop`, to the test of the queue after
shutdown and to the retirement check. -/
theorem workerStep_enters {s s' : State} {i : ℕ} {w w' : Worker}
    {ch : Choice} (h : workerStep s i w ch = some (s', w')) :
    (w'.pc = .exited → w.pc = .drainTest ∨
      w.pc = .retire ∧ s.config.minThreads < s.threadCount) ∧
    (w'.pc = .drainTest → s.shutdown = true) ∧
    (w'.pc = .retire → w.pc = .idleTest ∧
      milliseconds s.config.threadIdleTimeout <
        s.clock - w.lastWorkTime) := by
  have hnext := workerStep_follows h
  generalize w.pc = pc, w'.pc = pc' at hnext
  refine ⟨?_, ?_, ?_⟩
  · rintro rfl
    cases hnext with
    | drained => exact .inl rfl
    | retired hcount => exact .inr ⟨rfl, hcount⟩
  · rintro rfl
    cases hnext with
    | drain hshutdown => exact hshutdown
  · rintro rfl
    cases hnext with
    | tryRetire hidle => exact ⟨rfl, hidle⟩

/-! ## The delay scheduler -/

/-- The local batch of the scheduler. -/
def SchedulerPc.ready : SchedulerPc → List DelayedTask
  | .collect _ ready | .push ready => ready
  | _ => []

/-- The task at position `k` of `delayed_tasks_` is taken. -/
def popTop (s : State) (k : ℕ) : State :=
  { s with
    delayedTasks := s.delayedTasks.eraseIdx k
    stats := { s.stats with
      delayedQueueSize := s.stats.delayedQueueSize - 1 } }

/-- What a move of the scheduler does to the pool. -/
inductive SchedulerEffect (s : State) :
    SchedulerPc → State → SchedulerPc → Prop
  | quiet {pc pc' : SchedulerPc} {s' : State} (hq : Quiet s s')
      (hready : pc'.ready = pc.ready) : SchedulerEffect s pc s' pc'
  | sleep {pc pc' : SchedulerPc} (asleep : Bool)
      (hready : pc'.ready = pc.ready) :
      SchedulerEffect s pc { s with schedulerSleeps := asleep } pc'
  | drop {pc pc' : SchedulerPc} {d : DelayedTask} {k : ℕ}
      {registry : UInt64 → Option ℕ} {cancelled : UInt64}
      (htask : s.delayedTasks[k]? = some d)
      (hready : pc'.ready = pc.ready) :
      SchedulerEffect s pc
        { popTop s k with
          cancelledTasks := registry
          dropped := d.task.id :: s.dropped
          stats := { (popTop s k).stats with tasksCancelled := cancelled } }
        pc'
  | ready {pc pc' : SchedulerPc} {d : DelayedTask} {k : ℕ}
      (htask : s.delayedTasks[k]? = some d)
      (hready : pc'.ready = pc.ready ++ [d]) :
      SchedulerEffect s pc (popTop s k) pc'
  | push (ready : List DelayedTask) {pc' : SchedulerPc}
      (hready : pc'.ready = []) :
      SchedulerEffect s (.push ready)
        (ready.foldl (fun s d => pushTask s d.priority d.task) s) pc'

theorem popDelayed_some {s s' : State} {k : ℕ} {d : DelayedTask}
    (h : popDelayed s k = some (d, s')) :
    s.delayedTasks[k]? = some d ∧ s' = popTop s k := by
  unfold popDelayed at h
  split at h
  · exact absurd h (by simp)
  · rename_i top htop
    split at h
    · simp only [Option.some.injEq, Prod.mk.injEq] at h
      obtain ⟨rfl, rfl⟩ := h
      exact ⟨htop, rfl⟩
    · exact absurd h (by simp)

theorem schedulerStep_effect {s s' : State} {ch : Choice}
    {pc pc' : SchedulerPc} (h : schedulerStep s ch pc = some (s', pc')) :
    SchedulerEffect s pc s' pc' := by
  cases pc with
  | collect now ready =>
      simp only [schedulerStep] at h
      split at h
      · simp only [Option.map_eq_some_iff] at h
        obtain ⟨⟨d, s₁⟩, hpop, h⟩ := h
        obtain ⟨htask, rfl⟩ := popDelayed_some hpop
        unfold collectReady at h
        split at h
        · obtain ⟨rfl, rfl⟩ := Prod.mk.inj h
          exact .drop htask rfl
        · obtain ⟨rfl, rfl⟩ := Prod.mk.inj h
          exact .ready htask rfl
      · simp only [Option.some.injEq, Prod.mk.injEq] at h
        obtain ⟨rfl, rfl⟩ := h
        refine .quiet (Quiet.refl s) ?_
        split
        · rename_i hempty
          simpa [SchedulerPc.ready] using hempty.symm
        · rfl
  | push ready =>
      simp only [schedulerStep, whenFree_eq_some, Prod.mk.injEq] at h
      obtain ⟨-, rfl, rfl⟩ := h
      exact .push ready rfl
  | notify count =>
      simp only [schedulerStep] at h
      split at h
      · simp only [Option.map_eq_some_iff, Prod.mk.injEq] at h
        obtain ⟨s₁, hs₁, rfl, rfl⟩ := h
        exact .quiet (notifyOne_quiet hs₁) rfl
      · simp only [Option.some.injEq, Prod.mk.injEq] at h
        obtain ⟨rfl, rfl⟩ := h
        exact .quiet (by repeat' constructor) rfl
  | test | waitTest nextWake =>
      simp only [schedulerStep, Option.some.injEq, Prod.mk.injEq] at h
      obtain ⟨rfl, rfl⟩ := h
      split <;> exact .quiet (Quiet.refl s) rfl
  | process | lock now | prepare =>
      simp only [schedulerStep, Option.some.injEq, Prod.mk.injEq] at h
      obtain ⟨rfl, rfl⟩ := h
      exact .quiet (Quiet.refl s) rfl
  | waitHeld nextWake =>
      simp only [schedulerStep, Option.some.injEq, Prod.mk.injEq] at h
      obtain ⟨rfl, rfl⟩ := h
      exact .sleep true rfl
  | asleep nextWake since =>
      simp only [schedulerStep, Option.some.injEq, Prod.mk.injEq] at h
      obtain ⟨rfl, rfl⟩ := h
      split <;> exact .sleep false rfl
  | exited => exact absurd h (by simp [schedulerStep])

/-! ## Steps -/

theorem step_client {s s' : State} {n : ℕ} {ch : Choice}
    (h : step s (.client n ch) = some s') :
    ∃ pc s₁ pc', s.clients[n]? = some pc ∧
      callStep s (.client n) ch pc = some (s₁, pc') ∧
        s' = { s₁ with clients := s₁.clients.set n pc' } := by
  simp only [step, Option.ite_none_left_eq_some, Option.bind_eq_some_iff,
    Option.map_eq_some_iff] at h
  obtain ⟨-, pc, hpc, ⟨s₁, pc'⟩, hcall, rfl⟩ := h
  exact ⟨pc, s₁, pc', hpc, hcall, rfl⟩

theorem step_worker {s s' : State} {i : ℕ} {ch : Choice}
    (h : step s (.worker i ch) = some s') :
    ∃ w s₁ w', s.workers[i]? = some w ∧
      workerStep s i w ch = some (s₁, w') ∧
        s' = { s₁ with workers := s₁.workers.set i w' } := by
  simp only [step, Option.ite_none_left_eq_some, Option.bind_eq_some_iff,
    Option.map_eq_some_iff] at h
  obtain ⟨-, w, hw, ⟨s₁, w'⟩, hworker, rfl⟩ := h
  exact ⟨w, s₁, w', hw, hworker, rfl⟩

theorem step_scheduler {s s' : State} {ch : Choice}
    (h : step s (.scheduler ch) = some s') :
    ∃ pc s₁ pc', s.scheduler = some pc ∧
      schedulerStep s ch pc = some (s₁, pc') ∧
        s' = { s₁ with scheduler := some pc' } := by
  simp only [step, Option.ite_none_left_eq_some, Option.bind_eq_some_iff,
    Option.map_eq_some_iff] at h
  obtain ⟨-, pc, hpc, ⟨s₁, pc'⟩, hsched, rfl⟩ := h
  exact ⟨pc, s₁, pc', hpc, hsched, rfl⟩

theorem step_tick {s s' : State} {elapsed : ℕ}
    (h : step s (.tick elapsed) = some s') :
    s' = { s with clock := s.clock + elapsed } := by
  simp only [step, Option.ite_none_left_eq_some, Option.some.injEq] at h
  exact h.2.symm

theorem step_call {s s' : State} {op : Call}
    (h : step s (.call op) = some s') :
    s' = { s with clients := s.clients ++ [startCall s op] } := by
  simp only [step, Option.ite_none_left_eq_some, Option.some.injEq] at h
  exact h.2.symm

theorem step_cancel {s s' : State} {f : ℕ}
    (h : step s (.cancel f) = some s') : s' = setFlag s f := by
  simp only [step, Option.ite_none_left_eq_some, Option.some.injEq] at h
  exact h.2.symm

/-! ## The calls in progress -/

theorem CallEffect.clients {s s' : State} {who : Caller} {pc pc' : CallPc}
    (h : CallEffect s who pc s' pc') : s'.clients = s.clients := by
  cases h with
  | quiet hq => exact hq.clients
  | enqueue priority => exact (enqueueTask_same s priority).1.clients
  | setShutdown now => cases now <;> rfl
  | _ => rfl

/-- A call only adds workers, and these have not started. -/
theorem CallEffect.workers {s s' : State} {who : Caller} {pc pc' : CallPc}
    (h : CallEffect s who pc s' pc') :
    ∃ ws, s'.workers = s.workers ++ ws ∧ ∀ w ∈ ws, w.pc = .spawned := by
  cases h with
  | quiet hq => exact ⟨[], by simp [hq.workers]⟩
  | enqueue priority =>
      exact ⟨[], by simp [(enqueueTask_same s priority).1.workers]⟩
  | setShutdown now =>
      refine ⟨[], ?_, by simp⟩
      cases now <;> exact (List.append_nil _).symm
  | addThread threadId target => exact ⟨_, rfl, by simp⟩
  | insert => exact ⟨[], (List.append_nil _).symm, by simp⟩
  | _ => exact ⟨[], by simp⟩

/-- Only a call made by a task changes the workers, the clients or the
scheduler of a pool while a worker moves. -/
theorem WorkerEffect.sameControl {s s' : State} {i : ℕ} {w w' : Worker}
    {ch : Choice} (h : WorkerEffect s i w ch s' w') :
    SameControl s s' ∨
      ∃ pc pc', w.call? = some pc ∧ w'.call? = some pc' ∧
        callStep s (.worker i) ch pc = some (s', pc') := by
  cases h with
  | quiet hq => exact .inl hq.toSameControl
  | call hpc hpc' hcall => exact .inr ⟨_, _, hpc, hpc', hcall⟩
  | takeLocal htask =>
      rw [popLocal_some htask]
      exact .inl (by repeat' constructor)
  | _ => exact .inl (by repeat' constructor)

/-- The operation an action starts. -/
def Action.op? : Action → Option Call
  | .call op => some op
  | .worker _ ch => ch.call
  | _ => none

/-- The thread that moves in an action, where it can be inside a call. -/
def Action.caller? : Action → Option Caller
  | .client n _ => some (.client n)
  | .worker i _ => some (.worker i)
  | _ => none

/-- The choices that come with an action. -/
def Action.choice : Action → Choice
  | .client _ ch | .worker _ ch | .scheduler ch => ch
  | _ => {}

/-- The call `who` is in. -/
def State.callAt (s : State) : Caller → Option CallPc
  | .client n => s.clients[n]?
  | .worker i => s.workers[i]?.bind Worker.call?

theorem mem_calls {s : State} {q : CallPc} :
    q ∈ s.calls ↔ q ∈ s.clients ∨ ∃ w ∈ s.workers, w.call? = some q := by
  simp [State.calls]

theorem callAt_mem_calls {s : State} {who : Caller} {q : CallPc}
    (h : s.callAt who = some q) : q ∈ s.calls := by
  rw [mem_calls]
  cases who with
  | client n => exact .inl (List.mem_of_getElem? h)
  | worker i =>
      obtain ⟨w, hw, hq⟩ := Option.bind_eq_some_iff.mp h
      exact .inr ⟨w, List.mem_of_getElem? hw, hq⟩

/-- The call of a worker after its move: the call goes on, the task starts a
call, or the recurring body submits itself again. -/
theorem WorkerEffect.call?_cases {s s' : State} {i : ℕ} {w w' : Worker}
    {ch : Choice} (h : WorkerEffect s i w ch s' w') {q : CallPc}
    (hq : w'.call? = some q) :
    (∃ op t, ch.call = some op ∧ w.pc = .running t .user ∧
      q = startCall s op) ∨
      (∃ r : Recurring,
        q = .delayedPrepare r.interval r.priority (.recurring r)) ∨
      ∃ pc, w.call? = some pc ∧
        callStep s (.worker i) ch pc = some (s', q) := by
  cases h with
  | start hop hpc hcall' =>
      exact .inl ⟨_, _, hop, hpc, Option.some.inj (hq.symm.trans hcall')⟩
  | reschedule r hcall' =>
      exact .inr (.inl ⟨r, Option.some.inj (hq.symm.trans hcall')⟩)
  | call hpc hpc' hcall =>
      obtain rfl := Option.some.inj (hq.symm.trans hpc')
      exact .inr (.inr ⟨_, hpc, hcall⟩)
  | takeFront | takePriority | takeLocal =>
      exact absurd hq (by simp [Worker.call?])
  | quiet _ _ hcall' => simp [hcall'] at hq
  | invoke _ _ hcall' => simp [hcall'] at hq
  | skip _ _ hcall' => simp [hcall'] at hq
  | count _ _ hcall' => simp [hcall'] at hq
  | uncount _ _ hcall' => simp [hcall'] at hq

theorem call?_eq_some {w : Worker} {pc : CallPc} :
    w.call? = some pc ↔
      ∃ t, w.pc = .running t (.call pc) ∨
        w.pc = .running t (.reschedule pc) := by
  unfold Worker.call?
  split <;> simp_all

/-- A worker whose task is in a call goes on with the call, or is back from
it. -/
theorem workerStep_call? {s s' : State} {i : ℕ} {w w' : Worker}
    {ch : Choice} {pc : CallPc} (h : workerStep s i w ch = some (s', w'))
    (hpc : w.call? = some pc) :
    (pc = .done ∧ s' = s ∧ w'.call? = none) ∨
      ∃ pc', w'.call? = some pc' ∧
        callStep s (.worker i) ch pc = some (s', pc') := by
  obtain ⟨t, hrun | hrun⟩ := call?_eq_some.mp hpc
  all_goals
    simp only [workerStep, hrun, runningStep] at h
    split at h
    · simp only [Option.some.injEq, Prod.mk.injEq] at h
      obtain ⟨rfl, rfl⟩ := h
      exact .inl ⟨‹_›, rfl, rfl⟩
    · simp only [Option.map_eq_some_iff, Prod.mk.injEq] at h
      obtain ⟨⟨s₁, pc'⟩, hcall, rfl, rfl⟩ := h
      exact .inr ⟨pc', rfl, hcall⟩

theorem WorkerEffect.workers {s s' : State} {i : ℕ} {w w' : Worker}
    {ch : Choice} (h : WorkerEffect s i w ch s' w') :
    ∃ ws, s'.workers = s.workers ++ ws ∧ ∀ w ∈ ws, w.pc = .spawned := by
  obtain hsame | ⟨pc, pc', -, -, hcall⟩ := h.sameControl
  · exact ⟨[], by simp [hsame.workers]⟩
  · exact (callStep_effect hcall).workers

theorem WorkerEffect.clients {s s' : State} {i : ℕ} {w w' : Worker}
    {ch : Choice} (h : WorkerEffect s i w ch s' w') :
    s'.clients = s.clients := by
  obtain hsame | ⟨pc, pc', -, -, hcall⟩ := h.sameControl
  · exact hsame.clients
  · exact (callStep_effect hcall).clients

theorem call?_spawned {w : Worker} (h : w.pc = .spawned) :
    w.call? = none := by
  simp [Worker.call?, h]

theorem SchedulerEffect.sameThreads {s s' : State} {pc pc' : SchedulerPc}
    (h : SchedulerEffect s pc s' pc') : SameThreads s s' := by
  cases h with
  | quiet hq => exact hq.toSameThreads
  | push ready => exact (pushReady_same ready s).1.toSameThreads
  | _ => repeat' constructor

theorem SchedulerEffect.callParts {s s' : State} {pc pc' : SchedulerPc}
    (h : SchedulerEffect s pc s' pc') : SameCallParts s s' := by
  cases h with
  | quiet hq => exact hq.toSameControl.callParts hq.toSameHistory
  | push ready =>
      have hsame := pushReady_same ready s
      exact hsame.1.callParts hsame.2
  | _ => constructor <;> rfl

/-- A step that changes a part of the state that belongs to the calls is a
move of a call. -/
theorem step_callParts {s s' : State} {a : Action} (h : step s a = some s') :
    SameCallParts s s' ∨
      ∃ who ch pc s₁ pc', a.caller? = some who ∧ s.callAt who = some pc ∧
        callStep s who ch pc = some (s₁, pc') ∧
          s' = { s₁ with clients := s'.clients, workers := s'.workers } := by
  cases a with
  | tick elapsed =>
      obtain rfl := step_tick h
      exact .inl ⟨rfl, rfl, rfl, rfl, rfl⟩
  | call op =>
      obtain rfl := step_call h
      exact .inl ⟨rfl, rfl, rfl, rfl, rfl⟩
  | client n ch =>
      obtain ⟨pc, s₁, pc', hpc, hcall, rfl⟩ := step_client h
      exact .inr ⟨.client n, ch, pc, s₁, pc', rfl, hpc, hcall, rfl⟩
  | worker i ch =>
      obtain ⟨w, s₁, w', hw, hworker, rfl⟩ := step_worker h
      cases workerStep_effect hworker with
      | quiet hq =>
          have hsame := hq.toSameControl.callParts hq.toSameHistory
          exact .inl { hsame with }
      | @call _ _ pc pc' hpc _ hcall =>
          have hat : s.callAt (.worker i) = some pc := by
            simp [State.callAt, hw, hpc]
          exact .inr ⟨.worker i, ch, pc, s₁, pc', rfl, hat, hcall, rfl⟩
      | takeLocal htask =>
          rw [popLocal_some htask]
          exact .inl ⟨rfl, rfl, rfl, rfl, rfl⟩
      | _ => exact .inl ⟨rfl, rfl, rfl, rfl, rfl⟩
  | scheduler ch =>
      obtain ⟨pc, s₁, pc', -, hsched, rfl⟩ := step_scheduler h
      have hsame := (schedulerStep_effect hsched).callParts
      exact .inl { hsame with }
  | cancel f =>
      obtain rfl := step_cancel h
      exact .inl ⟨rfl, rfl, rfl, rfl, rfl⟩

/-- Where a call in progress after a step comes from. -/
theorem mem_calls_step {s s' : State} {a : Action} {q : CallPc}
    (h : step s a = some s') (hq : q ∈ s'.calls) :
    q ∈ s.calls ∨
      (∃ op, a.op? = some op ∧ q = startCall s op) ∨
      (∃ r : Recurring,
        q = .delayedPrepare r.interval r.priority (.recurring r)) ∨
      ∃ who ch pc s₁, a.caller? = some who ∧ s.callAt who = some pc ∧
        callStep s who ch pc = some (s₁, q) ∧
          s' = { s₁ with clients := s'.clients, workers := s'.workers } := by
  rw [mem_calls] at hq
  cases a with
  | tick elapsed =>
      obtain rfl := step_tick h
      exact .inl (mem_calls.mpr hq)
  | call op =>
      obtain rfl := step_call h
      rcases hq with hq | hq
      · rcases List.mem_append.mp hq with hq | hq
        · exact .inl (mem_calls.mpr (.inl hq))
        · exact .inr (.inl ⟨op, rfl, List.mem_singleton.mp hq⟩)
      · exact .inl (mem_calls.mpr (.inr hq))
  | client n ch =>
      obtain ⟨pc, s₁, pc', hpc, hcall, rfl⟩ := step_client h
      have heff := callStep_effect hcall
      obtain ⟨ws, hws, hspawned⟩ := heff.workers
      rcases hq with hq | ⟨w, hw, hwq⟩
      · rcases List.mem_or_eq_of_mem_set hq with hq | rfl
        · rw [heff.clients] at hq
          exact .inl (mem_calls.mpr (.inl hq))
        · exact .inr (.inr (.inr ⟨_, ch, pc, s₁, rfl, hpc, hcall, rfl⟩))
      · simp only [hws] at hw
        rcases List.mem_append.mp hw with hw | hw
        · exact .inl (mem_calls.mpr (.inr ⟨w, hw, hwq⟩))
        · simp [call?_spawned (hspawned w hw)] at hwq
  | worker i ch =>
      obtain ⟨w, s₁, w', hw, hworker, rfl⟩ := step_worker h
      have heff := workerStep_effect hworker
      obtain ⟨ws, hws, hspawned⟩ := heff.workers
      rcases hq with hq | ⟨v, hv, hvq⟩
      · simp only [heff.clients] at hq
        exact .inl (mem_calls.mpr (.inl hq))
      · rcases List.mem_or_eq_of_mem_set hv with hv | rfl
        · rw [hws] at hv
          rcases List.mem_append.mp hv with hv | hv
          · exact .inl (mem_calls.mpr (.inr ⟨v, hv, hvq⟩))
          · simp [call?_spawned (hspawned v hv)] at hvq
        · obtain ⟨op, t, hop, -, rfl⟩ | ⟨r, rfl⟩ | ⟨pc, hpc, hcall⟩ :=
            heff.call?_cases hvq
          · exact .inr (.inl ⟨op, hop, rfl⟩)
          · exact .inr (.inr (.inl ⟨r, rfl⟩))
          · have hat : s.callAt (.worker i) = some pc := by
              simp [State.callAt, hw, hpc]
            exact .inr (.inr (.inr ⟨_, ch, pc, s₁, rfl, hat, hcall, rfl⟩))
  | scheduler ch =>
      obtain ⟨pc, s₁, pc', hpc, hsched, rfl⟩ := step_scheduler h
      have hsame := (schedulerStep_effect hsched).sameThreads
      simp only [hsame.clients, hsame.workers] at hq
      exact .inl (mem_calls.mpr hq)
  | cancel f =>
      obtain rfl := step_cancel h
      exact .inl (mem_calls.mpr hq)

/-- A call in progress stays where it is unless it makes the move. -/
theorem mem_calls_of_not_moved {s s' : State} {a : Action} {q : CallPc}
    (h : step s a = some s') (hq : q ∈ s.calls) :
    q ∈ s'.calls ∨ ∃ who, a.caller? = some who ∧ s.callAt who = some q := by
  have hq₀ := hq
  rw [mem_calls] at hq
  rw [mem_calls]
  cases a with
  | tick elapsed =>
      obtain rfl := step_tick h
      exact .inl hq
  | call op =>
      obtain rfl := step_call h
      exact .inl (hq.imp_left (List.mem_append_left _))
  | client n ch =>
      obtain ⟨pc, s₁, pc', hpc, hcall, rfl⟩ := step_client h
      have heff := callStep_effect hcall
      obtain ⟨ws, hws, -⟩ := heff.workers
      rcases hq with hq | ⟨w, hw, hwq⟩
      · obtain ⟨m, hm⟩ := List.mem_iff_getElem?.mp hq
        by_cases hnm : n = m
        · subst hnm
          exact .inr ⟨.client n, rfl, hm⟩
        · refine .inl (.inl ?_)
          rw [heff.clients]
          exact List.mem_of_getElem? ((List.getElem?_set_ne hnm).trans hm)
      · refine .inl (.inr ⟨w, ?_, hwq⟩)
        simp [hws, hw]
  | worker i ch =>
      obtain ⟨w, s₁, w', hw, hworker, rfl⟩ := step_worker h
      have heff := workerStep_effect hworker
      obtain ⟨ws, hws, -⟩ := heff.workers
      rcases hq with hq | ⟨v, hv, hvq⟩
      · refine .inl (.inl ?_)
        simpa only [heff.clients] using hq
      · obtain ⟨j, hj⟩ := List.mem_iff_getElem?.mp hv
        by_cases hij : i = j
        · subst hij
          refine .inr ⟨.worker i, rfl, ?_⟩
          rw [State.callAt, hj]
          exact hvq
        · refine .inl (.inr ⟨v, ?_, hvq⟩)
          apply List.mem_of_getElem? (i := j)
          rw [List.getElem?_set_ne hij, hws, Roster.getElem?_append hj]
  | scheduler ch =>
      obtain ⟨pc, s₁, pc', -, hsched, rfl⟩ := step_scheduler h
      have hsame := (schedulerStep_effect hsched).sameThreads
      simpa only [hsame.clients, hsame.workers] using Or.inl hq
  | cancel f =>
      obtain rfl := step_cancel h
      exact .inl hq

/-- A worker after a step is as it was, is new, or has made the move. -/
theorem getElem?_workers_step {s s' : State} {a : Action} {i : ℕ}
    {w' : Worker} (h : step s a = some s') (hw' : s'.workers[i]? = some w') :
    (s.workers[i]? = some w' ∧ ∀ ch, a ≠ .worker i ch) ∨
      w'.pc = .spawned ∨
      ∃ ch w s₁, a = .worker i ch ∧ s.workers[i]? = some w ∧
        workerStep s i w ch = some (s₁, w') := by
  have happend : ∀ {ws : List Worker}, (∀ w ∈ ws, w.pc = .spawned) →
      (s.workers ++ ws)[i]? = some w' →
        s.workers[i]? = some w' ∨ w'.pc = .spawned := by
    intro ws hspawned hget
    by_cases hi : i < s.workers.length
    · rw [List.getElem?_append_left hi] at hget
      exact .inl hget
    · rw [List.getElem?_append_right (not_lt.mp hi)] at hget
      exact .inr (hspawned _ (List.mem_of_getElem? hget))
  cases a with
  | tick elapsed =>
      obtain rfl := step_tick h
      exact .inl ⟨hw', by simp⟩
  | call op =>
      obtain rfl := step_call h
      exact .inl ⟨hw', by simp⟩
  | client n ch =>
      obtain ⟨pc, s₁, pc', -, hcall, rfl⟩ := step_client h
      obtain ⟨ws, hws, hspawned⟩ := (callStep_effect hcall).workers
      simp only [hws] at hw'
      obtain hold | hnew := happend hspawned hw'
      · exact .inl ⟨hold, by simp⟩
      · exact .inr (.inl hnew)
  | worker j ch =>
      obtain ⟨w, s₁, w₁, hw, hworker, rfl⟩ := step_worker h
      obtain ⟨ws, hws, hspawned⟩ := (workerStep_effect hworker).workers
      simp only [hws] at hw'
      by_cases hij : j = i
      · subst hij
        obtain ⟨hlt, -⟩ := List.getElem?_eq_some_iff.mp hw
        have hlt' : j < (s.workers ++ ws).length := by
          rw [List.length_append]
          omega
        rw [List.getElem?_set_self hlt'] at hw'
        obtain rfl := Option.some.inj hw'
        exact .inr (.inr ⟨ch, w, s₁, rfl, hw, hworker⟩)
      · rw [List.getElem?_set_ne hij] at hw'
        obtain hold | hnew := happend hspawned hw'
        · exact .inl ⟨hold, by simp [hij]⟩
        · exact .inr (.inl hnew)
  | scheduler ch =>
      obtain ⟨pc, s₁, pc', -, hsched, rfl⟩ := step_scheduler h
      rw [(schedulerStep_effect hsched).sameThreads.workers] at hw'
      exact .inl ⟨hw', by simp⟩
  | cancel f =>
      obtain rfl := step_cancel h
      exact .inl ⟨hw', by simp⟩

/-! ## The first state -/

theorem construct_reachableVia (allowed : State → Action → Prop)
    (c : CheckedConfig) (clock : ℤ) :
    ReachableVia allowed (construct c clock) :=
  .start ⟨c, clock, rfl⟩

theorem construct_calls (c : CheckedConfig) (clock : ℤ) :
    (construct c clock).calls = [] := by
  simp [State.calls, construct, Worker.call?]

theorem mem_construct_workers {c : CheckedConfig} {clock : ℤ} {w : Worker}
    (hw : w ∈ (construct c clock).workers) : w.pc = .spawned := by
  obtain ⟨i, -, rfl⟩ := List.mem_map.mp hw
  rfl

end ThreadPool
end Yacul
