import Yacul.Support.Transition
import Yacul.Qos.State

/-!
# The QOS scheduler as a step function

A thread is a program counter: a client outside or inside a call, or a
consumer in `ConsumerLoop`.  `advance` gives the next access of a thread to
the shared state and where the thread goes from there; `step` interleaves any
number of threads.  `Moves` lists what `advance` can do.
-/

namespace Yacul
namespace Qos

/-! ## Program counters -/

/-- Where a thread is in `EnqueueInternal`.  `asleep` keeps the number of
notifications issued before the thread went to sleep. -/
inductive EnqueueStage
  | checkDepth
  | evict
  | evictDepth (evicted : Item)
  | evictTotal (evicted : Item)
  | evictNotify (evicted : Item)
  | evictDropped (evicted : Item)
  | lockMutex
  | testDepth
  | testStop
  | goToSleep
  | asleep (epoch : ℕ)
  | unlock
  | checkTotal
  | globalLimit
  | levelLimit
  | stamp
  | publish
  | countDepth
  | countTotal
  | countEnqueued
  | notifyEnqueued
  | notifyDropped
  | countDropped
deriving DecidableEq, Repr

/-- The caller of `DequeueInternal`. -/
inductive Purpose
  | tryDequeue
  | bulk (left : ℕ)
  | consume
  | drain
deriving DecidableEq, Repr

/-- Where a thread is in the loop body of `DequeueInternal`. -/
inductive DequeueStage
  | take
  | countDepth (item : Item)
  | countTotal (item : Item)
  | countDequeued (item : Item)
  | notifyAll (item : Item)
  | testExpired (item : Item)
  | notifyExpired (item : Item)
  | countExpired (item : Item)
  | notifyDequeued (item : Item)
  | giveBack (item : Item)
deriving DecidableEq, Repr

/-- Where a consumer is with the item it executes. -/
inductive ExecuteStage
  | run
  | countExecuted
  | countLatency
  | notifyExecuted
deriving DecidableEq, Repr

/-- Where a thread is in `Start`; `start` numbers the successful calls. -/
inductive StartStage
  | exchange
  | clearStop (start : ℕ)
  | clearPaused (start : ℕ)
  | spawn (start left : ℕ)
deriving DecidableEq, Repr

/-- Where a thread is in `Stop`.  The loop over the threads has its end fixed
when it begins. -/
inductive StopStage
  | exchange
  | setStop
  | clearPaused
  | iterate
  | testJoinable (index size : ℕ)
  | joining (index size : ℕ)
  | clear
deriving DecidableEq, Repr

/-- Where a thread is. -/
inductive Pc
  | idle
  | enqueue (item : Item) (deadline : Option TimePoint) (stage : EnqueueStage)
  | dequeue (purpose : Purpose) (level : Priority) (q : ℕ)
      (stage : DequeueStage)
  | loopTest
  | pausedTest
  | execute (draining : Bool) (item : Item) (stage : ExecuteStage)
  | storePaused (value : Bool)
  | start (stage : StartStage)
  | stop (stage : StopStage)
  | exited
deriving DecidableEq, Repr

/-- The shared state and the threads, named by their index. -/
structure State where
  shared : Shared
  threads : List Pc

/-- The public operations.  The source's `Enqueue` takes an item that may be
null. -/
inductive Call
  | enqueue (item : Option Item)
  | enqueueAt (item : Option Item) (priority : Priority)
  | enqueueBy (item : Option Item) (priority : Priority) (deadline : TimePoint)
  | enqueueTask (priority : Priority)
  | tryDequeue
  | tryDequeueBulk (maxItems : ℕ)
  | start
  | stop
  | pause
  | resume
deriving DecidableEq, Repr

/-- What the environment decides in a step: which item the bag hands out, the
time, the answer of the item's `IsExpired`, the answer of `TryConsume` or of
the queue's `enqueue`, and the latency of an execution. -/
structure Choice where
  index : ℕ := 0
  now : TimePoint := 0
  ownExpired : Bool := false
  answer : Bool := true
  latency : UInt64 := 0
deriving DecidableEq, Repr

/-! ## The operations -/

/-- `DequeueInternal` from its first line. -/
def Pc.scan (purpose : Purpose) : Pc :=
  .dequeue purpose .kRealtime 0 .take

/-- The call hands a fresh item to `EnqueueInternal`. -/
def submit (sh : Shared) (item : Item) (deadline : Option TimePoint) :
    Event × Pc :=
  (.submit, .enqueue { item with key := sh.submitted } deadline .checkDepth)

/-- A public operation up to its first access. -/
def begin (sh : Shared) : Call → Event × Pc
  | .enqueue none | .enqueueAt none _ | .enqueueBy none _ _ => (.quiet, .idle)
  | .enqueue (some item) => submit sh item none
  | .enqueueAt (some item) priority =>
      submit sh { item with priority := priority } none
  | .enqueueBy (some item) priority deadline =>
      submit sh { item with priority := priority } (some deadline)
  | .enqueueTask priority => submit sh { priority := priority } none
  | .tryDequeue => (.quiet, .scan .tryDequeue)
  | .tryDequeueBulk 0 => (.quiet, .idle)
  | .tryDequeueBulk (left + 1) => (.quiet, .scan (.bulk left))
  | .start => (.quiet, .start .exchange)
  | .stop => (.quiet, .stop .exchange)
  | .pause => (.quiet, .storePaused true)
  | .resume => (.quiet, .storePaused false)

/-- The capacity check of a level. -/
def Shared.overflows (sh : Shared) (level : Priority) : Bool :=
  0 < sh.config.maxQueueDepth &&
    sh.config.maxQueueDepth ≤ (sh.queues level).depth

/-- What each overflow policy does with a full level. -/
def OverflowPolicy.stage : OverflowPolicy → EnqueueStage
  | .kDrop => .notifyDropped
  | .kDropOldest => .evict
  | .kBlock => .lockMutex

/-- `max_total_depth` reached. -/
def Shared.totalOverflows (sh : Shared) : Bool :=
  0 < sh.config.maxTotalDepth && sh.config.maxTotalDepth ≤ sh.totalDepth

/-- `queue.try_dequeue`: it fails exactly on an empty queue. -/
def tryDequeue (items : List Item) (index : ℕ) : Option (Option Item) :=
  if items = [] then some none else items[index]?.map some

/-- `EnqueueInternal`. -/
def enqueueStep (sh : Shared) (item : Item) (deadline : Option TimePoint)
    (ch : Choice) (stage : EnqueueStage) : Option (Event × Pc) :=
  let goto := Pc.enqueue item deadline
  let level := item.priority
  match stage with
  | .checkDepth =>
      some (.quiet, goto (if sh.overflows level
        then sh.config.overflowPolicy.stage else .checkTotal))
  | .evict =>
      (tryDequeue (sh.queues level).items ch.index).map fun
        | none => (.quiet, goto .checkTotal)
        | some evicted => (.take level evicted, goto (.evictDepth evicted))
  | .evictDepth evicted => some (.subDepth level, goto (.evictTotal evicted))
  | .evictTotal evicted => some (.subTotal, goto (.evictNotify evicted))
  | .evictNotify evicted =>
      some (.notify ⟨.onDropped, evicted⟩, goto (.evictDropped evicted))
  | .evictDropped evicted => some (.discard level evicted, goto .checkTotal)
  | .lockMutex =>
      if sh.backpressureMu then none else some (.lock, goto .testDepth)
  | .testDepth =>
      some (.quiet, goto (if (sh.queues level).depth < sh.config.maxQueueDepth
        then .unlock else .testStop))
  | .testStop =>
      some (.quiet, goto (if sh.stopRequested then .unlock else .goToSleep))
  | .goToSleep => some (.unlock, goto (.asleep sh.notifications))
  | .asleep _ =>
      if sh.backpressureMu then none else some (.lock, goto .testDepth)
  | .unlock => some (.unlock, goto .checkTotal)
  | .checkTotal =>
      some (.quiet, goto (if sh.totalOverflows then .notifyDropped
        else .globalLimit))
  | .globalLimit =>
      some (.quiet, goto (if sh.config.globalLimiter && !ch.answer
        then .notifyDropped else .levelLimit))
  | .levelLimit =>
      some (.quiet, goto (if sh.config.rateLimiter level && !ch.answer
        then .notifyDropped else .stamp))
  | .stamp =>
      some (.takeId,
        .enqueue (item.stamped sh.nextId ch.now deadline) deadline .publish)
  | .publish =>
      some (if ch.answer then (.publish item, goto .countDepth)
        else (.quiet, goto .notifyDropped))
  | .countDepth => some (.addDepth level, goto .countTotal)
  | .countTotal => some (.addTotal, goto .countEnqueued)
  | .countEnqueued => some (.count level .enqueued 1, goto .notifyEnqueued)
  | .notifyEnqueued => some (.notify ⟨.onEnqueued, item⟩, .idle)
  | .notifyDropped => some (.notify ⟨.onDropped, item⟩, goto .countDropped)
  | .countDropped => some (.reject item, .idle)

/-- What the caller of `DequeueInternal` does with a null item. -/
def Purpose.onNull : Purpose → Pc
  | .tryDequeue | .bulk _ => .idle
  | .consume => .loopTest
  | .drain => .exited

/-- What the caller of `DequeueInternal` does with an item. -/
def Purpose.onItem (item : Item) : Purpose → Event × Pc
  | .tryDequeue | .bulk 0 => (.hand item, .idle)
  | .bulk (left + 1) => (.hand item, .scan (.bulk left))
  | .consume => (.quiet, .execute false item .run)
  | .drain => (.quiet, .execute true item .run)

/-- The scan goes on with the next lower level. -/
def nextLevel (purpose : Purpose) (level : Priority) : Pc :=
  match level.below with
  | some lower => .dequeue purpose lower 0 .take
  | none => purpose.onNull

/-- `DequeueInternal`. -/
def dequeueStep (sh : Shared) (purpose : Purpose) (level : Priority) (q : ℕ)
    (ch : Choice) (stage : DequeueStage) : Option (Event × Pc) :=
  let goto := Pc.dequeue purpose level q
  match stage with
  | .take =>
      if (sh.config.wrrQuanta level).toNat ≤ q then
        some (.quiet, nextLevel purpose level)
      else
        (tryDequeue (sh.queues level).items ch.index).map fun
          | none => (.quiet, nextLevel purpose level)
          | some item => (.take level item, goto (.countDepth item))
  | .countDepth item => some (.subDepth level, goto (.countTotal item))
  | .countTotal item => some (.subTotal, goto (.countDequeued item))
  | .countDequeued item =>
      some (.count level .dequeued 1, goto (.notifyAll item))
  | .notifyAll item => some (.notifyAll, goto (.testExpired item))
  | .testExpired item =>
      some (.quiet, goto (if isExpired sh.config item ch.ownExpired ch.now
        then .notifyExpired item else .notifyDequeued item))
  | .notifyExpired item =>
      some (.notify ⟨.onExpired, item⟩, goto (.countExpired item))
  | .countExpired item =>
      some (.expire level item, .dequeue purpose level (q + 1) .take)
  | .notifyDequeued item =>
      some (.notify ⟨.onDequeued, item⟩, goto (.giveBack item))
  | .giveBack item => some (purpose.onItem item)

/-- A consumer with an item, inside the loop or in the drain after it. -/
def executeStep (draining : Bool) (item : Item) (ch : Choice) :
    ExecuteStage → Event × Pc
  | .run => (.execute item, .execute draining item .countExecuted)
  | .countExecuted =>
      (.count item.priority .executed 1, .execute draining item .countLatency)
  | .countLatency =>
      (.count item.priority .totalLatencyUs ch.latency,
        .execute draining item .notifyExecuted)
  | .notifyExecuted =>
      (.notify ⟨.onExecuted, item⟩,
        if draining then .scan .drain else .loopTest)

/-- `Start`; `fresh` is the index of the next thread. -/
def startStep (sh : Shared) (fresh : ℕ) : StartStage → Event × Pc
  | .exchange =>
      if sh.running then (.quiet, .idle)
      else (.exchange true, .start (.clearStop sh.starts))
  | .clearStop start => (.storeStop false, .start (.clearPaused start))
  | .clearPaused start =>
      (.storePaused false, .start (.spawn start sh.config.numThreads))
  | .spawn _ 0 => (.quiet, .idle)
  | .spawn start (left + 1) =>
      (.spawn fresh start, .start (.spawn start left))

/-- `Stop`.  There is no next state after undefined behaviour (the loop runs
past a vector that was cleared) or `terminate` (`clear` destroys a joinable
thread). -/
def stopStep (s : State) : StopStage → Option (Event × Pc)
  | .exchange =>
      some (if s.shared.running then (.exchange false, .stop .setStop)
        else (.quiet, .idle))
  | .setStop => some (.storeStop true, .stop .clearPaused)
  | .clearPaused => some (.storePaused false, .stop .iterate)
  | .iterate =>
      some (.quiet, .stop (.testJoinable 0 s.shared.consumerThreads.length))
  | .testJoinable index size =>
      if size ≤ index then some (.quiet, .stop .clear)
      else s.shared.consumerThreads[index]?.map fun h =>
        (.quiet, .stop (if h.joinable then .joining index size
          else .testJoinable (index + 1) size))
  | .joining index size =>
      s.shared.consumerThreads[index]?.bind fun h =>
        if s.threads[h.thread]? = some .exited then
          some (.join index, .stop (.testJoinable (index + 1) size))
        else none
  | .clear =>
      if s.shared.consumerThreads.any Handle.joinable then none
      else some (.clear, .idle)

/-- The next access of a thread that is inside an operation, and where it goes
from there. -/
def advance (s : State) (pc : Pc) (ch : Choice) : Option (Event × Pc) :=
  match pc with
  | .idle | .exited => none
  | .enqueue item deadline stage =>
      enqueueStep s.shared item deadline ch stage
  | .dequeue purpose level q stage =>
      dequeueStep s.shared purpose level q ch stage
  | .loopTest =>
      some (.quiet, if s.shared.stopRequested then .scan .drain
        else .pausedTest)
  | .pausedTest =>
      some (.quiet, if s.shared.paused then .loopTest else .scan .consume)
  | .execute draining item stage => some (executeStep draining item ch stage)
  | .storePaused value => some (.storePaused value, .idle)
  | .start stage => some (startStep s.shared s.threads.length stage)
  | .stop stage => stopStep s stage

/-- The thread an event creates. -/
def Event.spawned : Event → List Pc
  | .spawn _ _ => [.loopTest]
  | _ => []

/-- Thread `t` makes the access `e` and goes to `pc`. -/
def State.settle (s : State) (t : ℕ) (e : Event) (pc : Pc) : State where
  shared := s.shared.apply e
  threads := s.threads.set t pc ++ e.spawned

/-- A step of a thread. -/
inductive Action
  /-- An idle thread calls a public operation. -/
  | call (thread : ℕ) (call : Call)
  /-- A thread inside an operation moves on. -/
  | run (thread : ℕ) (ch : Choice)
deriving DecidableEq, Repr

def Action.thread : Action → ℕ
  | .call t _ | .run t _ => t

/-- The access that an action makes. -/
def access (s : State) (a : Action) : Option (Event × Pc) :=
  match a with
  | .call t call =>
      if s.threads[t]? = some .idle then some (begin s.shared call) else none
  | .run t ch => s.threads[t]?.bind fun pc => advance s pc ch

/-- One step. -/
def step (s : State) (a : Action) : Option State :=
  (access s a).map fun (e, pc) => s.settle a.thread e pc

/-- A new scheduler, used by any number of threads. -/
def construct (config : QosConfig) (clients : ℕ) : State where
  shared := { config }
  threads := List.replicate clients .idle

/-- The initial states. -/
def init : Set State := { s | ∃ config clients, s = construct config clients }

/-- The reachable states. -/
abbrev Reachable : State → Prop := Transition.Reachable step init

end Qos
end Yacul
