import Mathlib.Data.Int.Notation
import Mathlib.Data.List.Basic

/-!
# The state of the QOS scheduler

The shared variables of `QOS` and the atomic operations on them.  The source
has no lock around an operation as a whole: a counter is changed by one
`fetch_add`, a queue by one `enqueue` or `try_dequeue`, so every access is an
`Event` of its own.  The lists `fates`, `created` and `joined` are no part of
the source; they record what has become of the items and the threads.
-/

namespace Yacul
namespace Qos

/-! ## Configuration and items -/

/-- `Priority`. -/
inductive Priority
  | kBackground
  | kLow
  | kNormal
  | kHigh
  | kCritical
  | kRealtime
deriving DecidableEq, Repr

/-- The levels, from the highest to the lowest. -/
def Priority.levels : List Priority :=
  [.kRealtime, .kCritical, .kHigh, .kNormal, .kLow, .kBackground]

/-- The next level of a scan from the highest priority to the lowest. -/
def Priority.below : Priority → Option Priority
  | .kRealtime => some .kCritical
  | .kCritical => some .kHigh
  | .kHigh => some .kNormal
  | .kNormal => some .kLow
  | .kLow => some .kBackground
  | .kBackground => none

/-- `QosConfig::OverflowPolicy`. -/
inductive OverflowPolicy
  | kDrop
  | kDropOldest
  | kBlock
deriving DecidableEq, Repr

/-- `QosConfig`.  A rate matters only through the bucket that the constructor
makes of a positive one: `globalLimiter` and `rateLimiter` say which buckets
exist.  `itemTtl` is in milliseconds. -/
structure QosConfig where
  maxQueueDepth : UInt64 := 4096
  maxTotalDepth : UInt64 := 0
  rateLimiter : Priority → Bool := fun _ => false
  globalLimiter : Bool := false
  wrrQuanta : Priority → UInt64
  numConsumerThreads : UInt64 := 1
  itemTtl : ℤ := 0
  overflowPolicy : OverflowPolicy := .kDrop

/-- The default of `wrr_quanta`. -/
def defaultQuanta : Priority → UInt64
  | .kBackground => 1
  | .kLow => 2
  | .kNormal => 4
  | .kHigh => 8
  | .kCritical => 16
  | .kRealtime => 32

/-- The number of threads that `Start` creates. -/
def QosConfig.numThreads (c : QosConfig) : ℕ :=
  max 1 c.numConsumerThreads.toNat

/-- `steady_clock::time_point`, in nanoseconds. -/
abbrev TimePoint := ℤ

/-- An item with its metadata.  Different submissions are different objects:
`key` tells them apart. -/
structure Item where
  key : ℕ := 0
  cost : UInt32 := 1
  priority : Priority := .kNormal
  id : UInt64 := 0
  enqueueTime : TimePoint := 0
  deadline : TimePoint := 0
  hasDeadline : Bool := false
deriving DecidableEq, Repr

/-- The metadata that `EnqueueInternal` writes before it publishes an item. -/
def Item.stamped (item : Item) (id : UInt64) (now : TimePoint)
    (deadline : Option TimePoint) : Item :=
  { item with
    id := id
    enqueueTime := now
    hasDeadline := deadline.isSome
    deadline := deadline.getD item.deadline }

@[simp] theorem Item.stamped_key (item : Item) (id : UInt64)
    (now : TimePoint) (deadline : Option TimePoint) :
    (item.stamped id now deadline).key = item.key := rfl

@[simp] theorem Item.stamped_priority (item : Item) (id : UInt64)
    (now : TimePoint) (deadline : Option TimePoint) :
    (item.stamped id now deadline).priority = item.priority := rfl

/-- `QOS::IsExpired` at the time `now`; `own` is the answer of the item's own
`IsExpired`. -/
def isExpired (c : QosConfig) (item : Item) (own : Bool) (now : TimePoint) :
    Bool :=
  own || (item.hasDeadline && item.deadline < now) ||
    (0 < c.itemTtl && c.itemTtl ≤ (now - item.enqueueTime) / 1000000)

/-! ## Queues, statistics, observers, threads -/

/-- `QOS::PriorityQueue`.  The lock-free queue is a bag: `try_dequeue` takes
any of the items. -/
structure PriorityQueue where
  items : List Item := []
  depth : UInt64 := 0
deriving Repr

/-- The counters of `PerPriorityStats`. -/
inductive Counter
  | enqueued
  | dequeued
  | executed
  | dropped
  | expired
  | totalLatencyUs
deriving DecidableEq, Repr

/-- The callbacks of `IQosObserver`. -/
inductive Callback
  | onEnqueued
  | onDequeued
  | onExecuted
  | onDropped
  | onExpired
deriving DecidableEq, Repr

/-- A notification received by an observer. -/
structure Notice where
  callback : Callback
  item : Item
deriving DecidableEq, Repr

/-- What has become of a submission. -/
inductive Fate
  | accepted
  | rejected
  | evicted
  | expired
  | handed
  | executed
deriving DecidableEq, Repr

/-- An element of `consumer_threads_`; `start` numbers the `Start` that
created it. -/
structure Handle where
  thread : ℕ
  start : ℕ
  joinable : Bool := true
deriving DecidableEq, Repr

/-- The members of `QOS`. -/
structure Shared where
  config : QosConfig
  queues : Priority → PriorityQueue := fun _ => {}
  stats : Priority → Counter → UInt64 := fun _ _ => 0
  totalDepth : UInt64 := 0
  nextId : UInt64 := 1
  running : Bool := false
  paused : Bool := false
  stopRequested : Bool := false
  consumerThreads : List Handle := []
  backpressureMu : Bool := false
  notifications : ℕ := 0
  notices : List Notice := []
  submitted : ℕ := 0
  starts : ℕ := 0
  fates : Fate → List Item := fun _ => []
  created : List Handle := []
  joined : List ℕ := []

/-! ## Atomic operations -/

/-- An access to the shared state. -/
inductive Event
  /-- Loads only. -/
  | quiet
  /-- A client submits an item. -/
  | submit
  /-- `next_id_.fetch_add`. -/
  | takeId
  /-- `queue.enqueue`. -/
  | publish (item : Item)
  /-- `queue.try_dequeue`. -/
  | take (level : Priority) (item : Item)
  | addDepth (level : Priority)
  | subDepth (level : Priority)
  | addTotal
  | subTotal
  | count (level : Priority) (counter : Counter) (amount : UInt64)
  /-- `dropped.fetch_add` for a rejected submission. -/
  | reject (item : Item)
  /-- `dropped.fetch_add` for an evicted item. -/
  | discard (level : Priority) (item : Item)
  /-- `expired.fetch_add`. -/
  | expire (level : Priority) (item : Item)
  /-- `Execute`. -/
  | execute (item : Item)
  /-- An item is returned to the caller of `TryDequeue`. -/
  | hand (item : Item)
  | notify (notice : Notice)
  | lock
  | unlock
  | notifyAll
  /-- A successful exchange on `running_`. -/
  | exchange (running : Bool)
  | storeStop (value : Bool)
  | storePaused (value : Bool)
  | spawn (thread start : ℕ)
  | join (index : ℕ)
  | clear
deriving DecidableEq, Repr

/-- Change one queue. -/
def modifyQueue (queues : Priority → PriorityQueue) (level : Priority)
    (f : PriorityQueue → PriorityQueue) : Priority → PriorityQueue :=
  fun p => if p = level then f (queues p) else queues p

/-- Add to one counter. -/
def addStat (stats : Priority → Counter → UInt64) (level : Priority)
    (counter : Counter) (amount : UInt64) : Priority → Counter → UInt64 :=
  fun p c => if p = level ∧ c = counter then stats p c + amount else stats p c

/-- Note what has become of an item. -/
def record (fates : Fate → List Item) (fate : Fate) (item : Item) :
    Fate → List Item :=
  fun f => if f = fate then item :: fates f else fates f

/-- The effect of an event. -/
def Shared.apply (s : Shared) : Event → Shared
  | .quiet => s
  | .submit => { s with submitted := s.submitted + 1 }
  | .takeId => { s with nextId := s.nextId + 1 }
  | .publish item =>
      { s with
        queues := modifyQueue s.queues item.priority fun q =>
          { q with items := q.items ++ [item] }
        fates := record s.fates .accepted item }
  | .take level item =>
      { s with
        queues := modifyQueue s.queues level fun q =>
          { q with items := q.items.erase item } }
  | .addDepth level =>
      { s with
        queues := modifyQueue s.queues level fun q =>
          { q with depth := q.depth + 1 } }
  | .subDepth level =>
      { s with
        queues := modifyQueue s.queues level fun q =>
          { q with depth := q.depth - 1 } }
  | .addTotal => { s with totalDepth := s.totalDepth + 1 }
  | .subTotal => { s with totalDepth := s.totalDepth - 1 }
  | .count level counter amount =>
      { s with stats := addStat s.stats level counter amount }
  | .reject item =>
      { s with
        stats := addStat s.stats item.priority .dropped 1
        fates := record s.fates .rejected item }
  | .discard level item =>
      { s with
        stats := addStat s.stats level .dropped 1
        fates := record s.fates .evicted item }
  | .expire level item =>
      { s with
        stats := addStat s.stats level .expired 1
        fates := record s.fates .expired item }
  | .execute item => { s with fates := record s.fates .executed item }
  | .hand item => { s with fates := record s.fates .handed item }
  | .notify notice => { s with notices := s.notices ++ [notice] }
  | .lock => { s with backpressureMu := true }
  | .unlock => { s with backpressureMu := false }
  | .notifyAll => { s with notifications := s.notifications + 1 }
  | .exchange running =>
      { s with
        running := running
        starts := if running then s.starts + 1 else s.starts }
  | .storeStop value => { s with stopRequested := value }
  | .storePaused value => { s with paused := value }
  | .spawn thread start =>
      { s with
        consumerThreads := s.consumerThreads ++ [{ thread, start }]
        created := s.created ++ [{ thread, start }] }
  | .join index =>
      { s with
        consumerThreads := s.consumerThreads.modify index fun h =>
          { h with joinable := false }
        joined := s.joined ++ (s.consumerThreads[index]?.map
          Handle.thread).toList }
  | .clear => { s with consumerThreads := [] }

/-! ## What an event changes -/

/-- The statistic that an event raises, and by how much. -/
def Event.stat? : Event → Option (Priority × Counter × UInt64)
  | .count level counter amount => some (level, counter, amount)
  | .reject item => some (item.priority, .dropped, 1)
  | .discard level _ => some (level, .dropped, 1)
  | .expire level _ => some (level, .expired, 1)
  | _ => none

/-- The submission whose fate an event decides. -/
def Event.decides? : Event → Option (Fate × Item)
  | .publish item => some (.accepted, item)
  | .reject item => some (.rejected, item)
  | .discard _ item => some (.evicted, item)
  | .expire _ item => some (.expired, item)
  | .hand item => some (.handed, item)
  | .execute item => some (.executed, item)
  | _ => none

theorem Shared.config_apply (s : Shared) (e : Event) :
    (s.apply e).config = s.config := by
  cases e <;> rfl

theorem Shared.stats_apply (s : Shared) (e : Event) :
    (s.apply e).stats = match e.stat? with
      | some (level, counter, amount) => addStat s.stats level counter amount
      | none => s.stats := by
  cases e <;> rfl

theorem Shared.fates_apply (s : Shared) (e : Event) :
    (s.apply e).fates = match e.decides? with
      | some (fate, item) => record s.fates fate item
      | none => s.fates := by
  cases e <;> rfl

/-- The queue of a level after an event. -/
def PriorityQueue.apply (q : PriorityQueue) (level : Priority) :
    Event → PriorityQueue
  | .publish item =>
      if item.priority = level then { q with items := q.items ++ [item] } else q
  | .take l item =>
      if l = level then { q with items := q.items.erase item } else q
  | .addDepth l => if l = level then { q with depth := q.depth + 1 } else q
  | .subDepth l => if l = level then { q with depth := q.depth - 1 } else q
  | _ => q

theorem Shared.queues_apply (s : Shared) (e : Event) (level : Priority) :
    (s.apply e).queues level = (s.queues level).apply level e := by
  cases e with
  | publish item | take l item | addDepth l | subDepth l =>
      simp only [Shared.apply, modifyQueue, PriorityQueue.apply,
        eq_comm (a := level)]
  | _ => rfl

end Qos
end Yacul
