import Yacul.Support.Counter
import Yacul.Support.Roster
import Yacul.Qos.Moves
import Mathlib.Tactic.Abel

/-!
# The ledger of the scheduler

The counters of `QOS` are changed one at a time, by the thread that has moved
an item, before or after the item itself has moved.  An `Account` pairs a
counter with what it counts; between the two stand the threads that still owe
the counter an addition and the threads that hold an item on its way.  Every
move keeps every account in balance, so a state with no operation in progress
has exact counters.
-/

namespace Yacul
namespace Qos

open Counting

/-! ## Threads after a step -/

/-- A step changes the entry of its thread; a new consumer contributes
nothing. -/
theorem State.settle_tally {M : Type*} [AddCommMonoid M] {f : Pc → M}
    {s : State} {t : ℕ} {pc : Pc} (hpc : s.threads[t]? = some pc)
    (hfresh : f .loopTest = 0) (e : Event) (pc' : Pc) :
    f pc + Roster.tally f (s.settle t e pc').threads =
      f pc' + Roster.tally f s.threads := by
  have hspawned : Roster.tally f e.spawned = 0 := by
    cases e <;> simp [Event.spawned, hfresh]
  rw [State.settle, Roster.tally_append, hspawned, add_zero]
  exact Roster.tally_set hpc pc'

theorem State.mem_settle {s : State} {t : ℕ} {e : Event} {pc pc' : Pc}
    (h : pc ∈ (s.settle t e pc').threads) :
    pc ∈ s.threads ∨ pc = pc' ∨ pc = .loopTest := by
  obtain hold | hnew := List.mem_append.mp h
  · obtain hold | rfl := List.mem_or_eq_of_mem_set hold
    · exact .inl hold
    · exact .inr (.inl rfl)
  · cases e with
    | spawn thread start => exact .inr (.inr (List.mem_singleton.mp hnew))
    | _ => cases hnew

/-! ## Items stay at their level -/

/-- The item that a thread has taken out of a queue and not yet passed on. -/
def EnqueueStage.taken? : EnqueueStage → Option Item
  | .evictDepth v | .evictTotal v | .evictNotify v | .evictDropped v => some v
  | _ => none

/-- See `EnqueueStage.taken?`. -/
def DequeueStage.taken? : DequeueStage → Option Item
  | .take => none
  | .countDepth v | .countTotal v | .countDequeued v | .notifyAll v
  | .testExpired v | .notifyExpired v | .countExpired v | .notifyDequeued v
  | .giveBack v => some v

/-- See `EnqueueStage.taken?`. -/
def Pc.taken? : Pc → Option Item
  | .enqueue _ _ stage => stage.taken?
  | .dequeue _ _ _ stage => stage.taken?
  | .execute _ item .run => some item
  | _ => none

/-- What a thread has taken out of a queue is of the level of the queue. -/
def Pc.AtLevel : Pc → Prop
  | .enqueue item _ stage => ∀ v ∈ stage.taken?, v.priority = item.priority
  | .dequeue _ level _ stage => ∀ v ∈ stage.taken?, v.priority = level
  | _ => True

/-- Items are queued at the level of their priority. -/
structure Sorted (s : State) : Prop where
  queues : ∀ level, ∀ v ∈ (s.shared.queues level).items, v.priority = level
  threads : ∀ pc ∈ s.threads, pc.AtLevel

theorem nextLevel_cases (purpose : Purpose) (level : Priority) :
    (∃ lower, nextLevel purpose level = .dequeue purpose lower 0 .take) ∨
      nextLevel purpose level = purpose.onNull := by
  unfold nextLevel
  split
  · exact .inl ⟨_, rfl⟩
  · exact .inr rfl

/-- A reading that is the same where a level is scanned and where a scan ends
is that after any level. -/
theorem apply_nextLevel {β : Type*} {f : Pc → β} {z : β}
    (hscan : ∀ purpose level, f (.dequeue purpose level 0 .take) = z)
    (hidle : f .idle = z) (hloop : f .loopTest = z) (hexited : f .exited = z)
    (purpose : Purpose) (level : Priority) :
    f (nextLevel purpose level) = z := by
  obtain ⟨lower, h⟩ | h := nextLevel_cases purpose level
  · rw [h, hscan]
  · rw [h]
    cases purpose with
    | tryDequeue | bulk left => exact hidle
    | consume => exact hloop
    | drain => exact hexited

theorem Pc.atLevel_nextLevel (purpose : Purpose) (level : Priority) :
    (nextLevel purpose level).AtLevel := by
  obtain ⟨lower, h⟩ | h := nextLevel_cases purpose level
  · rw [h]
    simp [AtLevel, DequeueStage.taken?]
  · rw [h]
    cases purpose <;> trivial

theorem Moves.atLevel {s : State} {pc pc' : Pc} {e : Event}
    (h : Moves s pc e pc') (hs : Sorted s) (hpc : pc.AtLevel) :
    pc'.AtLevel := by
  cases h with
  | enqueue h =>
      cases h with
      | overflow h =>
          cases s.shared.config.overflowPolicy <;>
            simp [Pc.AtLevel, OverflowPolicy.stage, EnqueueStage.taken?]
      | evict h => simpa [Pc.AtLevel, EnqueueStage.taken?] using hs.queues _ _ h
      | evictDepth v | evictTotal v | evictNotify v => exact hpc
      | _ => simp [Pc.AtLevel, EnqueueStage.taken?]
  | dequeue h =>
      cases h with
      | quotaUsed h | empty h => exact Pc.atLevel_nextLevel _ _
      | take _ h => simpa [Pc.AtLevel, DequeueStage.taken?] using hs.queues _ _ h
      | countExpired item | hand item =>
          simp [Pc.AtLevel, Pc.scan, DequeueStage.taken?]
      | handLast item | consume item | drain item => trivial
      | _ => exact hpc
  | start h => cases h <;> trivial
  | stop h => cases h <;> trivial
  | _ => simp [Pc.AtLevel, Pc.scan, DequeueStage.taken?, EnqueueStage.taken?]

theorem mem_items_apply {sh : Shared} {e : Event} {level : Priority}
    {v : Item} (h : v ∈ ((sh.apply e).queues level).items) :
    v ∈ (sh.queues level).items ∨ e = .publish v ∧ v.priority = level := by
  rw [Shared.queues_apply] at h
  cases e with
  | publish item =>
      simp only [PriorityQueue.apply] at h
      split at h
      · next hlevel =>
        obtain hold | hnew := List.mem_append.mp h
        · exact .inl hold
        · obtain rfl := List.mem_singleton.mp hnew
          exact .inr ⟨rfl, hlevel⟩
      · exact .inl h
  | take p item =>
      simp only [PriorityQueue.apply] at h
      split at h
      · exact .inl (List.mem_of_mem_erase h)
      · exact .inl h
  | addDepth p | subDepth p =>
      simp only [PriorityQueue.apply] at h
      split at h <;> exact .inl h
  | _ => exact .inl h

theorem reachable_sorted {s : State} (hs : Reachable s) : Sorted s := by
  apply hs.invariant
  · rintro s ⟨config, clients, rfl⟩
    refine ⟨by simp [construct], fun pc hpc => ?_⟩
    rw [List.eq_of_mem_replicate hpc]
    trivial
  · intro s a s' hs _ h
    obtain ⟨pc, e, pc', hpc, -, hmoves, rfl⟩ := step_moves h
    constructor
    · intro level v hv
      obtain hold | ⟨-, hlevel⟩ := mem_items_apply hv
      · exact hs.queues level v hold
      · exact hlevel
    · intro pc'' hmem
      obtain hold | rfl | rfl := State.mem_settle hmem
      · exact hs.threads _ hold
      · exact hmoves.atLevel hs (hs.threads _ (List.mem_of_getElem? hpc))
      · trivial

/-! ## Accounts -/

/-- A counter of a level. -/
inductive Account
  | depth
  | enqueued
  | dequeued
  | executed
  | expired
  | dropped
deriving DecidableEq, Repr

/-- The statistic behind an account. -/
def Account.stat? : Account → Option Counter
  | .depth => none
  | .enqueued => some .enqueued
  | .dequeued => some .dequeued
  | .executed => some .executed
  | .expired => some .expired
  | .dropped => some .dropped

/-- The counter of an account. -/
def Shared.counter (sh : Shared) (level : Priority) (a : Account) : UInt64 :=
  match a.stat? with
  | none => (sh.queues level).depth
  | some c => sh.stats level c

/-- Whether an account counts the submissions with a given fate. -/
def Account.counts : Account → Fate → Bool
  | .enqueued, .accepted => true
  | .dequeued, .expired | .dequeued, .handed | .dequeued, .executed => true
  | .executed, .executed => true
  | .expired, .expired => true
  | .dropped, .rejected | .dropped, .evicted => true
  | _, _ => false

/-- The number of submissions at a level with a given fate. -/
def Shared.count (sh : Shared) (level : Priority) (fate : Fate) : ℕ :=
  (sh.fates fate).countP fun v => v.priority = level

/-- What the counter of an account counts, apart from what is on its way. -/
def Shared.counted (sh : Shared) (level : Priority) : Account → ℕ
  | .depth => (sh.queues level).items.length
  | .enqueued => sh.count level .accepted
  | .dequeued =>
      sh.count level .expired + sh.count level .handed + sh.count level .executed
  | .executed => sh.count level .executed
  | .expired => sh.count level .expired
  | .dropped => sh.count level .rejected + sh.count level .evicted

/-- What an event adds to the counter of an account. -/
def Event.raised (level : Priority) (a : Account) (e : Event) : ℤ :=
  match a.stat? with
  | some c =>
      match e.stat? with
      | some (l, c', n) => if level = l ∧ c = c' then n.toNat else 0
      | none => 0
  | none =>
      if e = .addDepth level then 1 else if e = .subDepth level then -1 else 0

/-- What an event adds to what an account counts. -/
def Event.posted (level : Priority) (a : Account) (e : Event) : ℤ :=
  match a.stat? with
  | some _ =>
      match e.decides? with
      | some (fate, item) =>
          if item.priority = level ∧ a.counts fate then 1 else 0
      | none => 0
  | none =>
      match e with
      | .publish item => if item.priority = level then 1 else 0
      | .take l _ => if l = level then -1 else 0
      | _ => 0

/-- What is still due to the counter of an account from a producer: additions
not made yet, less what the counter is ahead. -/
def EnqueueStage.due : Account → EnqueueStage → ℤ
  | .depth, .countDepth => 1
  | .depth, .evictDepth _ => -1
  | .enqueued, .countDepth | .enqueued, .countTotal
  | .enqueued, .countEnqueued => 1
  | _, _ => 0

/-- See `EnqueueStage.due`. -/
def DequeueStage.due : Account → DequeueStage → ℤ
  | .depth, .countDepth _ => -1
  | .dequeued, .notifyAll _ | .dequeued, .testExpired _
  | .dequeued, .notifyExpired _ | .dequeued, .countExpired _
  | .dequeued, .notifyDequeued _ | .dequeued, .giveBack _ => -1
  | _, _ => 0

/-- See `EnqueueStage.due`. -/
def ExecuteStage.due : Account → ExecuteStage → ℤ
  | .dequeued, .run => -1
  | .executed, .countExecuted => 1
  | _, _ => 0

/-- What is still due to the counter of an account from a thread. -/
def Pc.due (level : Priority) (a : Account) : Pc → ℤ
  | .enqueue item _ stage => if item.priority = level then stage.due a else 0
  | .dequeue _ l _ stage => if l = level then stage.due a else 0
  | .execute _ item stage => if item.priority = level then stage.due a else 0
  | _ => 0

/-! ### What an event does to an account -/

theorem Shared.raised_apply (sh : Shared) (e : Event) (level : Priority)
    (a : Account) :
    Raised (sh.counter level a) (e.raised level a)
      ((sh.apply e).counter level a) := by
  unfold Shared.counter Event.raised
  cases a.stat? with
  | some c =>
      simp only [Shared.stats_apply]
      cases e.stat? with
      | some post =>
          simp only [addStat]
          split
          · exact Raised.add _ _
          · exact Raised.zero _
      | none => exact Raised.zero _
  | none =>
      simp only [Shared.queues_apply]
      by_cases hadd : e = .addDepth level
      · subst hadd
        simpa [PriorityQueue.apply] using Raised.add_one _
      · by_cases hsub : e = .subDepth level
        · subst hsub
          simpa [PriorityQueue.apply] using Raised.sub_one _
        · have hsame : ((sh.queues level).apply level e).depth =
              (sh.queues level).depth := by
            cases e <;> simp_all [PriorityQueue.apply] <;> split <;> rfl
          simpa [hadd, hsub, hsame] using Raised.zero _

theorem Shared.count_apply (sh : Shared) (e : Event) (level : Priority)
    (fate : Fate) :
    (sh.apply e).count level fate = sh.count level fate +
      match e.decides? with
      | some (fate', item) =>
          if fate = fate' ∧ item.priority = level then 1 else 0
      | none => 0 := by
  unfold Shared.count
  rw [Shared.fates_apply]
  cases e.decides? with
  | none => rfl
  | some decided =>
      simp only [record]
      split
      · next h => simp [h, List.countP_cons]
      · next h => simp [h]

/-- An event takes an item out of a queue only if the item is there. -/
def Event.Takes (sh : Shared) (e : Event) : Prop :=
  ∀ level v, e = .take level v → v ∈ (sh.queues level).items

theorem Shared.counted_apply {sh : Shared} {e : Event} (he : e.Takes sh)
    (level : Priority) (a : Account) :
    ((sh.apply e).counted level a : ℤ) =
      sh.counted level a + e.posted level a := by
  unfold Event.posted
  cases a with
  | depth =>
      simp only [Shared.counted, Account.stat?, Shared.queues_apply]
      cases e with
      | publish item =>
          simp only [PriorityQueue.apply]
          split <;> simp
      | take l v =>
          have hmem := he l v rfl
          simp only [PriorityQueue.apply]
          split
          · next hl =>
            subst hl
            have hlength := List.length_erase_of_mem hmem
            have hpos := List.length_pos_of_mem hmem
            simp only
            omega
          · simp
      | addDepth l | subDepth l =>
          simp only [PriorityQueue.apply]
          split <;> simp
      | _ => simp [PriorityQueue.apply]
  | enqueued | dequeued | executed | expired | dropped =>
      simp only [Shared.counted, Account.stat?, Shared.count_apply]
      cases e.decides? with
      | none => simp
      | some decided =>
          obtain ⟨fate, item⟩ := decided
          cases fate <;> simp [Account.counts] <;> split <;> omega

/-! ### Moves are in balance -/

theorem Moves.takes {s : State} {pc pc' : Pc} {e : Event}
    (h : Moves s pc e pc') : e.Takes s.shared := by
  rintro level v rfl
  cases h with
  | enqueue h => cases h; assumption
  | dequeue h => cases h; assumption
  | start h => cases h
  | stop h => cases h

/-- What an event adds to a counter, and what it adds to what is counted,
differ by what the thread still owes. -/
theorem EnqueueMoves.balance {sh : Shared} {item : Item}
    {deadline : Option TimePoint} {stage : EnqueueStage} {e : Event} {pc : Pc}
    (h : EnqueueMoves sh item deadline stage e pc)
    (hlevel : (Pc.enqueue item deadline stage).AtLevel) (level : Priority)
    (a : Account) :
    e.raised level a + pc.due level a =
      (Pc.enqueue item deadline stage).due level a + e.posted level a := by
  cases h with
  | overflow h =>
      cases sh.config.overflowPolicy <;> cases a <;>
        simp [Event.raised, Event.posted, Event.stat?, Event.decides?,
          OverflowPolicy.stage, Pc.due, EnqueueStage.due]
  | evictDropped v =>
      have hv : v.priority = item.priority := by
        simpa [Pc.AtLevel, EnqueueStage.taken?] using hlevel
      by_cases hp : item.priority = level <;> cases a <;>
        simp [Event.raised, Event.posted, Event.stat?, Event.decides?,
          Account.stat?, Account.counts, Pc.due, EnqueueStage.due, hp, hv,
          eq_comm (a := level)]
  | _ =>
      by_cases hp : item.priority = level <;> cases a <;>
        simp [Event.raised, Event.posted, Event.stat?, Event.decides?,
          Account.stat?, Account.counts, Pc.due, EnqueueStage.due, hp,
          eq_comm (a := level)]

theorem Pc.due_nextLevel (purpose : Purpose) (l level : Priority)
    (a : Account) : (nextLevel purpose l).due level a = 0 := by
  refine apply_nextLevel (fun _ _ => ?_) rfl rfl rfl purpose l
  cases a <;> simp [due, DequeueStage.due]

theorem DequeueMoves.balance {sh : Shared} {purpose : Purpose}
    {l : Priority} {q : ℕ} {stage : DequeueStage} {e : Event} {pc : Pc}
    (h : DequeueMoves sh purpose l q stage e pc)
    (hlevel : (Pc.dequeue purpose l q stage).AtLevel) (level : Priority)
    (a : Account) :
    e.raised level a + pc.due level a =
      (Pc.dequeue purpose l q stage).due level a + e.posted level a := by
  cases h with
  | quotaUsed h | empty h =>
      rw [Pc.due_nextLevel]
      cases a <;>
        simp [Event.raised, Event.posted, Event.stat?, Event.decides?,
          Account.stat?, Pc.due, DequeueStage.due]
  | take _ h | countDepth item | countTotal item | countDequeued item
  | notifyAll item | isExpired item | isLive item | notifyExpired item
  | notifyDequeued item =>
      by_cases hp : l = level <;> cases a <;>
        simp [Event.raised, Event.posted, Event.stat?, Event.decides?,
          Account.stat?, Pc.due, DequeueStage.due, hp, eq_comm (a := level)]
  | countExpired item | handLast item | hand item | consume item
  | drain item =>
      have hv : item.priority = l := by
        simpa [Pc.AtLevel, DequeueStage.taken?] using hlevel
      by_cases hp : l = level <;> cases a <;>
        simp [Event.raised, Event.posted, Event.stat?, Event.decides?,
          Account.stat?, Account.counts, Pc.due, DequeueStage.due,
          ExecuteStage.due, Pc.scan, hp, hv, eq_comm (a := level)]

theorem Moves.balance {s : State} {pc pc' : Pc} {e : Event}
    (h : Moves s pc e pc') (hlevel : pc.AtLevel) (level : Priority)
    (a : Account) :
    e.raised level a + pc'.due level a =
      pc.due level a + e.posted level a := by
  cases h with
  | enqueue h => exact h.balance hlevel level a
  | dequeue h => exact h.balance hlevel level a
  | start h =>
      cases h <;> cases a <;>
        simp [Event.raised, Event.posted, Event.stat?, Event.decides?,
          Account.stat?, Pc.due]
  | stop h =>
      cases h <;> cases a <;>
        simp [Event.raised, Event.posted, Event.stat?, Event.decides?,
          Account.stat?, Pc.due]
  | execute draining item | countExecuted draining item
  | countLatency draining item latency | notifyExecuted item
  | notifyDrained item =>
      by_cases hp : item.priority = level <;> cases a <;>
        simp [Event.raised, Event.posted, Event.stat?, Event.decides?,
          Account.stat?, Account.counts, Pc.due, ExecuteStage.due,
          DequeueStage.due, Pc.scan, hp, eq_comm (a := level)]
  | _ =>
      cases a <;>
        simp [Event.raised, Event.posted, Event.stat?, Event.decides?,
          Account.stat?, Pc.due, EnqueueStage.due, DequeueStage.due, Pc.scan]

theorem mem_replicate_idle {config : QosConfig} {clients : ℕ} {pc : Pc}
    (h : pc ∈ (construct config clients).threads) : pc = .idle :=
  List.eq_of_mem_replicate h

theorem tally_construct {M : Type*} [AddCommMonoid M] {f : Pc → M}
    (hidle : f .idle = 0) (config : QosConfig) (clients : ℕ) :
    Roster.tally f (construct config clients).threads = 0 := by
  simp [construct, Roster.tally, hidle]

/-- The accounting rule: two quantities of the shared state that begin equal
differ by what the threads hold, if every move accounts for what it adds and
takes away. -/
theorem reachable_balance {M : Type*} [AddCancelCommMonoid M]
    (left right : Shared → M) (f : Pc → M)
    (hinit : ∀ config, left { config } = right { config })
    (hidle : f .idle = 0) (hfresh : f .loopTest = 0)
    (hmoves : ∀ (s : State) (pc : Pc) (e : Event) (pc' : Pc),
      Moves s pc e pc' → ∃ added removed received,
        left (s.shared.apply e) = left s.shared + added ∧
        right (s.shared.apply e) + removed = right s.shared + received ∧
        received + f pc' = f pc + (added + removed))
    {s : State} (hs : Reachable s) :
    left s.shared = right s.shared + Roster.tally f s.threads := by
  induction hs with
  | start hs =>
      obtain ⟨config, clients, rfl⟩ := hs
      rw [tally_construct hidle, add_zero]
      exact hinit config
  | @next s s' a _ _ h ih =>
      obtain ⟨pc, e, pc', hpc, -, hmove, rfl⟩ := step_moves h
      obtain ⟨added, removed, received, hleft, hright, hheld⟩ :=
        hmoves s pc e pc' hmove
      have htally := State.settle_tally hpc hfresh e pc'
      apply add_right_cancel (b := f pc + (added + removed))
      calc
        left (s.shared.apply e) + (f pc + (added + removed)) =
            right s.shared + received + added +
              (f pc' + Roster.tally f s.threads) := by
          rw [hleft, ih, ← hheld]
          abel
        _ = right (s.shared.apply e) +
              Roster.tally f (s.settle a.thread e pc').threads +
                (f pc + (added + removed)) := by
          rw [← hright, ← htally]
          abel

/-- In every reachable state a counter is what it counts, up to what the
threads still owe it. -/
theorem reachable_owes {s : State} (hs : Reachable s) (level : Priority)
    (a : Account) :
    Owes (s.shared.counter level a) (Roster.tally (Pc.due level a) s.threads)
      (s.shared.counted level a) := by
  induction hs with
  | start hs =>
      obtain ⟨config, clients, rfl⟩ := hs
      rw [tally_construct rfl]
      cases a <;> exact Owes.zero
  | next hs _ h ih =>
      obtain ⟨pc, e, pc', hpc, -, hmoves, rfl⟩ := step_moves h
      have hlevel := (reachable_sorted hs).threads _ (List.mem_of_getElem? hpc)
      exact ih.step (Shared.raised_apply _ e level a)
        (Shared.counted_apply hmoves.takes level a)
        (State.settle_tally hpc rfl e pc') (hmoves.balance hlevel level a)

/-! ## The total depth -/

/-- The number of queued items. -/
def Shared.queued (sh : Shared) : ℕ :=
  Roster.tally (fun level => (sh.queues level).items.length) Priority.levels

/-- What an event adds to `total_depth_`. -/
def Event.raisedTotal : Event → ℤ
  | .addTotal => 1
  | .subTotal => -1
  | _ => 0

/-- What an event adds to the number of queued items. -/
def Event.postedTotal : Event → ℤ
  | .publish _ => 1
  | .take _ _ => -1
  | _ => 0

/-- What is still due to `total_depth_` from a thread. -/
def Pc.totalDue : Pc → ℤ
  | .enqueue _ _ .countDepth | .enqueue _ _ .countTotal => 1
  | .enqueue _ _ (.evictDepth _) | .enqueue _ _ (.evictTotal _) => -1
  | .dequeue _ _ _ (.countDepth _) | .dequeue _ _ _ (.countTotal _) => -1
  | _ => 0

theorem Shared.raisedTotal_apply (sh : Shared) (e : Event) :
    Raised sh.totalDepth e.raisedTotal (sh.apply e).totalDepth := by
  cases e with
  | addTotal => exact Raised.add_one _
  | subTotal => exact Raised.sub_one _
  | _ => exact Raised.zero _

theorem Shared.queued_apply {sh : Shared} {e : Event} (he : e.Takes sh) :
    ((sh.apply e).queued : ℤ) = sh.queued + e.postedTotal := by
  have hlevel := fun level => Shared.counted_apply he level .depth
  have hsum : Roster.tally (Event.posted · .depth e) Priority.levels =
      e.postedTotal := by
    cases e with
    | publish item => cases hp : item.priority <;>
        simp [Priority.levels, Event.posted, Event.postedTotal,
          Account.stat?, hp]
    | take l v => cases l <;> rfl
    | _ => rfl
  have h1 := hlevel .kRealtime
  have h2 := hlevel .kCritical
  have h3 := hlevel .kHigh
  have h4 := hlevel .kNormal
  have h5 := hlevel .kLow
  have h6 := hlevel .kBackground
  simp only [Shared.queued, Priority.levels, Roster.tally_cons,
    Roster.tally_nil, Shared.counted] at *
  omega

theorem Pc.totalDue_nextLevel (purpose : Purpose) (level : Priority) :
    (nextLevel purpose level).totalDue = 0 :=
  apply_nextLevel (fun _ _ => rfl) rfl rfl rfl purpose level

theorem Moves.balanceTotal {s : State} {pc pc' : Pc} {e : Event}
    (h : Moves s pc e pc') :
    e.raisedTotal + pc'.totalDue = pc.totalDue + e.postedTotal := by
  cases h with
  | enqueue h =>
      cases h with
      | overflow h => cases s.shared.config.overflowPolicy <;> rfl
      | _ => rfl
  | dequeue h =>
      cases h with
      | quotaUsed h | empty h =>
          rw [Pc.totalDue_nextLevel]
          rfl
      | _ => rfl
  | start h => cases h <;> rfl
  | stop h => cases h <;> rfl
  | _ => rfl

theorem reachable_owesTotal {s : State} (hs : Reachable s) :
    Owes s.shared.totalDepth (Roster.tally Pc.totalDue s.threads)
      s.shared.queued := by
  induction hs with
  | start hs =>
      obtain ⟨config, clients, rfl⟩ := hs
      rw [tally_construct rfl]
      exact Owes.zero
  | next hs _ h ih =>
      obtain ⟨pc, e, pc', hpc, -, hmoves, rfl⟩ := step_moves h
      exact ih.step (Shared.raisedTotal_apply _ e)
        (Shared.queued_apply hmoves.takes)
        (State.settle_tally hpc rfl e pc') hmoves.balanceTotal

end Qos
end Yacul
