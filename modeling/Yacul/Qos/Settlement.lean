import Yacul.Qos.Ledger
import Mathlib.Data.Multiset.Range
import Mathlib.Data.UInt

/-!
# Every submission is accounted for once

The items are followed as a multiset: an accepted item is queued, in the hands
of one thread, or finished.  The keys of the submissions show that each one is
accepted or rejected once.  With the accounts of the counters this gives the
ledger of a scheduler at rest.
-/

namespace Yacul
namespace Qos

open Counting

/-! ## Every accepted item is in one place -/

/-- The queued items. -/
def Shared.queuedItems (sh : Shared) : Multiset Item :=
  Roster.tally (fun level => ((sh.queues level).items : Multiset Item))
    Priority.levels

/-- The items that have left the scheduler. -/
def Shared.finished (sh : Shared) : Multiset Item :=
  sh.fates .evicted + sh.fates .expired + sh.fates .handed + sh.fates .executed

/-- The queued items of a priority are those of its level. -/
theorem Sorted.countP_queuedItems {s : State} (hs : Sorted s)
    (level : Priority) :
    s.shared.queuedItems.countP (fun v => v.priority = level) =
      (s.shared.queues level).items.length := by
  have hqueue : ∀ l, ((s.shared.queues l).items.countP
      fun v => v.priority = level) =
        if l = level then (s.shared.queues l).items.length else 0 := by
    intro l
    have hl := hs.queues l
    split
    · next h =>
      rw [List.countP_eq_length]
      intro v hv
      simp [hl v hv, h]
    · next h =>
      rw [List.countP_eq_zero]
      intro v hv
      simp [hl v hv, h]
  simp only [Shared.queuedItems, Priority.levels, Roster.tally_cons,
    Roster.tally_nil, Multiset.countP_add, Multiset.coe_countP,
    Multiset.countP_zero, hqueue]
  cases level <;> simp

/-- The item that a thread has taken out of a queue. -/
def Pc.taken (pc : Pc) : Multiset Item :=
  (pc.taken?.toList : Multiset Item)

/-- The item that an event publishes. -/
def Event.published : Event → Multiset Item
  | .publish item => {item}
  | _ => 0

/-- The item that an event takes out of a queue. -/
def Event.removed : Event → Multiset Item
  | .take _ item => {item}
  | _ => 0

/-- The item that leaves the scheduler with an event. -/
def Event.finished : Event → Multiset Item
  | .discard _ item | .expire _ item | .hand item | .execute item => {item}
  | _ => 0

theorem coe_record (fates : Fate → List Item) (fate fate' : Fate)
    (item : Item) :
    (record fates fate item fate' : Multiset Item) =
      fates fate' + if fate' = fate then {item} else 0 := by
  unfold record
  split
  · rw [← Multiset.cons_coe, ← Multiset.singleton_add, add_comm]
  · rw [add_zero]

theorem Shared.accepted_apply (sh : Shared) (e : Event) :
    ((sh.apply e).fates .accepted : Multiset Item) =
      sh.fates .accepted + e.published := by
  rw [Shared.fates_apply]
  cases e with
  | publish item | reject item | discard level item | expire level item
  | hand item | execute item =>
      simp [Event.decides?, Event.published, coe_record]
  | _ => simp [Event.decides?, Event.published]

theorem Shared.finished_apply (sh : Shared) (e : Event) :
    (sh.apply e).finished = sh.finished + e.finished := by
  simp only [Shared.finished, Shared.fates_apply]
  cases e with
  | discard level item | expire level item | hand item | execute item =>
      simp only [Event.decides?, Event.finished, coe_record, reduceCtorEq,
        if_true, if_false, add_zero]
      abel
  | _ => simp [Event.decides?, Event.finished, coe_record]

/-- The item that an event publishes at a level. -/
def Event.publishedAt (level : Priority) : Event → Multiset Item
  | .publish item => if item.priority = level then {item} else 0
  | _ => 0

/-- The item that an event takes out of the queue of a level. -/
def Event.removedAt (level : Priority) : Event → Multiset Item
  | .take l item => if l = level then {item} else 0
  | _ => 0

theorem Event.tally_publishedAt (e : Event) :
    Roster.tally e.publishedAt Priority.levels = e.published := by
  cases e with
  | publish item =>
      cases hp : item.priority <;>
        simp [Priority.levels, Event.publishedAt, Event.published, hp]
  | _ => rfl

theorem Event.tally_removedAt (e : Event) :
    Roster.tally e.removedAt Priority.levels = e.removed := by
  cases e with
  | take l item =>
      cases l <;> simp [Priority.levels, Event.removedAt, Event.removed]
  | _ => rfl

theorem Shared.items_apply {sh : Shared} {e : Event} (he : e.Takes sh)
    (level : Priority) :
    (((sh.apply e).queues level).items : Multiset Item) + e.removedAt level =
      (sh.queues level).items + e.publishedAt level := by
  rw [Shared.queues_apply]
  cases e with
  | publish item =>
      simp only [PriorityQueue.apply, Event.publishedAt, Event.removedAt]
      split
      · rw [← Multiset.coe_add, Multiset.coe_singleton, add_zero]
      · rfl
  | take l item =>
      have hmem := he l item rfl
      simp only [PriorityQueue.apply, Event.publishedAt, Event.removedAt]
      split
      · next hl =>
        subst hl
        rw [← Multiset.coe_erase, add_comm, Multiset.singleton_add,
          Multiset.cons_erase (Multiset.mem_coe.mpr hmem), add_zero]
      · rfl
  | addDepth l | subDepth l =>
      simp only [PriorityQueue.apply, Event.publishedAt, Event.removedAt]
      split <;> rfl
  | _ => rfl

theorem Shared.queuedItems_apply {sh : Shared} {e : Event}
    (he : e.Takes sh) :
    (sh.apply e).queuedItems + e.removed = sh.queuedItems + e.published := by
  rw [← Event.tally_removedAt, ← Event.tally_publishedAt, Shared.queuedItems,
    Shared.queuedItems, ← Roster.tally_add, ← Roster.tally_add]
  exact Roster.tally_congr fun level _ => Shared.items_apply he level

theorem EnqueueMoves.finished_add_taken {sh : Shared} {item : Item}
    {deadline : Option TimePoint} {stage : EnqueueStage} {e : Event} {pc : Pc}
    (h : EnqueueMoves sh item deadline stage e pc) :
    e.finished + pc.taken =
      (Pc.enqueue item deadline stage).taken + e.removed := by
  cases h with
  | overflow h => cases sh.config.overflowPolicy <;> rfl
  | _ => rfl

theorem Pc.taken_nextLevel (purpose : Purpose) (level : Priority) :
    (nextLevel purpose level).taken = 0 :=
  apply_nextLevel (fun _ _ => rfl) rfl rfl rfl purpose level

theorem Moves.finished_add_taken {s : State} {pc pc' : Pc} {e : Event}
    (h : Moves s pc e pc') :
    e.finished + pc'.taken = pc.taken + e.removed := by
  cases h with
  | enqueue h => exact h.finished_add_taken
  | dequeue h =>
      cases h with
      | quotaUsed h | empty h =>
          rw [Pc.taken_nextLevel]
          rfl
      | _ => rfl
  | start h => cases h <;> rfl
  | stop h => cases h <;> rfl
  | _ => rfl

/-- Every accepted item is queued, with one thread, or finished. -/
theorem reachable_accepted {s : State} (hs : Reachable s) :
    (s.shared.fates .accepted : Multiset Item) =
      s.shared.queuedItems + Roster.tally Pc.taken s.threads +
        s.shared.finished := by
  rw [add_right_comm]
  refine reachable_balance (fun sh => (sh.fates .accepted : Multiset Item))
    (fun sh => sh.queuedItems + sh.finished) Pc.taken (fun _ => rfl) rfl rfl
    ?_ hs
  intro s pc e pc' h
  have hqueued := Shared.queuedItems_apply h.takes
  have htaken := h.finished_add_taken
  refine ⟨e.published, e.removed, e.published + e.finished,
    Shared.accepted_apply s.shared e, ?_, ?_⟩
  · rw [Shared.finished_apply, add_right_comm, hqueued]
    abel
  · rw [add_assoc, htaken]
    abel

/-! ## Every submission is decided once -/

/-- Whether a producer's item has been neither accepted nor rejected. -/
def EnqueueStage.undecided : EnqueueStage → Bool
  | .countDepth | .countTotal | .countEnqueued | .notifyEnqueued => false
  | _ => true

/-- The key of an undecided submission. -/
def Pc.undecided : Pc → Multiset ℕ
  | .enqueue item _ stage => if stage.undecided then {item.key} else 0
  | _ => 0

/-- The key of the submission that an event starts. -/
def Event.submitted (sh : Shared) : Event → Multiset ℕ
  | .submit => {sh.submitted}
  | _ => 0

/-- The key of the submission that an event accepts or rejects. -/
def Event.decided : Event → Multiset ℕ
  | .publish item | .reject item => {item.key}
  | _ => 0

/-- The keys of the submissions that have been accepted or rejected. -/
def Shared.decided (sh : Shared) : Multiset ℕ :=
  (sh.fates .accepted : Multiset Item).map Item.key +
    (sh.fates .rejected : Multiset Item).map Item.key

theorem Shared.range_apply (sh : Shared) (e : Event) :
    Multiset.range (sh.apply e).submitted =
      Multiset.range sh.submitted + e.submitted sh := by
  cases e with
  | submit =>
      simp only [Shared.apply, Event.submitted, Multiset.range_succ]
      rw [← Multiset.singleton_add, add_comm]
  | _ => exact (add_zero _).symm

theorem Shared.decided_apply (sh : Shared) (e : Event) :
    (sh.apply e).decided = sh.decided + e.decided := by
  simp only [Shared.decided, Shared.fates_apply]
  cases e with
  | publish item | reject item =>
      simp only [Event.decides?, Event.decided, coe_record, reduceCtorEq,
        if_true, if_false, add_zero, Multiset.map_add, Multiset.map_singleton]
      abel
  | _ => simp [Event.decides?, Event.decided, coe_record]

theorem Pc.undecided_nextLevel (purpose : Purpose) (level : Priority) :
    (nextLevel purpose level).undecided = 0 :=
  apply_nextLevel (fun _ _ => rfl) rfl rfl rfl purpose level

theorem EnqueueMoves.decided_add_undecided {sh : Shared} {item : Item}
    {deadline : Option TimePoint} {stage : EnqueueStage} {e : Event} {pc : Pc}
    (h : EnqueueMoves sh item deadline stage e pc) :
    e.decided + pc.undecided =
      (Pc.enqueue item deadline stage).undecided + e.submitted sh := by
  cases h with
  | overflow h => cases sh.config.overflowPolicy <;> rfl
  | _ => rfl

theorem Moves.decided_add_undecided {s : State} {pc pc' : Pc} {e : Event}
    (h : Moves s pc e pc') :
    e.decided + pc'.undecided = pc.undecided + e.submitted s.shared := by
  cases h with
  | submit deadline h =>
      simp [Event.decided, Event.submitted, Pc.undecided,
        EnqueueStage.undecided, h]
  | enqueue h => exact h.decided_add_undecided
  | dequeue h =>
      cases h with
      | quotaUsed h | empty h =>
          rw [Pc.undecided_nextLevel]
          rfl
      | _ => rfl
  | start h => cases h <;> rfl
  | stop h => cases h <;> rfl
  | _ => rfl

/-- Every submission is accepted, rejected or under way, and only one of
them. -/
theorem reachable_submitted {s : State} (hs : Reachable s) :
    Multiset.range s.shared.submitted =
      s.shared.decided + Roster.tally Pc.undecided s.threads := by
  refine reachable_balance (fun sh => Multiset.range sh.submitted)
    Shared.decided Pc.undecided (fun _ => rfl) rfl rfl ?_ hs
  intro s pc e pc' h
  have hundecided := h.decided_add_undecided
  refine ⟨e.submitted s.shared, 0, e.decided, Shared.range_apply s.shared e,
    ?_, ?_⟩
  · rw [add_zero, Shared.decided_apply]
  · rw [add_zero, hundecided]

/-! ## The scheduler at rest -/

/-- A thread that is not submitting, removing or executing an item. -/
def Pc.atRest : Pc → Bool
  | .enqueue _ _ _ | .dequeue _ _ _ _ | .execute _ _ _ => false
  | _ => true

/-- No operation on an item is in progress. -/
def Quiescent (s : State) : Prop :=
  ∀ pc ∈ s.threads, pc.atRest = true

instance (s : State) : Decidable (Quiescent s) :=
  inferInstanceAs (Decidable (∀ pc ∈ s.threads, pc.atRest = true))

/-- The counters of one level. -/
structure LevelLedger (sh : Shared) (level : Priority) : Prop where
  depth : (sh.queues level).depth =
    UInt64.ofNat (sh.queues level).items.length
  balance : sh.stats level .enqueued - sh.stats level .dequeued -
    UInt64.ofNat (sh.count level .evicted) = (sh.queues level).depth
  dequeued : sh.stats level .dequeued =
    UInt64.ofNat (sh.count level .handed + sh.count level .executed) +
      sh.stats level .expired
  expired : sh.stats level .expired = UInt64.ofNat (sh.count level .expired)
  executed : sh.stats level .executed = UInt64.ofNat (sh.count level .executed)
  dropped : sh.stats level .dropped =
    UInt64.ofNat (sh.count level .rejected + sh.count level .evicted)

/-- The ledger of a scheduler at rest.  The counters have 64 bits; they are
exact until `2 ^ 64` items have been submitted. -/
structure QuiescentLedger (sh : Shared) : Prop where
  levels : ∀ level, LevelLedger sh level
  total : sh.totalDepth =
    (Priority.levels.map fun level => (sh.queues level).depth).sum
  accepted : (sh.fates .accepted : Multiset Item) =
    sh.queuedItems + sh.finished
  once : Multiset.range sh.submitted = sh.decided
  exact : sh.submitted < 2 ^ 64 →
    (∀ level a, (sh.counter level a).toNat = sh.counted level a) ∧
      sh.totalDepth.toNat = sh.queued

theorem Quiescent.tally_eq_zero {M : Type*} [AddCommMonoid M] {f : Pc → M}
    {s : State} (hs : Quiescent s)
    (hf : ∀ pc : Pc, pc.atRest = true → f pc = 0) :
    Roster.tally f s.threads = 0 := by
  have hzero : ∀ pc ∈ s.threads, f pc = (fun _ => 0) pc :=
    fun pc hpc => hf pc (hs pc hpc)
  rw [Roster.tally_congr hzero]
  simp [Roster.tally]

theorem Quiescent.owes {s : State} (hs : Reachable s) (hq : Quiescent s)
    (level : Priority) (a : Account) :
    Owes (s.shared.counter level a) 0 (s.shared.counted level a) := by
  have howes := reachable_owes hs level a
  rwa [hq.tally_eq_zero] at howes
  intro pc hpc
  cases pc <;> first | rfl | cases hpc

theorem Quiescent.owesTotal {s : State} (hs : Reachable s)
    (hq : Quiescent s) : Owes s.shared.totalDepth 0 s.shared.queued := by
  have howes := reachable_owesTotal hs
  rwa [hq.tally_eq_zero] at howes
  intro pc hpc
  cases pc <;> first | rfl | cases hpc

theorem Quiescent.accepted {s : State} (hs : Reachable s)
    (hq : Quiescent s) : (s.shared.fates .accepted : Multiset Item) =
      s.shared.queuedItems + s.shared.finished := by
  have haccepted := reachable_accepted hs
  rwa [hq.tally_eq_zero, add_zero] at haccepted
  intro pc hpc
  cases pc <;> first | rfl | cases hpc

theorem Quiescent.once {s : State} (hs : Reachable s) (hq : Quiescent s) :
    Multiset.range s.shared.submitted = s.shared.decided := by
  have honce := reachable_submitted hs
  rwa [hq.tally_eq_zero, add_zero] at honce
  intro pc hpc
  cases pc <;> first | rfl | cases hpc

/-- The accepted items of a level by where they are. -/
theorem Quiescent.count_accepted {s : State} (hs : Reachable s)
    (hq : Quiescent s) (level : Priority) :
    s.shared.count level .accepted =
      (s.shared.queues level).items.length + s.shared.count level .evicted +
        (s.shared.count level .expired + s.shared.count level .handed +
          s.shared.count level .executed) := by
  have haccepted := congrArg (Multiset.countP fun v => v.priority = level)
    (hq.accepted hs)
  rw [Multiset.countP_add, (reachable_sorted hs).countP_queuedItems level]
    at haccepted
  simp only [Shared.finished, Multiset.countP_add,
    Multiset.coe_countP] at haccepted
  simp only [Shared.count]
  omega

theorem Quiescent.levelLedger {s : State} (hs : Reachable s)
    (hq : Quiescent s) (level : Priority) : LevelLedger s.shared level := by
  have hcounter := fun a => (hq.owes hs level a).eq_ofNat
  have hdepth := hcounter .depth
  have henqueued := hcounter .enqueued
  have hdequeued := hcounter .dequeued
  have hexpired := hcounter .expired
  simp only [Shared.counter, Account.stat?, Shared.counted] at hdepth
  simp only [Shared.counter, Account.stat?, Shared.counted] at henqueued
  simp only [Shared.counter, Account.stat?, Shared.counted] at hdequeued
  simp only [Shared.counter, Account.stat?, Shared.counted] at hexpired
  refine ⟨hdepth, ?_, ?_, hexpired, hcounter .executed, hcounter .dropped⟩
  · rw [henqueued, hdequeued, hdepth, hq.count_accepted hs level,
      ← UInt64.toNat_inj]
    simp only [UInt64.toNat_sub, UInt64.toNat_ofNat']
    omega
  · rw [hdequeued, hexpired, ← UInt64.toNat_inj]
    simp only [UInt64.toNat_add, UInt64.toNat_ofNat']
    omega

theorem Quiescent.total {s : State} (hs : Reachable s) (hq : Quiescent s) :
    s.shared.totalDepth =
      (Priority.levels.map fun level => (s.shared.queues level).depth).sum := by
  have htotal := (hq.owesTotal hs).eq_ofNat
  have hdepth := fun level => (hq.levelLedger hs level).depth
  simp only [Priority.levels, List.map_cons, List.map_nil, List.sum_cons,
    List.sum_nil, hdepth]
  rw [htotal, ← UInt64.toNat_inj]
  simp only [Shared.queued, Priority.levels, Roster.tally_cons,
    Roster.tally_nil, UInt64.toNat_add, UInt64.toNat_ofNat',
    UInt64.toNat_zero]
  omega

/-- No account counts more than the submissions. -/
theorem Quiescent.counted_le {s : State} (hs : Reachable s)
    (hq : Quiescent s) :
    (∀ level a, s.shared.counted level a ≤ s.shared.submitted) ∧
      s.shared.queued ≤ s.shared.submitted := by
  have honce := congrArg Multiset.card (hq.once hs)
  have haccepted := congrArg Multiset.card (hq.accepted hs)
  simp only [Multiset.card_range, Shared.decided, Multiset.card_add,
    Multiset.card_map, Multiset.coe_card] at honce
  simp only [Shared.queuedItems, Shared.finished, Priority.levels,
    Roster.tally_cons, Roster.tally_nil, Multiset.card_add,
    Multiset.coe_card, Multiset.card_zero] at haccepted
  have hcount : ∀ level fate,
      s.shared.count level fate ≤ (s.shared.fates fate).length :=
    fun level fate => List.countP_le_length
  constructor
  · intro level a
    have h1 := hcount level .accepted
    have h2 := hcount level .rejected
    have h3 := hcount level .evicted
    have h4 := hcount level .expired
    have h5 := hcount level .handed
    have h6 := hcount level .executed
    cases a with
    | depth =>
        simp only [Shared.counted]
        cases level <;> omega
    | enqueued | dequeued | executed | expired | dropped =>
        simp only [Shared.counted]
        omega
  · simp only [Shared.queued, Priority.levels, Roster.tally_cons,
      Roster.tally_nil]
    omega

/-- In every reachable state with no operation in progress the counters are
what they count, and every accepted item is queued or finished. -/
theorem reachable_quiescentLedger {s : State} (hs : Reachable s)
    (hq : Quiescent s) : QuiescentLedger s.shared := by
  obtain ⟨hcounted, hqueued⟩ := hq.counted_le hs
  refine ⟨hq.levelLedger hs, hq.total hs, hq.accepted hs, hq.once hs, ?_⟩
  intro hsubmitted
  constructor
  · intro level a
    apply (hq.owes hs level a).toNat_eq
    exact Nat.lt_of_le_of_lt (hcounted level a) hsubmitted
  · apply (hq.owesTotal hs).toNat_eq
    exact Nat.lt_of_le_of_lt hqueued hsubmitted

/-- A level holds one item; a full level evicts. -/
def evictingConfig : QosConfig where
  maxQueueDepth := 1
  wrrQuanta := defaultQuanta
  overflowPolicy := .kDropOldest

/-- Two submissions, of which the second evicts the first, and a dequeue. -/
def evictsOnce : List Action :=
  Action.call 0 (.enqueueTask .kNormal) :: List.replicate 10 (Action.run 0 {}) ++
    Action.call 0 (.enqueueTask .kNormal) :: List.replicate 15 (Action.run 0 {}) ++
      Action.call 0 .tryDequeue :: List.replicate 11 (Action.run 0 {})

theorem evictsOnce_runs :
    (Transition.run step (construct evictingConfig 1) evictsOnce).isSome := by
  decide

theorem reachable_quiescentLedger_evictsOnce :
    QuiescentLedger ((Transition.run step (construct evictingConfig 1)
      evictsOnce).get evictsOnce_runs).shared := by
  apply reachable_quiescentLedger
  · have hinit : construct evictingConfig 1 ∈ init := ⟨_, _, rfl⟩
    exact Transition.reachable_get_run hinit evictsOnce_runs
  · decide

end Qos
end Yacul
