import Yacul.Support.Precedence
import Yacul.Qos.Settlement
import Mathlib.Tactic.MkIffOfInductiveProp

/-!
# The life cycle that an observer sees

A producer publishes an item and issues `OnEnqueued` for it afterwards; in
between a consumer may take the item and issue `OnDequeued` or `OnExpired`.
That is the only way in which the notifications of an item leave the order of
its life: the keys of the items, followed from the producers over the queues
to the notices, show the rest.
-/

namespace Yacul
namespace Qos

open Precedence

/-! ## The notices of an item -/

/-- The notifications received for a submission, in the order of receipt. -/
def Shared.noticesOf (sh : Shared) (key : ℕ) : List Callback :=
  (sh.notices.filter fun n => n.item.key = key).map Notice.callback

/-- The keys of the items for which a callback was received. -/
def Shared.notified (sh : Shared) (c : Callback) : Multiset ℕ :=
  ((sh.notices.filter fun n => n.callback = c).map fun n => n.item.key : List ℕ)

/-- The notification of a submission that an event issues. -/
def Event.noticesOf (key : ℕ) : Event → List Callback
  | .notify n => if n.item.key = key then [n.callback] else []
  | _ => []

/-- The key of the item for which an event issues a callback. -/
def Event.notified (c : Callback) : Event → Multiset ℕ
  | .notify n => if n.callback = c then {n.item.key} else 0
  | _ => 0

theorem Shared.noticesOf_apply (sh : Shared) (e : Event) (key : ℕ) :
    (sh.apply e).noticesOf key = sh.noticesOf key ++ e.noticesOf key := by
  cases e with
  | notify n =>
      simp only [Shared.noticesOf, Shared.apply, Event.noticesOf,
        List.filter_append, List.map_append]
      by_cases hn : n.item.key = key <;> simp [hn]
  | _ => exact (List.append_nil _).symm

theorem Shared.notified_apply (sh : Shared) (e : Event) (c : Callback) :
    (sh.apply e).notified c = sh.notified c + e.notified c := by
  cases e with
  | notify n =>
      simp only [Shared.notified, Shared.apply, Event.notified,
        List.filter_append, List.map_append, ← Multiset.coe_add]
      by_cases hn : n.callback = c <;> simp [hn]
  | _ => exact (add_zero _).symm

theorem Shared.count_noticesOf (sh : Shared) (key : ℕ) (c : Callback) :
    (sh.noticesOf key).count c = (sh.notified c).count key := by
  rw [Shared.noticesOf, Shared.notified, Multiset.coe_count, List.count,
    List.count, List.countP_map, List.countP_map, List.countP_filter,
    List.countP_filter]
  congr 1
  funext n
  simp [Bool.and_comm, BEq.beq]

theorem Shared.mem_noticesOf (sh : Shared) (key : ℕ) (c : Callback) :
    c ∈ sh.noticesOf key ↔ key ∈ sh.notified c := by
  rw [← List.count_pos_iff, ← Multiset.count_pos, sh.count_noticesOf]

/-! ## Where the keys are -/

/-- The key of an accepted item whose `OnEnqueued` is still to come. -/
def Pc.announcing : Pc → Multiset ℕ
  | .enqueue item _ stage =>
      match stage with
      | .countDepth | .countTotal | .countEnqueued | .notifyEnqueued =>
          {item.key}
      | _ => 0
  | _ => 0

/-- The key of a taken item before its `OnDequeued`, `OnExpired` or
`OnDropped`. -/
def EnqueueStage.unclosed : EnqueueStage → Multiset ℕ
  | .evictDepth v | .evictTotal v | .evictNotify v => {v.key}
  | _ => 0

/-- See `EnqueueStage.unclosed`. -/
def DequeueStage.unclosed : DequeueStage → Multiset ℕ
  | .countDepth v | .countTotal v | .countDequeued v | .notifyAll v
  | .testExpired v | .notifyExpired v | .notifyDequeued v => {v.key}
  | _ => 0

/-- Whether a producer's own item is still to be published or dropped. -/
def EnqueueStage.unpublished : EnqueueStage → Bool
  | .countDepth | .countTotal | .countEnqueued | .notifyEnqueued
  | .countDropped => false
  | _ => true

/-- The keys of the items in the hands of a thread that have left the queue,
or not yet reached it, without a notice of it. -/
def Pc.unclosed : Pc → Multiset ℕ
  | .enqueue item _ stage =>
      (if stage.unpublished then {item.key} else 0) + stage.unclosed
  | .dequeue _ _ _ stage => stage.unclosed
  | _ => 0

/-- The key of an item between its `OnDequeued` and its `OnExecuted`. -/
def Pc.executing : Pc → Multiset ℕ
  | .dequeue _ _ _ (.giveBack item) => {item.key}
  | .execute _ item _ => {item.key}
  | _ => 0

/-- The key of a dropped item that is not yet counted as dropped. -/
def Pc.dropping : Pc → Multiset ℕ
  | .enqueue item _ .countDropped => {item.key}
  | .enqueue _ _ (.evictDropped v) => {v.key}
  | _ => 0

/-- The keys of the items whose time in the queue has ended with a notice. -/
def Shared.closed (sh : Shared) : Multiset ℕ :=
  sh.notified .onDequeued + sh.notified .onExpired + sh.notified .onDropped

/-- See `Shared.closed`. -/
def Event.closed (e : Event) : Multiset ℕ :=
  e.notified .onDequeued + e.notified .onExpired + e.notified .onDropped

/-- The keys of the items with some fate. -/
def Shared.keys (sh : Shared) (fate : Fate) : Multiset ℕ :=
  (sh.fates fate : Multiset Item).map Item.key

/-- The key of the item whose fate an event decides. -/
def Event.keys (fate : Fate) (e : Event) : Multiset ℕ :=
  match e.decides? with
  | some (f, item) => if fate = f then {item.key} else 0
  | none => 0

theorem Shared.keys_apply (sh : Shared) (e : Event) (fate : Fate) :
    (sh.apply e).keys fate = sh.keys fate + e.keys fate := by
  rw [Shared.keys, Shared.fates_apply, Event.keys]
  cases e.decides? with
  | none => exact (add_zero _).symm
  | some d =>
      rw [coe_record, Multiset.map_add, Shared.keys]
      by_cases hd : fate = d.1 <;> simp [hd]

theorem Shared.closed_apply (sh : Shared) (e : Event) :
    (sh.apply e).closed = sh.closed + e.closed := by
  simp only [Shared.closed, Event.closed, Shared.notified_apply]
  abel

/-! ## Every key is accounted for -/

/-- An accepted item is announced or about to be. -/
theorem Moves.announcing {s : State} {pc pc' : Pc} {e : Event}
    (h : Moves s pc e pc') :
    e.notified .onEnqueued + pc'.announcing =
      pc.announcing + e.keys .accepted := by
  cases h with
  | enqueue h =>
      cases h with
      | overflow h => cases s.shared.config.overflowPolicy <;> rfl
      | _ => rfl
  | dequeue h =>
      cases h with
      | quotaUsed h | empty h =>
          rw [apply_nextLevel (f := Pc.announcing) (fun _ _ => rfl) rfl rfl rfl]
          rfl
      | _ => rfl
  | start h => cases h <;> rfl
  | stop h => cases h <;> rfl
  | _ => rfl

theorem reachable_announced {s : State} (hs : Reachable s) :
    s.shared.keys .accepted =
      s.shared.notified .onEnqueued + Roster.tally Pc.announcing s.threads := by
  refine reachable_balance (fun sh => sh.keys .accepted)
    (fun sh => sh.notified .onEnqueued) Pc.announcing (fun _ => rfl) rfl rfl
    ?_ hs
  intro s pc e pc' h
  refine ⟨e.keys .accepted, 0, e.notified .onEnqueued,
    Shared.keys_apply _ _ _, ?_, ?_⟩
  · rw [add_zero, Shared.notified_apply]
  · rw [add_zero, h.announcing]

theorem EnqueueMoves.unclosed {sh : Shared} {item : Item}
    {deadline : Option TimePoint} {stage : EnqueueStage} {e : Event} {pc : Pc}
    (h : EnqueueMoves sh item deadline stage e pc) :
    e.closed + e.published.map Item.key + pc.unclosed =
      (Pc.enqueue item deadline stage).unclosed +
        (e.submitted sh + e.removed.map Item.key) := by
  cases h with
  | overflow h => cases sh.config.overflowPolicy <;> rfl
  | evictNotify v => exact add_comm ({v.key} : Multiset ℕ) {item.key}
  | _ => rfl

theorem Moves.unclosed {s : State} {pc pc' : Pc} {e : Event}
    (h : Moves s pc e pc') :
    e.closed + e.published.map Item.key + pc'.unclosed =
      pc.unclosed + (e.submitted s.shared + e.removed.map Item.key) := by
  cases h with
  | submit deadline h =>
      simp [Event.closed, Event.notified, Event.published, Event.submitted,
        Event.removed, Pc.unclosed, EnqueueStage.unpublished,
        EnqueueStage.unclosed, h]
  | enqueue h => exact h.unclosed
  | dequeue h =>
      cases h with
      | quotaUsed h | empty h =>
          rw [apply_nextLevel (f := Pc.unclosed) (fun _ _ => rfl) rfl rfl rfl]
          rfl
      | _ => rfl
  | start h => cases h <;> rfl
  | stop h => cases h <;> rfl
  | _ => rfl

/-- A submission is with a producer, queued, with the thread that took it, or
closed by one notice. -/
theorem reachable_closed {s : State} (hs : Reachable s) :
    Multiset.range s.shared.submitted =
      s.shared.closed + s.shared.queuedItems.map Item.key +
        Roster.tally Pc.unclosed s.threads := by
  refine reachable_balance (fun sh => Multiset.range sh.submitted)
    (fun sh => sh.closed + sh.queuedItems.map Item.key) Pc.unclosed
    (fun _ => rfl) rfl rfl ?_ hs
  intro s pc e pc' h
  have hqueued := congrArg (Multiset.map Item.key)
    (Shared.queuedItems_apply h.takes)
  rw [Multiset.map_add, Multiset.map_add] at hqueued
  refine ⟨e.submitted s.shared, e.removed.map Item.key,
    e.closed + e.published.map Item.key, Shared.range_apply s.shared e, ?_,
    h.unclosed⟩
  rw [Shared.closed_apply, add_assoc, hqueued]
  abel

/-- What has been dequeued is executed, handed out, or on its way. -/
theorem Moves.executing {s : State} {pc pc' : Pc} {e : Event}
    (h : Moves s pc e pc') :
    e.keys .handed + e.notified .onExecuted + pc'.executing =
      pc.executing + e.notified .onDequeued := by
  cases h with
  | enqueue h => cases h <;> rfl
  | dequeue h =>
      cases h with
      | quotaUsed h | empty h =>
          rw [apply_nextLevel (f := Pc.executing) (fun _ _ => rfl) rfl rfl rfl]
          rfl
      | _ => rfl
  | start h => cases h <;> rfl
  | stop h => cases h <;> rfl
  | _ => rfl

theorem reachable_executed {s : State} (hs : Reachable s) :
    s.shared.notified .onDequeued =
      s.shared.keys .handed + s.shared.notified .onExecuted +
        Roster.tally Pc.executing s.threads := by
  refine reachable_balance (fun sh => sh.notified .onDequeued)
    (fun sh => sh.keys .handed + sh.notified .onExecuted) Pc.executing
    (fun _ => rfl) rfl rfl ?_ hs
  intro s pc e pc' h
  refine ⟨e.notified .onDequeued, 0, e.keys .handed + e.notified .onExecuted,
    Shared.notified_apply _ _ _, ?_, ?_⟩
  · rw [Shared.keys_apply, Shared.notified_apply]
    abel
  · rw [add_zero, h.executing]

/-- What has been dropped is rejected, evicted, or about to be counted. -/
theorem Moves.dropping {s : State} {pc pc' : Pc} {e : Event}
    (h : Moves s pc e pc') :
    e.keys .rejected + e.keys .evicted + pc'.dropping =
      pc.dropping + e.notified .onDropped := by
  cases h with
  | enqueue h =>
      cases h with
      | overflow h => cases s.shared.config.overflowPolicy <;> rfl
      | _ => rfl
  | dequeue h =>
      cases h with
      | quotaUsed h | empty h =>
          rw [apply_nextLevel (f := Pc.dropping) (fun _ _ => rfl) rfl rfl rfl]
          rfl
      | _ => rfl
  | start h => cases h <;> rfl
  | stop h => cases h <;> rfl
  | _ => rfl

theorem reachable_dropped {s : State} (hs : Reachable s) :
    s.shared.notified .onDropped =
      s.shared.keys .rejected + s.shared.keys .evicted +
        Roster.tally Pc.dropping s.threads := by
  refine reachable_balance (fun sh => sh.notified .onDropped)
    (fun sh => sh.keys .rejected + sh.keys .evicted) Pc.dropping
    (fun _ => rfl) rfl rfl ?_ hs
  intro s pc e pc' h
  refine ⟨e.notified .onDropped, 0, e.keys .rejected + e.keys .evicted,
    Shared.notified_apply _ _ _, ?_, ?_⟩
  · rw [Shared.keys_apply, Shared.keys_apply]
    abel
  · rw [add_zero, h.dropping]

/-! ## The life cycle -/

/-- The notifications of an accepted item. -/
@[mk_iff]
structure LifeCycle (notices : List Callback) : Prop where
  enqueuedFirst : ∀ c ∈ [Callback.onDequeued, .onExpired, .onExecuted],
    Precedes .onEnqueued c notices
  closedOnce : notices.count .onDequeued + notices.count .onExpired +
    notices.count .onDropped ≤ 1
  dequeuedFirst : Precedes .onDequeued .onExecuted notices

/-- What an observer sees of the items. -/
structure ObservesLives (sh : Shared) : Prop where
  accepted : ∀ item ∈ sh.fates .accepted, LifeCycle (sh.noticesOf item.key)
  rejected : ∀ item ∈ sh.fates .rejected,
    sh.noticesOf item.key = [.onDropped]

/-- The item for which a thread is about to issue `OnDequeued` or
`OnExpired`. -/
def Pc.removing? : Pc → Option Item
  | .dequeue _ _ _ (.notifyExpired item)
  | .dequeue _ _ _ (.notifyDequeued item) => some item
  | _ => none

/-- `OnDequeued` and `OnExpired` are issued for items whose producer is past
its `OnEnqueued`. -/
def AnnouncedFirst (s : State) (a : Action) : Prop :=
  ∀ pc ∈ s.threads[a.thread]?, ∀ item ∈ pc.removing?,
    ∀ producer ∈ s.threads, item.key ∉ producer.announcing

/-! ## What always holds -/

/-- Every submission is accepted or rejected once. -/
theorem reachable_keys_nodup {s : State} (hs : Reachable s) :
    (s.shared.keys .accepted + s.shared.keys .rejected).Nodup := by
  have hle : s.shared.keys .accepted + s.shared.keys .rejected ≤
      Multiset.range s.shared.submitted := by
    rw [reachable_submitted hs]
    exact Multiset.le_add_right _ _
  exact Multiset.nodup_of_le hle (Multiset.nodup_range _)

theorem reachable_closed_nodup {s : State} (hs : Reachable s) :
    s.shared.closed.Nodup := by
  have hle : s.shared.closed ≤ Multiset.range s.shared.submitted := by
    rw [reachable_closed hs, add_assoc]
    exact Multiset.le_add_right _ _
  exact Multiset.nodup_of_le hle (Multiset.nodup_range _)

/-- An item is closed by one notice. -/
theorem reachable_closedOnce {s : State} (hs : Reachable s) (key : ℕ) :
    (s.shared.noticesOf key).count .onDequeued +
        (s.shared.noticesOf key).count .onExpired +
      (s.shared.noticesOf key).count .onDropped ≤ 1 := by
  have hcount := Multiset.nodup_iff_count_le_one.mp
    (reachable_closed_nodup hs) key
  rw [Shared.closed, Multiset.count_add, Multiset.count_add] at hcount
  simp only [Shared.count_noticesOf]
  exact hcount

/-- An executed item was dequeued. -/
theorem mem_dequeued_of_executed {s : State} (hs : Reachable s) {key : ℕ}
    (hkey : key ∈ s.shared.notified .onExecuted) :
    key ∈ s.shared.notified .onDequeued := by
  rw [reachable_executed hs, Multiset.mem_add, Multiset.mem_add]
  exact .inl (.inr hkey)

/-- A rejected item gets one `OnDropped`. -/
theorem reachable_rejected {s : State} (hs : Reachable s) {item : Item}
    (hitem : item ∈ s.shared.fates .rejected) :
    s.shared.noticesOf item.key = [.onDropped] := by
  have hkey : item.key ∈ s.shared.keys .rejected :=
    Multiset.mem_map_of_mem _ (Multiset.mem_coe.mpr hitem)
  have hdropped : item.key ∈ s.shared.notified .onDropped := by
    rw [reachable_dropped hs, Multiset.mem_add, Multiset.mem_add]
    exact .inl (.inl hkey)
  have honce := reachable_closedOnce hs item.key
  have hcount := Multiset.one_le_count_iff_mem.mpr hdropped
  rw [← Shared.count_noticesOf] at hcount
  have hdequeued : .onDequeued ∉ s.shared.noticesOf item.key := by
    rw [← List.count_eq_zero]
    omega
  have hexpired : .onExpired ∉ s.shared.noticesOf item.key := by
    rw [← List.count_eq_zero]
    omega
  have hexecuted : .onExecuted ∉ s.shared.noticesOf item.key := by
    intro hmem
    rw [Shared.mem_noticesOf] at hmem hdequeued
    exact hdequeued (mem_dequeued_of_executed hs hmem)
  have henqueued : .onEnqueued ∉ s.shared.noticesOf item.key := by
    intro hmem
    rw [Shared.mem_noticesOf] at hmem
    have haccepted : item.key ∈ s.shared.keys .accepted := by
      rw [reachable_announced hs]
      exact Multiset.mem_add.mpr (.inl hmem)
    exact Multiset.disjoint_left.mp
      (Multiset.nodup_add.mp (reachable_keys_nodup hs)).2.2 haccepted hkey
  have hall : ∀ c ∈ s.shared.noticesOf item.key, Callback.onDropped = c := by
    intro c hc
    cases c with
    | onDropped => rfl
    | onEnqueued => exact absurd hc henqueued
    | onDequeued => exact absurd hc hdequeued
    | onExecuted => exact absurd hc hexecuted
    | onExpired => exact absurd hc hexpired
  have hlength := List.count_eq_length.mpr hall
  rw [List.eq_replicate_of_mem fun c hc => (hall c hc).symm, ← hlength]
  have hone : (s.shared.noticesOf item.key).count .onDropped = 1 := by
    omega
  rw [hone]
  rfl

/-! ## When the order is kept -/

/-- The part of a life cycle that can fail. -/
def EnqueuedFirst (notices : List Callback) : Prop :=
  Precedes .onEnqueued .onDequeued notices ∧
    Precedes .onEnqueued .onExpired notices

/-- The item for which an event issues `OnDequeued` or `OnExpired`. -/
def Event.removing? : Event → Option Item
  | .notify ⟨.onDequeued, item⟩ | .notify ⟨.onExpired, item⟩ => some item
  | _ => none

theorem Moves.removing {s : State} {pc pc' : Pc} {e : Event}
    (h : Moves s pc e pc') : e.removing? = pc.removing? := by
  cases h with
  | enqueue h => cases h <;> rfl
  | dequeue h => cases h <;> rfl
  | start h => cases h <;> rfl
  | stop h => cases h <;> rfl
  | _ => rfl

theorem Pc.removing_taken {pc : Pc} {item : Item}
    (h : item ∈ pc.removing?) : item ∈ pc.taken := by
  cases pc with
  | dequeue purpose level q stage =>
      cases stage with
      | notifyExpired v | notifyDequeued v =>
          obtain rfl := Option.some.inj h
          exact Multiset.mem_singleton_self v
      | _ => cases h
  | _ => cases h

/-- What a thread has taken was accepted. -/
theorem mem_accepted_of_taken {s : State} (hs : Reachable s) {pc : Pc}
    (hpc : pc ∈ s.threads) {item : Item} (hitem : item ∈ pc.taken) :
    item ∈ s.shared.fates .accepted := by
  rw [← Multiset.mem_coe, reachable_accepted hs, Multiset.mem_add,
    Multiset.mem_add, Roster.mem_tally]
  exact .inl (.inr ⟨pc, hpc, hitem⟩)

/-- An accepted item has been announced when no producer is about to. -/
theorem mem_announced_iff {s : State} (hs : Reachable s) {key : ℕ}
    (hkey : key ∈ s.shared.keys .accepted) :
    key ∈ s.shared.notified .onEnqueued ↔
      ∀ producer ∈ s.threads, key ∉ producer.announcing := by
  have hnodup := (Multiset.nodup_add.mp (reachable_keys_nodup hs)).1
  rw [reachable_announced hs] at hnodup hkey
  have hdisjoint := (Multiset.nodup_add.mp hnodup).2.2
  constructor
  · intro hannounced producer hmem hheld
    exact Multiset.disjoint_left.mp hdisjoint hannounced
      (Roster.mem_tally.mpr ⟨producer, hmem, hheld⟩)
  · intro hnone
    refine (Multiset.mem_add.mp hkey).resolve_right fun hheld => ?_
    obtain ⟨producer, hmem, hheld⟩ := Roster.mem_tally.mp hheld
    exact hnone producer hmem hheld

/-- Only `OnDequeued` and `OnExpired` can come too early. -/
theorem enqueuedFirst_apply {sh : Shared}
    (h : ∀ key, EnqueuedFirst (sh.noticesOf key)) (e : Event) :
    (∀ key, EnqueuedFirst ((sh.apply e).noticesOf key)) ↔
      ∀ item ∈ e.removing?, item.key ∈ sh.notified .onEnqueued := by
  simp only [Shared.noticesOf_apply]
  cases e with
  | notify n =>
      have hgrows : ∀ key, EnqueuedFirst
          (sh.noticesOf key ++ (Event.notify n).noticesOf key) ↔
            (n.item.key = key →
              n.callback = .onDequeued ∨ n.callback = .onExpired →
                key ∈ sh.notified .onEnqueued) := by
        intro key
        by_cases hkey : n.item.key = key
        · simp only [Event.noticesOf, hkey, if_true, EnqueuedFirst,
            precedes_concat, (h key).1, (h key).2, true_and,
            Shared.mem_noticesOf, forall_const, or_imp]
        · simp only [Event.noticesOf, hkey, if_false, List.append_nil, h key,
            false_implies]
      simp only [hgrows, forall_eq']
      obtain ⟨c, item⟩ := n
      cases c <;> simp [Event.removing?]
  | _ => simpa [Event.noticesOf, Event.removing?] using h

/-- An item is removed from a queue only after it was accepted. -/
theorem reachable_removed {s : State} (hs : Reachable s) {c : Callback}
    (hc : c = .onDequeued ∨ c = .onExpired) {key : ℕ}
    (hkey : key ∈ s.shared.notified c) : key ∈ s.shared.keys .accepted := by
  induction hs with
  | start hs =>
      obtain ⟨config, clients, rfl⟩ := hs
      exact absurd hkey (Multiset.notMem_zero key)
  | @next s s' a hs _ h ih =>
      obtain ⟨pc, e, pc', hpc, -, hmoves, rfl⟩ := step_moves h
      have hgrows : s.shared.keys .accepted ≤
          (s.shared.apply e).keys .accepted := by
        rw [Shared.keys_apply]
        exact Multiset.le_add_right _ _
      refine Multiset.mem_of_le hgrows ?_
      have hnotified : key ∈ s.shared.notified c + e.notified c := by
        rw [← Shared.notified_apply]
        exact hkey
      obtain hold | hnew := Multiset.mem_add.mp hnotified
      · exact ih hold
      · have hremoving : ∃ item ∈ e.removing?, item.key = key := by
          cases e with
          | notify n =>
              obtain ⟨callback, item⟩ := n
              simp only [Event.notified] at hnew
              split at hnew
              · next heq =>
                obtain rfl := Multiset.mem_singleton.mp hnew
                subst heq
                obtain rfl | rfl := hc <;> exact ⟨item, rfl, rfl⟩
              · exact absurd hnew (Multiset.notMem_zero key)
          | _ => exact absurd hnew (Multiset.notMem_zero key)
        obtain ⟨item, hitem, rfl⟩ := hremoving
        rw [hmoves.removing] at hitem
        have haccepted := mem_accepted_of_taken hs
          (List.mem_of_getElem? hpc) (Pc.removing_taken hitem)
        exact Multiset.mem_map_of_mem _ (Multiset.mem_coe.mpr haccepted)

/-- `OnExecuted` comes after `OnDequeued`. -/
theorem reachable_dequeuedFirst {s : State} (hs : Reachable s) (key : ℕ) :
    Precedes .onDequeued .onExecuted (s.shared.noticesOf key) := by
  induction hs with
  | start hs =>
      obtain ⟨config, clients, rfl⟩ := hs
      exact precedes_nil _ _
  | @next s s' a hs _ h ih =>
      have hs' := hs.next trivial h
      obtain ⟨pc, e, pc', hpc, -, hmoves, rfl⟩ := step_moves h
      rw [State.settle, Shared.noticesOf_apply]
      cases e with
      | notify n =>
          simp only [Event.noticesOf]
          split
          · next hkey =>
            refine precedes_concat.mpr ⟨ih, fun hexecuted => ?_⟩
            have hdequeued : key ∈
                (s.shared.apply (.notify n)).notified .onDequeued := by
              apply mem_dequeued_of_executed hs'
              rw [State.settle, Shared.notified_apply]
              simp [Event.notified, hexecuted, hkey]
            rw [Shared.notified_apply] at hdequeued
            rw [Shared.mem_noticesOf]
            simpa [Event.notified, hexecuted] using hdequeued
          · rwa [List.append_nil]
      | _ => simpa only [Event.noticesOf, List.append_nil] using ih

theorem reachable_observesLives_iff {s : State} (hs : Reachable s) :
    ObservesLives s.shared ↔
      ∀ key, EnqueuedFirst (s.shared.noticesOf key) := by
  constructor
  · intro h key
    by_cases haccepted : key ∈ s.shared.keys .accepted
    · obtain ⟨item, hitem, rfl⟩ := Multiset.mem_map.mp haccepted
      have hlife := h.accepted item (Multiset.mem_coe.mp hitem)
      exact ⟨hlife.enqueuedFirst _ (by simp), hlife.enqueuedFirst _ (by simp)⟩
    · have hnone : ∀ c, c = .onDequeued ∨ c = .onExpired →
          c ∉ s.shared.noticesOf key := by
        intro c hc hmem
        rw [Shared.mem_noticesOf] at hmem
        exact haccepted (reachable_removed hs hc hmem)
      exact ⟨precedes_of_notMem (hnone _ (.inl rfl)),
        precedes_of_notMem (hnone _ (.inr rfl))⟩
  · intro h
    refine ⟨fun item _ => ?_, fun item hitem => reachable_rejected hs hitem⟩
    have hdequeued := reachable_dequeuedFirst hs item.key
    obtain ⟨hfirst, hexpired⟩ := h item.key
    refine ⟨fun c hc => ?_, reachable_closedOnce hs item.key, hdequeued⟩
    simp only [List.mem_cons, List.not_mem_nil, or_false] at hc
    obtain rfl | rfl | rfl := hc
    · exact hfirst
    · exact hexpired
    · exact hfirst.trans hdequeued

/-- A step keeps the order exactly when it announces nothing too early. -/
theorem step_enqueuedFirst_iff {s s' : State} {a : Action}
    (hs : Reachable s) (h : ∀ key, EnqueuedFirst (s.shared.noticesOf key))
    (hstep : step s a = some s') :
    (∀ key, EnqueuedFirst (s'.shared.noticesOf key)) ↔
      AnnouncedFirst s a := by
  obtain ⟨pc, e, pc', hpc, -, hmoves, rfl⟩ := step_moves hstep
  rw [State.settle, enqueuedFirst_apply h e, hmoves.removing]
  simp only [AnnouncedFirst, hpc, Option.mem_some_iff, forall_eq']
  refine forall₂_congr fun item hitem => mem_announced_iff hs ?_
  have haccepted := mem_accepted_of_taken hs (List.mem_of_getElem? hpc)
    (Pc.removing_taken hitem)
  exact Multiset.mem_map_of_mem _ (Multiset.mem_coe.mpr haccepted)

/-- In any run an observer sees the life cycle of every accepted item and one
`OnDropped` for every rejected item, exactly as long as no consumer issues
`OnDequeued` or `OnExpired` for an item whose `OnEnqueued` is still to come. -/
theorem runs_observesLives_iff (config : QosConfig) (clients : ℕ)
    (acts : List Action) :
    Transition.AllStates step (fun s => ObservesLives s.shared)
        (construct config clients) acts ↔
      Transition.AllSteps step AnnouncedFirst (construct config clients)
        acts := by
  apply Transition.allStates_iff_allSteps (I := Reachable)
  · intro s a s' hs hlives hstep
    have hs' := hs.next trivial hstep
    rw [reachable_observesLives_iff hs] at hlives
    rw [reachable_observesLives_iff hs']
    exact ⟨hs', step_enqueuedFirst_iff hs hlives hstep⟩
  · exact .start ⟨_, _, rfl⟩
  · constructor
    · intro item hitem
      exact absurd hitem List.not_mem_nil
    · intro item hitem
      exact absurd hitem List.not_mem_nil

instance (notices : List Callback) : Decidable (LifeCycle notices) :=
  decidable_of_iff' _ (lifeCycle_iff notices)

/-- A producer has published an item; a consumer takes it and issues
`OnDequeued` before the producer issues `OnEnqueued`. -/
def dequeuesEarly : List Action :=
  Action.call 0 (.enqueueTask .kNormal) :: List.replicate 6 (Action.run 0 {}) ++
    Action.call 1 .tryDequeue :: List.replicate 10 (Action.run 1 {})

theorem dequeuesEarly_runs :
    (Transition.run step (construct evictingConfig 2)
      dequeuesEarly).isSome := by
  decide

theorem exists_dequeuedEarly :
    ¬ ∀ s, Reachable s → ObservesLives s.shared := by
  intro hall
  have hinit : construct evictingConfig 2 ∈ init := ⟨_, _, rfl⟩
  have hreachable := Transition.reachable_get_run hinit dequeuesEarly_runs
  have hlives := (hall _ hreachable).accepted
  exact absurd hlives (by decide)

end Qos
end Yacul
