import Yacul.Qos.Machine

/-!
# What a step of the scheduler can do

`Moves s pc e pc'` lists the accesses of a thread at `pc`, with what the
thread has read of the shared state when it makes them.  Invariants of the
scheduler are proved by cases on this list.
-/

namespace Yacul
namespace Qos

/-- The moves of a thread inside `EnqueueInternal`. -/
inductive EnqueueMoves (sh : Shared) (item : Item)
    (deadline : Option TimePoint) : EnqueueStage → Event → Pc → Prop
  | insert (h : sh.overflows item.priority = false) :
      EnqueueMoves sh item deadline .checkDepth .quiet
        (.enqueue item deadline .checkTotal)
  | overflow (h : sh.overflows item.priority = true) :
      EnqueueMoves sh item deadline .checkDepth .quiet
        (.enqueue item deadline sh.config.overflowPolicy.stage)
  | evictNone (h : (sh.queues item.priority).items = []) :
      EnqueueMoves sh item deadline .evict .quiet
        (.enqueue item deadline .checkTotal)
  | evict {v : Item} (h : v ∈ (sh.queues item.priority).items) :
      EnqueueMoves sh item deadline .evict (.take item.priority v)
        (.enqueue item deadline (.evictDepth v))
  | evictDepth (v : Item) :
      EnqueueMoves sh item deadline (.evictDepth v) (.subDepth item.priority)
        (.enqueue item deadline (.evictTotal v))
  | evictTotal (v : Item) :
      EnqueueMoves sh item deadline (.evictTotal v) .subTotal
        (.enqueue item deadline (.evictNotify v))
  | evictNotify (v : Item) :
      EnqueueMoves sh item deadline (.evictNotify v)
        (.notify ⟨.onDropped, v⟩) (.enqueue item deadline (.evictDropped v))
  | evictDropped (v : Item) :
      EnqueueMoves sh item deadline (.evictDropped v)
        (.discard item.priority v) (.enqueue item deadline .checkTotal)
  | lockMutex (h : sh.backpressureMu = false) :
      EnqueueMoves sh item deadline .lockMutex .lock
        (.enqueue item deadline .testDepth)
  | depthFree
      (h : (sh.queues item.priority).depth < sh.config.maxQueueDepth) :
      EnqueueMoves sh item deadline .testDepth .quiet
        (.enqueue item deadline .unlock)
  | depthFull
      (h : ¬ (sh.queues item.priority).depth < sh.config.maxQueueDepth) :
      EnqueueMoves sh item deadline .testDepth .quiet
        (.enqueue item deadline .testStop)
  | stopSeen (h : sh.stopRequested = true) :
      EnqueueMoves sh item deadline .testStop .quiet
        (.enqueue item deadline .unlock)
  | stopUnseen (h : sh.stopRequested = false) :
      EnqueueMoves sh item deadline .testStop .quiet
        (.enqueue item deadline .goToSleep)
  | goToSleep :
      EnqueueMoves sh item deadline .goToSleep .unlock
        (.enqueue item deadline (.asleep sh.notifications))
  | wake (epoch : ℕ) (h : sh.backpressureMu = false) :
      EnqueueMoves sh item deadline (.asleep epoch) .lock
        (.enqueue item deadline .testDepth)
  | unlock :
      EnqueueMoves sh item deadline .unlock .unlock
        (.enqueue item deadline .checkTotal)
  | totalFree (h : sh.totalOverflows = false) :
      EnqueueMoves sh item deadline .checkTotal .quiet
        (.enqueue item deadline .globalLimit)
  | totalFull (h : sh.totalOverflows = true) :
      EnqueueMoves sh item deadline .checkTotal .quiet
        (.enqueue item deadline .notifyDropped)
  | globalOk :
      EnqueueMoves sh item deadline .globalLimit .quiet
        (.enqueue item deadline .levelLimit)
  | globalLimited :
      EnqueueMoves sh item deadline .globalLimit .quiet
        (.enqueue item deadline .notifyDropped)
  | levelOk :
      EnqueueMoves sh item deadline .levelLimit .quiet
        (.enqueue item deadline .stamp)
  | levelLimited :
      EnqueueMoves sh item deadline .levelLimit .quiet
        (.enqueue item deadline .notifyDropped)
  | stamp (now : TimePoint) :
      EnqueueMoves sh item deadline .stamp .takeId
        (.enqueue (item.stamped sh.nextId now deadline) deadline .publish)
  | publish :
      EnqueueMoves sh item deadline .publish (.publish item)
        (.enqueue item deadline .countDepth)
  | publishFails :
      EnqueueMoves sh item deadline .publish .quiet
        (.enqueue item deadline .notifyDropped)
  | countDepth :
      EnqueueMoves sh item deadline .countDepth (.addDepth item.priority)
        (.enqueue item deadline .countTotal)
  | countTotal :
      EnqueueMoves sh item deadline .countTotal .addTotal
        (.enqueue item deadline .countEnqueued)
  | countEnqueued :
      EnqueueMoves sh item deadline .countEnqueued
        (.count item.priority .enqueued 1)
        (.enqueue item deadline .notifyEnqueued)
  | notifyEnqueued :
      EnqueueMoves sh item deadline .notifyEnqueued
        (.notify ⟨.onEnqueued, item⟩) .idle
  | notifyDropped :
      EnqueueMoves sh item deadline .notifyDropped
        (.notify ⟨.onDropped, item⟩) (.enqueue item deadline .countDropped)
  | countDropped :
      EnqueueMoves sh item deadline .countDropped (.reject item) .idle

/-- The moves of a thread inside `DequeueInternal`. -/
inductive DequeueMoves (sh : Shared) (purpose : Purpose) (level : Priority)
    (q : ℕ) : DequeueStage → Event → Pc → Prop
  | quotaUsed (h : (sh.config.wrrQuanta level).toNat ≤ q) :
      DequeueMoves sh purpose level q .take .quiet (nextLevel purpose level)
  | empty (h : (sh.queues level).items = []) :
      DequeueMoves sh purpose level q .take .quiet (nextLevel purpose level)
  | take {item : Item} (hquota : q < (sh.config.wrrQuanta level).toNat)
      (h : item ∈ (sh.queues level).items) :
      DequeueMoves sh purpose level q .take (.take level item)
        (.dequeue purpose level q (.countDepth item))
  | countDepth (item : Item) :
      DequeueMoves sh purpose level q (.countDepth item) (.subDepth level)
        (.dequeue purpose level q (.countTotal item))
  | countTotal (item : Item) :
      DequeueMoves sh purpose level q (.countTotal item) .subTotal
        (.dequeue purpose level q (.countDequeued item))
  | countDequeued (item : Item) :
      DequeueMoves sh purpose level q (.countDequeued item)
        (.count level .dequeued 1)
        (.dequeue purpose level q (.notifyAll item))
  | notifyAll (item : Item) :
      DequeueMoves sh purpose level q (.notifyAll item) .notifyAll
        (.dequeue purpose level q (.testExpired item))
  | isExpired (item : Item) :
      DequeueMoves sh purpose level q (.testExpired item) .quiet
        (.dequeue purpose level q (.notifyExpired item))
  | isLive (item : Item) :
      DequeueMoves sh purpose level q (.testExpired item) .quiet
        (.dequeue purpose level q (.notifyDequeued item))
  | notifyExpired (item : Item) :
      DequeueMoves sh purpose level q (.notifyExpired item)
        (.notify ⟨.onExpired, item⟩)
        (.dequeue purpose level q (.countExpired item))
  | countExpired (item : Item) :
      DequeueMoves sh purpose level q (.countExpired item)
        (.expire level item) (.dequeue purpose level (q + 1) .take)
  | notifyDequeued (item : Item) :
      DequeueMoves sh purpose level q (.notifyDequeued item)
        (.notify ⟨.onDequeued, item⟩)
        (.dequeue purpose level q (.giveBack item))
  | handLast (item : Item) (h : purpose = .tryDequeue ∨ purpose = .bulk 0) :
      DequeueMoves sh purpose level q (.giveBack item) (.hand item) .idle
  | hand (item : Item) {left : ℕ} (h : purpose = .bulk (left + 1)) :
      DequeueMoves sh purpose level q (.giveBack item) (.hand item)
        (.scan (.bulk left))
  | consume (item : Item) (h : purpose = .consume) :
      DequeueMoves sh purpose level q (.giveBack item) .quiet
        (.execute false item .run)
  | drain (item : Item) (h : purpose = .drain) :
      DequeueMoves sh purpose level q (.giveBack item) .quiet
        (.execute true item .run)

/-- The moves of a thread inside `Start`. -/
inductive StartMoves (s : State) : StartStage → Event → Pc → Prop
  | refused (h : s.shared.running = true) :
      StartMoves s .exchange .quiet .idle
  | exchange (h : s.shared.running = false) :
      StartMoves s .exchange (.exchange true)
        (.start (.clearStop s.shared.starts))
  | clearStop (n : ℕ) :
      StartMoves s (.clearStop n) (.storeStop false) (.start (.clearPaused n))
  | clearPaused (n : ℕ) :
      StartMoves s (.clearPaused n) (.storePaused false)
        (.start (.spawn n s.shared.config.numThreads))
  | spawned (n : ℕ) : StartMoves s (.spawn n 0) .quiet .idle
  | spawn (n left : ℕ) :
      StartMoves s (.spawn n (left + 1)) (.spawn s.threads.length n)
        (.start (.spawn n left))

/-- The moves of a thread inside `Stop`. -/
inductive StopMoves (s : State) : StopStage → Event → Pc → Prop
  | refused (h : s.shared.running = false) :
      StopMoves s .exchange .quiet .idle
  | exchange (h : s.shared.running = true) :
      StopMoves s .exchange (.exchange false) (.stop .setStop)
  | setStop :
      StopMoves s .setStop (.storeStop true) (.stop .clearPaused)
  | clearPaused :
      StopMoves s .clearPaused (.storePaused false) (.stop .iterate)
  | iterate :
      StopMoves s .iterate .quiet
        (.stop (.testJoinable 0 s.shared.consumerThreads.length))
  | joined {i n : ℕ} (h : n ≤ i) :
      StopMoves s (.testJoinable i n) .quiet (.stop .clear)
  | joinable {i n : ℕ} {handle : Handle} (hi : i < n)
      (hat : s.shared.consumerThreads[i]? = some handle)
      (h : handle.joinable = true) :
      StopMoves s (.testJoinable i n) .quiet (.stop (.joining i n))
  | notJoinable {i n : ℕ} {handle : Handle} (hi : i < n)
      (hat : s.shared.consumerThreads[i]? = some handle)
      (h : handle.joinable = false) :
      StopMoves s (.testJoinable i n) .quiet (.stop (.testJoinable (i + 1) n))
  | join {i n : ℕ} {handle : Handle}
      (hat : s.shared.consumerThreads[i]? = some handle)
      (h : s.threads[handle.thread]? = some .exited) :
      StopMoves s (.joining i n) (.join i) (.stop (.testJoinable (i + 1) n))
  | clear (h : ∀ handle ∈ s.shared.consumerThreads, handle.joinable = false) :
      StopMoves s .clear .clear .idle

/-- The moves of a thread. -/
inductive Moves (s : State) : Pc → Event → Pc → Prop
  | refuse : Moves s .idle .quiet .idle
  | submit {item : Item} (deadline : Option TimePoint)
      (h : item.key = s.shared.submitted) :
      Moves s .idle .submit (.enqueue item deadline .checkDepth)
  | tryDequeue : Moves s .idle .quiet (.scan .tryDequeue)
  | tryDequeueBulk (left : ℕ) : Moves s .idle .quiet (.scan (.bulk left))
  | callStart : Moves s .idle .quiet (.start .exchange)
  | callStop : Moves s .idle .quiet (.stop .exchange)
  | callPause (value : Bool) : Moves s .idle .quiet (.storePaused value)
  | enqueue {item : Item} {deadline : Option TimePoint}
      {stage : EnqueueStage} {e : Event} {pc : Pc}
      (h : EnqueueMoves s.shared item deadline stage e pc) :
      Moves s (.enqueue item deadline stage) e pc
  | dequeue {purpose : Purpose} {level : Priority} {q : ℕ}
      {stage : DequeueStage} {e : Event} {pc : Pc}
      (h : DequeueMoves s.shared purpose level q stage e pc) :
      Moves s (.dequeue purpose level q stage) e pc
  | stopped (h : s.shared.stopRequested = true) :
      Moves s .loopTest .quiet (.scan .drain)
  | notStopped (h : s.shared.stopRequested = false) :
      Moves s .loopTest .quiet .pausedTest
  | paused : Moves s .pausedTest .quiet .loopTest
  | notPaused : Moves s .pausedTest .quiet (.scan .consume)
  | execute (draining : Bool) (item : Item) :
      Moves s (.execute draining item .run) (.execute item)
        (.execute draining item .countExecuted)
  | countExecuted (draining : Bool) (item : Item) :
      Moves s (.execute draining item .countExecuted)
        (.count item.priority .executed 1)
        (.execute draining item .countLatency)
  | countLatency (draining : Bool) (item : Item) (latency : UInt64) :
      Moves s (.execute draining item .countLatency)
        (.count item.priority .totalLatencyUs latency)
        (.execute draining item .notifyExecuted)
  | notifyExecuted (item : Item) :
      Moves s (.execute false item .notifyExecuted)
        (.notify ⟨.onExecuted, item⟩) .loopTest
  | notifyDrained (item : Item) :
      Moves s (.execute true item .notifyExecuted)
        (.notify ⟨.onExecuted, item⟩) (.scan .drain)
  | storePaused (value : Bool) :
      Moves s (.storePaused value) (.storePaused value) .idle
  | start {stage : StartStage} {e : Event} {pc : Pc}
      (h : StartMoves s stage e pc) : Moves s (.start stage) e pc
  | stop {stage : StopStage} {e : Event} {pc : Pc}
      (h : StopMoves s stage e pc) : Moves s (.stop stage) e pc

/-! ## The list is complete -/

theorem tryDequeue_eq_some {items : List Item} {index : ℕ}
    {found : Option Item} (h : tryDequeue items index = some found) :
    (items = [] ∧ found = none) ∨ ∃ item ∈ items, found = some item := by
  unfold tryDequeue at h
  split at h
  · next hempty => exact .inl ⟨hempty, (Option.some.inj h).symm⟩
  · obtain ⟨item, hitem, rfl⟩ := Option.map_eq_some_iff.mp h
    exact .inr ⟨item, List.mem_of_getElem? hitem, rfl⟩

theorem begin_moves (s : State) (call : Call) :
    Moves s .idle (begin s.shared call).1 (begin s.shared call).2 := by
  cases call with
  | enqueue item | enqueueAt item p | enqueueBy item p d =>
      cases item with
      | none => exact .refuse
      | some item => exact .submit _ rfl
  | enqueueTask p => exact .submit _ rfl
  | tryDequeue => exact .tryDequeue
  | tryDequeueBulk n =>
      cases n with
      | zero => exact .refuse
      | succ left => exact .tryDequeueBulk left
  | start => exact .callStart
  | stop => exact .callStop
  | pause => exact .callPause true
  | resume => exact .callPause false

theorem enqueueStep_moves {sh : Shared} {item : Item}
    {deadline : Option TimePoint} {ch : Choice} {stage : EnqueueStage}
    {e : Event} {pc : Pc}
    (h : enqueueStep sh item deadline ch stage = some (e, pc)) :
    EnqueueMoves sh item deadline stage e pc := by
  cases stage with
  | evict =>
      obtain ⟨found, hfound, heq⟩ := Option.map_eq_some_iff.mp h
      obtain ⟨hempty, rfl⟩ | ⟨v, hv, rfl⟩ := tryDequeue_eq_some hfound
      · cases heq
        exact .evictNone hempty
      · cases heq
        exact .evict hv
  | lockMutex =>
      simp only [enqueueStep] at h
      split at h
      · cases h
      · next hfree =>
        cases h
        exact .lockMutex (Bool.eq_false_iff.mpr hfree)
  | asleep n =>
      simp only [enqueueStep] at h
      split at h
      · cases h
      · next hfree =>
        cases h
        exact .wake n (Bool.eq_false_iff.mpr hfree)
  | checkDepth =>
      cases h
      split
      · next hfull => exact .overflow hfull
      · next hfree => exact .insert (Bool.eq_false_iff.mpr hfree)
  | testDepth =>
      cases h
      split
      · next hfree => exact .depthFree hfree
      · next hfull => exact .depthFull hfull
  | testStop =>
      cases h
      split
      · next hstop => exact .stopSeen hstop
      · next hstop => exact .stopUnseen (Bool.eq_false_iff.mpr hstop)
  | checkTotal =>
      cases h
      split
      · next hfull => exact .totalFull hfull
      · next hfree => exact .totalFree (Bool.eq_false_iff.mpr hfree)
  | globalLimit =>
      cases h
      split
      · exact .globalLimited
      · exact .globalOk
  | levelLimit =>
      cases h
      split
      · exact .levelLimited
      · exact .levelOk
  | publish =>
      simp only [enqueueStep, Option.some.injEq] at h
      split at h
      · cases h
        exact .publish
      · cases h
        exact .publishFails
  | evictDepth v => cases h; exact .evictDepth v
  | evictTotal v => cases h; exact .evictTotal v
  | evictNotify v => cases h; exact .evictNotify v
  | evictDropped v => cases h; exact .evictDropped v
  | goToSleep => cases h; exact .goToSleep
  | unlock => cases h; exact .unlock
  | stamp => cases h; exact .stamp ch.now
  | countDepth => cases h; exact .countDepth
  | countTotal => cases h; exact .countTotal
  | countEnqueued => cases h; exact .countEnqueued
  | notifyEnqueued => cases h; exact .notifyEnqueued
  | notifyDropped => cases h; exact .notifyDropped
  | countDropped => cases h; exact .countDropped

theorem dequeueStep_moves {sh : Shared} {purpose : Purpose}
    {level : Priority} {q : ℕ} {ch : Choice} {stage : DequeueStage}
    {e : Event} {pc : Pc}
    (h : dequeueStep sh purpose level q ch stage = some (e, pc)) :
    DequeueMoves sh purpose level q stage e pc := by
  cases stage with
  | take =>
      simp only [dequeueStep] at h
      split at h
      · next hquota =>
        cases h
        exact .quotaUsed hquota
      · next hquota =>
        obtain ⟨found, hfound, heq⟩ := Option.map_eq_some_iff.mp h
        obtain ⟨hempty, rfl⟩ | ⟨item, hitem, rfl⟩ := tryDequeue_eq_some hfound
        · cases heq
          exact .empty hempty
        · cases heq
          exact .take (Nat.lt_of_not_le hquota) hitem
  | testExpired item =>
      cases h
      split
      · exact .isExpired item
      · exact .isLive item
  | giveBack item =>
      cases purpose with
      | tryDequeue => cases h; exact .handLast item (.inl rfl)
      | bulk left =>
          cases left with
          | zero => cases h; exact .handLast item (.inr rfl)
          | succ left => cases h; exact .hand item rfl
      | consume => cases h; exact .consume item rfl
      | drain => cases h; exact .drain item rfl
  | countDepth item => cases h; exact .countDepth item
  | countTotal item => cases h; exact .countTotal item
  | countDequeued item => cases h; exact .countDequeued item
  | notifyAll item => cases h; exact .notifyAll item
  | notifyExpired item => cases h; exact .notifyExpired item
  | countExpired item => cases h; exact .countExpired item
  | notifyDequeued item => cases h; exact .notifyDequeued item

theorem startStep_moves (s : State) (stage : StartStage) :
    StartMoves s stage (startStep s.shared s.threads.length stage).1
      (startStep s.shared s.threads.length stage).2 := by
  cases stage with
  | exchange =>
      simp only [startStep]
      split
      · next h => exact .refused h
      · next h => exact .exchange (Bool.eq_false_iff.mpr h)
  | clearStop n => exact .clearStop n
  | clearPaused n => exact .clearPaused n
  | spawn n left =>
      cases left with
      | zero => exact .spawned n
      | succ left => exact .spawn n left

theorem stopStep_moves {s : State} {stage : StopStage} {e : Event} {pc : Pc}
    (h : stopStep s stage = some (e, pc)) : StopMoves s stage e pc := by
  cases stage with
  | exchange =>
      simp only [stopStep, Option.some.injEq] at h
      split at h
      · next hrunning =>
        cases h
        exact .exchange hrunning
      · next hrunning =>
        cases h
        exact .refused (Bool.eq_false_iff.mpr hrunning)
  | setStop => cases h; exact .setStop
  | clearPaused => cases h; exact .clearPaused
  | iterate => cases h; exact .iterate
  | testJoinable i n =>
      simp only [stopStep] at h
      split at h
      · next hi =>
        cases h
        exact .joined hi
      · next hi =>
        obtain ⟨handle, hat, heq⟩ := Option.map_eq_some_iff.mp h
        cases hjoinable : handle.joinable with
        | true =>
            simp only [hjoinable, if_true] at heq
            cases heq
            exact .joinable (Nat.lt_of_not_le hi) hat hjoinable
        | false =>
            simp only [hjoinable, Bool.false_eq_true, if_false] at heq
            cases heq
            exact .notJoinable (Nat.lt_of_not_le hi) hat hjoinable
  | joining i n =>
      obtain ⟨handle, hat, heq⟩ := Option.bind_eq_some_iff.mp h
      split at heq
      · next hexited =>
        cases heq
        exact .join hat hexited
      · cases heq
  | clear =>
      simp only [stopStep] at h
      split at h
      · cases h
      · next hnone =>
        cases h
        apply StopMoves.clear
        intro handle hmem
        by_contra hjoinable
        exact hnone (List.any_eq_true.mpr
          ⟨handle, hmem, Bool.not_eq_false _ ▸ hjoinable⟩)

theorem advance_moves {s : State} {pc : Pc} {ch : Choice} {e : Event}
    {pc' : Pc} (h : advance s pc ch = some (e, pc')) : Moves s pc e pc' := by
  cases pc with
  | idle | exited => cases h
  | enqueue item deadline stage => exact .enqueue (enqueueStep_moves h)
  | dequeue purpose level q stage => exact .dequeue (dequeueStep_moves h)
  | loopTest =>
      cases h
      split
      · next hstop => exact .stopped hstop
      · next hstop => exact .notStopped (Bool.eq_false_iff.mpr hstop)
  | pausedTest =>
      cases h
      split
      · exact .paused
      · exact .notPaused
  | execute draining item stage =>
      cases stage with
      | run => cases h; exact .execute draining item
      | countExecuted => cases h; exact .countExecuted draining item
      | countLatency => cases h; exact .countLatency draining item ch.latency
      | notifyExecuted =>
          cases h
          cases draining with
          | false => exact .notifyExecuted item
          | true => exact .notifyDrained item
  | storePaused value => cases h; exact .storePaused value
  | start stage =>
      have hmoves := startStep_moves s stage
      have heq := Option.some.inj h
      rw [heq] at hmoves
      exact .start hmoves
  | stop stage => exact .stop (stopStep_moves h)

/-- Every step is a move of one thread. -/
theorem step_moves {s s' : State} {a : Action} (h : step s a = some s') :
    ∃ pc e pc', s.threads[a.thread]? = some pc ∧
      access s a = some (e, pc') ∧ Moves s pc e pc' ∧
        s' = s.settle a.thread e pc' := by
  obtain ⟨⟨e, pc'⟩, haccess, rfl⟩ := Option.map_eq_some_iff.mp h
  cases a with
  | call t call =>
      simp only [access, Option.ite_none_right_eq_some,
        Option.some.injEq] at haccess
      obtain ⟨hidle, heq⟩ := haccess
      have hmoves := begin_moves s call
      rw [heq] at hmoves
      exact ⟨.idle, e, pc', hidle, by simp [access, hidle, heq], hmoves, rfl⟩
  | run t ch =>
      have hcopy := haccess
      obtain ⟨pc, hpc, hadvance⟩ := Option.bind_eq_some_iff.mp haccess
      exact ⟨pc, e, pc', hpc, hcopy, advance_moves hadvance, rfl⟩

end Qos
end Yacul
