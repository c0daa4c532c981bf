import Yacul.ThreadPool.Ledger
import Yacul.ThreadPool.Signals

/-!
# The bound on the shared queue

`EnqueueTask` drops a task that finds the queue full.  `ProcessDelayedTasks`
pushes its batch without looking.  The queue stays within its bound in exactly
the runs in which every batch fits.
-/

namespace Yacul
namespace ThreadPool

/-- The number of tasks on the shared queue. -/
def State.queueLength (s : State) : ℕ :=
  s.tasks.length + s.priorityTasks.length

/-- The shared queue holds no more tasks than the maximum. -/
def KeepsQueueBound (maxQueueSize : UInt32) (s : State) : Prop :=
  s.queueLength ≤ maxQueueSize.toNat

/-- The call is one of `SetMaxQueueSize`. -/
def Call.setsQueueSize : Call → Bool
  | .setMaxQueueSize _ => true
  | _ => false

/-- The pool while nobody calls `SetMaxQueueSize`. -/
def stepFixed (s : State) (a : Action) : Option State :=
  if a.op?.any Call.setsQueueSize then none else step s a

/-- The batch that the scheduler is about to push. -/
def SchedulerPc.batch? : SchedulerPc → Option (List DelayedTask)
  | .push ready => some ready
  | _ => none

/-- A batch that the scheduler pushes fits into the queue. -/
def PushesBelow (s : State) : Action → Prop
  | .scheduler _ =>
      ∀ ready ∈ s.scheduler.bind SchedulerPc.batch?,
        s.queueLength + ready.length ≤ s.config.maxQueueSize.toNat
  | _ => True

instance (s : State) (a : Action) : Decidable (PushesBelow s a) := by
  unfold PushesBelow
  cases a <;> exact inferInstance

/-- A task can be queued. -/
def State.takesTask (s : State) : Prop :=
  s.config.maxQueueSize = 0 ∨ s.stats.queueSize < s.config.maxQueueSize

/-! ## Steps -/

theorem Quiet.queueLength {s s' : State} (h : Quiet s s') :
    s'.queueLength = s.queueLength := by
  simp only [State.queueLength, h.tasks, h.priorityTasks]

theorem queueLength_pushTask (s : State) (priority : TaskPriority)
    (t : Task) : (pushTask s priority t).queueLength = s.queueLength + 1 := by
  unfold pushTask State.queueLength
  dsimp only
  split
  · simp only [List.length_append, List.length_singleton]
    omega
  · simp only [List.length_append, List.length_singleton]
    omega

theorem queueLength_pushReady (ready : List DelayedTask) (s : State) :
    (ready.foldl (fun s d => pushTask s d.priority d.task) s).queueLength =
      s.queueLength + ready.length := by
  induction ready generalizing s with
  | nil => rfl
  | cons d ready ih =>
      rw [List.foldl_cons, ih, queueLength_pushTask, List.length_cons]
      omega

theorem CallEffect.queueLength_le {s s' : State} {who : Caller}
    {pc pc' : CallPc} (h : CallEffect s who pc s' pc')
    (hpc : ∀ priority, pc ≠ .enqueueTask priority) :
    s'.queueLength ≤ s.queueLength := by
  cases h with
  | quiet hq => exact hq.queueLength.le
  | enqueue priority => exact absurd rfl (hpc priority)
  | setShutdown now =>
      cases now with
      | false => exact Nat.le_refl _
      | true => exact Nat.zero_le _
  | _ => exact Nat.le_refl _

/-- A call makes the queue longer only by a task that it has found a place
for. -/
theorem callStep_queueLength {s s' : State} {who : Caller} {ch : Choice}
    {pc pc' : CallPc} (h : callStep s who ch pc = some (s', pc')) :
    s'.queueLength ≤ s.queueLength ∨
      s'.queueLength = s.queueLength + 1 ∧ s.takesTask := by
  cases pc with
  | enqueueTask priority =>
      simp only [callStep, whenFree_eq_some] at h
      obtain ⟨-, h⟩ := h
      split at h
      · obtain ⟨rfl, -⟩ := Prod.mk.inj h
        exact .inl (Nat.le_refl _)
      · split at h
        · obtain ⟨rfl, -⟩ := Prod.mk.inj h
          exact .inl (Nat.le_refl _)
        · next hroom =>
            obtain ⟨rfl, -⟩ := Prod.mk.inj h
            refine .inr ⟨queueLength_pushTask s priority _, ?_⟩
            simp only [Bool.and_eq_true, decide_eq_true_eq, not_and,
              UInt32.not_le] at hroom
            by_cases hzero : s.config.maxQueueSize = 0
            · exact .inl hzero
            · exact .inr (hroom (UInt32.pos_iff_ne_zero.mpr hzero))
  | _ =>
      exact .inl ((callStep_effect h).queueLength_le
        fun _ => CallPc.noConfusion)

theorem workerStep_queueLength {s s' : State} {i : ℕ} {w w' : Worker}
    {ch : Choice} (h : workerStep s i w ch = some (s', w')) :
    s'.queueLength ≤ s.queueLength ∨
      s'.queueLength = s.queueLength + 1 ∧ s.takesTask := by
  cases workerStep_effect h with
  | quiet hq => exact .inl hq.queueLength.le
  | call _ _ hcall => exact callStep_queueLength hcall
  | takeFront htasks =>
      refine .inl (Nat.add_le_add_right ?_ _)
      simp [popFront, htasks]
  | takePriority htask =>
      exact .inl (Nat.add_le_add_left (List.length_eraseIdx_le _ _) _)
  | takeLocal htask =>
      rw [popLocal_some htask]
      exact .inl (Nat.le_refl _)
  | _ => exact .inl (Nat.le_refl _)

theorem schedulerStep_queueLength {s s' : State} {ch : Choice}
    {pc pc' : SchedulerPc} (h : schedulerStep s ch pc = some (s', pc')) :
    (s'.queueLength = s.queueLength ∧ pc.batch? = none) ∨
      ∃ ready, pc.batch? = some ready ∧
        s'.queueLength = s.queueLength + ready.length := by
  cases pc with
  | push ready =>
      simp only [schedulerStep, whenFree_eq_some, Prod.mk.injEq] at h
      obtain ⟨-, rfl, -⟩ := h
      exact .inr ⟨ready, rfl, queueLength_pushReady ready s⟩
  | _ =>
      refine .inl ⟨?_, rfl⟩
      cases schedulerStep_effect h with
      | quiet hq => exact hq.queueLength
      | _ => rfl

/-- How a step can make the queue longer. -/
theorem step_queueLength {s s' : State} {a : Action}
    (h : step s a = some s') :
    (s'.queueLength ≤ s.queueLength ∨
        s'.queueLength = s.queueLength + 1 ∧ s.takesTask) ∧
        (∀ ch, a = .scheduler ch →
          s.scheduler.bind SchedulerPc.batch? = none) ∨
      ∃ ch ready, a = .scheduler ch ∧
        s.scheduler.bind SchedulerPc.batch? = some ready ∧
          s'.queueLength = s.queueLength + ready.length := by
  cases a with
  | tick elapsed =>
      obtain rfl := step_tick h
      exact .inl ⟨.inl (Nat.le_refl _), fun _ => Action.noConfusion⟩
  | call op =>
      obtain rfl := step_call h
      exact .inl ⟨.inl (Nat.le_refl _), fun _ => Action.noConfusion⟩
  | client n ch =>
      obtain ⟨pc, s₁, pc', -, hcall, rfl⟩ := step_client h
      have hlength := callStep_queueLength hcall
      exact .inl ⟨hlength, fun _ => Action.noConfusion⟩
  | worker i ch =>
      obtain ⟨w, s₁, w', -, hworker, rfl⟩ := step_worker h
      have hlength := workerStep_queueLength hworker
      exact .inl ⟨hlength, fun _ => Action.noConfusion⟩
  | scheduler ch =>
      obtain ⟨pc, s₁, pc', hpc, hsched, rfl⟩ := step_scheduler h
      rw [hpc, Option.bind_some]
      obtain ⟨hsame, hbatch⟩ | ⟨ready, hbatch, hlength⟩ :=
        schedulerStep_queueLength hsched
      · exact .inl ⟨.inl hsame.le, fun _ _ => hbatch⟩
      · exact .inr ⟨ch, ready, rfl, hbatch, hlength⟩
  | cancel f =>
      obtain rfl := step_cancel h
      exact .inl ⟨.inl (Nat.le_refl _), fun _ => Action.noConfusion⟩

/-- The counters are right, and nobody changes the maximum. -/
structure Bounded (m : UInt32) (s : State) : Prop where
  balanced : (books s).Balanced
  localQueues : LocalQueuesEmpty s
  maxQueueSize : s.config.maxQueueSize = m
  calls : ∀ maxSize, .setMaxQueueSize maxSize ∉ s.calls

theorem startCall_setMaxQueueSize {s : State} {op : Call} {maxSize : UInt32}
    (h : .setMaxQueueSize maxSize = startCall s op) :
    op = .setMaxQueueSize maxSize := by
  cases op with
  | setMaxQueueSize n => rw [CallPc.setMaxQueueSize.inj h]
  | shutdown waitForTasks => cases waitForTasks <;> cases h
  | _ => cases h

theorem stepFixed_eq_some {s s' : State} {a : Action} :
    stepFixed s a = some s' ↔
      a.op?.any Call.setsQueueSize = false ∧ step s a = some s' := by
  unfold stepFixed
  split <;> simp_all

theorem Bounded.step {m : UInt32} {s s' : State} {a : Action}
    (hB : Bounded m s) (h : stepFixed s a = some s') : Bounded m s' := by
  obtain ⟨hop, h⟩ := stepFixed_eq_some.mp h
  constructor
  · obtain hsame | hstep := step_books hB.localQueues h
    · exact hsame ▸ hB.balanced
    · exact hB.balanced.step hstep
  · exact hB.localQueues.step h
  · obtain hconfig | ⟨who, maxSize, -, hat, -⟩ := step_config h
    · exact hconfig ▸ hB.maxQueueSize
    · exact absurd (callAt_mem_calls hat) (hB.calls maxSize)
  · intro maxSize hmem
    obtain hold | ⟨op, hop', hstart⟩ | ⟨r, hr⟩ |
      ⟨who, ch, pc, s₁, -, -, hcall, -⟩ := mem_calls_step h hmem
    · exact hB.calls maxSize hold
    · rw [hop', startCall_setMaxQueueSize hstart] at hop
      exact Bool.noConfusion hop
    · cases hr
    · cases callStep_follows hcall

/-- The counter that `EnqueueTask` compares is the length of a queue that is
within its bound. -/
theorem Bounded.queueSize {m : UInt32} {s : State} (hB : Bounded m s)
    (hP : KeepsQueueBound m s) :
    s.stats.queueSize.toNat = s.queueLength := by
  have hcard : (books s).shared.card = s.queueLength := by
    simp [books, State.shared, State.queueLength]
  have hsize := congrArg UInt32.toNat hB.balanced.queueSize
  rw [hcard, UInt32.toNat_ofNat'] at hsize
  have hlt : s.queueLength < 2 ^ 32 := hP.trans_lt m.toNat_lt
  rw [Nat.mod_eq_of_lt hlt] at hsize
  exact hsize

/-- A step keeps the bound exactly when it pushes no batch that does not
fit. -/
theorem step_keepsQueueBound {m : UInt32} (hm : 0 < m) {s s' : State}
    {a : Action} (hB : Bounded m s) (hP : KeepsQueueBound m s)
    (h : stepFixed s a = some s') :
    KeepsQueueBound m s' ↔ PushesBelow s a := by
  obtain ⟨-, h⟩ := stepFixed_eq_some.mp h
  obtain ⟨hlength, hnone⟩ | ⟨ch, ready, rfl, hbatch, hlength⟩ :=
    step_queueLength h
  · constructor
    · intro _
      cases a with
      | scheduler ch =>
          intro ready hready
          rw [hnone ch rfl] at hready
          cases hready
      | _ => trivial
    · intro _
      obtain hle | ⟨hsucc, hroom⟩ := hlength
      · exact hle.trans hP
      · rw [State.takesTask, hB.maxQueueSize] at hroom
        rcases hroom with hzero | hlt
        · exact absurd hzero (UInt32.pos_iff_ne_zero.mp hm)
        · have hroom := UInt32.lt_iff_toNat_lt.mp hlt
          rw [hB.queueSize hP] at hroom
          rw [KeepsQueueBound, hsucc]
          exact hroom
  · rw [KeepsQueueBound, hlength, ← hB.maxQueueSize]
    constructor
    · intro hkeep ready' hready
      obtain rfl := Option.some.inj (hbatch.symm.trans hready)
      exact hkeep
    · intro hbelow
      exact hbelow ready hbatch

/-! ## Runs -/

theorem construct_bounded (c : CheckedConfig) (clock : ℤ) :
    Bounded c.config.maxQueueSize (construct c clock) where
  balanced := construct_balanced c clock
  localQueues := construct_localQueuesEmpty c clock
  maxQueueSize := rfl
  calls maxSize := by simp [construct_calls]

/-- While nobody changes `max_queue_size`, and it is not zero, a run of the
pool never has more tasks on the shared queue if and only if every batch of
ready tasks in it fits when it is pushed. -/
theorem keepsQueueBound_iff (c : CheckedConfig) (clock : ℤ)
    (hm : 0 < c.config.maxQueueSize) (acts : List Action) :
    Transition.AllStates stepFixed (KeepsQueueBound c.config.maxQueueSize)
        (construct c clock) acts ↔
      Transition.AllSteps stepFixed PushesBelow (construct c clock) acts := by
  apply Transition.allStates_iff_allSteps
    (I := Bounded c.config.maxQueueSize) _ (construct_bounded c clock)
  · exact Nat.zero_le _
  · intro s a s' hB hP h
    exact ⟨hB.step h, step_keepsQueueBound hm hB hP h⟩

/-- A queue for one task, and delayed tasks. -/
def tightConfig : CheckedConfig where
  config :=
    { pairConfig.config with
      maxQueueSize := 1
      enableDelayedTasks := true }
  one_le_maxThreads := by decide
  minThreads_le_maxThreads := by decide

/-- A delayed task is submitted by the client. -/
def submitsReady (client : ℕ) : List Action :=
  [.call (.submitDelayed 0 .kNormal), .client client {}, .client client {}]

/-- Two delayed tasks that are due one after the other. -/
def pushesOneByOne : List Action :=
  submitsReady 0 ++ List.replicate 6 (Action.scheduler {}) ++ submitsReady 1

theorem keepsQueueBound_pushesOneByOne :
    Transition.AllStates stepFixed (KeepsQueueBound 1)
      (construct tightConfig 0) pushesOneByOne :=
  (keepsQueueBound_iff tightConfig 0 (by decide) pushesOneByOne).mpr
    (by decide)

/-- Two delayed tasks that are due together. -/
def pushesTogether : List Action :=
  submitsReady 0 ++ submitsReady 1 ++ List.replicate 7 (Action.scheduler {})

theorem pushesTogether_runs :
    (Transition.run stepFixed (construct tightConfig 0)
      pushesTogether).isSome := by
  decide

/-- A pool with `max_queue_size = 1` that has two tasks on the shared
queue. -/
theorem exists_queueOverfull :
    ¬ ∀ (c : CheckedConfig) (clock : ℤ) (s : State),
      0 < c.config.maxQueueSize →
        Transition.Reachable stepFixed {construct c clock} s →
          KeepsQueueBound c.config.maxQueueSize s := by
  intro hall
  have hreach := Transition.reachable_get_run
    (Set.mem_singleton (construct tightConfig 0)) pushesTogether_runs
  have hkeep := hall tightConfig 0 _ (by decide) hreach
  exact absurd hkeep (by unfold KeepsQueueBound; decide)

end ThreadPool
end Yacul
