import Yacul.ThreadPool.Ledger

/-!
# No task is lost or run twice

Without `ShutdownNow` every accepted task is in a queue, in the scheduler's
batch, with a worker, or done with.  The counters of the queues have 32 bits
and the queues have no bound, so the counters agree with the lengths modulo
`2 ^ 32`.
-/

namespace Yacul
namespace ThreadPool

/-- The operations other than `SubmitRecurring`, `ResetStats` and
`ShutdownNow`. -/
def Call.ordinary : Call → Bool
  | .submitRecurring _ _ | .resetStats | .shutdownNow => false
  | _ => true

/-- A step that starts only ordinary operations. -/
def OrdinaryStep (_ : State) (a : Action) : Prop :=
  ∀ op ∈ a.op?, op.ordinary = true

instance (s : State) (a : Action) : Decidable (OrdinaryStep s a) :=
  inferInstanceAs (Decidable (∀ op ∈ a.op?, op.ordinary = true))

/-- A step that does not start `ShutdownNow`. -/
def KeepsQueues (_ : State) (a : Action) : Prop :=
  a.op? ≠ some .shutdownNow

instance (s : State) (a : Action) : Decidable (KeepsQueues s a) :=
  inferInstanceAs (Decidable (a.op? ≠ some .shutdownNow))

theorem OrdinaryStep.keepsQueues {s : State} {a : Action}
    (h : OrdinaryStep s a) : KeepsQueues s a := by
  intro hop
  exact absurd (h _ hop) (by decide)

/-- The task that a worker has dequeued and not finished. -/
def Worker.task? (w : Worker) : Option Task :=
  match w.stage with
  | .free => none
  | .taken t | .invoked t | .counted t => some t

/-- The accepted tasks by where they are. -/
structure Conserved (s : State) : Prop where
  partition : Multiset.range s.accepted =
    (s.tasks.map Task.id : List ℕ) +
    (s.priorityTasks.map fun p => p.task.id : List ℕ) +
    (s.delayedTasks.map fun d => d.task.id : List ℕ) +
    (s.ready.map fun d => d.task.id : List ℕ) +
    ((s.workers.filterMap Worker.task?).map Task.id : List ℕ) +
    (s.finished : Multiset ℕ) + (s.dropped : Multiset ℕ)
  invoked : s.invoked.Nodup

/-- The counters are the lengths of the queues. -/
structure CountersExact (s : State) : Prop where
  queueSize : s.stats.queueSize.toNat = s.tasks.length + s.priorityTasks.length
  delayedQueueSize : s.stats.delayedQueueSize.toNat = s.delayedTasks.length

/-- The counters are the lengths of the queues modulo `2 ^ 32`. -/
structure CountersModulo (s : State) : Prop where
  queueSize : s.stats.queueSize.toNat =
    (s.tasks.length + s.priorityTasks.length) % 2 ^ 32
  delayedQueueSize :
    s.stats.delayedQueueSize.toNat = s.delayedTasks.length % 2 ^ 32

/-! ## Runs without a drain -/

theorem not_mem_calls_shutdownNow {s s' : State} {a : Action}
    (hcalls : .shutdownSet true ∉ s.calls) (hkeeps : KeepsQueues s a)
    (h : step s a = some s') : .shutdownSet true ∉ s'.calls := by
  intro hq
  obtain hold | ⟨op, hop, hstart⟩ | ⟨r, hprepare⟩ |
    ⟨who, ch, pc, s₁, -, -, hcall, -⟩ := mem_calls_step h hq
  · exact hcalls hold
  · cases op with
    | shutdown waitForTasks => cases waitForTasks <;> simp [startCall] at hstart
    | shutdownNow => exact hkeeps hop
    | _ => simp [startCall] at hstart
  · simp at hprepare
  · cases callStep_follows hcall

theorem CallEffect.discarded {s s' : State} {who : Caller}
    {pc pc' : CallPc} (h : CallEffect s who pc s' pc')
    (hpc : pc ≠ .shutdownSet true) : s'.discarded = s.discarded := by
  cases h with
  | quiet hq => exact hq.discarded
  | enqueue priority => exact (enqueueTask_same s priority).2.discarded
  | setShutdown now =>
      cases now with
      | false => rfl
      | true => exact absurd rfl hpc
  | _ => rfl

theorem step_discarded {s s' : State} {a : Action}
    (hcalls : .shutdownSet true ∉ s.calls) (h : step s a = some s') :
    s'.discarded = s.discarded := by
  obtain hsame | ⟨who, ch, pc, s₁, pc', -, hpc, hcall, hs'⟩ :=
    step_callParts h
  · exact hsame.discarded
  · rw [hs']
    apply (callStep_effect hcall).discarded
    rintro rfl
    exact hcalls (callAt_mem_calls hpc)

/-- Without `ShutdownNow` no task is discarded. -/
theorem reachable_discarded {s : State} (hs : ReachableVia KeepsQueues s) :
    s.discarded = [] := by
  have hboth : .shutdownSet true ∉ s.calls ∧ s.discarded = [] := by
    apply hs.invariant
      (I := fun s => .shutdownSet true ∉ s.calls ∧ s.discarded = [])
    · rintro s ⟨c, clock, rfl⟩
      exact ⟨by simp [construct_calls], rfl⟩
    · rintro s a s' ⟨hcalls, hnone⟩ hkeeps h
      exact ⟨not_mem_calls_shutdownNow hcalls hkeeps h,
        (step_discarded hcalls h).trans hnone⟩
  exact hboth.2

/-! ## The ledger -/

/-- The tasks with the workers, without the stages. -/
theorem books_held (s : State) :
    (books s).held =
      ((s.workers.filterMap Worker.task?).map Task.id : List ℕ) := by
  simp only [Books.held, books, workerIds]
  induction s.workers with
  | nil => rfl
  | cons w workers ih =>
      simp only [Roster.tally_cons]
      rw [show ∀ a b c d e f : Multiset ℕ,
        a + d + (b + e) + (c + f) = a + b + c + (d + e + f) by intros; abel, ih]
      cases hstage : w.stage <;>
        simp [Worker.task?, hstage, Stage.takenIds, Stage.startedIds,
          Stage.countedIds]

theorem Books.Balanced.counter {b : Books} (hb : b.Balanced) :
    b.queueSize.toNat = b.shared.card % 2 ^ 32 ∧
      b.delayedQueueSize.toNat = b.delayed.card % 2 ^ 32 := by
  rw [hb.queueSize, hb.delayedQueueSize]
  exact ⟨UInt32.toNat_ofNat', UInt32.toNat_ofNat'⟩

/-- In every run of ordinary operations no task is lost or run twice, and the
counters follow the queues modulo `2 ^ 32`. -/
theorem reachable_conserved {s : State} (hs : ReachableVia OrdinaryStep s) :
    Conserved s ∧ CountersModulo s := by
  have hb := reachable_balanced hs.reachable
  have hnone := reachable_discarded
    (hs.mono fun _ _ hordinary => hordinary.keepsQueues)
  have hheld := books_held s
  obtain ⟨hqueue, hdelayed⟩ := hb.counter
  refine ⟨⟨?_, ?_⟩, ⟨?_, ?_⟩⟩
  · have hpartition := hb.accepted
    rw [hheld] at hpartition
    simp only [books, State.shared, hnone, Multiset.coe_nil,
      Multiset.add_zero] at hpartition
    rw [hpartition]
    abel
  · exact Multiset.coe_nodup.mp hb.invoked_nodup
  · simpa [books, State.shared] using hqueue
  · simpa [books] using hdelayed

/-- Two submissions; a worker has taken the first task. -/
def submitsTwice : List Action :=
  [.call (.submit .kNormal), .client 0 {}, .call (.submit .kHigh), .client 1 {},
    .worker 0 {}, .worker 0 {}, .worker 0 {}, .worker 0 { index := 1 }]

theorem submitsTwice_runs :
    (Transition.run step (construct pairConfig 0) submitsTwice).isSome := by
  decide

theorem reachable_conserved_submitsTwice :
    Conserved ((Transition.run step (construct pairConfig 0)
        submitsTwice).get submitsTwice_runs) ∧
      CountersModulo ((Transition.run step (construct pairConfig 0)
        submitsTwice).get submitsTwice_runs) := by
  apply reachable_conserved
  exact (construct_reachableVia _ pairConfig 0).run (by decide)
    (Option.some_get submitsTwice_runs).symm

/-! ## A queue without a bound -/

/-- A pool whose queue has no bound. -/
def unboundedConfig : CheckedConfig :=
  { pairConfig with config := { pairConfig.config with maxQueueSize := 0 } }

/-- An open pool, with the queue mutex free and no bound on the queue. -/
structure TakesSubmissions (s : State) : Prop where
  aborted : s.aborted = false
  shutdown : s.shutdown = false
  queueHeld : s.queueHeld = false
  maxQueueSize : s.config.maxQueueSize = 0

theorem TakesSubmissions.enqueueTask {s : State} (h : TakesSubmissions s)
    (priority : TaskPriority) :
    TakesSubmissions (enqueueTask s priority) := by
  obtain ⟨haborted, hshutdown, hheld, hmax⟩ := h
  unfold ThreadPool.enqueueTask pushTask
  dsimp only
  split <;> exact ⟨haborted, hshutdown, hheld, hmax⟩

/-- A client submits one more task. -/
theorem step_submit {s : State} (hopen : TakesSubmissions s) :
    ∃ s₁ s₂, step s (.call (.submit .kNormal)) = some s₁ ∧
      step s₁ (.client s.clients.length {}) = some s₂ ∧
        TakesSubmissions s₂ ∧
          (books s₂).shared.card = (books s).shared.card + 1 := by
  obtain ⟨haborted, hshutdown, hheld, hmax⟩ := hopen
  let s₁ : State := { s with clients := s.clients ++ [.enqueueTask .kNormal] }
  have hopen₁ : TakesSubmissions s₁ := ⟨haborted, hshutdown, hheld, hmax⟩
  have hcall : callStep s₁ (.client s.clients.length) {}
      (.enqueueTask .kNormal) = some (enqueueTask s₁ .kNormal, .notifyOne) := by
    simp [callStep, s₁, hshutdown, hheld, hmax]
  let s₂ : State := { enqueueTask s₁ .kNormal with
    clients :=
      (enqueueTask s₁ .kNormal).clients.set s.clients.length .notifyOne }
  refine ⟨s₁, s₂, ?_, ?_, ?_, ?_⟩
  · simp [step, haborted, startCall, s₁]
  · have hpc :
        s₁.clients[s.clients.length]? = some (.enqueueTask .kNormal) := by
      simp [s₁]
    have haborted₁ : s₁.aborted = false := haborted
    simp only [step, haborted₁, hpc, Option.bind_some, hcall, Option.map_some,
      Bool.false_eq_true, if_false]
    rfl
  · have hopen₂ := hopen₁.enqueueTask .kNormal
    exact ⟨hopen₂.aborted, hopen₂.shutdown, hopen₂.queueHeld,
      hopen₂.maxQueueSize⟩
  · have hpush := congrArg (fun b => b.shared.card)
      (books_pushTask s₁ .kNormal ⟨s.accepted, .immediate⟩)
    rw [Multiset.card_cons] at hpush
    exact hpush

/-- Any number of tasks can be queued while no worker moves. -/
theorem exists_queued (n : ℕ) :
    ∃ s, ReachableVia OrdinaryStep s ∧ TakesSubmissions s ∧
      (books s).shared.card = n := by
  induction n with
  | zero =>
      exact ⟨_, construct_reachableVia _ unboundedConfig 0,
        ⟨rfl, rfl, rfl, rfl⟩, rfl⟩
  | succ n ih =>
      obtain ⟨s, hs, hopen, hcard⟩ := ih
      obtain ⟨s₁, s₂, hcall, hclient, hopen₂, hcard₂⟩ := step_submit hopen
      have hs₁ := hs.next (by simp [OrdinaryStep, Action.op?, Call.ordinary])
        hcall
      have hs₂ := hs₁.next (by simp [OrdinaryStep, Action.op?]) hclient
      exact ⟨s₂, hs₂, hopen₂, hcard₂.trans (congrArg Nat.succ hcard)⟩

/-- The counter of the queue wraps around: after `2 ^ 32` submissions it is
zero. -/
theorem exists_counterWraps :
    ¬ ∀ s, ReachableVia OrdinaryStep s → Conserved s ∧ CountersExact s := by
  intro hall
  obtain ⟨s, hs, -, hcard⟩ := exists_queued (2 ^ 32)
  have hexact := (hall s hs).2.queueSize
  have hlength : (books s).shared.card =
      s.tasks.length + s.priorityTasks.length := by
    simp [books, State.shared]
  have hzero : s.stats.queueSize.toNat = 0 := by
    have hcounter := (reachable_balanced hs.reachable).counter.1
    rw [hcard] at hcounter
    exact hcounter
  omega

end ThreadPool
end Yacul
