import Yacul.ThreadPool.QueueBound
import Yacul.ThreadPool.WaitForTasks

/-!
# Wake-ups of `WaitForTasks`

A thread in `WaitForTasks` sleeps on `finish_condition_` until the shared queue
is empty and no task is active.  Only a worker that has run a task notifies
it, and not under `queue_mutex_`.  The pool can come to rest in four other
ways, and these are all.
-/

namespace Yacul
namespace ThreadPool

/-! ## Who sleeps and who notifies -/

/-- The flag of the task is set, so that its wrapper returns at once. -/
def Task.isCancelled (s : State) (t : Task) : Bool :=
  match t.wrapper with
  | .immediate => false
  | .delayed f _ => s.flag f

/-- The worker has a task to run, or has run one, and then notifies. -/
def Worker.notifiesFinish (s : State) (w : Worker) : Bool :=
  match w.pc with
  | .gotTask t | .wrapper t => !t.isCancelled s
  | .count _ | .running _ _ | .returned _ | .uncount _ | .notifyFinish => true
  | _ => false

/-- Worker `i` is going to notify on `finish_condition_`. -/
def State.notifiesFinish (s : State) (i : ℕ) : Bool :=
  s.workers[i]?.any (Worker.notifiesFinish s)

/-- No thread sleeps on `finish_condition_` while the shared queue is empty, no
task is active and nobody is going to notify it. -/
def NoLostFinish (s : State) : Prop :=
  s.finishSleepers ≠ [] →
    s.queueLength ≠ 0 ∨ s.stats.activeThreads ≠ 0 ∨
      ∃ i ∈ s.workerNumbers, s.notifiesFinish i = true

instance (s : State) : Decidable (NoLostFinish s) := by
  unfold NoLostFinish
  exact inferInstance

/-- The call is between its test and its sleep on `finish_condition_`. -/
def CallPc.finishHeld : CallPc → Bool
  | .waitHeld _ _ => true
  | _ => false

/-- A thread is between its test and its sleep on `finish_condition_`. -/
def State.finishWindow (s : State) : Prop :=
  ∃ pc ∈ s.calls, pc.finishHeld = true

/-- A thread sleeps on `finish_condition_`, or is about to. -/
def State.awaitsFinish (s : State) : Prop :=
  s.finishSleepers ≠ [] ∨ s.finishWindow

/-- There is a task on the shared queue, or a worker that will notify. -/
def State.busy (s : State) : Prop :=
  s.queueLength ≠ 0 ∨ ∃ i ∈ s.workerNumbers, s.notifiesFinish i = true

/-! ## How the pool comes to rest -/

/-- The flag that a call of `CancelTask` sets. -/
def State.cancelledBy (s : State) : CallPc → Option ℕ
  | .cancelTask taskId => s.cancelledTasks taskId
  | _ => none

/-- The cancellation flag that the action sets. -/
def State.cancels? (s : State) : Action → Option ℕ
  | .cancel f => some f
  | a => (a.caller?.bind s.callAt).bind s.cancelledBy

/-- A notification that is issued while a thread is between its test and its
sleep is not the last; a cancelled task that is taken is not the last one,
nor is a task that is cancelled; and the queue is not cleared while no worker
has a task. -/
@[mk_iff]
structure LeavesWork (s : State) (a : Action) : Prop where
  notify : ∀ i ∈ a.worker?, s.workerAt i .notifyFinish = true →
    s.finishWindow →
      s.queueLength ≠ 0 ∨
        ∃ j ∈ s.workerNumbers, j ≠ i ∧ s.notifiesFinish j = true
  take : ∀ t ∈ s.taken? a, t.isCancelled s = true →
    1 < s.queueLength ∨ ∃ j ∈ s.workerNumbers, s.notifiesFinish j = true
  cancel : ∀ f ∈ s.cancels? a,
    s.queueLength ≠ 0 ∨
      ∃ j ∈ s.workerNumbers, (setFlag s f).notifiesFinish j = true
  drain : s.drains a = true →
    ∃ j ∈ s.workerNumbers, s.notifiesFinish j = true

/-- While a thread sleeps on `finish_condition_`, or is about to, none of these
four steps brings the pool to rest. -/
def FinishesInTime (s : State) (a : Action) : Prop :=
  s.awaitsFinish → LeavesWork s a

instance (s : State) : Decidable s.finishWindow := by
  unfold State.finishWindow
  exact inferInstance

instance (s : State) (a : Action) : Decidable (LeavesWork s a) :=
  decidable_of_iff' _ (leavesWork_iff s a)

instance (s : State) (a : Action) : Decidable (FinishesInTime s a) := by
  unfold FinishesInTime State.awaitsFinish
  exact inferInstance

/-- A thread that sleeps on `finish_condition_`, or is about to, has something
to wait for. -/
def Finishes (s : State) : Prop :=
  s.awaitsFinish → s.busy

/-! ## Who moves -/

section

variable {s s' s₀ : State} {a : Action} {i j : ℕ}

/-- A worker that is about to notify is not in a call. -/
theorem callAt_of_notifyFinish (ha : a.worker? = some i)
    (hi : s.workerAt i .notifyFinish = true) :
    a.caller?.bind s.callAt = none := by
  obtain ⟨ch, rfl⟩ := worker?_eq_some ha
  obtain ⟨w, hw, hpc⟩ := workerAt_eq_true.mp hi
  simp [Action.caller?, State.callAt, hw, Worker.call?, hpc]

theorem taken?_of_notifyFinish (ha : a.worker? = some i)
    (hi : s.workerAt i .notifyFinish = true) : s.taken? a = none := by
  obtain ⟨ch, rfl⟩ := worker?_eq_some ha
  obtain ⟨w, hw, hpc⟩ := workerAt_eq_true.mp hi
  rw [taken?_worker hw]
  simp [workerStep, hpc, WorkerPc.taken?]

theorem cancels?_eq_some {f : ℕ} (hf : s.cancels? a = some f) :
    a = .cancel f ∨ ∃ taskId, s.cancelledTasks taskId = some f ∧
      a.caller?.bind s.callAt = some (.cancelTask taskId) := by
  have hcall : (a.caller?.bind s.callAt).bind s.cancelledBy = some f →
      ∃ taskId, s.cancelledTasks taskId = some f ∧
        a.caller?.bind s.callAt = some (.cancelTask taskId) := by
    intro h
    obtain ⟨pc, hat, hpc⟩ := Option.bind_eq_some_iff.mp h
    cases pc with
    | cancelTask taskId => exact ⟨taskId, hpc, hat⟩
    | _ => cases hpc
  cases a with
  | cancel g =>
      obtain rfl := Option.some.inj hf
      exact .inl rfl
  | _ => exact .inr (hcall hf)

/-! ## The notifications -/

theorem notifiesFinish_eq_true :
    s.notifiesFinish i = true ↔
      ∃ w, s.workers[i]? = some w ∧ w.notifiesFinish s = true := by
  unfold State.notifiesFinish
  cases s.workers[i]? <;> simp

theorem mem_workerNumbers (hi : s.notifiesFinish i = true) :
    i ∈ s.workerNumbers := by
  obtain ⟨w, hw, -⟩ := notifiesFinish_eq_true.mp hi
  obtain ⟨hlt, -⟩ := List.getElem?_eq_some_iff.mp hw
  exact List.mem_range.mpr hlt

theorem isCancelled_congr (hflag : ∀ f, s'.flag f = s.flag f) (t : Task) :
    t.isCancelled s' = t.isCancelled s := by
  unfold Task.isCancelled
  split
  · rfl
  · exact hflag _

/-- With fewer flags set, no notification is lost. -/
theorem Worker.notifiesFinish_mono {w : Worker}
    (hflag : ∀ f, s₀.flag f = false → s.flag f = false)
    (hw : w.notifiesFinish s₀ = true) : w.notifiesFinish s = true := by
  have htask : ∀ t : Task, (!t.isCancelled s₀) = true →
      (!t.isCancelled s) = true := by
    intro t ht
    rw [Bool.not_eq_true'] at ht ⊢
    unfold Task.isCancelled at ht ⊢
    split at ht
    · rfl
    · exact hflag _ ht
  unfold Worker.notifiesFinish at hw ⊢
  split at hw
  · exact htask _ hw
  · exact htask _ hw
  all_goals first | rfl | cases hw

/-- A worker that has to notify goes on to its wrapper, passes the test of
its flag, or notifies. -/
theorem workerStep_notifiesFinish {s₁ : State} {w w' : Worker} {ch : Choice}
    (h : workerStep s i w ch = some (s₁, w'))
    (hw : w.notifiesFinish s = true) :
    (∃ t, w.pc = .gotTask t ∧ w'.pc = .wrapper t) ∨
      (∀ s₂, w'.notifiesFinish s₂ = true) ∨ w.pc = .notifyFinish := by
  cases hpc : w.pc with
  | gotTask t =>
      simp only [workerStep, hpc, Option.some.injEq, Prod.mk.injEq] at h
      obtain ⟨-, rfl⟩ := h
      exact .inl ⟨t, rfl, rfl⟩
  | wrapper t =>
      right
      left
      simp only [workerStep, hpc, Option.some.injEq] at h
      simp only [Worker.notifiesFinish, hpc, Bool.not_eq_true'] at hw
      unfold startWrapper at h
      unfold Task.isCancelled at hw
      split at h
      · obtain ⟨-, rfl⟩ := Prod.mk.inj h
        exact fun _ => rfl
      · next hwrap =>
          rw [hwrap] at hw
          rw [if_neg (by simp [hw])] at h
          obtain ⟨-, rfl⟩ := Prod.mk.inj h
          exact fun _ => rfl
  | running t phase =>
      simp only [workerStep, hpc] at h
      right
      left
      intro s₂
      obtain hret | ⟨phase', hrun⟩ := runningStep_pc h
      · simp [Worker.notifiesFinish, hret]
      · simp [Worker.notifiesFinish, hrun]
  | count t | returned t | uncount t =>
      simp only [workerStep, hpc, Option.some.injEq, Prod.mk.injEq] at h
      obtain ⟨-, rfl⟩ := h
      exact .inr (.inl fun _ => rfl)
  | notifyFinish => exact .inr (.inr rfl)
  | _ => simp [Worker.notifiesFinish, hpc] at hw

/-- A worker that has to notify, with the flags as they are after the step,
still has to, or does. -/
theorem notifiesFinish_step (h : step s a = some s')
    (hworkers : s₀.workers = s.workers)
    (hflag : ∀ f, s'.flag f = s₀.flag f)
    (hmono : ∀ f, s₀.flag f = false → s.flag f = false)
    (hj : s₀.notifiesFinish j = true) :
    s'.notifiesFinish j = true ∨
      a.worker? = some j ∧ s.workerAt j .notifyFinish = true := by
  obtain ⟨w, hw, hn⟩ := notifiesFinish_eq_true.mp hj
  rw [hworkers] at hw
  have hback : ∀ f, s₀.flag f = false → s'.flag f = false := by
    intro f hf
    rw [hflag f]
    exact hf
  by_cases ha : a.caller? = some (.worker j)
  · cases a with
    | worker i ch =>
        obtain rfl : i = j := Caller.worker.inj (Option.some.inj ha)
        obtain ⟨s₁, w', hworker, hw', -⟩ := worker_of_moved h hw
        obtain ⟨t, hgot, hwrap⟩ | hkeeps | hnotify :=
          workerStep_notifiesFinish hworker (Worker.notifiesFinish_mono hmono hn)
        · left
          refine notifiesFinish_eq_true.mpr ⟨w', hw', ?_⟩
          have hsame := isCancelled_congr hflag t
          simp only [Worker.notifiesFinish, hgot] at hn
          simp only [Worker.notifiesFinish, hwrap]
          rw [hsame]
          exact hn
        · exact .inl (notifiesFinish_eq_true.mpr ⟨w', hw', hkeeps s'⟩)
        · exact .inr ⟨rfl, workerAt_eq_true.mpr ⟨w, hw, hnotify⟩⟩
    | client | tick | call | scheduler | cancel => cases ha
  · left
    exact notifiesFinish_eq_true.mpr ⟨w, worker_of_not_moved h ha hw,
      Worker.notifiesFinish_mono hback hn⟩

/-- A step that cancels nothing leaves the flags alone. -/
theorem flag_step_of_none (h : step s a = some s')
    (hc : s.cancels? a = none) (f : ℕ) : s'.flag f = s.flag f := by
  obtain hsame | ⟨g, rfl, -⟩ |
      ⟨who, ch, pc, s₁, pc', ha, hat, hsignals, hcall, hs'⟩ |
      ⟨i, ch, w, s₁, w', -, -, hsignals, hworker, hs'⟩ := step_signals h
  · exact hsame.flag f
  · cases hc
  · cases pc with
    | cancelTask taskId =>
        have hnone : s.cancelledTasks taskId = none := by
          cases a with
          | client | worker =>
              simpa [State.cancels?, State.cancelledBy, ha, hat] using hc
          | _ => cases ha
        simp only [callStep, whenFree_eq_some, Prod.mk.injEq] at hcall
        obtain ⟨-, rfl, -⟩ := hcall
        rw [hs', cancelTask, hnone]
        rfl
    | waitHeld | waitAsleep | pause | resume | resumeNotify
    | shutdownNotifyPause | setMaxQueueSize =>
        obtain ⟨rfl, -⟩ := Prod.mk.inj (Option.some.inj hcall)
        rw [hs']
        rfl
    | _ => exact Bool.noConfusion hsignals
  · cases hpc : w.pc with
    | pauseHeld | pauseAsleep | notifyFinish =>
        simp only [workerStep, hpc, Option.some.injEq, Prod.mk.injEq]
          at hworker
        obtain ⟨rfl, -⟩ := hworker
        rw [hs']
        rfl
    | _ =>
        rw [hpc] at hsignals
        exact Bool.noConfusion hsignals

/-- A step that cancels a task sets its flag and leaves the queue alone. -/
theorem step_cancels {f : ℕ} (h : step s a = some s')
    (hf : s.cancels? a = some f) :
    (∀ g, s'.flag g = (setFlag s f).flag g) ∧
      s'.queueLength = s.queueLength := by
  obtain rfl | ⟨taskId, hreg, hat⟩ := cancels?_eq_some hf
  · obtain rfl := step_cancel h
    exact ⟨fun _ => rfl, rfl⟩
  · obtain ⟨who, ha, hat⟩ := Option.bind_eq_some_iff.mp hat
    obtain ⟨s₁, pc', hcall, -, hs'⟩ :=
      step_of_callAt h ha hat CallPc.noConfusion
    simp only [callStep, whenFree_eq_some, Prod.mk.injEq] at hcall
    obtain ⟨-, rfl, -⟩ := hcall
    rw [hs', cancelTask, hreg]
    exact ⟨fun _ => rfl, rfl⟩

/-! ## The queue -/

/-- A call that leaves the queue empty is the section of `ShutdownNow`. -/
theorem callStep_queueLength_pos {who : Caller} {ch : Choice}
    {pc pc' : CallPc} (h : callStep s who ch pc = some (s', pc'))
    (hqueue : s.queueLength ≠ 0) :
    s'.queueLength ≠ 0 ∨ pc = .shutdownSet true := by
  cases callStep_effect h with
  | quiet hq => exact .inl (hq.queueLength ▸ hqueue)
  | enqueue priority =>
      have hlength := queueLength_pushTask s priority ⟨s.accepted, .immediate⟩
      exact .inl (hlength ▸ Nat.succ_ne_zero _)
  | setShutdown now =>
      cases now with
      | false => exact .inl hqueue
      | true => exact .inr rfl
  | _ => exact .inl hqueue

/-- A worker that leaves the queue empty has taken the last task, or makes a
call that clears it. -/
theorem workerStep_queueLength_pos {w w' : Worker} {ch : Choice}
    (h : workerStep s i w ch = some (s', w'))
    (hqueue : s.queueLength ≠ 0) :
    s'.queueLength ≠ 0 ∨
      (∃ t, w'.pc = .gotTask t ∧ s.queueLength = s'.queueLength + 1) ∨
        w.call? = some (.shutdownSet true) := by
  cases workerStep_effect h with
  | quiet hq => exact .inl (hq.queueLength ▸ hqueue)
  | call hpc _ hcall =>
      obtain hpos | rfl := callStep_queueLength_pos hcall hqueue
      · exact .inl hpos
      · exact .inr (.inr hpc)
  | takeFront htasks =>
      refine .inr (.inl ⟨_, rfl, ?_⟩)
      simp only [State.queueLength, popFront, htasks, List.length_cons,
        List.tail_cons]
      omega
  | takePriority htask =>
      refine .inr (.inl ⟨_, rfl, ?_⟩)
      obtain ⟨hlt, -⟩ := List.getElem?_eq_some_iff.mp htask
      simp only [State.queueLength, popPriority,
        List.length_eraseIdx_of_lt hlt]
      omega
  | takeLocal htask =>
      rw [popLocal_some htask]
      exact .inl hqueue
  | _ => exact .inl hqueue

theorem step_queueLength_pos (h : step s a = some s')
    (hqueue : s.queueLength ≠ 0) :
    s'.queueLength ≠ 0 ∨ s.drains a = true ∨
      ∃ (i : ℕ) (t : Task) (w' : Worker), s.taken? a = some t ∧
        s'.workers[i]? = some w' ∧ w'.pc = .gotTask t ∧
          s.queueLength = s'.queueLength + 1 := by
  cases a with
  | tick elapsed =>
      obtain rfl := step_tick h
      exact .inl hqueue
  | call op =>
      obtain rfl := step_call h
      exact .inl hqueue
  | client n ch =>
      obtain ⟨pc, s₁, pc', hpc, hcall, rfl⟩ := step_client h
      obtain hpos | rfl := callStep_queueLength_pos hcall hqueue
      · exact .inl hpos
      · exact .inr (.inl (drains_eq_true.mpr hpc))
  | worker i ch =>
      obtain ⟨w, -, -, hw, -, -⟩ := step_worker h
      obtain ⟨s₁, w', hworker, hw', hs'⟩ := worker_of_moved h hw
      have hlength : s'.queueLength = s₁.queueLength := by
        rw [hs']
        rfl
      rw [hlength]
      obtain hpos | ⟨t, hpc, hsucc⟩ | hdrains :=
        workerStep_queueLength_pos hworker hqueue
      · exact .inl hpos
      · refine .inr (.inr ⟨i, t, w', ?_, hw', hpc, hsucc⟩)
        rw [taken?_worker hw, hworker]
        simp [hpc, WorkerPc.taken?]
      · refine .inr (.inl (drains_eq_true.mpr ?_))
        simp [Action.caller?, State.callAt, hw, hdrains]
  | scheduler ch =>
      obtain ⟨pc, s₁, pc', -, hsched, rfl⟩ := step_scheduler h
      left
      obtain ⟨hsame, -⟩ | ⟨ready, -, hlength⟩ :=
        schedulerStep_queueLength hsched
      · exact hsame ▸ hqueue
      · show s₁.queueLength ≠ 0
        omega
  | cancel f =>
      obtain rfl := step_cancel h
      exact .inl hqueue

/-! ## The sleepers -/

/-- Only a call that was about to sleep begins to sleep. -/
theorem finishSleepers_step (h : step s a = some s')
    (hasleep : s'.finishSleepers ≠ []) : s.awaitsFinish := by
  obtain hsame | ⟨f, -, rfl⟩ |
      ⟨who, ch, pc, s₁, pc', -, hat, hsignals, hcall, hs'⟩ |
      ⟨i, ch, w, s₁, w', -, hw, hsignals, hworker, hs'⟩ := step_signals h
  · exact .inl (hsame.finishSleepers ▸ hasleep)
  · exact .inl hasleep
  · rw [hs'] at hasleep
    cases pc with
    | waitHeld before next =>
        exact .inr ⟨_, callAt_mem_calls hat, rfl⟩
    | waitAsleep before next =>
        obtain ⟨rfl, -⟩ := Prod.mk.inj (Option.some.inj hcall)
        left
        intro hnone
        exact hasleep (by simp [hnone])
    | cancelTask taskId =>
        simp only [callStep, whenFree_eq_some, Prod.mk.injEq] at hcall
        obtain ⟨-, rfl, -⟩ := hcall
        unfold cancelTask at hasleep
        split at hasleep <;> exact .inl hasleep
    | pause | resume | resumeNotify | shutdownNotifyPause
    | setMaxQueueSize =>
        obtain ⟨rfl, -⟩ := Prod.mk.inj (Option.some.inj hcall)
        exact .inl hasleep
    | _ => exact Bool.noConfusion hsignals
  · rw [hs'] at hasleep
    cases hpc : w.pc with
    | notifyFinish =>
        simp only [workerStep, hpc, Option.some.injEq, Prod.mk.injEq]
          at hworker
        obtain ⟨rfl, -⟩ := hworker
        exact absurd rfl hasleep
    | pauseHeld | pauseAsleep =>
        simp only [workerStep, hpc, Option.some.injEq, Prod.mk.injEq]
          at hworker
        obtain ⟨rfl, -⟩ := hworker
        exact .inl hasleep
    | _ =>
        rw [hpc] at hsignals
        exact Bool.noConfusion hsignals

/-- A call gets between its test and its sleep when it finds a task that is
not finished. -/
theorem finishWindow_step (h : step s a = some s')
    (hwindow : s'.finishWindow) :
    s.finishWindow ∨ allTasksFinished s = false ∧
      ∃ before next,
        a.caller?.bind s.callAt = some (.waitTest before next) := by
  obtain ⟨pc', hmem, hheld⟩ := hwindow
  obtain hold | ⟨op, -, rfl⟩ | ⟨r, rfl⟩ |
      ⟨who, ch, pc, s₁, ha, hat, hcall, -⟩ := mem_calls_step h hmem
  · exact .inl ⟨pc', hold, hheld⟩
  · cases op with
    | shutdown waitForTasks => cases waitForTasks <;> cases hheld
    | _ => cases hheld
  · cases hheld
  · cases callStep_follows hcall with
    | hold before next =>
        simp only [callStep, whenFree_eq_some] at hcall
        obtain ⟨-, hcall⟩ := hcall
        split at hcall
        · cases next <;> cases (Prod.mk.inj hcall).2
        · next hopen =>
            refine .inr ⟨by simpa using hopen, before, next, ?_⟩
            rw [ha]
            exact hat
    | _ => cases hheld

/-- A notification on `finish_condition_` leaves no sleeper. -/
theorem finishSleepers_of_notifies (h : step s a = some s')
    (ha : a.worker? = some i) (hi : s.workerAt i .notifyFinish = true) :
    s'.finishSleepers = [] := by
  obtain ⟨ch, rfl⟩ := worker?_eq_some ha
  obtain ⟨w, hw, hpc⟩ := workerAt_eq_true.mp hi
  obtain ⟨s₁, w', hworker, -, hs'⟩ := worker_of_moved h hw
  simp only [workerStep, hpc, Option.some.injEq, Prod.mk.injEq] at hworker
  obtain ⟨rfl, -⟩ := hworker
  rw [hs']

/-! ## Steps -/

/-- Where the test of `WaitForTasks` fails there is something to wait for. -/
theorem busy_of_unfinished (hB : (books s).Balanced)
    (h : allTasksFinished s = false) : s.busy := by
  have hcard : (books s).shared.card = s.queueLength := by
    simp [books, State.shared, State.queueLength]
  have hactive : (books s).counted.card = s.workers.countP Worker.active :=
    card_countedIds s.workers
  by_cases hqueue : s.queueLength = 0
  · right
    have hsize : s.stats.queueSize = 0 := by
      have hcounter := hB.queueSize
      rw [hcard, hqueue] at hcounter
      exact hcounter
    have hthreads : s.stats.activeThreads ≠ 0 := by
      intro hzero
      simp [allTasksFinished, hsize, hzero] at h
    have hpos : 0 < s.workers.countP Worker.active := by
      rw [Nat.pos_iff_ne_zero]
      intro hzero
      have hcounter := hB.activeThreads
      rw [hactive, hzero] at hcounter
      exact hthreads hcounter
    obtain ⟨w, hw, hactive⟩ := List.countP_pos_iff.mp hpos
    obtain ⟨i, hi⟩ := List.mem_iff_getElem?.mp hw
    have hnotifies : s.notifiesFinish i = true := by
      refine notifiesFinish_eq_true.mpr ⟨w, hi, ?_⟩
      unfold Worker.active Worker.stage at hactive
      unfold Worker.notifiesFinish
      cases hpc : w.pc <;> simp [hpc] at hactive ⊢
    exact ⟨i, mem_workerNumbers hnotifies, hnotifies⟩
  · exact .inl hqueue

/-- The test of `WaitForTasks` does not bring the pool to rest. -/
theorem leavesWork_of_waitTest {before : List ℕ} {next : WaitNext}
    (hat : a.caller?.bind s.callAt = some (.waitTest before next)) :
    LeavesWork s a where
  notify i hi hnotify := by
    rw [callAt_of_notifyFinish hi hnotify] at hat
    cases hat
  take t ht := by
    rw [taken?_of_callAt hat] at ht
    cases ht
  cancel f hf := by
    obtain rfl | ⟨taskId, -, hat'⟩ := cancels?_eq_some hf
    · cases hat
    · cases hat.symm.trans hat'
  drain hdrains := by
    cases hat.symm.trans (drains_eq_true.mp hdrains)

/-- A worker that notifies while a thread is about to sleep leaves it
something to wait for. -/
theorem busy_of_notifies (hwork : LeavesWork s a) (h : step s a = some s')
    (ha : a.worker? = some i) (hi : s.workerAt i .notifyFinish = true)
    (hawaits : s'.awaitsFinish) : s'.busy := by
  have hcall := callAt_of_notifyFinish ha hi
  have hwindow : s.finishWindow := by
    have hasleep := finishSleepers_of_notifies h ha hi
    have hwindow' := hawaits.resolve_left (not_not.mpr hasleep)
    obtain hold | ⟨-, before, next, hat⟩ := finishWindow_step h hwindow'
    · exact hold
    · rw [hcall] at hat
      cases hat
  have hnone : s.cancels? a = none := by
    rw [Option.eq_none_iff_forall_not_mem]
    intro f hf
    obtain rfl | ⟨taskId, -, hat⟩ := cancels?_eq_some hf
    · cases ha
    · rw [hcall] at hat
      cases hat
  obtain hqueue | ⟨j, -, hne, hj⟩ := hwork.notify i ha hi hwindow
  · obtain hpos | hdrains | ⟨-, t, -, htaken, -⟩ :=
      step_queueLength_pos h hqueue
    · exact .inl hpos
    · rw [drains_eq_true, hcall] at hdrains
      cases hdrains
    · rw [taken?_of_notifyFinish ha hi] at htaken
      cases htaken
  · obtain hj' | ⟨ha', -⟩ := notifiesFinish_step h rfl
      (flag_step_of_none h hnone) (fun _ => id) hj
    · exact .inr ⟨j, mem_workerNumbers hj', hj'⟩
    · exact absurd (Option.some.inj (ha'.symm.trans ha)) hne

/-- Any other step leaves something to wait for. -/
theorem busy_of_not_notifies (hbusy : s.busy) (hwork : LeavesWork s a)
    (h : step s a = some s')
    (hnot : ∀ i, a.worker? = some i → s.workerAt i .notifyFinish = false) :
    s'.busy := by
  have hstays : ∀ s₀ : State, s₀.workers = s.workers →
      (∀ f, s'.flag f = s₀.flag f) →
        (∀ f, s₀.flag f = false → s.flag f = false) →
          ∀ j, s₀.notifiesFinish j = true → s'.busy := by
    intro s₀ hworkers hflag hmono j hj
    obtain hj' | ⟨ha, hi⟩ := notifiesFinish_step h hworkers hflag hmono hj
    · exact .inr ⟨j, mem_workerNumbers hj', hj'⟩
    · rw [hnot j ha] at hi
      cases hi
  cases hc : s.cancels? a with
  | some f =>
      obtain ⟨hflag, hlength⟩ := step_cancels h hc
      obtain hqueue | ⟨j, -, hj⟩ := hwork.cancel f hc
      · exact .inl (hlength ▸ hqueue)
      · exact hstays (setFlag s f) rfl hflag (fun _ => flag_setFlag) j hj
  | none =>
      have hflag := flag_step_of_none h hc
      have hworker := hstays s rfl hflag fun _ => id
      obtain hqueue | ⟨j, -, hj⟩ := hbusy
      · obtain hpos | hdrains | ⟨i, t, w', htaken, hw', hpc, hsucc⟩ :=
          step_queueLength_pos h hqueue
        · exact .inl hpos
        · obtain ⟨j, -, hj⟩ := hwork.drain hdrains
          exact hworker j hj
        · cases hcancelled : t.isCancelled s with
          | true =>
              obtain hlt | ⟨j, -, hj⟩ := hwork.take t htaken hcancelled
              · exact .inl (by omega)
              · exact hworker j hj
          | false =>
              have hn : s'.notifiesFinish i = true := by
                refine notifiesFinish_eq_true.mpr ⟨w', hw', ?_⟩
                have hsame := isCancelled_congr hflag t
                simp only [Worker.notifiesFinish, hpc]
                rw [hsame, hcancelled]
                rfl
              exact .inr ⟨i, mem_workerNumbers hn, hn⟩
      · exact hworker j hj

theorem Finishes.step (hs : Finishes s) (hB : (books s).Balanced)
    (htime : FinishesInTime s a) (h : step s a = some s') : Finishes s' := by
  intro hawaits
  -- Who waits after the step has waited before, or has just failed its test.
  have hbefore : s.awaitsFinish ∨ allTasksFinished s = false ∧
      ∃ before next,
        a.caller?.bind s.callAt = some (.waitTest before next) := by
    rcases hawaits with hasleep | hwindow
    · exact .inl (finishSleepers_step h hasleep)
    · exact (finishWindow_step h hwindow).imp_left .inr
  have hwork : s.busy ∧ LeavesWork s a := by
    obtain hwaits | ⟨hopen, before, next, hat⟩ := hbefore
    · exact ⟨hs hwaits, htime hwaits⟩
    · exact ⟨busy_of_unfinished hB hopen, leavesWork_of_waitTest hat⟩
  by_cases hnow : ∃ i, a.worker? = some i ∧ s.workerAt i .notifyFinish = true
  · obtain ⟨i, ha, hi⟩ := hnow
    exact busy_of_notifies hwork.2 h ha hi hawaits
  · apply busy_of_not_notifies hwork.1 hwork.2 h
    intro i ha
    rw [← Bool.not_eq_true]
    exact fun hi => hnow ⟨i, ha, hi⟩

theorem construct_finishes (c : CheckedConfig) (clock : ℤ) :
    Finishes (construct c clock) := by
  rintro (hasleep | ⟨pc, hmem, -⟩)
  · exact absurd rfl hasleep
  · rw [construct_calls] at hmem
    cases hmem

/-- When none of the four steps brings the pool to rest under a thread in
`WaitForTasks`, no wake-up is lost. -/
theorem reachable_noLostFinish (hs : ReachableVia FinishesInTime s) :
    NoLostFinish s := by
  have hfinishes : Finishes s := by
    induction hs with
    | start hs =>
        obtain ⟨c, clock, rfl⟩ := hs
        exact construct_finishes c clock
    | next hs htime h ih =>
        exact ih.step (reachable_balanced hs.reachable) htime h
  intro hasleep
  obtain hqueue | hworker := hfinishes (.inl hasleep)
  · exact .inl hqueue
  · exact .inr (.inr hworker)

end

/-! ## Runs with a wait -/

/-- A client waits while a task is on the queue. -/
def sleepsForTask : List Action :=
  [Action.call (.submit .kNormal), .client 0 {}, .call .waitForTasks] ++
    List.replicate 2 (Action.client 1 {})

/-- A worker runs the task and notifies the client. -/
def wakesWaiter : List Action :=
  sleepsForTask ++ List.replicate 10 (Action.worker 0 {}) ++
    [Action.client 1 {}]

theorem wakesWaiter_runs :
    (Transition.run step (construct pairConfig 0) wakesWaiter).isSome := by
  decide

theorem reachable_noLostFinish_wakesWaiter :
    NoLostFinish ((Transition.run step (construct pairConfig 0)
      wakesWaiter).get wakesWaiter_runs) := by
  have hall : Transition.AllSteps step FinishesInTime
      (construct pairConfig 0) wakesWaiter := by
    decide
  exact reachable_noLostFinish
    ((construct_reachableVia FinishesInTime pairConfig 0).run hall
      (Option.some_get wakesWaiter_runs).symm)

/-- `ShutdownNow` clears the queue under the client, and nobody notifies. -/
def losesFinish : List Action :=
  sleepsForTask ++ [Action.call .shutdownNow, .client 2 {}]

theorem losesFinish_runs :
    (Transition.run step (construct pairConfig 0) losesFinish).isSome := by
  decide

/-- A thread can sleep in `WaitForTasks` after everything is done. -/
theorem exists_lostFinish :
    ¬ ∀ s, Transition.Reachable step initial s → NoLostFinish s := by
  intro hall
  have hstart : construct pairConfig 0 ∈ initial := ⟨pairConfig, 0, rfl⟩
  have hreach := Transition.reachable_get_run hstart losesFinish_runs
  exact absurd (hall _ hreach) (by decide)

end ThreadPool
end Yacul
