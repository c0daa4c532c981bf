import Yacul.ThreadPool.Effects

/-!
# The flags and the sleepers of the thread pool

Which moves change the configuration, the flag of a pause, the cancellation
flags, and the sleepers on `pause_condition_` and `finish_condition_`.
-/

namespace Yacul
namespace ThreadPool

/-- The configuration, the flags, and the sleepers that wait for a resume or
for the end of all tasks. -/
structure SameSignals (s s' : State) : Prop where
  config : s'.config = s.config
  paused : s'.paused = s.paused
  flag : ∀ f, s'.flag f = s.flag f
  pauseSleepers : s'.pauseSleepers = s.pauseSleepers
  finishSleepers : s'.finishSleepers = s.finishSleepers

/-- The moves of a call that change one of these. -/
def CallPc.signals : CallPc → Bool
  | .cancelTask _ | .waitHeld _ _ | .waitAsleep _ _ | .pause | .resume
  | .resumeNotify | .shutdownNotifyPause | .setMaxQueueSize _ => true
  | _ => false

/-- The moves of a worker outside a call that change one of these. -/
def WorkerPc.signals : WorkerPc → Bool
  | .pauseHeld | .pauseAsleep | .notifyFinish => true
  | _ => false

theorem SameSignals.refl (s : State) : SameSignals s s := by
  constructor <;> intros <;> rfl

theorem SameSignals.trans {s₁ s₂ s₃ : State} (h : SameSignals s₁ s₂)
    (h' : SameSignals s₂ s₃) : SameSignals s₁ s₃ where
  config := h'.config.trans h.config
  paused := h'.paused.trans h.paused
  flag f := (h'.flag f).trans (h.flag f)
  pauseSleepers := h'.pauseSleepers.trans h.pauseSleepers
  finishSleepers := h'.finishSleepers.trans h.finishSleepers

theorem pushTask_signals (s : State) (priority : TaskPriority) (t : Task) :
    SameSignals s (pushTask s priority t) := by
  unfold pushTask
  dsimp only
  split <;> constructor <;> intros <;> rfl

theorem pushReady_signals (ready : List DelayedTask) (s : State) :
    SameSignals s
      (ready.foldl (fun s d => pushTask s d.priority d.task) s) := by
  induction ready generalizing s with
  | nil => exact SameSignals.refl s
  | cons d ready ih =>
      exact (pushTask_signals s d.priority d.task).trans (ih _)

theorem enqueueTask_signals (s : State) (priority : TaskPriority) :
    SameSignals s (enqueueTask s priority) := by
  have hpush := pushTask_signals s priority ⟨s.accepted, .immediate⟩
  exact ⟨hpush.config, hpush.paused, hpush.flag, hpush.pauseSleepers,
    hpush.finishSleepers⟩

/-- A new flag is not set. -/
theorem newTaskId_signals (s : State) : SameSignals s (newTaskId s) := by
  refine ⟨rfl, rfl, fun f => ?_, rfl, rfl⟩
  simp only [State.flag, newTaskId, List.getD_eq_getElem?_getD]
  by_cases hf : f < s.flags.length
  · rw [List.getElem?_append_left hf]
  · rw [List.getElem?_append_right (not_lt.mp hf),
      List.getElem?_eq_none (not_lt.mp hf)]
    cases f - s.flags.length <;> rfl

theorem notifyOne_signals {s s' : State} {k : ℕ}
    (h : notifyOne s k = some s') : SameSignals s s' := by
  unfold notifyOne at h
  split at h
  · obtain rfl := Option.some.inj h
    exact SameSignals.refl s
  · split at h
    · obtain rfl := Option.some.inj h
      constructor <;> intros <;> rfl
    · cases h

/-- A flag stays set. -/
theorem flag_setFlag {s : State} {f g : ℕ} (h : (setFlag s g).flag f = false) :
    s.flag f = false := by
  simp only [State.flag, setFlag, List.getD_eq_getElem?_getD,
    List.getElem?_set] at h ⊢
  split at h
  · next heq =>
      split at h
      · cases h
      · next hlt =>
          rw [← heq, List.getElem?_eq_none (not_lt.mp hlt)]
          rfl
  · exact h

theorem callStep_signals {s s' : State} {who : Caller} {ch : Choice}
    {pc pc' : CallPc} (h : callStep s who ch pc = some (s', pc'))
    (hpc : pc.signals = false) : SameSignals s s' := by
  cases pc with
  | enqueueTask priority =>
      simp only [callStep, whenFree_eq_some] at h
      obtain ⟨-, h⟩ := h
      split at h
      · obtain ⟨rfl, rfl⟩ := Prod.mk.inj h
        constructor <;> intros <;> rfl
      · split at h
        · obtain ⟨rfl, rfl⟩ := Prod.mk.inj h
          exact SameSignals.refl s
        · obtain ⟨rfl, rfl⟩ := Prod.mk.inj h
          exact enqueueTask_signals s priority
  | notifyOne =>
      simp only [callStep, Option.map_eq_some_iff, Prod.mk.injEq] at h
      obtain ⟨s₁, hs₁, rfl, rfl⟩ := h
      exact notifyOne_signals hs₁
  | delayedPrepare | recurringPrepare =>
      simp only [callStep, Option.some.injEq] at h
      split at h
      · obtain ⟨rfl, rfl⟩ := Prod.mk.inj h
        exact newTaskId_signals s
      · obtain ⟨rfl, rfl⟩ := Prod.mk.inj h
        constructor <;> intros <;> rfl
  | delayedInsert =>
      simp only [callStep, whenFree_eq_some] at h
      obtain ⟨-, h⟩ := h
      split at h <;> obtain ⟨rfl, rfl⟩ := Prod.mk.inj h
      all_goals constructor <;> intros <;> rfl
  | waitTest =>
      simp only [callStep, whenFree_eq_some] at h
      obtain ⟨-, h⟩ := h
      split at h <;> obtain ⟨rfl, rfl⟩ := Prod.mk.inj h
      all_goals constructor <;> intros <;> rfl
  | shutdownSet now =>
      simp only [callStep, whenFree_eq_some, Prod.mk.injEq] at h
      obtain ⟨-, rfl, rfl⟩ := h
      cases now <;> constructor <;> intros <;> rfl
  | join k =>
      simp only [callStep] at h
      split at h
      · simp only [Option.some.injEq, Prod.mk.injEq] at h
        obtain ⟨rfl, rfl⟩ := h
        constructor <;> intros <;> rfl
      · split at h
        · simp only [Option.some.injEq, Prod.mk.injEq] at h
          obtain ⟨rfl, rfl⟩ := h
          constructor <;> intros <;> rfl
        · simp only [whenFree_eq_some, Prod.mk.injEq] at h
          obtain ⟨-, rfl, rfl⟩ := h
          exact SameSignals.refl s
  | done => cases h
  | expandThreads | addThread | recurringRegister | joinScheduler
  | lockThreads | resizeLog | resizeGrow | resizeShrink | resizeNotify
  | getThreadCount =>
      simp only [callStep, whenFree_eq_some, Prod.mk.injEq] at h
      obtain ⟨-, rfl, rfl⟩ := h
      constructor <;> intros <;> rfl
  | expandQueue | expandActive | addThreadId | delayedNotify | shutdownNotify
  | shutdownNotifyDelayed | resetStats =>
      simp only [callStep, Option.some.injEq, Prod.mk.injEq] at h
      obtain ⟨rfl, rfl⟩ := h
      constructor <;> intros <;> rfl
  | _ => exact Bool.noConfusion hpc

theorem dequeueTask_signals {s s' : State} {k : ℕ} {t : Option Task}
    (h : dequeueTask s k = some (t, s')) : SameSignals s s' := by
  cases t with
  | none =>
      obtain rfl := dequeueTask_none h
      exact SameSignals.refl s
  | some t =>
      obtain ⟨p, -, -, rfl⟩ | ⟨rest, -, rfl⟩ := dequeueTask_some h
      all_goals constructor <;> intros <;> rfl

theorem popLocal_signals {s s' : State} {slot : ℕ} {t : Task}
    (h : popLocal s slot = some (t, s')) : SameSignals s s' := by
  rw [popLocal_some h]
  constructor <;> intros <;> rfl

/-- Inside a counted wrapper only a call touches the flags. -/
theorem runningStep_signals {s s' : State} {i : ℕ} {w w' : Worker}
    {ch : Choice} {t : Task} {phase : Phase}
    (h : runningStep s i w t ch phase = some (s', w'))
    (hpc : w.pc = .running t phase) (hcall : w.call? = none) :
    SameSignals s s' := by
  cases phase with
  | user =>
      simp only [runningStep] at h
      split at h
      · obtain ⟨rfl, -⟩ := Prod.mk.inj (Option.some.inj h)
        exact SameSignals.refl s
      · split at h
        · obtain ⟨rfl, -⟩ := Prod.mk.inj (Option.some.inj h)
          exact SameSignals.refl s
        · obtain ⟨rfl, -⟩ := Prod.mk.inj (Option.some.inj h)
          unfold countRecurring
          split <;> constructor <;> intros <;> rfl
  | call pc | reschedule pc => simp [Worker.call?, hpc] at hcall
  | recurringTest | rescheduleTest =>
      simp only [runningStep, Option.map_eq_some_iff, Prod.mk.injEq] at h
      obtain ⟨r, -, rfl, -⟩ := h
      exact SameSignals.refl s

theorem workerStep_signals {s s' : State} {i : ℕ} {w w' : Worker}
    {ch : Choice} (h : workerStep s i w ch = some (s', w'))
    (hpc' : w.pc.signals = false) (hcall : w.call? = none) :
    SameSignals s s' := by
  cases hpc : w.pc with
  | localQueue =>
      simp only [workerStep, hpc, whenFree_eq_some] at h
      obtain ⟨-, h⟩ := h
      split at h
      · next t s₁ htask =>
          obtain ⟨rfl, -⟩ := Prod.mk.inj h
          exact popLocal_signals htask
      · obtain ⟨rfl, -⟩ := Prod.mk.inj h
        exact SameSignals.refl s
  | sharedQueue =>
      simp only [workerStep, hpc, Option.ite_none_left_eq_some,
        Option.map_eq_some_iff, Prod.mk.injEq] at h
      obtain ⟨-, ⟨t, s₁⟩, hdeq, rfl, -⟩ := h
      exact dequeueTask_signals hdeq
  | steal =>
      simp only [workerStep, hpc, whenFree_eq_some] at h
      obtain ⟨-, h⟩ := h
      split at h
      · next t s₁ hsteal =>
          obtain ⟨rfl, -⟩ := Prod.mk.inj h
          obtain ⟨slot, htask⟩ := stealTask_some hsteal
          exact popLocal_signals htask
      · obtain ⟨rfl, -⟩ := Prod.mk.inj h
        exact SameSignals.refl s
  | wrapper t =>
      simp only [workerStep, hpc, Option.some.injEq] at h
      unfold startWrapper at h
      split at h
      · obtain ⟨rfl, -⟩ := Prod.mk.inj h
        constructor <;> intros <;> rfl
      · split at h <;> obtain ⟨rfl, -⟩ := Prod.mk.inj h
        all_goals constructor <;> intros <;> rfl
  | running t phase =>
      simp only [workerStep, hpc] at h
      exact runningStep_signals h hpc hcall
  | pauseTest | idleCheck | idleRetest =>
      simp only [workerStep, hpc, whenFree_eq_some] at h
      obtain ⟨-, h⟩ := h
      split at h <;> obtain ⟨rfl, -⟩ := Prod.mk.inj h
      all_goals constructor <;> intros <;> rfl
  | retire =>
      simp only [workerStep, hpc, whenFree_eq_some, Prod.mk.injEq] at h
      obtain ⟨-, rfl, -⟩ := h
      exact SameSignals.refl s
  | exited => simp only [workerStep, hpc, reduceCtorEq] at h
  | pauseHeld | pauseAsleep | notifyFinish =>
      rw [hpc] at hpc'
      exact Bool.noConfusion hpc'
  | _ =>
      simp only [workerStep, hpc, Option.some.injEq, Prod.mk.injEq] at h
      obtain ⟨rfl, -⟩ := h
      constructor <;> intros <;> rfl

theorem schedulerStep_signals {s s' : State} {ch : Choice}
    {pc pc' : SchedulerPc} (h : schedulerStep s ch pc = some (s', pc')) :
    SameSignals s s' := by
  cases pc with
  | collect now ready =>
      simp only [schedulerStep] at h
      split at h
      · simp only [Option.map_eq_some_iff] at h
        obtain ⟨⟨d, s₁⟩, hpop, h⟩ := h
        obtain ⟨-, rfl⟩ := popDelayed_some hpop
        unfold collectReady at h
        split at h <;> obtain ⟨rfl, -⟩ := Prod.mk.inj h
        all_goals constructor <;> intros <;> rfl
      · obtain ⟨rfl, -⟩ := Prod.mk.inj (Option.some.inj h)
        exact SameSignals.refl s
  | push ready =>
      simp only [schedulerStep, whenFree_eq_some, Prod.mk.injEq] at h
      obtain ⟨-, rfl, -⟩ := h
      exact pushReady_signals ready s
  | notify count =>
      simp only [schedulerStep] at h
      split at h
      · simp only [Option.map_eq_some_iff, Prod.mk.injEq] at h
        obtain ⟨s₁, hs₁, rfl, -⟩ := h
        exact notifyOne_signals hs₁
      · obtain ⟨rfl, -⟩ := Prod.mk.inj (Option.some.inj h)
        constructor <;> intros <;> rfl
  | exited => cases h
  | _ =>
      obtain ⟨rfl, -⟩ := Prod.mk.inj (Option.some.inj h)
      constructor <;> intros <;> rfl

/-- A step that changes the configuration, a flag or a sleeper cancels a task,
or is one of the moves of a call or of a worker that do. -/
theorem step_signals {s s' : State} {a : Action} (h : step s a = some s') :
    SameSignals s s' ∨
      (∃ f, a = .cancel f ∧ s' = setFlag s f) ∨
      (∃ who ch pc s₁ pc', a.caller? = some who ∧ s.callAt who = some pc ∧
        pc.signals = true ∧ callStep s who ch pc = some (s₁, pc') ∧
          s' = { s₁ with clients := s'.clients, workers := s'.workers }) ∨
      ∃ i ch w s₁ w', a = .worker i ch ∧ s.workers[i]? = some w ∧
        w.pc.signals = true ∧ workerStep s i w ch = some (s₁, w') ∧
          s' = { s₁ with workers := s'.workers } := by
  cases a with
  | tick elapsed =>
      obtain rfl := step_tick h
      exact .inl (by constructor <;> intros <;> rfl)
  | call op =>
      obtain rfl := step_call h
      exact .inl (by constructor <;> intros <;> rfl)
  | cancel f => exact .inr (.inl ⟨f, rfl, step_cancel h⟩)
  | client n ch =>
      obtain ⟨pc, s₁, pc', hpc, hcall, rfl⟩ := step_client h
      cases hsignals : pc.signals with
      | true =>
          exact .inr (.inr (.inl
            ⟨.client n, ch, pc, s₁, pc', rfl, hpc, hsignals, hcall, rfl⟩))
      | false =>
          have hsame := callStep_signals hcall hsignals
          exact .inl ⟨hsame.config, hsame.paused, hsame.flag,
            hsame.pauseSleepers, hsame.finishSleepers⟩
  | worker i ch =>
      obtain ⟨w, s₁, w', hw, hworker, rfl⟩ := step_worker h
      cases hsignals : w.pc.signals with
      | true =>
          exact .inr (.inr (.inr
            ⟨i, ch, w, s₁, w', rfl, hw, hsignals, hworker, rfl⟩))
      | false =>
          cases hcall : w.call? with
          | none =>
              have hsame := workerStep_signals hworker hsignals hcall
              exact .inl ⟨hsame.config, hsame.paused, hsame.flag,
                hsame.pauseSleepers, hsame.finishSleepers⟩
          | some pc =>
              obtain ⟨-, rfl, -⟩ | ⟨pc', -, hmove⟩ :=
                workerStep_call? hworker hcall
              · exact .inl (by constructor <;> intros <;> rfl)
              · cases hpc : pc.signals with
                | true =>
                    have hat : s.callAt (.worker i) = some pc := by
                      simp [State.callAt, hw, hcall]
                    exact .inr (.inr (.inl ⟨.worker i, ch, pc, s₁, pc', rfl,
                      hat, hpc, hmove, rfl⟩))
                | false =>
                    have hsame := callStep_signals hmove hpc
                    exact .inl ⟨hsame.config, hsame.paused, hsame.flag,
                      hsame.pauseSleepers, hsame.finishSleepers⟩
  | scheduler ch =>
      obtain ⟨pc, s₁, pc', -, hsched, rfl⟩ := step_scheduler h
      have hsame := schedulerStep_signals hsched
      exact .inl ⟨hsame.config, hsame.paused, hsame.flag,
        hsame.pauseSleepers, hsame.finishSleepers⟩

/-- Only a pool that has not failed a `CHECK` makes a step. -/
theorem aborted_of_step {s s' : State} {a : Action} (h : step s a = some s') :
    s.aborted = false := by
  cases haborted : s.aborted with
  | false => rfl
  | true => simp [step, haborted] at h

/-! ## Callers -/

/-- A worker that does not move is as it was. -/
theorem worker_of_not_moved {s s' : State} {a : Action} {i : ℕ} {w : Worker}
    (h : step s a = some s') (ha : a.caller? ≠ some (.worker i))
    (hw : s.workers[i]? = some w) : s'.workers[i]? = some w := by
  cases a with
  | tick elapsed =>
      obtain rfl := step_tick h
      exact hw
  | call op =>
      obtain rfl := step_call h
      exact hw
  | client m ch =>
      obtain ⟨pc₁, s₁, pc', -, hmove, rfl⟩ := step_client h
      obtain ⟨ws, hws, -⟩ := (callStep_effect hmove).workers
      show s₁.workers[i]? = some w
      rw [hws]
      exact Roster.getElem?_append hw ws
  | worker j ch =>
      obtain ⟨v, s₁, v', -, hworker, rfl⟩ := step_worker h
      obtain ⟨ws, hws, -⟩ := (workerStep_effect hworker).workers
      have hne : j ≠ i := fun hij => ha (by rw [hij]; rfl)
      rw [List.getElem?_set_ne hne, hws]
      exact Roster.getElem?_append hw ws
  | scheduler ch =>
      obtain ⟨pc₁, s₁, pc', -, hsched, rfl⟩ := step_scheduler h
      show s₁.workers[i]? = some w
      rw [(schedulerStep_effect hsched).sameThreads.workers]
      exact hw
  | cancel f =>
      obtain rfl := step_cancel h
      exact hw

/-- A worker that moves is there afterwards. -/
theorem worker_of_moved {s s' : State} {i : ℕ} {ch : Choice} {w : Worker}
    (h : step s (.worker i ch) = some s') (hw : s.workers[i]? = some w) :
    ∃ s₁ w', workerStep s i w ch = some (s₁, w') ∧
      s'.workers[i]? = some w' ∧ s' = { s₁ with workers := s'.workers } := by
  obtain ⟨v, s₁, w', hv, hworker, rfl⟩ := step_worker h
  obtain rfl : w = v := Option.some.inj (hw.symm.trans hv)
  obtain ⟨ws, hws, -⟩ := (workerStep_effect hworker).workers
  obtain ⟨hlt, -⟩ := List.getElem?_eq_some_iff.mp hw
  have hlt' : i < s₁.workers.length := by
    rw [hws, List.length_append]
    omega
  exact ⟨s₁, w', hworker, List.getElem?_set_self hlt', rfl⟩

/-- A caller inside a call moves in its call. -/
theorem step_of_callAt {s s' : State} {a : Action} {who : Caller}
    {pc : CallPc} (h : step s a = some s') (ha : a.caller? = some who)
    (hat : s.callAt who = some pc) (hpc : pc ≠ .done) :
    ∃ s₁ pc', callStep s who a.choice pc = some (s₁, pc') ∧
      s'.callAt who = some pc' ∧
        s' = { s₁ with clients := s'.clients, workers := s'.workers } := by
  cases a with
  | client n ch =>
      obtain rfl := Option.some.inj ha
      obtain ⟨pc₁, s₁, pc', hpc₁, hcall, rfl⟩ := step_client h
      obtain rfl : pc = pc₁ := Option.some.inj (hat.symm.trans hpc₁)
      refine ⟨s₁, pc', hcall, ?_, rfl⟩
      obtain ⟨hlt, -⟩ := List.getElem?_eq_some_iff.mp hpc₁
      rw [← (callStep_effect hcall).clients] at hlt
      exact List.getElem?_set_self hlt
  | worker i ch =>
      obtain rfl := Option.some.inj ha
      obtain ⟨w, hw, hcall⟩ := Option.bind_eq_some_iff.mp hat
      obtain ⟨s₁, w', hworker, hw', hs'⟩ := worker_of_moved h hw
      obtain ⟨hdone, -⟩ | ⟨pc', hcall', hmove⟩ :=
        workerStep_call? hworker hcall
      · exact absurd hdone hpc
      · refine ⟨s₁, pc', hmove, ?_, ?_⟩
        · rw [State.callAt, hw']
          exact hcall'
        · obtain hclients := (workerStep_effect hworker).clients
          rw [hs']
  | tick | call | scheduler | cancel => cases ha

/-- A caller that does not move stays where it is. -/
theorem callAt_of_not_moved {s s' : State} {a : Action} {who : Caller}
    {pc : CallPc} (h : step s a = some s') (ha : a.caller? ≠ some who)
    (hat : s.callAt who = some pc) : s'.callAt who = some pc := by
  cases who with
  | worker i =>
      obtain ⟨w, hw, hcall⟩ := Option.bind_eq_some_iff.mp hat
      rw [State.callAt, worker_of_not_moved h ha hw]
      exact hcall
  | client n =>
      have hclient : s.clients[n]? = some pc := hat
      show s'.clients[n]? = some pc
      cases a with
      | tick elapsed =>
          obtain rfl := step_tick h
          exact hclient
      | call op =>
          obtain rfl := step_call h
          exact Roster.getElem?_append hclient _
      | client m ch =>
          obtain ⟨pc₁, s₁, pc', -, hcall, rfl⟩ := step_client h
          have hne : m ≠ n := fun hmn => ha (by rw [hmn]; rfl)
          rw [List.getElem?_set_ne hne, (callStep_effect hcall).clients]
          exact hclient
      | worker i ch =>
          obtain ⟨w, s₁, w', -, hworker, rfl⟩ := step_worker h
          show s₁.clients[n]? = some pc
          rw [(workerStep_effect hworker).clients]
          exact hclient
      | scheduler ch =>
          obtain ⟨pc₁, s₁, pc', -, hsched, rfl⟩ := step_scheduler h
          show s₁.clients[n]? = some pc
          rw [(schedulerStep_effect hsched).sameThreads.clients]
          exact hclient
      | cancel f =>
          obtain rfl := step_cancel h
          exact hclient

/-- Everybody who can be inside a call. -/
def State.callers (s : State) : List Caller :=
  (List.range s.clients.length).map .client ++
    (List.range s.workers.length).map .worker

theorem mem_callers {s : State} {who : Caller} {pc : CallPc}
    (hat : s.callAt who = some pc) : who ∈ s.callers := by
  cases who with
  | client n =>
      obtain ⟨hlt, -⟩ := List.getElem?_eq_some_iff.mp hat
      simp [State.callers, hlt]
  | worker i =>
      obtain ⟨w, hw, -⟩ := Option.bind_eq_some_iff.mp hat
      obtain ⟨hlt, -⟩ := List.getElem?_eq_some_iff.mp hw
      simp [State.callers, hlt]

/-- The action is the section of `ShutdownNow`. -/
def State.drains (s : State) (a : Action) : Bool :=
  (a.caller?.bind s.callAt).any fun pc => pc = .shutdownSet true

theorem drains_eq_true {s : State} {a : Action} :
    s.drains a = true ↔ a.caller?.bind s.callAt = some (.shutdownSet true) := by
  unfold State.drains
  cases a.caller?.bind s.callAt <;> simp

/-! ## The flag of a pause -/

/-- Only `Pause` sets the flag, and only a `Resume` that then notifies clears
it. -/
theorem step_paused {s s' : State} {a : Action} (h : step s a = some s') :
    s'.paused = s.paused ∨
      (a.caller?.bind s.callAt = some .pause ∧ s'.paused = true) ∨
      ∃ who, a.caller? = some who ∧ s.callAt who = some .resume ∧
        s'.callAt who = some .resumeNotify := by
  obtain hsame | ⟨f, -, rfl⟩ |
      ⟨who, ch, pc, s₁, pc', ha, hat, hsignals, hcall, hs'⟩ |
      ⟨i, ch, w, s₁, w', -, -, hsignals, hworker, hs'⟩ := step_signals h
  · exact .inl hsame.paused
  · exact .inl rfl
  · cases pc with
    | resume =>
        obtain ⟨s₂, pc₂, hcall₂, hat', -⟩ :=
          step_of_callAt h ha hat CallPc.noConfusion
        obtain ⟨-, rfl⟩ := Prod.mk.inj (Option.some.inj hcall₂)
        exact .inr (.inr ⟨who, ha, hat, hat'⟩)
    | pause =>
        obtain ⟨rfl, -⟩ := Prod.mk.inj (Option.some.inj hcall)
        refine .inr (.inl ⟨?_, ?_⟩)
        · rw [ha]
          exact hat
        · rw [hs']
    | cancelTask taskId =>
        simp only [callStep, whenFree_eq_some, Prod.mk.injEq] at hcall
        obtain ⟨-, rfl, -⟩ := hcall
        rw [hs']
        left
        unfold cancelTask
        split <;> rfl
    | waitHeld | waitAsleep | resumeNotify | shutdownNotifyPause
    | setMaxQueueSize =>
        obtain ⟨rfl, -⟩ := Prod.mk.inj (Option.some.inj hcall)
        rw [hs']
        exact .inl rfl
    | _ => exact Bool.noConfusion hsignals
  · cases hpc : w.pc with
    | pauseHeld | pauseAsleep | notifyFinish =>
        simp only [workerStep, hpc, Option.some.injEq, Prod.mk.injEq]
          at hworker
        obtain ⟨rfl, -⟩ := hworker
        rw [hs']
        exact .inl rfl
    | _ =>
        rw [hpc] at hsignals
        exact Bool.noConfusion hsignals

/-! ## Workers -/

/-- The numbers of the workers. -/
def State.workerNumbers (s : State) : List ℕ :=
  List.range s.workers.length

/-- The worker that moves. -/
def Action.worker? : Action → Option ℕ
  | .worker i _ => some i
  | _ => none

/-- Worker `i` is at `pc`. -/
def State.workerAt (s : State) (i : ℕ) (pc : WorkerPc) : Bool :=
  s.workers[i]?.any fun w => w.pc = pc

/-- Worker `i` is somewhere in `p`. -/
def State.workerIn (s : State) (i : ℕ) (p : WorkerPc → Bool) : Bool :=
  s.workers[i]?.any fun w => p w.pc

/-- The task that a worker has just taken. -/
def WorkerPc.taken? : WorkerPc → Option Task
  | .gotTask t => some t
  | _ => none

/-- The task that a worker takes in the action. -/
def State.taken? (s : State) (a : Action) : Option Task :=
  a.worker?.bind fun i => s.workers[i]?.bind fun w =>
    (workerStep s i w a.choice).bind fun r => r.2.pc.taken?

section

variable {s : State} {a : Action} {i : ℕ}

theorem workerAt_eq_true {pc : WorkerPc} :
    s.workerAt i pc = true ↔ ∃ w, s.workers[i]? = some w ∧ w.pc = pc := by
  unfold State.workerAt
  cases s.workers[i]? <;> simp

theorem workerIn_eq_true {p : WorkerPc → Bool} :
    s.workerIn i p = true ↔ ∃ w, s.workers[i]? = some w ∧ p w.pc = true := by
  unfold State.workerIn
  cases s.workers[i]? <;> simp

theorem worker?_eq_some (ha : a.worker? = some i) :
    ∃ ch, a = .worker i ch := by
  cases a with
  | worker j ch =>
      obtain rfl := Option.some.inj ha
      exact ⟨ch, rfl⟩
  | _ => cases ha

theorem taken?_worker {ch : Choice} {w : Worker}
    (hw : s.workers[i]? = some w) :
    s.taken? (.worker i ch) =
      (workerStep s i w ch).bind fun r => r.2.pc.taken? := by
  simp [State.taken?, Action.worker?, Action.choice, hw]

/-- A worker in a call takes no task. -/
theorem taken?_of_callAt {pc : CallPc}
    (hat : a.caller?.bind s.callAt = some pc) : s.taken? a = none := by
  obtain ⟨who, ha, hat⟩ := Option.bind_eq_some_iff.mp hat
  cases a with
  | worker i ch =>
      obtain rfl := Option.some.inj ha
      obtain ⟨w, hw, hcall⟩ := Option.bind_eq_some_iff.mp hat
      rw [taken?_worker hw, Option.bind_eq_none_iff]
      rintro ⟨s₁, w'⟩ hworker
      obtain ⟨t, hrun⟩ := call?_eq_some.mp hcall
      have hpc' : (∃ t, w'.pc = .returned t) ∨
          ∃ t phase, w'.pc = .running t phase := by
        rcases hrun with hrun | hrun
        all_goals
          simp only [workerStep, hrun] at hworker
          obtain hret | ⟨phase, hphase⟩ := runningStep_pc hworker
          · exact .inl ⟨t, hret⟩
          · exact .inr ⟨t, phase, hphase⟩
      obtain ⟨t, hret⟩ | ⟨t, phase, hphase⟩ := hpc'
      · simp [hret, WorkerPc.taken?]
      · simp [hphase, WorkerPc.taken?]
  | _ => rfl

end

/-! ## The configuration -/

/-- Only `SetMaxQueueSize` changes the configuration. -/
theorem callStep_config {s s' : State} {who : Caller} {ch : Choice}
    {pc pc' : CallPc} (h : callStep s who ch pc = some (s', pc')) :
    s'.config = s.config ∨
      ∃ maxSize, pc = .setMaxQueueSize maxSize ∧
        s'.config = { s.config with maxQueueSize := maxSize } := by
  cases hsignals : pc.signals with
  | false => exact .inl (callStep_signals h hsignals).config
  | true =>
      cases pc with
      | setMaxQueueSize maxSize =>
          obtain ⟨rfl, -⟩ := Prod.mk.inj (Option.some.inj h)
          exact .inr ⟨maxSize, rfl, rfl⟩
      | cancelTask taskId =>
          simp only [callStep, whenFree_eq_some, Prod.mk.injEq] at h
          obtain ⟨-, rfl, -⟩ := h
          unfold cancelTask
          split <;> exact .inl rfl
      | waitHeld | waitAsleep | pause | resume | resumeNotify
      | shutdownNotifyPause =>
          obtain ⟨rfl, -⟩ := Prod.mk.inj (Option.some.inj h)
          exact .inl rfl
      | _ => exact Bool.noConfusion hsignals

theorem step_config {s s' : State} {a : Action} (h : step s a = some s') :
    s'.config = s.config ∨
      ∃ who maxSize, a.caller? = some who ∧
        s.callAt who = some (.setMaxQueueSize maxSize) ∧
          s'.config = { s.config with maxQueueSize := maxSize } := by
  obtain hsame | ⟨f, -, rfl⟩ |
      ⟨who, ch, pc, s₁, pc', ha, hat, -, hcall, hs'⟩ |
      ⟨i, ch, w, s₁, w', -, -, hsignals, hworker, hs'⟩ := step_signals h
  · exact .inl hsame.config
  · exact .inl rfl
  · rw [hs']
    obtain hconfig | ⟨maxSize, rfl, hconfig⟩ := callStep_config hcall
    · exact .inl hconfig
    · exact .inr ⟨who, maxSize, ha, hat, hconfig⟩
  · rw [hs']
    left
    cases hpc : w.pc with
    | pauseHeld | pauseAsleep | notifyFinish =>
        simp only [workerStep, hpc, Option.some.injEq, Prod.mk.injEq]
          at hworker
        obtain ⟨rfl, -⟩ := hworker
        rfl
    | _ =>
        rw [hpc] at hsignals
        exact Bool.noConfusion hsignals

end ThreadPool
end Yacul
