import Yacul.ThreadPool.Effects
import Mathlib.Tactic.MkIffOfInductiveProp

/-!
# The deadline of the delay scheduler

The scheduler computes its deadline once, before it waits: the earliest
pending time, or one interval from now when nothing is pending.  The module
shows that the deadline is in time as long as the earliest task is within the
interval, and no earlier task arrives between the deadline and a wake-up that
finds nothing due.
-/

namespace Yacul
namespace ThreadPool

/-- `delay_scheduler_interval` on the clock. -/
def State.interval (s : State) : ℤ :=
  milliseconds s.config.delaySchedulerInterval

/-- A scheduler that sleeps, with no notification on the way, sleeps at most
until the first pending task and at most for one interval. -/
def WakesInTime (s : State) : Prop :=
  ∀ nextWake since, s.scheduler = some (.asleep nextWake since) →
    s.schedulerSleeps = true → .delayedNotify ∉ s.calls →
      (∀ d ∈ s.delayedTasks, nextWake ≤ d.executeTime) ∧
        nextWake ≤ since + s.interval

/-- Where the scheduler is, if the action is a move of it. -/
def State.schedulerAt (s : State) : Action → Option SchedulerPc
  | .scheduler _ => s.scheduler
  | _ => none

/-- The deadline of a wait whose predicate is tested. -/
def SchedulerPc.deadline? : SchedulerPc → Option ℤ
  | .waitTest nextWake => some nextWake
  | _ => none

/-- A deadline taken from a pending task is within the interval, and a wait
whose predicate fails has no pending task before its deadline. -/
@[mk_iff]
structure SleepsInTime (s : State) (a : Action) : Prop where
  deadline : s.schedulerAt a = some .prepare →
    ∀ t ∈ topTime s, t ≤ s.clock + s.interval
  retest : ∀ nextWake ∈ (s.schedulerAt a).bind SchedulerPc.deadline?,
    s.shutdown = false → taskDue s s.clock = false →
      ∀ d ∈ s.delayedTasks, nextWake ≤ d.executeTime

instance (s : State) (a : Action) : Decidable (SleepsInTime s a) :=
  decidable_of_iff' _ (sleepsInTime_iff s a)

/-- What is known of the deadline at each point of the wait. -/
def DeadlineBound (s : State) : SchedulerPc → Prop
  | .waitTest nextWake => nextWake ≤ s.clock + s.interval
  | .waitHeld nextWake =>
      nextWake ≤ s.clock + s.interval ∧
        ∀ d ∈ s.delayedTasks, nextWake ≤ d.executeTime
  | .asleep nextWake since =>
      since ≤ s.clock ∧ nextWake ≤ since + s.interval ∧
        (s.schedulerSleeps = true → .delayedNotify ∉ s.calls →
          ∀ d ∈ s.delayedTasks, nextWake ≤ d.executeTime)
  | _ => True

/-! ## The other threads -/

/-- What the other threads and the clock do to a wait: a task they add comes
with a notification, and not while the scheduler holds the mutex. -/
structure TimerStep (s s' : State) : Prop where
  clock : s.clock ≤ s'.clock
  interval : s'.interval = s.interval
  scheduler : s'.scheduler = s.scheduler
  held : s.delayedFree = false → s'.delayedTasks ⊆ s.delayedTasks
  asleep : s'.schedulerSleeps = true → .delayedNotify ∉ s'.calls →
    s.schedulerSleeps = true ∧ .delayedNotify ∉ s.calls ∧
      s'.delayedTasks ⊆ s.delayedTasks

theorem DeadlineBound.mono {s s' : State} (h : TimerStep s s')
    {pc : SchedulerPc} (hpc : s.scheduler = some pc)
    (hbound : DeadlineBound s pc) : DeadlineBound s' pc := by
  have hclock := h.clock
  have hinterval := h.interval
  cases pc with
  | waitTest nextWake =>
      simp only [DeadlineBound] at *
      omega
  | waitHeld nextWake =>
      obtain ⟨hdeadline, hpending⟩ := hbound
      have hheld : s.delayedFree = false := by
        simp [State.delayedFree, hpc]
      refine ⟨by omega, fun d hd => hpending d (h.held hheld hd)⟩
  | asleep nextWake since =>
      obtain ⟨hsince, hdeadline, hpending⟩ := hbound
      refine ⟨by omega, by omega, fun hsleeps hnotify d hd => ?_⟩
      obtain ⟨hsleeps₀, hnotify₀, hsub⟩ := h.asleep hsleeps hnotify
      exact hpending hsleeps₀ hnotify₀ d (hsub hd)
  | _ => trivial

/-- What a move of a call does to the wait of the scheduler. -/
theorem CallEffect.timer {s s' : State} {who : Caller} {pc pc' : CallPc}
    (h : CallEffect s who pc s' pc') :
    s'.clock = s.clock ∧ s'.interval = s.interval ∧
      s'.scheduler = s.scheduler ∧
      (s'.schedulerSleeps = true → s.schedulerSleeps = true) ∧
      (s'.delayedTasks ⊆ s.delayedTasks ∨
        s.delayedFree = true ∧ pc' = .delayedNotify) := by
  cases h with
  | quiet hq =>
      refine ⟨hq.clock, ?_, hq.scheduler, ?_, .inl ?_⟩
      · rw [State.interval, State.interval, hq.interval]
      · rw [hq.schedulerSleeps]
        exact id
      · rw [hq.delayedTasks]
        exact List.Subset.refl _
  | enqueue priority =>
      have hsame := (enqueueTask_same s priority).1
      refine ⟨hsame.clock, ?_, hsame.scheduler, ?_, .inl ?_⟩
      · rw [State.interval, State.interval, hsame.interval]
      · rw [hsame.schedulerSleeps]
        exact id
      · rw [hsame.delayedTasks]
        exact List.Subset.refl _
  | insert _ _ _ _ _ _ hfree => exact ⟨rfl, rfl, rfl, id, .inr ⟨hfree, rfl⟩⟩
  | setShutdown now =>
      cases now
      · exact ⟨rfl, rfl, rfl, id, .inl (List.Subset.refl _)⟩
      · exact ⟨rfl, rfl, rfl, id, .inl (List.nil_subset _)⟩
  | wakeScheduler =>
      exact ⟨rfl, rfl, rfl, nofun, .inl (List.Subset.refl _)⟩
  | _ => exact ⟨rfl, rfl, rfl, id, .inl (List.Subset.refl _)⟩

theorem callStep_delayedNotify {s s' : State} {who : Caller} {ch : Choice}
    {pc' : CallPc} (h : callStep s who ch .delayedNotify = some (s', pc')) :
    s'.schedulerSleeps = false := by
  simp only [callStep, Option.some.injEq, Prod.mk.injEq] at h
  rw [← h.1]

/-- The notification of a submission is issued before the call that makes it
goes on. -/
theorem delayedNotify_mem_step {s s' : State} {a : Action}
    (h : step s a = some s') (hsleeps : s'.schedulerSleeps = true)
    (hnotify : .delayedNotify ∉ s'.calls) : .delayedNotify ∉ s.calls := by
  intro hq
  obtain hq' | ⟨who, hwho, hpc⟩ := mem_calls_of_not_moved h hq
  · exact hnotify hq'
  · cases a with
    | client n ch =>
        obtain rfl := Option.some.inj hwho
        obtain ⟨pc, s₁, pc', hpc₁, hcall, rfl⟩ := step_client h
        obtain rfl : .delayedNotify = pc :=
          Option.some.inj (hpc.symm.trans hpc₁)
        have hwoken := callStep_delayedNotify hcall
        simp [hwoken] at hsleeps
    | worker i ch =>
        obtain rfl := Option.some.inj hwho
        obtain ⟨w, s₁, w', hw, hworker, rfl⟩ := step_worker h
        have hwpc : w.call? = some .delayedNotify := by
          simpa [State.callAt, hw] using hpc
        obtain ⟨hdone, -⟩ | ⟨pc', -, hcall⟩ := workerStep_call? hworker hwpc
        · simp at hdone
        · have hwoken := callStep_delayedNotify hcall
          simp [hwoken] at hsleeps
    | _ => simp [Action.caller?] at hwho

theorem timerStep_of_same {s s' : State} {a : Action}
    (h : step s a = some s') (hclock : s.clock ≤ s'.clock)
    (hinterval : s'.interval = s.interval)
    (hscheduler : s'.scheduler = s.scheduler)
    (hsleeps : s'.schedulerSleeps = s.schedulerSleeps)
    (hpending : s'.delayedTasks = s.delayedTasks) : TimerStep s s' where
  clock := hclock
  interval := hinterval
  scheduler := hscheduler
  held _ := by
    rw [hpending]
    exact List.Subset.refl _
  asleep hsleeps' hnotify := by
    refine ⟨hsleeps.symm.trans hsleeps',
      delayedNotify_mem_step h hsleeps' hnotify, ?_⟩
    rw [hpending]
    exact List.Subset.refl _

/-- A step that moves a call keeps the deadline of the scheduler in time. -/
theorem timerStep_of_call {s s' s₁ : State} {a : Action} {who : Caller}
    {ch : Choice} {pc pc' : CallPc} (h : step s a = some s')
    (hcall : callStep s who ch pc = some (s₁, pc')) (hpc' : pc' ∈ s'.calls)
    (hs' : s' = { s₁ with clients := s'.clients, workers := s'.workers }) :
    TimerStep s s' := by
  obtain ⟨hclock, hinterval, hscheduler, hsleeps, hpending⟩ :=
    (callStep_effect hcall).timer
  have hclock' : s'.clock = s₁.clock := by rw [hs']
  have hinterval' : s'.interval = s₁.interval := by rw [hs']; rfl
  have hscheduler' : s'.scheduler = s₁.scheduler := by rw [hs']
  have hsleeps' : s'.schedulerSleeps = s₁.schedulerSleeps := by rw [hs']
  have hpending' : s'.delayedTasks = s₁.delayedTasks := by rw [hs']
  refine ⟨(hclock'.trans hclock).ge, hinterval'.trans hinterval,
    hscheduler'.trans hscheduler, fun hheld => ?_, fun hasleep hnotify => ?_⟩
  · rw [hpending']
    rcases hpending with hsub | ⟨hfree, -⟩
    · exact hsub
    · simp [hheld] at hfree
  · refine ⟨hsleeps (hsleeps'.symm.trans hasleep),
      delayedNotify_mem_step h hasleep hnotify, ?_⟩
    rw [hpending']
    rcases hpending with hsub | ⟨-, rfl⟩
    · exact hsub
    · exact absurd hpc' hnotify

theorem timerStep_of_step {s s' : State} {a : Action}
    (h : step s a = some s') (hother : ∀ ch, a ≠ .scheduler ch) :
    TimerStep s s' := by
  cases a with
  | tick elapsed =>
      obtain rfl := step_tick h
      have hclock : s.clock ≤ s.clock + elapsed :=
        Int.le_add_of_nonneg_right (Int.natCast_nonneg elapsed)
      exact timerStep_of_same h hclock rfl rfl rfl rfl
  | call op =>
      obtain rfl := step_call h
      exact timerStep_of_same h le_rfl rfl rfl rfl rfl
  | client n ch =>
      obtain ⟨pc, s₁, pc', hpc, hcall, rfl⟩ := step_client h
      refine timerStep_of_call h hcall ?_ rfl
      obtain ⟨hlt, -⟩ := List.getElem?_eq_some_iff.mp hpc
      rw [← (callStep_effect hcall).clients] at hlt
      exact mem_calls.mpr (.inl (List.mem_set hlt pc'))
  | worker i ch =>
      obtain ⟨w, s₁, w', hw, hworker, rfl⟩ := step_worker h
      obtain hsame | ⟨pc, pc', hpc, hpc', hcall⟩ :=
        (workerStep_effect hworker).sameControl
      · exact timerStep_of_same h hsame.clock.ge
          (congrArg milliseconds hsame.interval) hsame.scheduler
          hsame.schedulerSleeps hsame.delayedTasks
      · refine timerStep_of_call h hcall ?_ rfl
        obtain ⟨hlt, -⟩ := List.getElem?_eq_some_iff.mp hw
        obtain ⟨ws, hws, -⟩ := (workerStep_effect hworker).workers
        have hlt' : i < s₁.workers.length := by
          rw [hws, List.length_append]
          omega
        exact mem_calls.mpr (.inr ⟨w', List.mem_set hlt' w', hpc'⟩)
  | scheduler ch => exact absurd rfl (hother ch)
  | cancel f =>
      obtain rfl := step_cancel h
      exact timerStep_of_same h le_rfl rfl rfl rfl rfl

/-! ## The scheduler -/

/-- Each move of the scheduler keeps what is known of its deadline. -/
theorem schedulerStep_deadlineBound {s s' : State} {ch : Choice}
    {pc pc' : SchedulerPc} (hpc : s.scheduler = some pc)
    (hbound : DeadlineBound s pc) (hsleeps : SleepsInTime s (.scheduler ch))
    (h : schedulerStep s ch pc = some (s', pc')) :
    DeadlineBound { s' with scheduler := some pc' } pc' := by
  cases pc with
  | prepare =>
      simp only [schedulerStep, Option.some.injEq, Prod.mk.injEq] at h
      obtain ⟨rfl, rfl⟩ := h
      have hdeadline := hsleeps.deadline hpc
      simp only [DeadlineBound]
      cases htop : topTime s with
      | none => exact le_rfl
      | some t => exact hdeadline t htop
  | waitTest nextWake =>
      simp only [schedulerStep, Option.some.injEq, Prod.mk.injEq] at h
      obtain ⟨rfl, rfl⟩ := h
      split
      · trivial
      · rename_i hfail
        obtain ⟨hopen, hdue⟩ : s.shutdown = false ∧
            taskDue s s.clock = false := by simpa using hfail
        have hpending := hsleeps.retest nextWake
          (by simp [State.schedulerAt, hpc, SchedulerPc.deadline?]) hopen hdue
        exact ⟨hbound, hpending⟩
  | waitHeld nextWake =>
      simp only [schedulerStep, Option.some.injEq, Prod.mk.injEq] at h
      obtain ⟨rfl, rfl⟩ := h
      exact ⟨le_rfl, hbound.1, fun _ _ => hbound.2⟩
  | asleep nextWake since =>
      simp only [schedulerStep, Option.some.injEq, Prod.mk.injEq] at h
      obtain ⟨rfl, rfl⟩ := h
      obtain ⟨hsince, hdeadline, -⟩ := hbound
      split
      · trivial
      · exact hdeadline.trans (Int.add_le_add_right hsince _)
  | collect now ready =>
      simp only [schedulerStep] at h
      split at h
      · obtain ⟨⟨d, s₁⟩, -, hmove⟩ := Option.map_eq_some_iff.mp h
        unfold collectReady at hmove
        split at hmove <;> obtain ⟨rfl, rfl⟩ := Prod.mk.inj hmove
        all_goals trivial
      · simp only [Option.some.injEq, Prod.mk.injEq] at h
        obtain ⟨rfl, rfl⟩ := h
        split <;> trivial
  | notify count =>
      simp only [schedulerStep] at h
      split at h
      · simp only [Option.map_eq_some_iff, Prod.mk.injEq] at h
        obtain ⟨s₁, -, rfl, rfl⟩ := h
        trivial
      · simp only [Option.some.injEq, Prod.mk.injEq] at h
        obtain ⟨rfl, rfl⟩ := h
        trivial
  | push ready =>
      simp only [schedulerStep, whenFree_eq_some, Prod.mk.injEq] at h
      obtain ⟨-, rfl, rfl⟩ := h
      trivial
  | test =>
      simp only [schedulerStep, Option.some.injEq, Prod.mk.injEq] at h
      obtain ⟨rfl, rfl⟩ := h
      split <;> trivial
  | process | lock now =>
      simp only [schedulerStep, Option.some.injEq, Prod.mk.injEq] at h
      obtain ⟨rfl, rfl⟩ := h
      trivial
  | exited => exact absurd h (by simp [schedulerStep])

/-- What is known of the scheduler where it starts, and is kept by the other
threads and by its own moves, is known in every run. -/
theorem ReachableVia.scheduler_invariant
    {allowed : State → Action → Prop} {P : State → SchedulerPc → Prop}
    (hinit : ∀ s, P s .test)
    (hother : ∀ s s' pc, TimerStep s s' → s.scheduler = some pc → P s pc →
      P s' pc)
    (hmove : ∀ s s' ch pc pc', s.scheduler = some pc → P s pc →
      allowed s (.scheduler ch) → schedulerStep s ch pc = some (s', pc') →
      P { s' with scheduler := some pc' } pc')
    {s : State} (hs : ReachableVia allowed s) :
    ∀ pc, s.scheduler = some pc → P s pc := by
  apply hs.invariant (I := fun s => ∀ pc, s.scheduler = some pc → P s pc)
  · rintro s ⟨c, clock, rfl⟩ pc hpc
    obtain rfl : pc = .test := by
      simp only [construct] at hpc
      split at hpc
      · exact (Option.some.inj hpc).symm
      · simp at hpc
    exact hinit _
  · intro s a s' hI hallowed h pc' hpc'
    by_cases hnot : ∀ ch, a ≠ .scheduler ch
    · have htimer := timerStep_of_step h hnot
      have hpc : s.scheduler = some pc' := htimer.scheduler.symm.trans hpc'
      exact hother s s' pc' htimer hpc (hI pc' hpc)
    · push Not at hnot
      obtain ⟨ch, rfl⟩ := hnot
      obtain ⟨pc, s₁, pc₁, hpc, hsched, rfl⟩ := step_scheduler h
      obtain rfl := Option.some.inj hpc'
      exact hmove s s₁ ch pc pc₁ hpc (hI pc hpc) hallowed hsched

/-- In runs whose waits start in time, the scheduler wakes in time. -/
theorem reachable_wakesInTime {s : State}
    (hs : ReachableVia SleepsInTime s) : WakesInTime s := by
  have hbound : ∀ pc, s.scheduler = some pc → DeadlineBound s pc := by
    apply hs.scheduler_invariant (P := DeadlineBound)
    · intro s
      trivial
    · intro s s' pc htimer hpc hbound
      exact hbound.mono htimer hpc
    · intro s s' ch pc pc' hpc hbound hsleeps hsched
      exact schedulerStep_deadlineBound hpc hbound hsleeps hsched
  intro nextWake since hpc hasleep hnotify
  obtain ⟨-, hdeadline, hpending⟩ := hbound _ hpc
  exact ⟨hpending hasleep hnotify, hdeadline⟩

/-- A pool with a delay scheduler, which looks up every 10 ms. -/
def delayConfig : CheckedConfig :=
  { pairConfig with
    config := { pairConfig.config with enableDelayedTasks := true } }

/-- A client submits a task with a delay, in milliseconds. -/
def submitsDelayed (client : ℕ) (delay : ℤ) : List Action :=
  [.call (.submitDelayed delay .kNormal), .client client {},
    .client client {}, .client client {}]

/-- The scheduler looks for ready tasks, finds none and goes to sleep. -/
def fallsAsleep : List Action :=
  List.replicate 7 (.scheduler {})

theorem shortDelay_runs :
    (Transition.run step (construct delayConfig 0)
      (submitsDelayed 0 5 ++ fallsAsleep)).isSome := by
  decide

theorem reachable_wakesInTime_shortDelay :
    WakesInTime ((Transition.run step (construct delayConfig 0)
      (submitsDelayed 0 5 ++ fallsAsleep)).get shortDelay_runs) := by
  apply reachable_wakesInTime
  exact (construct_reachableVia _ delayConfig 0).run
    (by decide) (Option.some_get shortDelay_runs).symm

/-- A task is due in an hour.  While the scheduler sleeps until then, a second
task arrives that is due in 5 ms; its notification wakes the scheduler, which
finds nothing due and goes back to sleep with the old deadline. -/
def missesTask : List Action :=
  submitsDelayed 0 3600000 ++ fallsAsleep ++ submitsDelayed 1 5 ++
    List.replicate 3 (Action.scheduler {})

theorem missesTask_runs :
    (Transition.run step (construct delayConfig 0) missesTask).isSome := by
  decide

/-- A reachable state in which the scheduler sleeps past a pending task and
for longer than its interval. -/
theorem exists_lateWake :
    ¬ ∀ s, ReachableVia (fun _ _ => True) s → WakesInTime s := by
  intro hall
  have hreach := (construct_reachableVia (fun _ _ => True) delayConfig 0).run
    (by decide) (Option.some_get missesTask_runs).symm
  have hwakes := hall _ hreach 3600000000000 0 (by decide) (by decide)
    (by decide)
  exact absurd hwakes (by decide)

end ThreadPool
end Yacul
