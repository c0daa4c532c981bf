import Yacul.ThreadPool.DelayScheduler

/-!
# Submitting at a point in time

`SubmitAt` turns the time point into a delay in whole milliseconds, rounded
down, and the call it goes on to adds the delay to a later reading of the
clock.  So the task is in time only if the clock has made up for what was cut
off.  The scheduler itself never takes a task before its execute time.
-/

namespace Yacul
namespace ThreadPool

/-! ## Time points -/

/-- What fits in the representation of durations and time points. -/
def InRange (n : ℤ) : Prop := -2 ^ 63 ≤ n ∧ n < 2 ^ 63

instance (n : ℤ) : Decidable (InRange n) :=
  inferInstanceAs (Decidable (_ ∧ _))

/-- A signed result; an overflow is undefined. -/
def signed (n : ℤ) : Option ℤ := if InRange n then some n else none

/-- `duration_cast<milliseconds>`. -/
def toMilliseconds (n : ℤ) : ℤ := n.tdiv 1000000

/-- `SubmitAtWithPriority` at the reading `now`, up to the call it goes on
to. -/
def submitAt (time now : ℤ) (priority : TaskPriority) : Option Call :=
  if time ≤ now then some (.submit priority)
  else
    (signed (time - now)).map fun d =>
      .submitDelayed (toMilliseconds d) priority

/-- The `execute_time` that `SubmitDelayedWithPriority` computes at the
reading `now`. -/
def executeTime (now delay : ℤ) : Option ℤ :=
  (signed (milliseconds delay)).bind fun d => signed (now + d)

/-- The `execute_time` of a task given to `SubmitAt`, by the readings of the
two functions. -/
def queuedTime (time now₁ now₂ : ℤ) (priority : TaskPriority) : Option ℤ :=
  (submitAt time now₁ priority).bind fun call =>
    match call with
    | .submitDelayed delay _ => executeTime now₂ delay
    | _ => none

theorem signed_eq_some {n m : ℤ} : signed n = some m ↔ InRange n ∧ n = m := by
  simp [signed]

/-- Back in nanoseconds, the fraction of a millisecond is gone. -/
theorem milliseconds_toMilliseconds {n : ℤ} (hn : 0 ≤ n) :
    milliseconds (toMilliseconds n) = n - n % 1000000 := by
  rw [milliseconds, toMilliseconds, Int.tdiv_eq_ediv_of_nonneg hn]
  omega

section Queued

variable {time now₁ now₂ : ℤ} {priority : TaskPriority}

theorem queuedTime_eq_some {t : ℤ} (hfuture : now₁ < time) :
    queuedTime time now₁ now₂ priority = some t ↔
      InRange (time - now₁) ∧
        InRange (time - now₁ - (time - now₁) % 1000000) ∧
        InRange t ∧
          now₂ + (time - now₁ - (time - now₁) % 1000000) = t := by
  have hdelay := milliseconds_toMilliseconds (n := time - now₁) (by omega)
  rw [queuedTime, submitAt, if_neg (not_le.mpr hfuture)]
  by_cases hrange : InRange (time - now₁)
  · have hsigned : signed (time - now₁) = some (time - now₁) :=
      signed_eq_some.mpr ⟨hrange, rfl⟩
    simp only [hsigned, Option.map_some, Option.bind_some, executeTime,
      hdelay, Option.bind_eq_some_iff, signed_eq_some, hrange, true_and]
    constructor
    · rintro ⟨d, ⟨hd, rfl⟩, ht, rfl⟩
      exact ⟨hd, ht, rfl⟩
    · rintro ⟨hd, ht, rfl⟩
      exact ⟨_, ⟨hd, rfl⟩, ht, rfl⟩
  · have hsigned : signed (time - now₁) = none := if_neg hrange
    simp [hsigned, hrange]

/-- The task is queued for the time point or later exactly when the sums fit
and the clock has gone on by at least the fraction of a millisecond that was
cut off. -/
theorem queuedTime_le_iff (priority : TaskPriority) (hnow : InRange now₁)
    (hread : now₁ ≤ now₂) (hfuture : now₁ < time) :
    (∃ t, queuedTime time now₁ now₂ priority = some t ∧ time ≤ t) ↔
      time - now₁ < 2 ^ 63 ∧
        (time - now₁) % 1000000 ≤ now₂ - now₁ ∧
        now₂ + (time - now₁ - (time - now₁) % 1000000) < 2 ^ 63 := by
  simp only [queuedTime_eq_some hfuture]
  generalize hd : time - now₁ = d
  simp only [InRange] at *
  constructor
  · rintro ⟨t, ⟨hdiff, -, ht, rfl⟩, hle⟩
    omega
  · rintro ⟨hdiff, hcut, hsum⟩
    exact ⟨_, ⟨by omega, by omega, by omega, rfl⟩, by omega⟩

end Queued

/-! ## In the pool -/

/-- `SubmitAt`, called in `s₁`, goes on in `s₂` to queue its task for `time` or
later. -/
def QueuesInTime (s₁ s₂ : State) (time : ℤ) (priority : TaskPriority) : Prop :=
  ∃ call t, submitAt time s₁.clock priority = some call ∧
    queuedTime time s₁.clock s₂.clock priority = some t ∧ time ≤ t ∧
    ∀ who ch, callStep s₂ who ch (startCall s₁ call) = some (newTaskId s₂,
      .delayedInsert t priority s₂.nextTaskId s₂.flags.length .user)

/-- What the scheduler has collected was due by the reading it goes by, and
the clock is not behind that. -/
def CollectsDue (s : State) : SchedulerPc → Prop
  | .lock now => now ≤ s.clock
  | .collect now ready =>
      now ≤ s.clock ∧ ∀ d ∈ ready, d.executeTime ≤ now
  | .push ready => ∀ d ∈ ready, d.executeTime ≤ s.clock
  | _ => True

section Pool

variable {s s' s₁ s₂ : State} {a : Action} {ch : Choice}
  {pc pc' : SchedulerPc} {call : Call} {priority : TaskPriority}
  {time t : ℤ}

/-- The pool queues the task with the execute time that was computed. -/
theorem callStep_submitAt
    (henabled : s₂.config.enableDelayedTasks = true)
    (hcall : submitAt time s₁.clock priority = some call)
    (htime : queuedTime time s₁.clock s₂.clock priority = some t)
    (who : Caller) (ch : Choice) :
    callStep s₂ who ch (startCall s₁ call) = some (newTaskId s₂,
      .delayedInsert t priority s₂.nextTaskId s₂.flags.length .user) := by
  simp only [queuedTime, hcall, Option.bind_some] at htime
  unfold submitAt at hcall
  split at hcall
  · obtain rfl := Option.some.inj hcall
    cases htime
  · obtain ⟨d, -, rfl⟩ := Option.map_eq_some_iff.mp hcall
    simp only [executeTime, Option.bind_eq_some_iff, signed_eq_some] at htime
    obtain ⟨_, ⟨-, rfl⟩, -, rfl⟩ := htime
    simp only [startCall, callStep, henabled, if_true]

theorem CollectsDue.mono (h : CollectsDue s pc) (hclock : s.clock ≤ s'.clock) :
    CollectsDue s' pc := by
  cases pc with
  | lock now => exact le_trans h hclock
  | collect now ready => exact ⟨h.1.trans hclock, h.2⟩
  | push ready => exact fun d hd => (h d hd).trans hclock
  | _ => trivial

/-- The task that is popped is the earliest one. -/
theorem popDelayed_due {k : ℕ} {now : ℤ} {d : DelayedTask}
    (hdue : taskDue s now = true) (h : popDelayed s k = some (d, s')) :
    d.executeTime ≤ now ∧ s'.clock = s.clock := by
  simp only [taskDue, Option.any_eq_true_iff_get, decide_eq_true_eq] at hdue
  obtain ⟨hsome, hle⟩ := hdue
  have hmem := List.min?_mem (Option.some_get hsome).symm
  obtain ⟨earliest, hearliest, heq⟩ := List.mem_map.mp hmem
  rw [← heq] at hle
  unfold popDelayed at h
  split at h
  · cases h
  · next top _ =>
    split at h
    · next hfirst =>
      obtain ⟨rfl, rfl⟩ := Prod.mk.inj (Option.some.inj h)
      refine ⟨le_trans ?_ hle, rfl⟩
      have hnot := List.all_eq_true.mp hfirst earliest hearliest
      by_contra hlt
      have hne : top.executeTime ≠ earliest.executeTime := by omega
      simp only [DelayedTask.before, if_pos hne, Bool.not_eq_true',
        decide_eq_false_iff_not] at hnot
      omega
    · cases h

/-- A move of the scheduler takes no task before its execute time. -/
theorem schedulerStep_collectsDue (hdue : CollectsDue s pc)
    (h : schedulerStep s ch pc = some (s', pc')) :
    CollectsDue { s' with scheduler := some pc' } pc' := by
  cases pc with
  | process =>
      obtain ⟨rfl, rfl⟩ := Prod.mk.inj (Option.some.inj h)
      exact le_rfl
  | lock now =>
      obtain ⟨rfl, rfl⟩ := Prod.mk.inj (Option.some.inj h)
      exact ⟨hdue, nofun⟩
  | collect now ready =>
      obtain ⟨hnow, hready⟩ := hdue
      simp only [schedulerStep] at h
      split at h
      · next htaskDue =>
        obtain ⟨⟨d, s₁⟩, hpop, hmove⟩ := Option.map_eq_some_iff.mp h
        obtain ⟨hd, hclock⟩ := popDelayed_due htaskDue hpop
        have hnow₁ : now ≤ s₁.clock := hnow.trans hclock.ge
        unfold collectReady at hmove
        split at hmove
        · obtain ⟨rfl, rfl⟩ := Prod.mk.inj hmove
          exact ⟨hnow₁, hready⟩
        · obtain ⟨rfl, rfl⟩ := Prod.mk.inj hmove
          refine ⟨hnow₁, fun e he => ?_⟩
          rcases List.mem_append.mp he with he | he
          · exact hready e he
          · exact List.mem_singleton.mp he ▸ hd
      · obtain ⟨rfl, rfl⟩ := Prod.mk.inj (Option.some.inj h)
        split
        · trivial
        · exact fun d hd => (hready d hd).trans hnow
  | notify count =>
      simp only [schedulerStep] at h
      split at h
      · simp only [Option.map_eq_some_iff, Prod.mk.injEq] at h
        obtain ⟨s₁, -, rfl, rfl⟩ := h
        trivial
      · obtain ⟨rfl, rfl⟩ := Prod.mk.inj (Option.some.inj h)
        trivial
  | push ready =>
      simp only [schedulerStep, whenFree_eq_some, Prod.mk.injEq] at h
      obtain ⟨-, rfl, rfl⟩ := h
      trivial
  | test | waitTest nextWake | asleep nextWake since =>
      obtain ⟨rfl, rfl⟩ := Prod.mk.inj (Option.some.inj h)
      split <;> trivial
  | prepare | waitHeld nextWake =>
      obtain ⟨rfl, rfl⟩ := Prod.mk.inj (Option.some.inj h)
      trivial
  | exited => cases h

/-- Whatever the pool does, the scheduler holds only tasks that are due. -/
theorem reachable_collectsDue {allowed : State → Action → Prop}
    (hs : ReachableVia allowed s) (hpc : s.scheduler = some pc) :
    CollectsDue s pc := by
  have hinv : ∀ pc, s.scheduler = some pc → CollectsDue s pc := by
    apply hs.scheduler_invariant (P := CollectsDue)
    · intro s
      trivial
    · intro s s' pc htimer _ hdue
      exact hdue.mono htimer.clock
    · intro s s' ch pc pc' _ hdue _ hsched
      exact schedulerStep_collectsDue hdue hsched
  exact hinv pc hpc

/-- A task given to `SubmitAt` before its time is queued for that time or
later exactly when the sums fit and the clock has gone on by the fraction of
a millisecond that was cut off; and a task queued for a time or later does
not reach the run queue before it. -/
theorem submitAt_inTime_iff (hnow : InRange s₁.clock)
    (hread : s₁.clock ≤ s₂.clock) (hfuture : s₁.clock < time)
    (henabled : s₂.config.enableDelayedTasks = true) :
    (QueuesInTime s₁ s₂ time priority ↔
      time - s₁.clock < 2 ^ 63 ∧
        (time - s₁.clock) % 1000000 ≤ s₂.clock - s₁.clock ∧
        s₂.clock + (time - s₁.clock - (time - s₁.clock) % 1000000) <
          2 ^ 63) ∧
      ∀ s, ReachableVia (fun _ _ => True) s → ∀ ready,
        s.scheduler = some (.push ready) →
          ∀ d ∈ ready, time ≤ d.executeTime → time ≤ s.clock := by
  constructor
  · rw [← queuedTime_le_iff priority hnow hread hfuture]
    constructor
    · rintro ⟨call, t, -, htime, hle, -⟩
      exact ⟨t, htime, hle⟩
    · rintro ⟨t, htime, hle⟩
      obtain ⟨call, hcall, -⟩ := Option.bind_eq_some_iff.mp htime
      exact ⟨call, t, hcall, htime, hle,
        callStep_submitAt henabled hcall htime⟩
  · intro s hs ready hpc d hd hle
    exact hle.trans (reachable_collectsDue hs hpc d hd)

end Pool

/-- The clock goes on by half a millisecond between the readings. -/
theorem submitAt_inTime_iff_half :
    QueuesInTime (construct delayConfig 0) (construct delayConfig 500000)
      1500000 .kNormal :=
  (submitAt_inTime_iff (by decide) (by decide) (by decide) rfl).1.mpr
    (by decide)

/-- Both readings are the same: a task for 1.5 ms is queued for 1 ms. -/
theorem exists_submitAt_early :
    ¬ ∀ (s₁ s₂ : State) time priority, InRange s₁.clock → InRange s₂.clock →
      InRange time → s₁.clock ≤ s₂.clock → s₁.clock < time →
      s₂.config.enableDelayedTasks = true →
      QueuesInTime s₁ s₂ time priority := by
  intro hall
  obtain ⟨call, t, -, htime, hle, -⟩ := hall (construct delayConfig 0)
    (construct delayConfig 0) 1500000 .kNormal (by decide) (by decide)
    (by decide) (by decide) (by decide) rfl
  obtain rfl : 1000000 = t := Option.some.inj (Eq.trans (by decide) htime)
  exact absurd hle (by decide)

end ThreadPool
end Yacul
