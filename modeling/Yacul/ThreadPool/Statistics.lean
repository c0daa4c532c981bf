import Mathlib.Tactic.MkIffOfInductiveProp
import Yacul.ThreadPool.FlowLedger
import Yacul.ThreadPool.Signals

/-!
# The statistics of the thread pool

The wrapper of a submission counts a completed task whenever
`std::packaged_task` returns, and that does not propagate what the callable
throws.  The body of a recurring task counts its callable itself, and its
wrapper counts again.  So the counters follow the outcomes of the user's
callables only when no callable outside a recurring task throws and no
recurring task runs.
-/

namespace Yacul
namespace ThreadPool

/-! ## Outcomes of the callables -/

/-- The callables of users that have returned and thrown; those that have
thrown outside a recurring task; and the runs of recurring bodies. -/
structure Outcomes where
  returned : ℕ := 0
  threw : ℕ := 0
  threwOnce : ℕ := 0
  recurringRuns : ℕ := 0
deriving DecidableEq, Repr

/-- The callable of the task ends. -/
def Outcomes.ended (o : Outcomes) (t : Task) (throws : Bool) : Outcomes :=
  if throws then
    { o with
      threw := o.threw + 1
      threwOnce := o.threwOnce + if t.recurring?.isSome then 0 else 1 }
  else { o with returned := o.returned + 1 }

/-- A wrapper has run its task. -/
def Outcomes.ran (o : Outcomes) (t : Task) : Outcomes :=
  { o with
    recurringRuns := o.recurringRuns + if t.recurring?.isSome then 1 else 0 }

/-- What a move of the worker adds. -/
def Worker.outcome (w : Worker) (ch : Choice) (o : Outcomes) : Outcomes :=
  match w.pc with
  | .running t .user =>
      match ch.call with
      | some _ => o
      | none => o.ended t ch.throws
  | .returned t => o.ran t
  | _ => o

/-- The observer of the outcomes. -/
def observeOutcomes (s : State) (a : Action) (o : Outcomes) : Outcomes :=
  match a with
  | .worker i ch => s.workers[i]?.elim o fun w => w.outcome ch o
  | _ => o

/-- The action is the section of `ResetStats`. -/
def State.resets (s : State) (a : Action) : Bool :=
  (a.caller?.bind s.callAt).any fun pc => pc = .resetStats

/-- A run without `ResetStats`. -/
def KeepsStats (x : State × Outcomes) (a : Action) : Prop :=
  x.1.resets a = false

instance (x : State × Outcomes) (a : Action) : Decidable (KeepsStats x a) := by
  unfold KeepsStats
  exact inferInstance

/-- The pool, watched. -/
abbrev stepOutcomes : State × Outcomes → Action → Option (State × Outcomes) :=
  Transition.watch step observeOutcomes

/-- A pool starts without outcomes. -/
def initialOutcomes : Set (State × Outcomes) :=
  { x | x.1 ∈ initial ∧ x.2 = {} }

/-- The wrapper is between its two changes of `active_threads`. -/
def Stage.active : Stage → Bool
  | .counted _ => true
  | _ => false

/-- No task is active. -/
def State.idle (s : State) : Prop :=
  ∀ w ∈ s.workers, w.stage.active = false

instance (s : State) : Decidable s.idle := by
  unfold State.idle
  exact inferInstance

/-- The counters are the numbers of callables that have returned and thrown. -/
@[mk_iff]
structure CountsOutcomes (s : State) (o : Outcomes) : Prop where
  completed : s.stats.tasksCompleted = UInt64.ofNat o.returned
  failed : s.stats.tasksFailed = UInt64.ofNat o.threw

instance (s : State) (o : Outcomes) : Decidable (CountsOutcomes s o) :=
  decidable_of_iff' _ (countsOutcomes_iff s o)

/-! ## Moves that count nothing -/

/-- The counters of outcomes. -/
structure SameCounts (s s' : State) : Prop where
  completed : s'.stats.tasksCompleted = s.stats.tasksCompleted
  failed : s'.stats.tasksFailed = s.stats.tasksFailed
  cancelled : s'.stats.tasksCancelled = s.stats.tasksCancelled

theorem SameCounts.trans {s₁ s₂ s₃ : State} (h : SameCounts s₁ s₂)
    (h' : SameCounts s₂ s₃) : SameCounts s₁ s₃ where
  completed := h'.completed.trans h.completed
  failed := h'.failed.trans h.failed
  cancelled := h'.cancelled.trans h.cancelled

theorem pushTask_counts (s : State) (priority : TaskPriority) (t : Task) :
    SameCounts s (pushTask s priority t) := by
  unfold pushTask
  dsimp only
  split <;> exact ⟨rfl, rfl, rfl⟩

theorem pushReady_counts (ready : List DelayedTask) (s : State) :
    SameCounts s
      (ready.foldl (fun s d => pushTask s d.priority d.task) s) := by
  induction ready generalizing s with
  | nil => exact ⟨rfl, rfl, rfl⟩
  | cons d ready ih =>
      exact (pushTask_counts s d.priority d.task).trans (ih _)

section

variable {s s' s₁ : State} {who : Caller} {i : ℕ} {w w' : Worker}
  {ch : Choice}

theorem notifyOne_counts {k : ℕ} (h : notifyOne s k = some s') :
    SameCounts s s' := by
  unfold notifyOne at h
  split at h
  · obtain rfl := Option.some.inj h
    exact ⟨rfl, rfl, rfl⟩
  · split at h
    · obtain rfl := Option.some.inj h
      exact ⟨rfl, rfl, rfl⟩
    · cases h

/-- Of the calls only `ResetStats` changes the counters. -/
theorem callStep_counts {pc pc' : CallPc}
    (h : callStep s who ch pc = some (s', pc')) (hpc : pc ≠ .resetStats) :
    SameCounts s s' := by
  cases pc with
  | enqueueTask priority =>
      simp only [callStep, whenFree_eq_some] at h
      obtain ⟨-, h⟩ := h
      split at h
      · obtain ⟨rfl, -⟩ := Prod.mk.inj h
        exact ⟨rfl, rfl, rfl⟩
      · split at h
        · obtain ⟨rfl, -⟩ := Prod.mk.inj h
          exact ⟨rfl, rfl, rfl⟩
        · obtain ⟨rfl, -⟩ := Prod.mk.inj h
          have hpush := pushTask_counts s priority ⟨s.accepted, .immediate⟩
          exact ⟨hpush.completed, hpush.failed, hpush.cancelled⟩
  | notifyOne =>
      simp only [callStep, Option.map_eq_some_iff, Prod.mk.injEq] at h
      obtain ⟨s₁, hs₁, rfl, -⟩ := h
      exact notifyOne_counts hs₁
  | delayedPrepare | recurringPrepare =>
      simp only [callStep, Option.some.injEq] at h
      split at h
      all_goals
        obtain ⟨rfl, -⟩ := Prod.mk.inj h
        exact ⟨rfl, rfl, rfl⟩
  | delayedInsert | waitTest =>
      simp only [callStep, whenFree_eq_some] at h
      obtain ⟨-, h⟩ := h
      split at h
      all_goals
        obtain ⟨rfl, -⟩ := Prod.mk.inj h
        exact ⟨rfl, rfl, rfl⟩
  | cancelTask taskId =>
      simp only [callStep, whenFree_eq_some, Prod.mk.injEq] at h
      obtain ⟨-, rfl, -⟩ := h
      unfold cancelTask
      split <;> exact ⟨rfl, rfl, rfl⟩
  | shutdownSet now =>
      simp only [callStep, whenFree_eq_some, Prod.mk.injEq] at h
      obtain ⟨-, rfl, -⟩ := h
      cases now <;> exact ⟨rfl, rfl, rfl⟩
  | join k =>
      simp only [callStep] at h
      split at h
      · obtain ⟨rfl, -⟩ := Prod.mk.inj (Option.some.inj h)
        exact ⟨rfl, rfl, rfl⟩
      · split at h
        · obtain ⟨rfl, -⟩ := Prod.mk.inj (Option.some.inj h)
          exact ⟨rfl, rfl, rfl⟩
        · simp only [whenFree_eq_some, Prod.mk.injEq] at h
          obtain ⟨-, rfl, -⟩ := h
          exact ⟨rfl, rfl, rfl⟩
  | expandThreads | addThread | recurringRegister | joinScheduler
  | lockThreads | resizeLog | resizeGrow | resizeShrink | resizeNotify
  | getThreadCount =>
      simp only [callStep, whenFree_eq_some, Prod.mk.injEq] at h
      obtain ⟨-, rfl, -⟩ := h
      exact ⟨rfl, rfl, rfl⟩
  | resetStats => exact absurd rfl hpc
  | done => cases h
  | _ =>
      obtain ⟨rfl, -⟩ := Prod.mk.inj (Option.some.inj h)
      exact ⟨rfl, rfl, rfl⟩

/-- The scheduler counts the tasks it drops. -/
theorem schedulerStep_counts {pc pc' : SchedulerPc}
    (h : schedulerStep s ch pc = some (s', pc')) :
    s'.stats.tasksCompleted = s.stats.tasksCompleted ∧
      s'.stats.tasksFailed = s.stats.tasksFailed ∧
        s'.stats.tasksCancelled = s.stats.tasksCancelled + UInt64.ofNat
          ((s.schedulerEvent ch pc).counted s.flags).card := by
  have hzero : ∀ {s₁ : State}, SameCounts s s₁ →
      s₁.stats.tasksCompleted = s.stats.tasksCompleted ∧
        s₁.stats.tasksFailed = s.stats.tasksFailed ∧
          s₁.stats.tasksCancelled =
            s.stats.tasksCancelled + UInt64.ofNat 0 := by
    intro s₁ hsame
    refine ⟨hsame.completed, hsame.failed, ?_⟩
    rw [hsame.cancelled]
    exact (UInt64.add_zero _).symm
  cases pc with
  | collect now ready =>
      simp only [schedulerStep] at h
      simp only [State.schedulerEvent]
      split at h
      · next hdue =>
          simp only [Option.map_eq_some_iff] at h
          obtain ⟨⟨d, s₂⟩, hpop, h⟩ := h
          simp only [if_pos hdue, hpop]
          obtain ⟨-, rfl⟩ := popDelayed_some hpop
          unfold collectReady at h
          split at h
          · next hset =>
              rw [if_pos hset]
              obtain ⟨rfl, -⟩ := Prod.mk.inj h
              exact ⟨rfl, rfl, rfl⟩
          · next hset =>
              rw [if_neg hset]
              obtain ⟨rfl, -⟩ := Prod.mk.inj h
              exact hzero ⟨rfl, rfl, rfl⟩
      · next hdue =>
          rw [if_neg hdue]
          obtain ⟨rfl, -⟩ := Prod.mk.inj (Option.some.inj h)
          exact hzero ⟨rfl, rfl, rfl⟩
  | push ready =>
      simp only [schedulerStep, whenFree_eq_some, Prod.mk.injEq] at h
      obtain ⟨-, rfl, -⟩ := h
      exact hzero (pushReady_counts ready s)
  | notify count =>
      simp only [schedulerStep] at h
      split at h
      · simp only [Option.map_eq_some_iff, Prod.mk.injEq] at h
        obtain ⟨s₁, hs₁, rfl, -⟩ := h
        exact hzero (notifyOne_counts hs₁)
      · obtain ⟨rfl, -⟩ := Prod.mk.inj (Option.some.inj h)
        exact hzero ⟨rfl, rfl, rfl⟩
  | exited => cases h
  | _ =>
      obtain ⟨rfl, -⟩ := Prod.mk.inj (Option.some.inj h)
      exact hzero ⟨rfl, rfl, rfl⟩

/-- A worker that is not in a wrapper counts nothing. -/
theorem workerStep_counts (h : workerStep s i w ch = some (s₁, w'))
    (hpc : w.stage = .free ∨ (∃ t, w.pc = .gotTask t) ∨
      (∃ t, w.pc = .count t) ∨ ∃ t, w.pc = .uncount t) :
    SameCounts s s₁ := by
  cases hw : w.pc with
  | sharedQueue =>
      simp only [workerStep, hw, Option.ite_none_left_eq_some,
        Option.map_eq_some_iff, Prod.mk.injEq] at h
      obtain ⟨-, ⟨t, s₂⟩, hdeq, rfl, -⟩ := h
      cases t with
      | none =>
          obtain rfl := dequeueTask_none hdeq
          exact ⟨rfl, rfl, rfl⟩
      | some t =>
          obtain ⟨p, -, -, rfl⟩ | ⟨rest, -, rfl⟩ := dequeueTask_some hdeq
          · exact ⟨rfl, rfl, rfl⟩
          · exact ⟨rfl, rfl, rfl⟩
  | wrapper t | running t phase | returned t =>
      simp [hw, Worker.stage] at hpc
  | localQueue | steal =>
      simp only [workerStep, hw, whenFree_eq_some] at h
      obtain ⟨-, h⟩ := h
      split at h
      · next t s₂ htask =>
          obtain ⟨rfl, -⟩ := Prod.mk.inj h
          first
            | rw [popLocal_some htask]
            | obtain ⟨slot, htask⟩ := stealTask_some htask
              rw [popLocal_some htask]
          exact ⟨rfl, rfl, rfl⟩
      · obtain ⟨rfl, -⟩ := Prod.mk.inj h
        exact ⟨rfl, rfl, rfl⟩
  | exited => simp only [workerStep, hw, reduceCtorEq] at h
  | pauseTest | idleCheck | idleRetest =>
      simp only [workerStep, hw, whenFree_eq_some] at h
      obtain ⟨-, h⟩ := h
      split at h
      all_goals
        obtain ⟨rfl, -⟩ := Prod.mk.inj h
        exact ⟨rfl, rfl, rfl⟩
  | retire =>
      simp only [workerStep, hw, whenFree_eq_some, Prod.mk.injEq] at h
      obtain ⟨-, rfl, -⟩ := h
      exact ⟨rfl, rfl, rfl⟩
  | _ =>
      simp only [workerStep, hw, Option.some.injEq, Prod.mk.injEq] at h
      obtain ⟨rfl, -⟩ := h
      exact ⟨rfl, rfl, rfl⟩

/-! ## Outcomes and counters -/

/-- A callable outside a recurring task has ended and the wrapper has not
counted it. -/
def Worker.uncounted (w : Worker) : ℕ :=
  match w.pc with
  | .returned t | .running t (.reschedule _) =>
      if t.recurring?.isSome then 0 else 1
  | _ => 0

/-- The counters with `n` outcomes that are to be counted. -/
structure Tallied (s : State) (n : ℕ) (o : Outcomes) : Prop where
  completed : s.stats.tasksCompleted + UInt64.ofNat n =
    UInt64.ofNat (o.returned + o.threwOnce + o.recurringRuns)
  failed : s.stats.tasksFailed + UInt64.ofNat o.threwOnce =
    UInt64.ofNat o.threw

theorem Tallied.congr {n : ℕ} {o : Outcomes} (hs : Tallied s n o)
    (hcompleted : s'.stats.tasksCompleted = s.stats.tasksCompleted)
    (hfailed : s'.stats.tasksFailed = s.stats.tasksFailed) :
    Tallied s' n o := by
  constructor
  · rw [hcompleted]
    exact hs.completed
  · rw [hfailed]
    exact hs.failed

theorem ofNat_succ64 (n : ℕ) :
    UInt64.ofNat (n + 1) = UInt64.ofNat n + 1 := by
  rw [UInt64.ofNat_add]
  rfl

theorem ofNat_succ_comm (x : UInt64) (n : ℕ) :
    x + UInt64.ofNat (n + 1) = x + UInt64.ofNat n + 1 := by
  rw [ofNat_succ64, ← UInt64.add_assoc]

theorem add_succ_comm (x : UInt64) (n : ℕ) :
    x + 1 + UInt64.ofNat n = x + UInt64.ofNat n + 1 := by
  rw [UInt64.add_assoc, UInt64.add_comm 1, ← UInt64.add_assoc]

/-- The callable of a task that is not recurring has ended; its wrapper is
going to count it. -/
theorem Tallied.endedOnce {n : ℕ} {o : Outcomes} (hs : Tallied s n o) {t : Task}
    (ht : t.recurring? = none) (throws : Bool) :
    Tallied s (n + 1) (o.ended t throws) := by
  constructor
  · rw [ofNat_succ_comm, hs.completed, ← ofNat_succ64]
    cases throws with
    | false =>
        simp only [Outcomes.ended, Bool.false_eq_true, if_false]
        congr 1
        omega
    | true =>
        simp only [Outcomes.ended, ht, if_true, Option.isSome_none,
          Bool.false_eq_true, if_false]
        congr 1
        omega
  · cases throws with
    | false => exact hs.failed
    | true =>
        simp only [Outcomes.ended, ht, if_true, Option.isSome_none,
          Bool.false_eq_true, if_false]
        rw [ofNat_succ_comm, hs.failed, ← ofNat_succ64]

/-- The body of a recurring task has counted its callable. -/
theorem Tallied.endedRecurring {n : ℕ} {o : Outcomes} (hs : Tallied s n o)
    {t : Task} {r : Recurring} (ht : t.recurring? = some r) (throws : Bool) :
    Tallied (countRecurring s throws) n (o.ended t throws) := by
  cases throws with
  | false =>
      constructor
      · simp only [countRecurring, Outcomes.ended, Bool.false_eq_true, if_false]
        rw [add_succ_comm, hs.completed, ← ofNat_succ64]
        congr 1
        omega
      · exact hs.failed
  | true =>
      constructor
      · simp only [countRecurring, Outcomes.ended, ht, if_true,
          Option.isSome_some, add_zero]
        exact hs.completed
      · simp only [countRecurring, Outcomes.ended, ht, if_true,
          Option.isSome_some, add_zero]
        rw [add_succ_comm, hs.failed, ← ofNat_succ64]

/-- The wrapper counts its task. -/
theorem Tallied.ran {n : ℕ} {o : Outcomes} {t : Task}
    (hs : Tallied s ((if t.recurring?.isSome then 0 else 1) + n) o) :
    Tallied (countCompleted s t) n (o.ran t) := by
  refine ⟨?_, hs.failed⟩
  have hcompleted := hs.completed
  simp only [countCompleted, Outcomes.ran]
  rw [add_succ_comm]
  cases ht : t.recurring?.isSome with
  | false =>
      simp only [ht, Bool.false_eq_true, if_false] at hcompleted ⊢
      rw [add_comm 1, ofNat_succ_comm] at hcompleted
      exact hcompleted
  | true =>
      simp only [ht, if_true, zero_add] at hcompleted ⊢
      rw [hcompleted, ← ofNat_succ64, add_assoc]

/-- Only a move inside a wrapper leads to the end of one. -/
theorem uncounted_eq_zero (h : workerStep s i w ch = some (s₁, w'))
    (hpc : ∀ t phase, w.pc ≠ .running t phase) : w'.uncounted = 0 := by
  have hnext := workerStep_follows h
  unfold Worker.uncounted
  generalize w.pc = pc, w'.pc = pc' at hnext hpc ⊢
  cases hnext with
  | run t phase | done t phase => exact absurd rfl (hpc t phase)
  | _ => rfl

/-- A move of a worker keeps the counters and the outcomes together. -/
theorem workerStep_tallied {n : ℕ} {o : Outcomes}
    (h : workerStep s i w ch = some (s₁, w'))
    (hreset : w.call? ≠ some .resetStats)
    (hs : Tallied s (w.uncounted + n) o) :
    Tallied s₁ (w'.uncounted + n) (w.outcome ch o) := by
  -- Nothing is counted, and no callable ends.
  have hquiet : SameCounts s s₁ → w'.uncounted = w.uncounted →
      w.outcome ch o = o → Tallied s₁ (w'.uncounted + n) (w.outcome ch o) := by
    intro hsame huncounted houtcome
    rw [huncounted, houtcome]
    exact hs.congr hsame.completed hsame.failed
  have hidle : (∀ t phase, w.pc ≠ .running t phase) →
      w.uncounted = 0 → w'.uncounted = w.uncounted := fun hpc hzero =>
    (uncounted_eq_zero h hpc).trans hzero.symm
  cases hpc : w.pc with
  | wrapper t =>
      have huncounted := hidle (by simp [hpc]) (by simp [Worker.uncounted, hpc])
      have houtcome : w.outcome ch o = o := by simp [Worker.outcome, hpc]
      have hcounts : s₁.stats.tasksCompleted = s.stats.tasksCompleted ∧
          s₁.stats.tasksFailed = s.stats.tasksFailed := by
        simp only [workerStep, hpc, Option.some.injEq] at h
        unfold startWrapper at h
        split at h
        · obtain ⟨rfl, -⟩ := Prod.mk.inj h
          exact ⟨rfl, rfl⟩
        · split at h
          all_goals
            obtain ⟨rfl, -⟩ := Prod.mk.inj h
            exact ⟨rfl, rfl⟩
      rw [huncounted, houtcome]
      exact hs.congr hcounts.1 hcounts.2
  | returned t =>
      simp only [workerStep, hpc, Option.some.injEq, Prod.mk.injEq] at h
      obtain ⟨rfl, rfl⟩ := h
      simp only [Worker.uncounted, hpc] at hs
      simp only [Worker.outcome, hpc, Worker.uncounted, Worker.goto_pc,
        zero_add]
      exact hs.ran
  | running t phase =>
      simp only [workerStep, hpc] at h
      cases phase with
      | user =>
          simp only [runningStep] at h
          simp only [Worker.uncounted, hpc, zero_add] at hs
          split at h
          · next hop =>
              obtain ⟨rfl, rfl⟩ := Prod.mk.inj (Option.some.inj h)
              simp only [Worker.outcome, hpc, hop, Worker.uncounted,
                Worker.goto_pc, zero_add]
              exact hs
          · next hop =>
              split at h
              · next hnone =>
                  obtain ⟨rfl, rfl⟩ := Prod.mk.inj (Option.some.inj h)
                  simp only [Worker.outcome, hpc, hop, Worker.uncounted,
                    Worker.goto_pc, hnone, Option.isSome_none,
                    Bool.false_eq_true, if_false]
                  rw [add_comm 1]
                  exact hs.endedOnce hnone ch.throws
              · next r hr =>
                  obtain ⟨rfl, rfl⟩ := Prod.mk.inj (Option.some.inj h)
                  simp only [Worker.outcome, hpc, hop, Worker.uncounted,
                    Worker.goto_pc, zero_add]
                  exact hs.endedRecurring hr ch.throws
      | call pc | reschedule pc =>
          simp only [runningStep] at h
          split at h
          · obtain ⟨rfl, rfl⟩ := Prod.mk.inj (Option.some.inj h)
            apply hquiet ⟨rfl, rfl, rfl⟩
            · simp [Worker.uncounted, hpc]
            · simp [Worker.outcome, hpc]
          · simp only [Option.map_eq_some_iff, Prod.mk.injEq] at h
            obtain ⟨⟨s₂, pc'⟩, hcall, rfl, rfl⟩ := h
            apply hquiet
            · apply callStep_counts hcall
              rintro rfl
              exact hreset (by simp [Worker.call?, hpc])
            · simp [Worker.uncounted, hpc]
            · simp [Worker.outcome, hpc]
      | recurringTest | rescheduleTest =>
          simp only [runningStep, Option.map_eq_some_iff, Prod.mk.injEq] at h
          obtain ⟨r, hr, rfl, rfl⟩ := h
          apply hquiet ⟨rfl, rfl, rfl⟩
          · cases hleave : s.flag r.cancelled || s.shutdown
            all_goals simp [Worker.uncounted, hpc, hr]
          · simp [Worker.outcome, hpc]
  | _ =>
      apply hquiet
      · apply workerStep_counts h
        simp [Worker.stage, hpc]
      · exact hidle (by simp [hpc]) (by simp [Worker.uncounted, hpc])
      · simp [Worker.outcome, hpc]

/-! ## Whole runs -/

/-- What the counters are short of, over all workers. -/
def State.uncounted (s : State) : ℕ :=
  Roster.tally Worker.uncounted s.workers

theorem uncounted_spawned {workers ws : List Worker}
    (hspawned : ∀ w ∈ ws, w.pc = .spawned) :
    Roster.tally Worker.uncounted (workers ++ ws) =
      Roster.tally Worker.uncounted workers := by
  have hzero : Roster.tally Worker.uncounted ws = 0 := by
    apply Roster.tally_eq_zero
    intro w hw
    simp [Worker.uncounted, hspawned w hw]
  rw [Roster.tally_append, hzero, add_zero]

theorem Tallied.step {a : Action} {o : Outcomes}
    (hs : Tallied s s.uncounted o) (hkeep : s.resets a = false)
    (h : step s a = some s') :
    Tallied s' s'.uncounted (observeOutcomes s a o) := by
  have hreset : a.caller?.bind s.callAt ≠ some .resetStats := by
    intro hat
    simp [State.resets, hat] at hkeep
  cases a with
  | tick elapsed =>
      obtain rfl := step_tick h
      exact hs.congr rfl rfl
  | call op =>
      obtain rfl := step_call h
      exact hs.congr rfl rfl
  | client n ch =>
      obtain ⟨pc, s₁, pc', hpc, hcall, rfl⟩ := step_client h
      obtain ⟨ws, hws, hspawned⟩ := (callStep_effect hcall).workers
      have hcounts := callStep_counts hcall fun heq =>
        hreset (heq ▸ hpc)
      have huncounted : State.uncounted
          { s₁ with clients := s₁.clients.set n pc' } = s.uncounted := by
        simp only [State.uncounted, hws, uncounted_spawned hspawned]
      rw [huncounted]
      exact hs.congr hcounts.completed hcounts.failed
  | worker i ch =>
      obtain ⟨w, s₁, w', hw, hworker, rfl⟩ := step_worker h
      obtain ⟨ws, hws, hspawned⟩ := (workerStep_effect hworker).workers
      obtain ⟨rest, hrest, hrest'⟩ := Roster.exists_rest Worker.uncounted
        (Roster.getElem?_append hw ws)
      have hcall : w.call? ≠ some .resetStats := by
        intro heq
        exact hreset (by simp [Action.caller?, State.callAt, hw, heq])
      rw [uncounted_spawned hspawned] at hrest
      rw [State.uncounted, hrest] at hs
      have htallied := workerStep_tallied hworker hcall hs
      simp only [State.uncounted, observeOutcomes, hw, hws, hrest',
        Option.elim_some]
      exact htallied.congr rfl rfl
  | scheduler ch =>
      obtain ⟨pc, s₁, pc', -, hsched, rfl⟩ := step_scheduler h
      obtain ⟨hcompleted, hfailed, -⟩ := schedulerStep_counts hsched
      have huncounted : State.uncounted { s₁ with scheduler := some pc' } =
          s.uncounted := by
        simp only [State.uncounted,
          (schedulerStep_effect hsched).sameThreads.workers]
      rw [huncounted]
      exact hs.congr hcompleted hfailed
  | cancel f =>
      obtain rfl := step_cancel h
      exact hs.congr rfl rfl

theorem construct_tallied (c : CheckedConfig) (clock : ℤ) :
    Tallied (construct c clock) (construct c clock).uncounted {} := by
  have hzero : (construct c clock).uncounted = 0 := by
    apply Roster.tally_eq_zero
    intro w hw
    simp [Worker.uncounted, mem_construct_workers hw]
  rw [hzero]
  exact ⟨rfl, rfl⟩

theorem uncounted_of_idle (hidle : s.idle) : s.uncounted = 0 := by
  apply Roster.tally_eq_zero
  intro w hw
  have hactive := hidle w hw
  unfold Worker.uncounted
  cases hpc : w.pc with
  | returned t | running t phase =>
      simp [Worker.stage, hpc, Stage.active] at hactive
  | _ => rfl

/-- In a run without `ResetStats`, whenever no task is active, the counters
are those of the callables exactly when the callables that have thrown outside
recurring tasks, and the runs of recurring bodies, are none for a 64-bit
counter. -/
theorem reachable_countsOutcomes_iff {x : State × Outcomes}
    (hx : Transition.ReachableVia stepOutcomes KeepsStats initialOutcomes x)
    (hidle : x.1.idle) :
    CountsOutcomes x.1 x.2 ↔
      UInt64.ofNat x.2.threwOnce = 0 ∧
        UInt64.ofNat x.2.recurringRuns = 0 := by
  have htallied : Tallied x.1 x.1.uncounted x.2 := by
    refine hx.invariant (I := fun x => Tallied x.1 x.1.uncounted x.2) ?_ ?_
    · rintro ⟨s, o⟩ ⟨⟨c, clock, rfl⟩, rfl⟩
      exact construct_tallied c clock
    · intro x a x' hs hkeep h
      obtain ⟨hstep, hobserve⟩ := Transition.watch_eq_some.mp h
      rw [hobserve]
      exact hs.step hkeep hstep
  have hcompleted := htallied.completed
  have hfailed := htallied.failed
  rw [uncounted_of_idle hidle] at hcompleted
  simp only [UInt64.ofNat_add] at hcompleted
  constructor
  · rintro ⟨hreturned, hthrew⟩
    rw [hthrew] at hfailed
    rw [hreturned] at hcompleted
    have honce : UInt64.ofNat x.2.threwOnce = 0 := by grind
    refine ⟨honce, ?_⟩
    rw [honce] at hcompleted
    grind
  · rintro ⟨honce, hruns⟩
    rw [honce] at hcompleted hfailed
    rw [hruns] at hcompleted
    constructor
    · grind
    · grind

end

/-! ## Runs with a throw -/

/-- A worker runs the one task on the queue; its callable ends as `ch` says. -/
def runsTask (ch : Choice) : List Action :=
  [Action.call (.submit .kNormal), .client 0 {}] ++
    List.replicate 6 (Action.worker 0 {}) ++ [Action.worker 0 ch] ++
    List.replicate 2 (Action.worker 0 {})

theorem runsTask_runs :
    (Transition.run stepOutcomes (construct pairConfig 0, {})
      (runsTask {})).isSome := by
  decide

theorem reachable_countsOutcomes_iff_runsTask :
    CountsOutcomes
      ((Transition.run stepOutcomes (construct pairConfig 0, {})
        (runsTask {})).get runsTask_runs).1
      ((Transition.run stepOutcomes (construct pairConfig 0, {})
        (runsTask {})).get runsTask_runs).2 := by
  have hstart : (construct pairConfig 0, {}) ∈ initialOutcomes :=
    ⟨⟨pairConfig, 0, rfl⟩, rfl⟩
  have hall : Transition.AllSteps stepOutcomes KeepsStats
      (construct pairConfig 0, {}) (runsTask {}) := by
    decide
  have hreach := (Transition.ReachableVia.start hstart).run hall
    (Option.some_get runsTask_runs).symm
  exact (reachable_countsOutcomes_iff hreach (by decide)).mpr (by decide)

theorem runsTask_throws_runs :
    (Transition.run stepOutcomes (construct pairConfig 0, {})
      (runsTask { throws := true })).isSome := by
  decide

/-- A callable that throws is counted as completed. -/
theorem exists_thrownCompleted :
    ¬ ∀ x, Transition.ReachableVia stepOutcomes KeepsStats initialOutcomes x →
      x.1.idle → CountsOutcomes x.1 x.2 := by
  intro hall
  have hstart : (construct pairConfig 0, {}) ∈ initialOutcomes :=
    ⟨⟨pairConfig, 0, rfl⟩, rfl⟩
  have hkeep : Transition.AllSteps stepOutcomes KeepsStats
      (construct pairConfig 0, {}) (runsTask { throws := true }) := by
    decide
  have hreach := (Transition.ReachableVia.start hstart).run hkeep
    (Option.some_get runsTask_throws_runs).symm
  exact absurd (hall _ hreach (by decide)) (by decide)

end ThreadPool
end Yacul
