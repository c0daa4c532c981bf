import Yacul.ThreadPool.Minimum
import Yacul.ThreadPool.QueueBound

/-!
# Recurring tasks at shutdown

The body of a recurring task tests `shutdown_` and then calls
`SubmitDelayedWithPriority`, which checks the flag again and ends the process
if it is set.  The flag is stored between the two in exactly the runs in which
the check fails.
-/

namespace Yacul
namespace ThreadPool

/-- The worker is at the `CHECK` of a recurring body that submits itself
again. -/
def WorkerPc.atCheck : WorkerPc → Bool
  | .running _ (.reschedule (.delayedInsert _ _ _ _ _)) => true
  | _ => false

/-- A submission of a delayed task that has not passed the `CHECK`. -/
def CallPc.beforeCheck : CallPc → Bool
  | .recurringPrepare _ _ | .recurringRegister _ _ | .delayedPrepare _ _ _
  | .delayedInsert _ _ _ _ _ => true
  | _ => false

/-- The recurring body has found the pool open, and has not passed the
`CHECK`. -/
def WorkerPc.reschedules : WorkerPc → Bool
  | .running _ (.reschedule pc) => pc.beforeCheck
  | _ => false

/-- In the action a recurring body that submits itself again violates the
`CHECK`. -/
def State.rescheduleAborts (s : State) (a : Action) : Bool :=
  (a.worker?.any fun i => s.workerIn i WorkerPc.atCheck) &&
    (step s a).any State.aborted

/-- No recurring body that submits itself again violates the `CHECK`. -/
def ReschedulePasses (s : State) : Prop :=
  ∀ a, s.rescheduleAborts a = false

/-- A shutdown stores its flag while no recurring body is between its test and
the `CHECK`. -/
def StoresOutside (s : State) (a : Action) : Prop :=
  ∀ pc ∈ a.caller?.bind s.callAt, pc = .shutdownSet true ∨
      pc = .shutdownSet false →
    ∀ w ∈ s.workers, w.pc.reschedules = false

instance (s : State) (a : Action) : Decidable (StoresOutside s a) := by
  unfold StoresOutside
  exact inferInstance

/-- A recurring body between its test and the `CHECK` is in an open pool. -/
def ReschedulesOpen (s : State) : Prop :=
  ∀ w ∈ s.workers, w.pc.reschedules = true → s.shutdown = false

/-! ## Steps -/

section

variable {s s' : State} {a : Action} {i : ℕ} {w w' : Worker} {ch : Choice}

/-- Inside a wrapper the body gets to its submission by its test. -/
theorem runningStep_reschedules {t : Task} {phase : Phase}
    (h : runningStep s i w t ch phase = some (s', w'))
    (hpc : w.pc = .running t phase) (hpc' : w'.pc.reschedules = true) :
    w.pc.reschedules = true ∨ w.call? = none ∧ s.shutdown = false := by
  rw [hpc]
  cases phase with
  | user =>
      simp only [runningStep] at h
      split at h
      · obtain ⟨-, rfl⟩ := Prod.mk.inj (Option.some.inj h)
        cases hpc'
      · split at h <;> obtain ⟨-, rfl⟩ := Prod.mk.inj (Option.some.inj h)
        all_goals cases hpc'
  | call pc =>
      simp only [runningStep] at h
      split at h
      · obtain ⟨-, rfl⟩ := Prod.mk.inj (Option.some.inj h)
        cases hpc'
      · simp only [Option.map_eq_some_iff, Prod.mk.injEq] at h
        obtain ⟨⟨s₁, pc'⟩, -, -, rfl⟩ := h
        cases hpc'
  | recurringTest =>
      simp only [runningStep, Option.map_eq_some_iff, Prod.mk.injEq] at h
      obtain ⟨r, -, -, rfl⟩ := h
      split at hpc' <;> cases hpc'
  | rescheduleTest =>
      simp only [runningStep, Option.map_eq_some_iff, Prod.mk.injEq] at h
      obtain ⟨r, -, -, rfl⟩ := h
      right
      split at hpc'
      · cases hpc'
      · next hopen =>
          simp only [Bool.or_eq_true, not_or, Bool.not_eq_true] at hopen
          exact ⟨by simp [Worker.call?, hpc], hopen.2⟩
  | reschedule pc =>
      left
      simp only [runningStep] at h
      split at h
      · obtain ⟨-, rfl⟩ := Prod.mk.inj (Option.some.inj h)
        cases hpc'
      · simp only [Option.map_eq_some_iff, Prod.mk.injEq] at h
        obtain ⟨⟨s₁, pc'⟩, hcall, -, rfl⟩ := h
        cases callStep_follows hcall with
        | prepared | recurringPrepared | registered => rfl
        | _ => cases hpc'

theorem workerStep_reschedules (h : workerStep s i w ch = some (s', w'))
    (hpc' : w'.pc.reschedules = true) :
    w.pc.reschedules = true ∨ w.call? = none ∧ s.shutdown = false := by
  have hnext := workerStep_follows h
  generalize hpc : w.pc = pc, hnew : w'.pc = pc' at hnext
  rw [hnew] at hpc'
  cases hnext with
  | run t phase phase' =>
      simp only [workerStep, hpc] at h
      rw [← hnew] at hpc'
      have hrun := runningStep_reschedules h hpc hpc'
      rwa [hpc] at hrun
  | _ => cases hpc'

/-- The call of a worker that reschedules is before its `CHECK`. -/
theorem call?_of_reschedules (hw : w.pc.reschedules = true) :
    ∃ pc, w.call? = some pc ∧ pc.beforeCheck = true := by
  cases hpc : w.pc with
  | running t phase =>
      cases phase with
      | reschedule pc =>
          rw [hpc] at hw
          exact ⟨pc, by simp [Worker.call?, hpc], hw⟩
      | _ =>
          rw [hpc] at hw
          cases hw
  | _ =>
      rw [hpc] at hw
      cases hw

theorem ReschedulesOpen.step (hs : ReschedulesOpen s)
    (hstores : StoresOutside s a) (h : step s a = some s') :
    ReschedulesOpen s' := by
  intro w' hw' hpc'
  obtain ⟨i, hi⟩ := List.mem_iff_getElem?.mp hw'
  obtain ⟨hold, -⟩ | hnew | ⟨ch, w, s₁, rfl, hw, hworker⟩ :=
    getElem?_workers_step h hi
  · have hmem := List.mem_of_getElem? hold
    apply open_of_step h _ (hs w' hmem hpc')
    intro now hat
    have hpc := hstores _ hat (by cases now <;> simp) w' hmem
    cases hpc.symm.trans hpc'
  · rw [hnew] at hpc'
    cases hpc'
  · -- The worker that moves makes no shutdown.
    have hat : ∀ now, (Action.worker i ch).caller?.bind s.callAt ≠
        some (.shutdownSet now) := by
      intro now hat
      have hcall : w.call? = some (.shutdownSet now) := by
        simpa [Action.caller?, State.callAt, hw] using hat
      obtain hpc | ⟨hnone, -⟩ := workerStep_reschedules hworker hpc'
      · obtain ⟨pc, hcall', hpc⟩ := call?_of_reschedules hpc
        obtain rfl := Option.some.inj (hcall.symm.trans hcall')
        cases hpc
      · cases hnone.symm.trans hcall
    apply open_of_step h hat
    obtain hpc | ⟨-, hopen⟩ := workerStep_reschedules hworker hpc'
    · exact hs w (List.mem_of_getElem? hw) hpc
    · exact hopen

/-- In an open pool the `CHECK` holds. -/
theorem ReschedulesOpen.passes (hs : ReschedulesOpen s) :
    ReschedulePasses s := by
  intro a
  rw [← Bool.not_eq_true]
  intro haborts
  obtain ⟨hcheck, hend⟩ := Bool.and_eq_true_iff.mp haborts
  obtain ⟨i, ha, hin⟩ := (Option.any_eq_true _ _).mp hcheck
  obtain ⟨s', h, haborted⟩ := (Option.any_eq_true _ _).mp hend
  obtain ⟨ch, rfl⟩ := worker?_eq_some ha
  obtain ⟨w, hw, hpc⟩ := workerIn_eq_true.mp hin
  obtain ⟨s₁, w', hworker, -, hs'⟩ := worker_of_moved h hw
  cases hrun : w.pc with
  | running t phase =>
      cases phase with
      | reschedule pc =>
          rw [hrun] at hpc
          cases pc with
          | delayedInsert executeTime priority taskId cancelled body =>
              have hopen := hs w (List.mem_of_getElem? hw) (by rw [hrun]; rfl)
              simp only [workerStep, hrun, runningStep, reduceCtorEq,
                if_false, Option.map_eq_some_iff, Prod.mk.injEq] at hworker
              obtain ⟨⟨s₂, pc'⟩, hcall, rfl, -⟩ := hworker
              simp only [callStep, whenFree_eq_some] at hcall
              obtain ⟨-, hcall⟩ := hcall
              rw [if_neg (by simp [hopen])] at hcall
              obtain ⟨rfl, -⟩ := Prod.mk.inj hcall
              rw [hs'] at haborted
              cases (aborted_of_step h).symm.trans haborted
          | _ => cases hpc
      | _ =>
          rw [hrun] at hpc
          cases hpc
  | _ =>
      rw [hrun] at hpc
      cases hpc

/-- When no shutdown stores its flag while a recurring body is between its
test and the `CHECK`, the `CHECK` holds in every submission that a recurring
body makes. -/
theorem reachable_reschedulePasses (hs : ReachableVia StoresOutside s) :
    ReschedulePasses s := by
  have hopen : ReschedulesOpen s := by
    refine hs.invariant ?_ fun s a s' hR hstores h => hR.step hstores h
    rintro _ ⟨c, clock, rfl⟩ w hw hpc
    rw [mem_construct_workers hw] at hpc
    cases hpc
  exact hopen.passes

end

/-! ## Runs with a recurring task -/

/-- A recurring task runs and finds the pool open. -/
def findsOpen : List Action :=
  [Action.call (.submitRecurring 0 .kNormal)] ++
    List.replicate 5 (Action.client 0 {}) ++
    List.replicate 6 (Action.scheduler {}) ++
    List.replicate 10 (Action.worker 0 {})

/-- The recurring body gets to its `CHECK`. -/
def getsToCheck : List Action :=
  findsOpen ++ [Action.worker 0 {}]

theorem getsToCheck_runs :
    (Transition.run step (construct tightConfig 0) getsToCheck).isSome := by
  decide

theorem reachable_reschedulePasses_getsToCheck :
    ReschedulePasses ((Transition.run step (construct tightConfig 0)
      getsToCheck).get getsToCheck_runs) := by
  have hall : Transition.AllSteps step StoresOutside
      (construct tightConfig 0) getsToCheck := by
    decide
  exact reachable_reschedulePasses
    ((construct_reachableVia StoresOutside tightConfig 0).run hall
      (Option.some_get getsToCheck_runs).symm)

/-- A shutdown begins after the test of the recurring body. -/
def shutsDownBetween : List Action :=
  findsOpen ++ [Action.call .shutdownNow, .client 1 {}, .worker 0 {}]

theorem shutsDownBetween_runs :
    (Transition.run step (construct tightConfig 0)
      shutsDownBetween).isSome := by
  decide

/-- A recurring task can end the process. -/
theorem exists_rescheduleAborts :
    ¬ ∀ s, Transition.Reachable step initial s → ReschedulePasses s := by
  intro hall
  have hstart : construct tightConfig 0 ∈ initial := ⟨tightConfig, 0, rfl⟩
  have hreach := Transition.reachable_get_run hstart shutsDownBetween_runs
  exact absurd (hall _ hreach (.worker 0 {})) (by decide)

end ThreadPool
end Yacul
