import Yacul.ThreadPool.Signals

/-!
# Wake-ups after a resume

A worker tests `paused_` under `queue_mutex_` and sleeps on `pause_condition_`
in a later step.  `Resume` stores the flag and notifies without that mutex, so
its notification can fall between the two.
-/

namespace Yacul
namespace ThreadPool

/-- A notification on `pause_condition_` remains to be issued by the call. -/
def CallPc.notifiesPause : CallPc → Bool
  | .resumeNotify | .shutdownNotify | .shutdownNotifyDelayed
  | .shutdownNotifyPause => true
  | _ => false

/-- The call is about to notify on `pause_condition_`. -/
def CallPc.notifiesPauseNow : CallPc → Bool
  | .resumeNotify | .shutdownNotifyPause => true
  | _ => false

/-- The caller is going to notify on `pause_condition_`. -/
def State.notifiesPause (s : State) (who : Caller) : Bool :=
  (s.callAt who).any CallPc.notifiesPause

/-- No worker sleeps on `pause_condition_` while the pool is not paused and
nobody is going to notify it. -/
def NoLostResume (s : State) : Prop :=
  s.pauseSleepers ≠ [] →
    s.paused = true ∨ ∃ who ∈ s.callers, s.notifiesPause who = true

instance (s : State) : Decidable (NoLostResume s) := by
  unfold NoLostResume
  exact inferInstance

/-- A worker is between its test of `paused_` and its sleep. -/
def State.pauseWindow (s : State) : Prop :=
  ∃ w ∈ s.workers, w.pc = .pauseHeld

/-- A notification on `pause_condition_` that is issued while a worker is
between its test and its sleep finds the pool paused, or is followed by
another one. -/
def NotifiesInTime (s : State) (a : Action) : Prop :=
  ∀ who ∈ a.caller?, (s.callAt who).any CallPc.notifiesPauseNow = true →
    s.pauseWindow → s.paused = true ∨
      ∃ other ∈ s.callers, other ≠ who ∧ s.notifiesPause other = true

instance (s : State) (a : Action) : Decidable (NotifiesInTime s a) := by
  unfold NotifiesInTime State.pauseWindow
  exact inferInstance

/-- A worker that sleeps on `pause_condition_`, or is about to, finds the pool
paused or is going to be notified. -/
def Resumes (s : State) : Prop :=
  s.pauseSleepers ≠ [] ∨ s.pauseWindow →
    s.paused = true ∨ ∃ who ∈ s.callers, s.notifiesPause who = true

/-! ## Steps -/

section

variable {s s' : State} {a : Action} {who : Caller}

theorem notifiesPause_eq_true :
    s.notifiesPause who = true ↔
      ∃ pc, s.callAt who = some pc ∧ pc.notifiesPause = true := by
  unfold State.notifiesPause
  cases s.callAt who <;> simp

/-- A worker goes to sleep in a pool that is paused. -/
theorem workerStep_pauseHeld {i : ℕ} {w w' : Worker} {ch : Choice}
    (h : workerStep s i w ch = some (s', w')) (hpc' : w'.pc = .pauseHeld) :
    w.pc = .pauseTest ∧ s.paused = true := by
  have hnext := workerStep_follows h
  rw [hpc'] at hnext
  generalize w.pc = pc at hnext ⊢
  cases hnext with
  | pauseHold hpaused _ => exact ⟨rfl, hpaused⟩

/-- A call that is going to notify goes on to, or notifies. -/
theorem notifiesPause_step (h : step s a = some s')
    (hwho : s.notifiesPause who = true) :
    s'.notifiesPause who = true ∨
      a.caller? = some who ∧
        (s.callAt who).any CallPc.notifiesPauseNow = true := by
  obtain ⟨pc, hat, hpc⟩ := notifiesPause_eq_true.mp hwho
  by_cases ha : a.caller? = some who
  · obtain ⟨s₁, pc', hcall, hat', -⟩ :=
      step_of_callAt h ha hat (by rintro rfl; exact Bool.noConfusion hpc)
    cases pc with
    | resumeNotify | shutdownNotifyPause =>
        right
        rw [hat]
        exact ⟨ha, rfl⟩
    | shutdownNotify | shutdownNotifyDelayed =>
        left
        obtain ⟨-, rfl⟩ := Prod.mk.inj (Option.some.inj hcall)
        exact notifiesPause_eq_true.mpr ⟨_, hat', rfl⟩
    | _ => exact Bool.noConfusion hpc
  · exact .inl (notifiesPause_eq_true.mpr
      ⟨pc, callAt_of_not_moved h ha hat, hpc⟩)

/-- A pool stays paused until a `Resume` that is going to notify. -/
theorem paused_step (h : step s a = some s') (hpaused : s.paused = true) :
    s'.paused = true ∨ ∃ who ∈ s'.callers, s'.notifiesPause who = true := by
  obtain hsame | ⟨-, hset⟩ | ⟨who, -, -, hat'⟩ := step_paused h
  · exact .inl (hsame.trans hpaused)
  · exact .inl hset
  · exact .inr ⟨who, mem_callers hat',
      notifiesPause_eq_true.mpr ⟨_, hat', rfl⟩⟩

/-- A worker gets between its test and its sleep in a pool that is paused. -/
theorem pauseWindow_step (h : step s a = some s')
    (hwindow : s'.pauseWindow) : s.pauseWindow ∨ s.paused = true := by
  obtain ⟨w', hw', hpc'⟩ := hwindow
  obtain ⟨i, hi⟩ := List.mem_iff_getElem?.mp hw'
  obtain ⟨hold, -⟩ | hnew | ⟨ch, w, s₁, -, -, hworker⟩ :=
    getElem?_workers_step h hi
  · exact .inl ⟨w', List.mem_of_getElem? hold, hpc'⟩
  · exact absurd (hnew.symm.trans hpc') WorkerPc.noConfusion
  · exact .inr (workerStep_pauseHeld hworker hpc').2

/-- Only a worker that was about to sleep begins to sleep. -/
theorem pauseSleepers_step (h : step s a = some s')
    (hasleep : s'.pauseSleepers ≠ []) :
    s.pauseSleepers ≠ [] ∨ s.pauseWindow := by
  obtain hsame | ⟨f, -, rfl⟩ |
      ⟨who, ch, pc, s₁, pc', -, -, hsignals, hcall, hs'⟩ |
      ⟨i, ch, w, s₁, w', -, hw, hsignals, hworker, hs'⟩ := step_signals h
  · exact .inl (hsame.pauseSleepers ▸ hasleep)
  · exact .inl hasleep
  · rw [hs'] at hasleep
    left
    cases pc with
    | cancelTask taskId =>
        simp only [callStep, whenFree_eq_some, Prod.mk.injEq] at hcall
        obtain ⟨-, rfl, -⟩ := hcall
        unfold cancelTask at hasleep
        split at hasleep <;> exact hasleep
    | resumeNotify | shutdownNotifyPause =>
        obtain ⟨rfl, -⟩ := Prod.mk.inj (Option.some.inj hcall)
        exact absurd rfl hasleep
    | waitHeld | waitAsleep | pause | resume | setMaxQueueSize =>
        obtain ⟨rfl, -⟩ := Prod.mk.inj (Option.some.inj hcall)
        exact hasleep
    | _ => exact Bool.noConfusion hsignals
  · cases hpc : w.pc with
    | pauseHeld => exact .inr ⟨w, List.mem_of_getElem? hw, hpc⟩
    | pauseAsleep =>
        simp only [workerStep, hpc, Option.some.injEq, Prod.mk.injEq]
          at hworker
        obtain ⟨rfl, -⟩ := hworker
        rw [hs'] at hasleep
        left
        intro hnone
        exact hasleep (by simp [hnone])
    | notifyFinish =>
        simp only [workerStep, hpc, Option.some.injEq, Prod.mk.injEq]
          at hworker
        obtain ⟨rfl, -⟩ := hworker
        rw [hs'] at hasleep
        exact .inl hasleep
    | _ =>
        rw [hpc] at hsignals
        exact Bool.noConfusion hsignals

/-- A notification on `pause_condition_` leaves no sleeper. -/
theorem pauseSleepers_of_notifies {who : Caller} (h : step s a = some s')
    (ha : a.caller? = some who)
    (hnow : (s.callAt who).any CallPc.notifiesPauseNow = true) :
    s'.pauseSleepers = [] := by
  cases hat : s.callAt who with
  | none => simp [hat] at hnow
  | some pc =>
      rw [hat] at hnow
      cases pc with
      | resumeNotify | shutdownNotifyPause =>
          obtain ⟨s₁, pc', hcall, -, hs'⟩ :=
            step_of_callAt h ha hat CallPc.noConfusion
          obtain ⟨rfl, -⟩ := Prod.mk.inj (Option.some.inj hcall)
          rw [hs']
      | _ => exact Bool.noConfusion hnow

theorem Resumes.step (hs : Resumes s) (htime : NotifiesInTime s a)
    (h : step s a = some s') : Resumes s' := by
  intro hwaiting
  -- Who waits after the step has waited before, or finds the pool paused.
  have hbefore : (s.pauseSleepers ≠ [] ∨ s.pauseWindow) ∨
      s.paused = true := by
    rcases hwaiting with hasleep | hwindow
    · exact .inl (pauseSleepers_step h hasleep)
    · exact (pauseWindow_step h hwindow).imp_left .inr
  have hsafe : s.paused = true ∨
      ∃ who ∈ s'.callers, s'.notifiesPause who = true := by
    rcases hbefore with hwaits | hpaused
    · obtain hpaused | ⟨who, -, hwho⟩ := hs hwaits
      · exact .inl hpaused
      · obtain hwho' | ⟨ha, hnow⟩ := notifiesPause_step h hwho
        · obtain ⟨pc, hat, -⟩ := notifiesPause_eq_true.mp hwho'
          exact .inr ⟨who, mem_callers hat, hwho'⟩
        · -- The notification finds nobody asleep, but may come too early.
          have hnone := pauseSleepers_of_notifies h ha hnow
          rcases hwaiting with hasleep | hwindow
          · exact absurd hnone hasleep
          · rcases pauseWindow_step h hwindow with hwindow₀ | hpaused
            · obtain hpaused | ⟨other, -, hne, hother⟩ :=
                htime who ha hnow hwindow₀
              · exact .inl hpaused
              · obtain hother' | ⟨ha', -⟩ := notifiesPause_step h hother
                · obtain ⟨pc, hat, -⟩ := notifiesPause_eq_true.mp hother'
                  exact .inr ⟨other, mem_callers hat, hother'⟩
                · exact absurd (Option.some.inj (ha'.symm.trans ha)) hne
            · exact .inl hpaused
    · exact .inl hpaused
  rcases hsafe with hpaused | hwho
  · exact paused_step h hpaused
  · exact .inr hwho

theorem construct_resumes (c : CheckedConfig) (clock : ℤ) :
    Resumes (construct c clock) := by
  rintro (hasleep | ⟨w, hw, hpc⟩)
  · exact absurd rfl hasleep
  · rw [mem_construct_workers hw] at hpc
    cases hpc

/-- When no notification on `pause_condition_` falls between the test and the
sleep of a worker that needs it, no resume is lost. -/
theorem reachable_noLostResume (hs : ReachableVia NotifiesInTime s) :
    NoLostResume s := by
  have hresumes : Resumes s := by
    refine hs.invariant ?_ fun s a s' hR htime h => hR.step htime h
    rintro _ ⟨c, clock, rfl⟩
    exact construct_resumes c clock
  exact fun hasleep => hresumes (.inl hasleep)

end

/-! ## Runs with a pause -/

/-- The pool is paused, and a worker has tested `paused_`. -/
def pausesAtTest : List Action :=
  [Action.call .pause, .client 0 {}] ++ List.replicate 3 (Action.worker 0 {})

/-- `Resume` stores the flag and notifies. -/
def resumes : List Action :=
  [.call .resume, .client 1 {}, .client 1 {}]

/-- The worker is asleep when the pool resumes. -/
def resumesSleeper : List Action :=
  pausesAtTest ++ [Action.worker 0 {}] ++ resumes

theorem resumesSleeper_runs :
    (Transition.run step (construct pairConfig 0) resumesSleeper).isSome := by
  decide

theorem reachable_noLostResume_resumesSleeper :
    NoLostResume ((Transition.run step (construct pairConfig 0)
      resumesSleeper).get resumesSleeper_runs) := by
  have hall : Transition.AllSteps step NotifiesInTime
      (construct pairConfig 0) resumesSleeper := by
    decide
  exact reachable_noLostResume
    ((construct_reachableVia NotifiesInTime pairConfig 0).run hall
      (Option.some_get resumesSleeper_runs).symm)

/-- The pool resumes before the worker is asleep. -/
def missesResume : List Action :=
  pausesAtTest ++ resumes ++ [Action.worker 0 {}]

theorem missesResume_runs :
    (Transition.run step (construct pairConfig 0) missesResume).isSome := by
  decide

/-- A worker can sleep through the end of a pause. -/
theorem exists_lostResume :
    ¬ ∀ s, Transition.Reachable step initial s → NoLostResume s := by
  intro hall
  have hstart : construct pairConfig 0 ∈ initial := ⟨pairConfig, 0, rfl⟩
  have hreach := Transition.reachable_get_run hstart missesResume_runs
  exact absurd (hall _ hreach) (by decide)

end ThreadPool
end Yacul
