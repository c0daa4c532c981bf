import Yacul.ThreadPool.DelayScheduler
import Yacul.ThreadPool.FinishWakeup
import Yacul.ThreadPool.Statistics

/-!
# Cancellation

A flag that is set stays set.  The wrapper of a delayed task and the body of a
recurring task read their flags before they call the user's callable, and
whoever finds a delayed task cancelled, the delay scheduler or the wrapper,
is the only one that does.
-/

namespace Yacul
namespace ThreadPool

/-! ## What is observed -/

/-- The tasks that `tasks_cancelled` has been incremented for, and how often
it has been since the last `ResetStats`. -/
structure CancelLog where
  counted : Multiset ℕ := 0
  sinceReset : ℕ := 0

/-- The observer of `tasks_cancelled`. -/
def observeCancelled (s : State) (a : Action) (l : CancelLog) : CancelLog :=
  let counted := (s.event a).counted s.flags
  { counted := counted + l.counted
    sinceReset := if s.resets a then 0 else l.sinceReset + counted.card }

/-- The pool, watched. -/
abbrev stepCancelled :
    State × CancelLog → Action → Option (State × CancelLog) :=
  Transition.watch step observeCancelled

/-- A pool starts without cancelled tasks. -/
def initialCancelled : Set (State × CancelLog) :=
  { x | x.1 ∈ initial ∧ x.2 = {} }

/-- The task whose wrapper has found its flag not set. -/
def WorkerPc.entered? : WorkerPc → Option Task
  | .count t | .running t _ => some t
  | _ => none

/-- The task whose callable is running. -/
def WorkerPc.callable? : WorkerPc → Option Task
  | .running t .user | .running t (.call _) => some t
  | _ => none

/-- The tasks whose wrappers have not read their flags. -/
def State.unread (s : State) : Multiset Task :=
  (flow s).unread

/-- What holds of a later state `x` of a run after the flag `f` has been set
in the state `s`. -/
structure CancelHolds (f : ℕ) (s : State) (x : State × CancelLog) : Prop where
  /-- A callable that runs had passed the test of its wrapper. -/
  wrapper : ∀ (i : ℕ) (w : Worker) (t : Task) (body : Body),
    x.1.workers[i]? = some w → w.pc.callable? = some t →
      t.wrapper = .delayed f body →
      ∃ w₁ : Worker, s.workers[i]? = some w₁ ∧ w₁.pc.entered? = some t
  /-- A callable of the recurring task that runs was running. -/
  recurring : ∀ (i : ℕ) (w : Worker) (t : Task) (r : Recurring),
    x.1.workers[i]? = some w → w.pc.callable? = some t →
      t.recurring? = some r → r.cancelled = f →
      ∃ w₁ : Worker, s.workers[i]? = some w₁ ∧ w₁.pc.callable? = some t
  /-- A run of a recurring task that is cancelled was the last. -/
  period : ∀ t ∈ s.unread, ∀ r : Recurring,
    t.wrapper = .delayed f (.recurring r) → ∀ w ∈ x.1.workers,
      ∀ (u : Task) (r' : Recurring), w.pc.callable? = some u →
        u.recurring? = some r' → r'.cancelled ≠ r.cancelled
  /-- A task that is cancelled waits, is discarded, or is counted once. -/
  waits : ∀ t ∈ s.unread, ∀ body, t.wrapper = .delayed f body →
    t ∈ x.1.unread ∨ t.id ∈ x.1.discarded ∨ x.2.counted.count t.id = 1
  /-- When it has been dropped or run, it is counted once. -/
  counted : ∀ t ∈ s.unread, ∀ body, t.wrapper = .delayed f body →
    t.id ∈ x.1.dropped ∨ t.id ∈ x.1.finished →
      x.2.counted.count t.id = 1
  /-- No task is counted twice, and each is in the counter. -/
  once : x.2.counted.Nodup
  counter : x.1.stats.tasksCancelled = UInt64.ofNat x.2.sinceReset

section

variable {s s' s₁ : State} {x x' : State × CancelLog} {a : Action}
  {i : ℕ} {w w' : Worker} {ch : Choice} {t : Task} {f : ℕ} {r : Recurring}

/-! ## Tests of the flags -/

/-- A worker gets past the test of a wrapper only with a flag that is not
set. -/
theorem workerStep_entered (h : workerStep s i w ch = some (s₁, w'))
    (ht : w'.pc.entered? = some t) :
    w.pc.entered? = some t ∨ t.cancelledIn s.flags = false := by
  cases hpc : w.pc with
  | running u phase =>
      simp only [workerStep, hpc] at h
      obtain hret | ⟨phase', hrun⟩ := runningStep_pc h
      · simp [WorkerPc.entered?, hret] at ht
      · left
        simpa [WorkerPc.entered?, hrun] using ht
  | count u =>
      simp only [workerStep, hpc, Option.some.injEq, Prod.mk.injEq] at h
      obtain ⟨-, rfl⟩ := h
      left
      simpa [WorkerPc.entered?] using ht
  | wrapper u =>
      simp only [workerStep, hpc, Option.some.injEq] at h
      right
      unfold startWrapper at h
      split at h
      · next hwrapper =>
          obtain ⟨-, rfl⟩ := Prod.mk.inj h
          obtain rfl : u = t := Option.some.inj ht
          simp [Task.cancelledIn, hwrapper]
      · next g body hwrapper =>
          split at h
          · obtain ⟨-, rfl⟩ := Prod.mk.inj h
            simp [WorkerPc.entered?] at ht
          · next hflag =>
              obtain ⟨-, rfl⟩ := Prod.mk.inj h
              obtain rfl : u = t := Option.some.inj ht
              simp only [Task.cancelledIn, hwrapper]
              exact Bool.eq_false_iff.mpr hflag
  | _ =>
      have hnext := workerStep_follows h
      rw [hpc] at hnext
      generalize w'.pc = pc' at hnext ht
      cases hnext
      all_goals cases ht

/-- A worker gets into the callable of a recurring task only with a flag that
is not set. -/
theorem workerStep_callable (h : workerStep s i w ch = some (s₁, w'))
    (ht : w'.pc.callable? = some t) (hr : t.recurring? = some r) :
    w.pc.callable? = some t ∨ s.flag r.cancelled = false := by
  cases hpc : w.pc with
  | running u phase =>
      simp only [workerStep, hpc] at h
      cases phase with
      | user =>
          simp only [runningStep] at h
          split at h
          · obtain ⟨-, rfl⟩ := Prod.mk.inj (Option.some.inj h)
            exact .inl ht
          · split at h
            all_goals
              obtain ⟨-, rfl⟩ := Prod.mk.inj (Option.some.inj h)
              simp [WorkerPc.callable?] at ht
      | call pc =>
          simp only [runningStep] at h
          split at h
          · obtain ⟨-, rfl⟩ := Prod.mk.inj (Option.some.inj h)
            exact .inl ht
          · simp only [Option.map_eq_some_iff, Prod.mk.injEq] at h
            obtain ⟨⟨s₂, pc'⟩, -, -, rfl⟩ := h
            exact .inl ht
      | recurringTest =>
          simp only [runningStep, Option.map_eq_some_iff, Prod.mk.injEq] at h
          obtain ⟨r', hr', -, rfl⟩ := h
          right
          cases hleave : s.flag r'.cancelled || s.shutdown with
          | true => simp [hleave, WorkerPc.callable?] at ht
          | false =>
              rw [hleave] at ht
              obtain rfl : u = t := Option.some.inj ht
              obtain rfl : r = r' := Option.some.inj (hr.symm.trans hr')
              exact (Bool.or_eq_false_iff.mp hleave).1
      | rescheduleTest =>
          simp only [runningStep, Option.map_eq_some_iff, Prod.mk.injEq] at h
          obtain ⟨r', -, -, rfl⟩ := h
          cases hleave : s.flag r'.cancelled || s.shutdown
          all_goals simp [hleave, WorkerPc.callable?] at ht
      | reschedule pc =>
          simp only [runningStep] at h
          split at h
          · obtain ⟨-, rfl⟩ := Prod.mk.inj (Option.some.inj h)
            simp [WorkerPc.callable?] at ht
          · simp only [Option.map_eq_some_iff, Prod.mk.injEq] at h
            obtain ⟨⟨s₂, pc'⟩, -, -, rfl⟩ := h
            simp [WorkerPc.callable?] at ht
  | count u =>
      simp only [workerStep, hpc, Option.some.injEq, Prod.mk.injEq] at h
      obtain ⟨-, rfl⟩ := h
      cases hu : u.recurring?.isSome with
      | true => simp [hu, WorkerPc.callable?] at ht
      | false =>
          simp only [hu, Worker.goto_pc] at ht
          obtain rfl : u = t := Option.some.inj ht
          simp [hr] at hu
  | wrapper u =>
      simp only [workerStep, hpc, Option.some.injEq] at h
      unfold startWrapper at h
      split at h
      · next hwrapper =>
          obtain ⟨-, rfl⟩ := Prod.mk.inj h
          obtain rfl : u = t := Option.some.inj ht
          simp [Task.recurring?, hwrapper] at hr
      · split at h
        all_goals
          obtain ⟨-, rfl⟩ := Prod.mk.inj h
          simp [WorkerPc.callable?] at ht
  | _ =>
      have hnext := workerStep_follows h
      rw [hpc] at hnext
      generalize w'.pc = pc' at hnext ht
      cases hnext
      all_goals cases ht

/-- A worker that is past a test was past it before, or the flag is not
set. -/
theorem entered_step (h : step s a = some s') (hw : s'.workers[i]? = some w)
    (ht : w.pc.entered? = some t) (hset : t.cancelledIn s.flags = true) :
    ∃ w₁, s.workers[i]? = some w₁ ∧ w₁.pc.entered? = some t := by
  obtain ⟨hold, -⟩ | hspawned | ⟨ch, v, s₁, rfl, hv, hworker⟩ :=
    getElem?_workers_step h hw
  · exact ⟨w, hold, ht⟩
  · simp [hspawned, WorkerPc.entered?] at ht
  · obtain hbefore | hopen := workerStep_entered hworker ht
    · exact ⟨v, hv, hbefore⟩
    · rw [hset] at hopen
      cases hopen

theorem callable_step (h : step s a = some s') (hw : s'.workers[i]? = some w)
    (ht : w.pc.callable? = some t) (hr : t.recurring? = some r)
    (hset : s.flag r.cancelled = true) :
    ∃ w₁, s.workers[i]? = some w₁ ∧ w₁.pc.callable? = some t := by
  obtain ⟨hold, -⟩ | hspawned | ⟨ch, v, s₁, rfl, hv, hworker⟩ :=
    getElem?_workers_step h hw
  · exact ⟨w, hold, ht⟩
  · simp [hspawned, WorkerPc.callable?] at ht
  · obtain hbefore | hopen := workerStep_callable hworker ht hr
    · exact ⟨v, hv, hbefore⟩
    · rw [hset] at hopen
      cases hopen

/-- A body in its callable carries its flag. -/
theorem mem_hot_of_callable (hw : w ∈ s.workers)
    (ht : w.pc.callable? = some t) (hr : t.recurring? = some r) :
    r.cancelled ∈ (flow s).hot := by
  have hcarried : r.cancelled ∈ w.carried := by
    have hbody := bodyFlags_of_some hr
    unfold WorkerPc.callable? at ht
    split at ht
    · next u hpc =>
        obtain rfl := Option.some.inj ht
        simp [Worker.carried, hpc, Phase.carried, hbody]
    · next u pc hpc =>
        obtain rfl := Option.some.inj ht
        simp [Worker.carried, hpc, Phase.carried, hbody]
    · cases ht
  have htally := Roster.mem_tally.mpr ⟨w, hw, hcarried⟩
  simp only [Flow.hot, flow, flowWith, Multiset.mem_add]
  exact .inr (.inr (.inr htally))

/-! ## The counter -/

/-- A move of a worker outside a call counts a task that its wrapper finds
cancelled. -/
theorem workerStep_tasksCancelled (h : workerStep s i w ch = some (s₁, w'))
    (hreset : w.call? ≠ some .resetStats) :
    s₁.stats.tasksCancelled = s.stats.tasksCancelled +
      UInt64.ofNat ((s.workerEvent w).counted s.flags).card := by
  have hzero : ((s.workerEvent w).counted s.flags).card = 0 →
      s₁.stats.tasksCancelled = s.stats.tasksCancelled →
        s₁.stats.tasksCancelled = s.stats.tasksCancelled +
          UInt64.ofNat ((s.workerEvent w).counted s.flags).card := by
    intro hcard hsame
    rw [hcard, hsame]
    exact (UInt64.add_zero _).symm
  have hleaves : ∀ u : Task, ((s.leaves? u).counted s.flags).card = 0 := by
    intro u
    unfold State.leaves?
    split
    · rfl
    · split <;> rfl
  cases hpc : w.pc with
  | wrapper u =>
      simp only [workerStep, hpc, Option.some.injEq] at h
      unfold startWrapper at h
      split at h
      · next hwrapper =>
          obtain ⟨rfl, -⟩ := Prod.mk.inj h
          apply hzero _ rfl
          simp [State.workerEvent, hpc, Flow.Event.counted, Task.cancelledIn,
            hwrapper]
      · next g body hwrapper =>
          split at h
          · next hflag =>
              obtain ⟨rfl, -⟩ := Prod.mk.inj h
              have hset : u.cancelledIn s.flags = true := by
                simp only [Task.cancelledIn, hwrapper]
                exact hflag
              simp only [State.workerEvent, hpc, Flow.Event.counted, hset,
                if_true]
              rfl
          · next hflag =>
              obtain ⟨rfl, -⟩ := Prod.mk.inj h
              have hopen : u.cancelledIn s.flags = false := by
                simp only [Task.cancelledIn, hwrapper]
                exact Bool.eq_false_iff.mpr hflag
              apply hzero _ rfl
              simp [State.workerEvent, hpc, Flow.Event.counted, hopen]
  | running u phase =>
      simp only [workerStep, hpc] at h
      apply hzero
      · cases phase with
        | recurringTest | rescheduleTest =>
            simp only [State.workerEvent, hpc]
            exact hleaves u
        | _ => simp [State.workerEvent, hpc, Flow.Event.counted]
      · cases phase with
        | user =>
            simp only [runningStep] at h
            split at h
            · obtain ⟨rfl, -⟩ := Prod.mk.inj (Option.some.inj h)
              rfl
            · split at h
              · obtain ⟨rfl, -⟩ := Prod.mk.inj (Option.some.inj h)
                rfl
              · obtain ⟨rfl, -⟩ := Prod.mk.inj (Option.some.inj h)
                cases ch.throws <;> rfl
        | call pc | reschedule pc =>
            simp only [runningStep] at h
            split at h
            · obtain ⟨rfl, -⟩ := Prod.mk.inj (Option.some.inj h)
              rfl
            · simp only [Option.map_eq_some_iff, Prod.mk.injEq] at h
              obtain ⟨⟨s₂, pc'⟩, hcall, rfl, -⟩ := h
              refine (callStep_counts hcall ?_).cancelled
              rintro rfl
              exact hreset (by simp [Worker.call?, hpc])
        | recurringTest | rescheduleTest =>
            simp only [runningStep, Option.map_eq_some_iff,
              Prod.mk.injEq] at h
            obtain ⟨r', -, rfl, -⟩ := h
            rfl
  | returned u =>
      simp only [workerStep, hpc, Option.some.injEq, Prod.mk.injEq] at h
      obtain ⟨rfl, -⟩ := h
      apply hzero _ rfl
      simp [State.workerEvent, hpc, Flow.Event.counted]
  | _ =>
      apply hzero
      · simp [State.workerEvent, hpc, Flow.Event.counted]
      · refine (workerStep_counts h ?_).cancelled
        simp [Worker.stage, hpc]

/-- A step counts the tasks it finds cancelled. -/
theorem step_tasksCancelled (h : step s a = some s')
    (hkeep : s.resets a = false) :
    s'.stats.tasksCancelled = s.stats.tasksCancelled +
      UInt64.ofNat ((s.event a).counted s.flags).card := by
  have hreset : a.caller?.bind s.callAt ≠ some .resetStats := by
    intro hat
    simp [State.resets, hat] at hkeep
  cases a with
  | tick elapsed =>
      obtain rfl := step_tick h
      exact (UInt64.add_zero _).symm
  | call op =>
      obtain rfl := step_call h
      exact (UInt64.add_zero _).symm
  | client n ch =>
      obtain ⟨pc, s₁, pc', hpc, hcall, rfl⟩ := step_client h
      have hsame := (callStep_counts hcall fun heq =>
        hreset (heq ▸ hpc)).cancelled
      exact hsame.trans (UInt64.add_zero _).symm
  | worker i ch =>
      obtain ⟨w, s₁, w', hw, hworker, rfl⟩ := step_worker h
      simp only [State.event, hw, Option.map_some, Option.getD_some]
      apply workerStep_tasksCancelled hworker
      intro heq
      exact hreset (by simp [Action.caller?, State.callAt, hw, heq])
  | scheduler ch =>
      obtain ⟨pc, s₁, pc', hpc, hsched, rfl⟩ := step_scheduler h
      simp only [State.event, hpc, Option.map_some, Option.getD_some]
      exact (schedulerStep_counts hsched).2.2
  | cancel f =>
      obtain rfl := step_cancel h
      exact (UInt64.add_zero _).symm

theorem tasksCancelled_of_resets (h : step s a = some s')
    (hreset : s.resets a = true) : s'.stats.tasksCancelled = 0 := by
  obtain ⟨pc, hat, hpc⟩ := (Option.any_eq_true _ _).mp hreset
  obtain rfl : pc = .resetStats := of_decide_eq_true hpc
  obtain ⟨who, ha, hat⟩ := Option.bind_eq_some_iff.mp hat
  obtain ⟨s₁, pc', hcall, -, hs'⟩ := step_of_callAt h ha hat CallPc.noConfusion
  obtain ⟨rfl, -⟩ := Prod.mk.inj (Option.some.inj hcall)
  rw [hs']
  rfl

/-! ## Every run -/

/-- What holds of every state of a watched run. -/
structure Logged (x : State × CancelLog) : Prop where
  reachable : Transition.Reachable step initial x.1
  numbered : (flow x.1).Numbered x.2.counted
  counter : x.1.stats.tasksCancelled = UInt64.ofNat x.2.sinceReset

theorem Logged.step (hx : Logged x) (h : stepCancelled x a = some x') :
    Logged x' := by
  obtain ⟨hstep, hobserve⟩ := Transition.watch_eq_some.mp h
  have hflow := step_flow (reachable_localQueuesEmpty hx.reachable) hstep
  refine ⟨hx.reachable.next trivial hstep, ?_, ?_⟩
  · rw [hobserve]
    exact hx.numbered.step hflow
  · rw [hobserve]
    cases hreset : x.1.resets a with
    | true =>
        simp only [observeCancelled, hreset, if_true]
        exact tasksCancelled_of_resets hstep hreset
    | false =>
        simp only [observeCancelled, hreset, Bool.false_eq_true, if_false]
        rw [step_tasksCancelled hstep hreset, hx.counter, UInt64.ofNat_add]

theorem reachable_logged
    (hx : Transition.Reachable stepCancelled initialCancelled x) :
    Logged x := by
  refine hx.invariant (I := Logged) ?_ fun x a x' hL _ h => hL.step h
  rintro ⟨s, l⟩ ⟨⟨c, clock, rfl⟩, rfl⟩
  refine ⟨.start ⟨c, clock, rfl⟩, ?_, rfl⟩
  rw [construct_flow]
  exact ⟨Multiset.nodup_zero, fun x hx => absurd hx (Multiset.notMem_zero x)⟩

/-- What holds of every later state `x` of a run after `f` has been set in
`s`. -/
structure Later (f : ℕ) (s : State) (x : State × CancelLog) : Prop where
  logged : Logged x
  created : f < x.1.flags.length
  set : x.1.flag f = true
  entered : ∀ (i : ℕ) (w : Worker) (t : Task) (body : Body),
    x.1.workers[i]? = some w → w.pc.entered? = some t →
      t.wrapper = .delayed f body →
      ∃ w₁ : Worker, s.workers[i]? = some w₁ ∧ w₁.pc.entered? = some t
  callable : ∀ (i : ℕ) (w : Worker) (t : Task) (r : Recurring),
    x.1.workers[i]? = some w → w.pc.callable? = some t →
      t.recurring? = some r → r.cancelled = f →
      ∃ w₁ : Worker, s.workers[i]? = some w₁ ∧ w₁.pc.callable? = some t
  cold : ∀ t ∈ s.unread, ∀ r : Recurring, t.wrapper = .delayed f (.recurring r) →
    r.cancelled < x.1.flags.length ∧ r.cancelled ∉ (flow x.1).hot
  settled : ∀ t ∈ s.unread, ∀ body, t.wrapper = .delayed f body →
    (flow x.1).Settled x.2.counted t

theorem cancelledIn_of_flag {body : Body} (ht : t.wrapper = .delayed f body)
    (hset : s.flag f = true) : t.cancelledIn s.flags = true := by
  simp only [Task.cancelledIn, ht]
  exact hset

theorem Later.step (hx : Later f s x) (h : stepCancelled x a = some x') :
    Later f s x' := by
  obtain ⟨hstep, hobserve⟩ := Transition.watch_eq_some.mp h
  have hflow := step_flow (reachable_localQueuesEmpty hx.logged.reachable) hstep
  refine ⟨hx.logged.step h, hx.created.trans_le (hflow.length_le),
    hflow.getD hx.set, ?_, ?_, ?_, ?_⟩
  · intro i w t body hw ht hwrapper
    obtain ⟨v, hv, hvt⟩ := entered_step hstep hw ht
      (cancelledIn_of_flag hwrapper hx.set)
    exact hx.entered i v t body hv hvt hwrapper
  · intro i w t r hw ht hr hf
    obtain ⟨v, hv, hvt⟩ := callable_step hstep hw ht hr (hf ▸ hx.set)
    exact hx.callable i v t r hv hvt hr hf
  · intro t ht r hwrapper
    obtain ⟨hlt, hcold⟩ := hx.cold t ht r hwrapper
    exact ⟨hlt.trans_le (hflow.length_le), hflow.notMem_hot hlt hcold⟩
  · intro t ht body hwrapper
    rw [hobserve]
    exact (hx.settled t ht body hwrapper).step hflow

/-- Right after the flag has been set. -/
theorem Logged.later (hx : Logged x) (hcreated : f < x.1.flags.length)
    (hset : x.1.flag f = true) : Later f x.1 x := by
  refine ⟨hx, hcreated, hset, ?_, ?_, ?_, ?_⟩
  · exact fun i w t body hw ht _ => ⟨w, hw, ht⟩
  · exact fun i w t r hw ht _ _ => ⟨w, hw, ht⟩
  · intro t ht r hwrapper
    have hunique := reachable_unique hx.reachable
    have hmem : r.cancelled ∈ t.flags := by
      simp [Flow.flags_delayed hwrapper, Body.flags]
    refine ⟨hunique.created _ ?_, hunique.notMem_hot ht
      (cancelledIn_of_flag hwrapper hset) hmem⟩
    exact Multiset.mem_add.mpr (.inl (Multiset.mem_bind.mpr ⟨t, ht, hmem⟩))
  · exact fun t ht body hwrapper =>
      .inl ⟨ht, cancelledIn_of_flag hwrapper hset⟩

/-- An unread task is in one of the compartments before the wrapper. -/
theorem mem_books_of_unread (ht : t ∈ s.unread) :
    t.id ∈ (books s).delayed ∨ t.id ∈ (books s).ready ∨
      t.id ∈ (books s).shared ∨ t.id ∈ (books s).held := by
  simp only [State.unread, flow, flowWith, State.waitingTasks,
    State.sharedTasks, Multiset.mem_add, Multiset.mem_coe] at ht
  obtain hworker | (hdelayed | hready) | hqueue | hpriority := ht
  · obtain ⟨w, hw, htw⟩ := Roster.mem_tally.mp hworker
    refine .inr (.inr (.inr (Books.mem_held.mpr ?_)))
    unfold Worker.unread at htw
    split at htw
    · next u hpc =>
        obtain rfl := Multiset.mem_singleton.mp htw
        refine .inl (Roster.mem_tally.mpr ⟨w, hw, ?_⟩)
        simp [Worker.stage, hpc, Stage.takenIds]
    · next u hpc =>
        obtain rfl := Multiset.mem_singleton.mp htw
        refine .inr (.inl (Roster.mem_tally.mpr ⟨w, hw, ?_⟩))
        simp [Worker.stage, hpc, Stage.startedIds]
    · exact absurd htw (Multiset.notMem_zero _)
  · obtain ⟨d, hd, rfl⟩ := List.mem_map.mp hdelayed
    exact .inl (Multiset.mem_coe.mpr (List.mem_map_of_mem hd))
  · obtain ⟨d, hd, rfl⟩ := List.mem_map.mp hready
    exact .inr (.inl (Multiset.mem_coe.mpr (List.mem_map_of_mem hd)))
  · refine .inr (.inr (.inl (Multiset.mem_add.mpr (.inl ?_))))
    exact Multiset.mem_coe.mpr (List.mem_map_of_mem hqueue)
  · obtain ⟨p, hp, rfl⟩ := List.mem_map.mp hpriority
    refine .inr (.inr (.inl (Multiset.mem_add.mpr (.inr ?_))))
    exact Multiset.mem_coe.mpr (List.mem_map_of_mem hp)

/-- A task that has been dropped or run is neither unread nor discarded. -/
theorem notMem_of_done (hs : Transition.Reachable step initial s)
    (hdone : t.id ∈ s.dropped ∨ t.id ∈ s.finished) :
    t ∉ s.unread ∧ t.id ∉ s.discarded := by
  have hB := reachable_balanced hs
  have hnodup := hB.accepted ▸ Multiset.nodup_range (books s).accepted
  obtain ⟨hdropped, -, hdiscarded⟩ := Multiset.nodup_add.mp hnodup
  obtain ⟨hfinished, -, hdropped⟩ := Multiset.nodup_add.mp hdropped
  obtain ⟨-, -, hfinished⟩ := Multiset.nodup_add.mp hfinished
  constructor
  · intro ht
    have hbefore := mem_books_of_unread ht
    rw [← or_assoc, ← or_assoc, ← Multiset.mem_add, ← Multiset.mem_add,
      ← Multiset.mem_add] at hbefore
    obtain hmem | hmem := hdone
    · exact Multiset.disjoint_left.mp hdropped
        (Multiset.mem_add.mpr (.inl hbefore)) (Multiset.mem_coe.mpr hmem)
    · exact Multiset.disjoint_left.mp hfinished hbefore
        (Multiset.mem_coe.mpr hmem)
  · intro ht
    refine Multiset.disjoint_left.mp hdiscarded ?_ (Multiset.mem_coe.mpr ht)
    obtain hmem | hmem := hdone
    · exact Multiset.mem_add.mpr (.inr (Multiset.mem_coe.mpr hmem))
    · exact Multiset.mem_add.mpr (.inl (Multiset.mem_add.mpr
        (.inr (Multiset.mem_coe.mpr hmem))))

theorem Later.holds (hx : Later f s x) : CancelHolds f s x := by
  have hwaits : ∀ t ∈ s.unread, ∀ body, t.wrapper = .delayed f body →
      t ∈ x.1.unread ∨ t.id ∈ x.1.discarded ∨
        x.2.counted.count t.id = 1 := by
    intro t ht body hwrapper
    have hnodup := (Multiset.nodup_add.mp (Multiset.nodup_add.mp
      hx.logged.numbered.nodup).2.1).1
    obtain ⟨hunread, -⟩ | hlog | hdiscarded := hx.settled t ht body hwrapper
    · exact .inl hunread
    · exact .inr (.inr (Multiset.count_eq_one_of_mem hnodup hlog))
    · exact .inr (.inl hdiscarded)
  constructor
  · intro i w t body hw ht hwrapper
    apply hx.entered i w t body hw _ hwrapper
    unfold WorkerPc.callable? at ht
    split at ht
    · next u hpc =>
        simpa [WorkerPc.entered?, hpc] using ht
    · next u pc hpc =>
        simpa [WorkerPc.entered?, hpc] using ht
    · cases ht
  · exact hx.callable
  · intro t ht r hwrapper w hw u r' hu hr' heq
    obtain ⟨-, hcold⟩ := hx.cold t ht r hwrapper
    exact hcold (heq ▸ mem_hot_of_callable hw hu hr')
  · exact hwaits
  · intro t ht body hwrapper hdone
    obtain ⟨hunread, hdiscarded⟩ := notMem_of_done hx.logged.reachable hdone
    obtain hmem | hmem | hcount := hwaits t ht body hwrapper
    · exact absurd hmem hunread
    · exact absurd hmem hdiscarded
    · exact hcount
  · exact (Multiset.nodup_add.mp (Multiset.nodup_add.mp
      hx.logged.numbered.nodup).2.1).1
  · exact hx.logged.counter

/-- From any state of any run: when a flag is set, by `TaskHandle::Cancel` or
by `CancelTask`, no wrapper or recurring body that reads it later goes on, and
every task that is found cancelled is counted once. -/
theorem reachable_cancelHolds {y : State × CancelLog}
    (hx : Transition.Reachable stepCancelled initialCancelled x)
    (hf : x.1.cancels? a = some f)
    (hhandle : a = .cancel f → f < x.1.flags.length)
    (h : stepCancelled x a = some x')
    (hy : Transition.Reachable stepCancelled {x'} y) :
    CancelHolds f x'.1 y := by
  have hx' := (reachable_logged hx).step h
  have hreach := (reachable_logged hx).reachable
  obtain ⟨hstep, -⟩ := Transition.watch_eq_some.mp h
  have hlt : f < x.1.flags.length := by
    obtain rfl | ⟨taskId, hreg, -⟩ := cancels?_eq_some hf
    · exact hhandle rfl
    · exact (reachable_registered hreach).created taskId f hreg
  have hlength : f < x'.1.flags.length :=
    hlt.trans_le (step_flow (reachable_localQueuesEmpty hreach) hstep).length_le
  have hset : x'.1.flag f = true := by
    rw [(step_cancels hstep hf).1 f]
    simp [State.flag, setFlag, List.getD_eq_getElem?_getD, hlt]
  have hlater : Later f x'.1 y := by
    refine hy.invariant (I := Later f x'.1) ?_ fun _ _ _ hL _ h => hL.step h
    rintro z rfl
    exact hx'.later hlength hset
  exact hlater.holds

end

/-! ## A run with a cancellation -/

/-- The scheduler drops the task when it is due. -/
def dropsCancelled : List Action :=
  .tick 10000000 :: List.replicate 4 (.scheduler {})

theorem submitsCancelled_runs :
    (Transition.run stepCancelled (construct delayConfig 0, {})
      (submitsDelayed 0 10)).isSome := by
  decide

theorem cancelsDelayed_runs :
    (Transition.run stepCancelled (construct delayConfig 0, {})
      (submitsDelayed 0 10 ++ [.cancel 0])).isSome := by
  decide

/-- The pool after the task has been cancelled. -/
def cancelledPool : State × CancelLog :=
  (Transition.run stepCancelled (construct delayConfig 0, {})
    (submitsDelayed 0 10 ++ [.cancel 0])).get cancelsDelayed_runs

theorem dropsCancelled_runs :
    (Transition.run stepCancelled cancelledPool dropsCancelled).isSome := by
  decide

theorem reachable_cancelHolds_dropsCancelled :
    CancelHolds 0 cancelledPool.1
      ((Transition.run stepCancelled cancelledPool dropsCancelled).get
        dropsCancelled_runs) := by
  have hstart : (construct delayConfig 0, {}) ∈ initialCancelled :=
    ⟨⟨delayConfig, 0, rfl⟩, rfl⟩
  have hreach := Transition.reachable_get_run hstart submitsCancelled_runs
  have hcancel : stepCancelled ((Transition.run stepCancelled
      (construct delayConfig 0, {}) (submitsDelayed 0 10)).get
        submitsCancelled_runs)
      (.cancel 0) = some cancelledPool := rfl
  exact reachable_cancelHolds hreach rfl (fun _ => by decide) hcancel
    (Transition.reachable_get_run (Set.mem_singleton _) dropsCancelled_runs)

end ThreadPool
end Yacul
