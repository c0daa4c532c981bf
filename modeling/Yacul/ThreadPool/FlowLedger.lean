import Yacul.ThreadPool.Flow
import Yacul.ThreadPool.Ledger

/-!
# The pool moves the flags

Every step of the pool is one step in the flow of the cancellation flags, with
an event that is known before the step.
-/

namespace Yacul
namespace ThreadPool

open Yacul.ThreadPool.Flow (Event)

/-! ## The flags of a state -/

/-- The flag that the submission has not registered. -/
def CallPc.pending : CallPc → Multiset ℕ
  | .delayedInsert _ _ _ cancelled _ => {cancelled}
  | .recurringRegister _ r => {r.cancelled}
  | _ => 0

/-- The flag of the body that the call submits. -/
def CallPc.carried : CallPc → Multiset ℕ
  | .delayedPrepare _ _ body | .delayedInsert _ _ _ _ body => body.flags
  | _ => 0

/-- The flag of the running body, and that of a call from it. -/
def Phase.carried (t : Task) : Phase → Multiset ℕ
  | .call pc => pc.carried + t.bodyFlags
  | .reschedule pc => pc.carried
  | _ => t.bodyFlags

/-- The flag that a call of the task has not registered. -/
def Phase.pending : Phase → Multiset ℕ
  | .call pc | .reschedule pc => pc.pending
  | _ => 0

/-- The task whose wrapper has not read its flag. -/
def Worker.unread (w : Worker) : Multiset Task :=
  match w.pc with
  | .gotTask t | .wrapper t => {t}
  | _ => 0

def Worker.pending (w : Worker) : Multiset ℕ :=
  match w.pc with
  | .running _ phase => phase.pending
  | _ => 0

def Worker.carried (w : Worker) : Multiset ℕ :=
  match w.pc with
  | .count t => t.bodyFlags
  | .running t phase => phase.carried t
  | _ => 0

/-- The tasks on the shared queue. -/
def State.sharedTasks (s : State) : Multiset Task :=
  (s.tasks : Multiset Task) +
    (s.priorityTasks.map PriorityTask.task : List Task)

/-- The tasks that wait for their time, are in the batch of the scheduler, or
are on the shared queue. -/
def State.waitingTasks (s : State) : Multiset Task :=
  (s.delayedTasks.map DelayedTask.task : List Task) +
    (s.ready.map DelayedTask.task : List Task) + s.sharedTasks

/-- The shared variables, with what the threads hold. -/
def flowWith (s : State) (unread : Multiset Task)
    (pending carried : Multiset ℕ) : Flow where
  unread := unread + s.waitingTasks
  pending := pending
  carried := carried
  flags := s.flags
  registry := s.cancelledTasks
  accepted := s.accepted
  discarded := s.discarded
  aborted := s.aborted

/-- The flow of a state. -/
def flow (s : State) : Flow :=
  flowWith s (Roster.tally Worker.unread s.workers)
    (Roster.tally CallPc.pending s.clients +
      Roster.tally Worker.pending s.workers)
    (Roster.tally CallPc.carried s.clients +
      Roster.tally Worker.carried s.workers)

/-! ## The event of a step -/

/-- A recurring body is at one of its two tests. -/
def State.leaves? (s : State) (t : Task) : Event :=
  match t.recurring? with
  | none => .other
  | some r => if s.flag r.cancelled || s.shutdown then .leave r else .other

/-- The event of a move of a worker. -/
def State.workerEvent (s : State) (w : Worker) : Event :=
  match w.pc with
  | .wrapper t => .read t
  | .running t .recurringTest | .running t .rescheduleTest => s.leaves? t
  | _ => .other

/-- The event of a move of the scheduler. -/
def State.schedulerEvent (s : State) (ch : Choice) : SchedulerPc → Event
  | .collect now _ =>
      if taskDue s now then
        match popDelayed s ch.index with
        | none => .other
        | some (d, s') =>
            if (s'.cancelledTasks d.taskId).any s'.flag then .drop d
            else .other
      else .other
  | _ => .other

/-- The event of a step. -/
def State.event (s : State) : Action → Event
  | .worker i _ => (s.workers[i]?.map s.workerEvent).getD .other
  | .scheduler ch => (s.scheduler.map (s.schedulerEvent ch)).getD .other
  | _ => .other

/-! ## The tasks that wait -/

theorem coe_append_task (l : List Task) (t : Task) :
    ((l ++ [t] : List Task) : Multiset Task) = t ::ₘ (l : Multiset Task) := by
  rw [← Multiset.coe_add, Multiset.coe_singleton, Multiset.add_comm,
    Multiset.singleton_add]

theorem sharedTasks_pushTask (s : State) (priority : TaskPriority)
    (t : Task) :
    (pushTask s priority t).sharedTasks = t ::ₘ s.sharedTasks := by
  unfold pushTask
  dsimp only
  split
  · simp only [State.sharedTasks, List.map_append, List.map_cons,
      List.map_nil, coe_append_task, Multiset.add_cons]
  · simp only [State.sharedTasks, coe_append_task, Multiset.cons_add]

theorem waitingTasks_pushTask (s : State) (priority : TaskPriority)
    (t : Task) :
    (pushTask s priority t).waitingTasks = t ::ₘ s.waitingTasks := by
  have hsame := (pushTask_same s priority t).1
  rw [State.waitingTasks, sharedTasks_pushTask, State.ready, hsame.scheduler,
    hsame.delayedTasks, Multiset.add_cons]
  rfl

/-- The parts of the flow that most moves leave alone. -/
structure SameFlow (s s' : State) : Prop where
  flags : s'.flags = s.flags
  registry : s'.cancelledTasks = s.cancelledTasks
  accepted : s'.accepted = s.accepted
  discarded : s'.discarded = s.discarded
  aborted : s'.aborted = s.aborted

theorem pushTask_sameFlow (s : State) (priority : TaskPriority) (t : Task) :
    SameFlow s (pushTask s priority t) := by
  unfold pushTask
  dsimp only
  split <;> exact ⟨rfl, rfl, rfl, rfl, rfl⟩

theorem SameFlow.trans {s₁ s₂ s₃ : State} (h : SameFlow s₁ s₂)
    (h' : SameFlow s₂ s₃) : SameFlow s₁ s₃ where
  flags := h'.flags.trans h.flags
  registry := h'.registry.trans h.registry
  accepted := h'.accepted.trans h.accepted
  discarded := h'.discarded.trans h.discarded
  aborted := h'.aborted.trans h.aborted

theorem pushReady_sameFlow (ready : List DelayedTask) (s : State) :
    SameFlow s (ready.foldl (fun s d => pushTask s d.priority d.task) s) := by
  induction ready generalizing s with
  | nil => exact ⟨rfl, rfl, rfl, rfl, rfl⟩
  | cons d ready ih =>
      exact (pushTask_sameFlow s d.priority d.task).trans (ih _)

theorem sharedTasks_pushReady (ready : List DelayedTask) (s : State) :
    (ready.foldl (fun s d => pushTask s d.priority d.task) s).sharedTasks =
      (ready.map DelayedTask.task : List Task) + s.sharedTasks := by
  induction ready generalizing s with
  | nil => simp
  | cons d ready ih =>
      rw [List.foldl_cons, ih, sharedTasks_pushTask, Multiset.add_cons,
        List.map_cons, ← Multiset.cons_coe, Multiset.cons_add]

/-- With the same flags and the same tasks, the flow is the same. -/
theorem flowWith_congr {s s' : State} (h : SameFlow s s')
    (hwaiting : s'.waitingTasks = s.waitingTasks) (unread : Multiset Task)
    (pending carried : Multiset ℕ) :
    flowWith s' unread pending carried = flowWith s unread pending carried := by
  simp only [flowWith, h.flags, h.registry, h.accepted, h.discarded, h.aborted,
    hwaiting]

theorem flow_enqueueTask (s : State) (priority : TaskPriority)
    (unread : Multiset Task) (pending carried : Multiset ℕ) :
    Flow.Step (flowWith s unread pending carried) .other
      (flowWith (enqueueTask s priority) unread pending carried) := by
  have hsame := pushTask_sameFlow s priority ⟨s.accepted, .immediate⟩
  have hwaiting : (enqueueTask s priority).waitingTasks =
      ⟨s.accepted, .immediate⟩ ::ₘ s.waitingTasks :=
    waitingTasks_pushTask s priority ⟨s.accepted, .immediate⟩
  have hflow : flowWith (enqueueTask s priority) unread pending carried =
      { flowWith s unread pending carried with
        unread := ⟨s.accepted, .immediate⟩ ::ₘ (unread + s.waitingTasks)
        accepted := s.accepted + 1 } := by
    rw [flowWith, hwaiting, Multiset.add_cons]
    congr 1
    · exact hsame.flags
    · exact hsame.registry
    · exact congrArg _ hsame.discarded
    · exact hsame.aborted
  rw [hflow]
  exact .submit rfl rfl

theorem flow_drainQueues {s : State} (hlocal : LocalQueuesEmpty s)
    (unread : Multiset Task) (pending carried : Multiset ℕ) :
    Flow.Step (flowWith s unread pending carried) .other
      (flowWith (drainQueues s) unread pending carried) := by
  have hflat : s.localQueues.flatten = [] := List.flatten_eq_nil_iff.mpr hlocal
  have hsplit : (flowWith s unread pending carried).unread =
      ((s.delayedTasks.map DelayedTask.task : List Task) + s.sharedTasks) +
        (unread + (s.ready.map DelayedTask.task : List Task)) := by
    simp only [flowWith, State.waitingTasks]
    abel
  have hflow : flowWith (drainQueues s) unread pending carried =
      { flowWith s unread pending carried with
        unread := unread + (s.ready.map DelayedTask.task : List Task)
        registry := fun _ => none
        discarded := ((s.delayedTasks.map DelayedTask.task : List Task) +
          s.sharedTasks).map Task.id + (s.discarded : Multiset ℕ) } := by
    have hdiscarded : ((drainQueues s).discarded : Multiset ℕ) =
        ((s.delayedTasks.map DelayedTask.task : List Task) +
          s.sharedTasks).map Task.id + (s.discarded : Multiset ℕ) := by
      simp only [drainQueues, hflat, List.map_nil, List.append_nil,
        ← Multiset.coe_add, State.sharedTasks, Multiset.map_add,
        Multiset.map_coe, List.map_map]
      simp only [Function.comp_def]
      abel
    rw [flowWith, hdiscarded]
    congr 1
    simp [State.waitingTasks, drainQueues, State.sharedTasks, State.ready]
  rw [hflow]
  exact .discard hsplit

/-! ## Calls -/

theorem callStep_flow {s s' : State} {who : Caller} {ch : Choice}
    {pc pc' : CallPc} (h : callStep s who ch pc = some (s', pc'))
    (hlocal : LocalQueuesEmpty s) (unread : Multiset Task)
    (pending carried : Multiset ℕ) :
    Flow.Step
      (flowWith s unread (pc.pending + pending) (pc.carried + carried)) .other
      (flowWith s' unread (pc'.pending + pending)
        (pc'.carried + carried)) := by
  cases pc with
  | enqueueTask priority =>
      simp only [callStep, whenFree_eq_some] at h
      obtain ⟨-, h⟩ := h
      split at h
      · obtain ⟨rfl, rfl⟩ := Prod.mk.inj h
        exact .abort le_rfl le_rfl
      · split at h
        · obtain ⟨rfl, rfl⟩ := Prod.mk.inj h
          exact .quiet
        · obtain ⟨rfl, rfl⟩ := Prod.mk.inj h
          exact flow_enqueueTask s priority _ _ _
  | notifyOne =>
      simp only [callStep, Option.map_eq_some_iff, Prod.mk.injEq] at h
      obtain ⟨s₁, hs₁, rfl, rfl⟩ := h
      unfold ThreadPool.notifyOne at hs₁
      split at hs₁
      · obtain rfl := Option.some.inj hs₁
        exact .quiet
      · split at hs₁
        · obtain rfl := Option.some.inj hs₁
          exact .quiet
        · cases hs₁
  | delayedPrepare delay priority body =>
      simp only [callStep, Option.some.injEq] at h
      split at h
      · obtain ⟨rfl, rfl⟩ := Prod.mk.inj h
        simp only [CallPc.pending, CallPc.carried, zero_add,
          Multiset.singleton_add]
        exact .fresh
      · obtain ⟨rfl, rfl⟩ := Prod.mk.inj h
        simp only [CallPc.pending, CallPc.carried, zero_add]
        exact .abort le_rfl (Multiset.le_add_left _ _)
  | recurringPrepare interval priority =>
      simp only [callStep, Option.some.injEq] at h
      split at h
      · obtain ⟨rfl, rfl⟩ := Prod.mk.inj h
        simp only [CallPc.pending, CallPc.carried, zero_add,
          Multiset.singleton_add]
        exact .fresh
      · obtain ⟨rfl, rfl⟩ := Prod.mk.inj h
        exact .abort le_rfl le_rfl
  | delayedInsert executeTime priority taskId f body =>
      simp only [callStep, whenFree_eq_some] at h
      obtain ⟨-, h⟩ := h
      split at h
      · obtain ⟨rfl, rfl⟩ := Prod.mk.inj h
        simp only [CallPc.pending, CallPc.carried, zero_add]
        exact .abort (Multiset.le_add_left _ _) (Multiset.le_add_left _ _)
      · obtain ⟨rfl, rfl⟩ := Prod.mk.inj h
        have hflow : flowWith
            (insertDelayed s executeTime priority taskId f body) unread
              pending carried =
            { flowWith s unread ({f} + pending) (body.flags + carried) with
              unread := ⟨s.accepted, .delayed f body⟩ ::ₘ
                (unread + s.waitingTasks)
              pending := pending
              carried := carried
              registry := Function.update s.cancelledTasks taskId (some f)
              accepted := s.accepted + 1 } := by
          rw [flowWith, flowWith]
          congr 1
          simp only [State.waitingTasks, insertDelayed, List.map_append,
            List.map_cons, List.map_nil, coe_append_task, Multiset.cons_add,
            Multiset.add_cons]
          rfl
        simp only [CallPc.pending, CallPc.carried, zero_add]
        rw [hflow]
        exact .insert taskId rfl rfl (Multiset.singleton_add _ _) rfl
  | recurringRegister taskId r =>
      simp only [callStep, whenFree_eq_some, Prod.mk.injEq] at h
      obtain ⟨-, rfl, rfl⟩ := h
      simp only [CallPc.pending, CallPc.carried, Body.flags, zero_add,
        Multiset.singleton_add]
      exact .register taskId rfl
  | cancelTask taskId =>
      simp only [callStep, whenFree_eq_some, Prod.mk.injEq] at h
      obtain ⟨-, rfl, rfl⟩ := h
      unfold ThreadPool.cancelTask
      split
      · exact .set _
      · exact .quiet
  | waitTest before next =>
      simp only [callStep, whenFree_eq_some] at h
      obtain ⟨-, h⟩ := h
      split at h
      · obtain ⟨rfl, rfl⟩ := Prod.mk.inj h
        cases next <;> exact .quiet
      · obtain ⟨rfl, rfl⟩ := Prod.mk.inj h
        exact .quiet
  | shutdownSet now =>
      simp only [callStep, whenFree_eq_some, Prod.mk.injEq] at h
      obtain ⟨-, rfl, rfl⟩ := h
      cases now with
      | false => exact .quiet
      | true =>
          exact flow_drainQueues (s := { s with shutdown := true }) hlocal
            _ _ _
  | join k =>
      simp only [callStep] at h
      split at h
      · obtain ⟨rfl, rfl⟩ := Prod.mk.inj (Option.some.inj h)
        exact .quiet
      · split at h
        · obtain ⟨rfl, rfl⟩ := Prod.mk.inj (Option.some.inj h)
          exact .quiet
        · simp only [whenFree_eq_some, Prod.mk.injEq] at h
          obtain ⟨-, rfl, rfl⟩ := h
          exact .quiet
  | expandThreads | resizeGrow =>
      simp only [callStep, whenFree_eq_some, Prod.mk.injEq] at h
      obtain ⟨-, rfl, rfl⟩ := h
      split <;> exact .quiet
  | resizeShrink =>
      simp only [callStep, whenFree_eq_some, Prod.mk.injEq] at h
      obtain ⟨-, rfl, rfl⟩ := h
      split <;> exact .quiet
  | addThread threadId target =>
      simp only [callStep, whenFree_eq_some, Prod.mk.injEq] at h
      obtain ⟨-, rfl, rfl⟩ := h
      cases target <;> exact .quiet
  | expandQueue | expandActive =>
      obtain ⟨rfl, rfl⟩ := Prod.mk.inj (Option.some.inj h)
      split <;> exact .quiet
  | joinScheduler | lockThreads | resizeLog | resizeNotify
  | getThreadCount =>
      simp only [callStep, whenFree_eq_some, Prod.mk.injEq] at h
      obtain ⟨-, rfl, rfl⟩ := h
      exact .quiet
  | done => cases h
  | _ =>
      obtain ⟨rfl, rfl⟩ := Prod.mk.inj (Option.some.inj h)
      exact .quiet

/-! ## Workers -/

theorem stealTask_none {s : State} (hlocal : LocalQueuesEmpty s) (own : ℕ) :
    stealTask s own = none := by
  unfold stealTask
  rw [List.findSome?_eq_none_iff]
  exact fun slot _ => popLocal_none hlocal slot

section

variable {s s₁ : State} {i : ℕ} {w w' : Worker} {ch : Choice}

/-- The flow with what worker `w` holds besides the other threads. -/
def flowOf (s : State) (w : Worker) (unread : Multiset Task)
    (pending carried : Multiset ℕ) : Flow :=
  flowWith s (w.unread + unread) (w.pending + pending) (w.carried + carried)

/-- A worker without a task holds no flag. -/
theorem holds_of_free (h : w.stage = .free) :
    w.unread = 0 ∧ w.pending = 0 ∧ w.carried = 0 := by
  unfold Worker.stage at h
  unfold Worker.unread Worker.pending Worker.carried
  cases hpc : w.pc with
  | gotTask t | wrapper t | count t | running t phase | returned t
  | uncount t =>
      rw [hpc] at h
      cases h
  | _ => exact ⟨rfl, rfl, rfl⟩

/-- A move that touches neither the flags nor what the worker holds. -/
theorem flowOf_same (hsame : SameFlow s s₁)
    (hwaiting : s₁.waitingTasks = s.waitingTasks)
    (hholds : w'.unread = w.unread ∧ w'.pending = w.pending ∧
      w'.carried = w.carried)
    (unread : Multiset Task) (pending carried : Multiset ℕ) :
    Flow.Step (flowOf s w unread pending carried) .other
      (flowOf s₁ w' unread pending carried) := by
  obtain ⟨hunread, hpending, hcarried⟩ := hholds
  simp only [flowOf, flowWith_congr hsame hwaiting, hunread, hpending, hcarried]
  exact .quiet

/-- A move of a worker without a task. -/
theorem flowOf_free (hsame : SameFlow s s₁)
    (hwaiting : s₁.waitingTasks = s.waitingTasks) (hw : w.stage = .free)
    (hw' : w'.stage = .free) (unread : Multiset Task)
    (pending carried : Multiset ℕ) :
    Flow.Step (flowOf s w unread pending carried) .other
      (flowOf s₁ w' unread pending carried) := by
  obtain ⟨hunread, hpending, hcarried⟩ := holds_of_free hw
  obtain ⟨hunread', hpending', hcarried'⟩ := holds_of_free hw'
  exact flowOf_same hsame hwaiting ⟨hunread'.trans hunread.symm,
    hpending'.trans hpending.symm, hcarried'.trans hcarried.symm⟩ _ _ _

/-- The worker takes a task from the shared queue. -/
theorem flowOf_take {t : Task} (hsame : SameFlow s s₁)
    (hwaiting : s.waitingTasks = t ::ₘ s₁.waitingTasks)
    (hfree : w.stage = .free) (hgot : w'.pc = .gotTask t) (unread : Multiset Task)
    (pending carried : Multiset ℕ) :
    flowOf s₁ w' unread pending carried = flowOf s w unread pending carried := by
  obtain ⟨hunread, hpending, hcarried⟩ := holds_of_free hfree
  simp only [flowOf, flowWith, hwaiting, hsame.flags, hsame.registry,
    hsame.accepted, hsame.discarded, hsame.aborted, hunread, hpending,
    hcarried]
  simp only [Worker.unread, Worker.pending, Worker.carried, hgot, zero_add,
    Multiset.singleton_add, Multiset.cons_add, Multiset.add_cons]

theorem dequeueTask_flow {k : ℕ} {t : Task}
    (h : dequeueTask s k = some (some t, s₁)) :
    SameFlow s s₁ ∧ s.waitingTasks = t ::ₘ s₁.waitingTasks := by
  obtain ⟨p, htask, rfl, rfl⟩ | ⟨rest, htasks, rfl⟩ := dequeueTask_some h
  · refine ⟨⟨rfl, rfl, rfl, rfl, rfl⟩, ?_⟩
    have hsplit : (s.priorityTasks : Multiset PriorityTask) =
        p ::ₘ (s.priorityTasks.eraseIdx k : List PriorityTask) := by
      obtain ⟨hk, hget⟩ := List.getElem?_eq_some_iff.mp htask
      rw [Multiset.cons_coe, Multiset.coe_eq_coe, ← hget]
      exact (List.getElem_cons_eraseIdx_perm hk).symm
    simp only [State.waitingTasks, State.sharedTasks, State.ready, popPriority,
      ← Multiset.map_coe, hsplit, Multiset.map_cons, Multiset.add_cons]
  · refine ⟨⟨rfl, rfl, rfl, rfl, rfl⟩, ?_⟩
    simp only [State.waitingTasks, State.sharedTasks, State.ready, popFront,
      htasks, List.tail_cons, ← Multiset.cons_coe, Multiset.cons_add,
      Multiset.add_cons]

theorem startCall_flags (s : State) (op : Call) :
    (startCall s op).pending = 0 ∧ (startCall s op).carried = 0 := by
  cases op with
  | shutdown waitForTasks => cases waitForTasks <;> exact ⟨rfl, rfl⟩
  | _ => exact ⟨rfl, rfl⟩

theorem bodyFlags_of_none {t : Task} (h : t.recurring? = none) :
    t.bodyFlags = 0 := by
  unfold Task.recurring? at h
  unfold Task.bodyFlags
  split
  · rfl
  · next f body hwrapper =>
      cases body with
      | user => rfl
      | recurring r => simp [hwrapper] at h

theorem bodyFlags_of_some {t : Task} {r : Recurring}
    (h : t.recurring? = some r) : t.bodyFlags = {r.cancelled} := by
  unfold Task.recurring? at h
  split at h
  · next hwrapper =>
      obtain rfl := Option.some.inj h
      simp only [Task.bodyFlags, hwrapper, Body.flags]
  · cases h

/-- Inside a counted wrapper a flag goes from the body to the next submission,
or is left. -/
theorem runningStep_flow {t : Task} {phase : Phase}
    (h : runningStep s i w t ch phase = some (s₁, w'))
    (hpc : w.pc = .running t phase) (hlocal : LocalQueuesEmpty s)
    (unread : Multiset Task) (pending carried : Multiset ℕ) :
    Flow.Step (flowOf s w unread pending carried) (s.workerEvent w)
      (flowOf s₁ w' unread pending carried) := by
  simp only [flowOf, Worker.unread, Worker.pending, Worker.carried,
    State.workerEvent, hpc]
  cases phase with
  | user =>
      simp only [runningStep] at h
      split at h
      · next op _ =>
          obtain ⟨rfl, rfl⟩ := Prod.mk.inj (Option.some.inj h)
          obtain ⟨hpending, hcarried⟩ := startCall_flags s op
          simp only [Worker.goto_pc, Phase.pending, Phase.carried, hpending,
            hcarried, zero_add]
          exact .quiet
      · split at h
        · next hnone =>
            obtain ⟨rfl, rfl⟩ := Prod.mk.inj (Option.some.inj h)
            simp only [Worker.goto_pc, Phase.pending, Phase.carried,
              bodyFlags_of_none hnone]
            exact .quiet
        · obtain ⟨rfl, rfl⟩ := Prod.mk.inj (Option.some.inj h)
          unfold countRecurring
          cases ch.throws <;> exact .quiet
  | call pc =>
      simp only [runningStep] at h
      split at h
      · next hdone =>
          obtain ⟨rfl, rfl⟩ := Prod.mk.inj (Option.some.inj h)
          simp only [hdone, Worker.goto_pc, Phase.pending, Phase.carried,
            CallPc.pending, CallPc.carried, zero_add]
          exact .quiet
      · simp only [Option.map_eq_some_iff, Prod.mk.injEq] at h
        obtain ⟨⟨s₂, pc'⟩, hcall, rfl, rfl⟩ := h
        simp only [Worker.goto_pc, Phase.pending, Phase.carried, add_assoc]
        exact callStep_flow hcall hlocal _ _ _
  | recurringTest =>
      simp only [runningStep, Option.map_eq_some_iff, Prod.mk.injEq] at h
      obtain ⟨r, hr, rfl, rfl⟩ := h
      simp only [State.leaves?, hr, Worker.goto_pc, Phase.pending,
        Phase.carried, bodyFlags_of_some hr]
      split
      · simp only [zero_add]
        exact .leave (Multiset.singleton_add _ _)
      · simp only [bodyFlags_of_some hr]
        exact .quiet
  | rescheduleTest =>
      simp only [runningStep, Option.map_eq_some_iff, Prod.mk.injEq] at h
      obtain ⟨r, hr, rfl, rfl⟩ := h
      simp only [State.leaves?, hr, Worker.goto_pc, Phase.pending,
        Phase.carried, bodyFlags_of_some hr]
      split
      · simp only [zero_add]
        exact .leave (Multiset.singleton_add _ _)
      · exact .quiet
  | reschedule pc =>
      simp only [runningStep] at h
      split at h
      · next hdone =>
          obtain ⟨rfl, rfl⟩ := Prod.mk.inj (Option.some.inj h)
          simp only [hdone, Worker.goto_pc, Phase.pending, Phase.carried,
            CallPc.pending, CallPc.carried]
          exact .quiet
      · simp only [Option.map_eq_some_iff, Prod.mk.injEq] at h
        obtain ⟨⟨s₂, pc'⟩, hcall, rfl, rfl⟩ := h
        simp only [Worker.goto_pc, Phase.pending, Phase.carried]
        exact callStep_flow hcall hlocal _ _ _

/-- The wrapper reads its flag. -/
theorem startWrapper_flow {t : Task} (h : startWrapper s w t = (s₁, w'))
    (hpc : w.pc = .wrapper t) (unread : Multiset Task)
    (pending carried : Multiset ℕ) :
    Flow.Step (flowOf s w unread pending carried) (.read t)
      (flowOf s₁ w' unread pending carried) := by
  have hsplit : (flowOf s w unread pending carried).unread =
      t ::ₘ (0 + unread + s.waitingTasks) := by
    simp [flowOf, flowWith, Worker.unread, hpc]
  have hpending : w.pending = 0 := by simp [Worker.pending, hpc]
  have hcarried : w.carried = 0 := by simp [Worker.carried, hpc]
  -- A wrapper that goes on leaves its flag and keeps that of its body.
  have hread : ∀ {s₂ : State} {w₂ : Worker}, SameFlow s s₂ →
      s₂.waitingTasks = s.waitingTasks → w₂.unread = 0 → w₂.pending = 0 →
        w₂.carried = t.bodyFlags → t.cancelledIn s.flags = false →
          Flow.Step (flowOf s w unread pending carried) (.read t)
            (flowOf s₂ w₂ unread pending carried) := by
    intro s₂ w₂ hsame hwaiting hunread₂ hpending₂ hcarried₂ hopen
    rw [flowOf, flowOf, flowWith_congr hsame hwaiting, hunread₂, hpending₂,
      hcarried₂]
    have hstep := Flow.Step.read (b := flowOf s w unread pending carried)
      hsplit hopen
    simpa [flowOf, flowWith, hpending, hcarried] using hstep
  unfold startWrapper at h
  split at h
  · next hwrapper =>
      obtain ⟨rfl, rfl⟩ := Prod.mk.inj h
      apply hread ⟨rfl, rfl, rfl, rfl, rfl⟩ rfl rfl rfl
      · simp [Worker.carried, Phase.carried]
      · simp [Task.cancelledIn, hwrapper]
  · next f body hwrapper =>
      have hset : t.cancelledIn s.flags = s.flag f := by
        simp [Task.cancelledIn, hwrapper, State.flag]
      split at h
      · next hflag =>
          obtain ⟨rfl, rfl⟩ := Prod.mk.inj h
          have hstep := Flow.Step.skip (b := flowOf s w unread pending carried)
            hsplit (hset.trans hflag)
          simp only [flowOf, hpending, hcarried] at hstep ⊢
          exact hstep
      · next hflag =>
          obtain ⟨rfl, rfl⟩ := Prod.mk.inj h
          apply hread ⟨rfl, rfl, rfl, rfl, rfl⟩ rfl rfl rfl
          · simp [Worker.carried]
          · rw [hset]
            exact Bool.eq_false_iff.mpr hflag

/-- A worker between two tasks that does not look into the shared queue leaves
the tasks and the flags alone. -/
theorem workerStep_free (h : workerStep s i w ch = some (s₁, w'))
    (hlocal : LocalQueuesEmpty s) (hfree : w.stage = .free)
    (hshared : w.pc ≠ .sharedQueue) :
    SameFlow s s₁ ∧ s₁.waitingTasks = s.waitingTasks := by
  have hstate : ∀ {s₂ : State}, s₂ = s → SameFlow s s₂ ∧
      s₂.waitingTasks = s.waitingTasks := by
    rintro s₂ rfl
    exact ⟨⟨rfl, rfl, rfl, rfl, rfl⟩, rfl⟩
  cases hpc : w.pc with
  | sharedQueue => exact absurd hpc hshared
  | gotTask t | wrapper t | count t | running t phase | returned t
  | uncount t =>
      rw [Worker.stage, hpc] at hfree
      cases hfree
  | exited =>
      simp only [workerStep, hpc] at h
      cases h
  | localQueue =>
      simp only [workerStep, hpc, popLocal_none hlocal, whenFree_eq_some,
        Prod.mk.injEq] at h
      exact hstate h.2.1.symm
  | steal =>
      simp only [workerStep, hpc, stealTask_none hlocal, whenFree_eq_some,
        Prod.mk.injEq] at h
      exact hstate h.2.1.symm
  | retire =>
      simp only [workerStep, hpc, whenFree_eq_some, Prod.mk.injEq] at h
      exact hstate h.2.1.symm
  | pauseTest | idleCheck | idleRetest deadline =>
      simp only [workerStep, hpc, whenFree_eq_some] at h
      obtain ⟨-, h⟩ := h
      split at h
      all_goals
        obtain ⟨rfl, -⟩ := Prod.mk.inj h
        exact ⟨⟨rfl, rfl, rfl, rfl, rfl⟩, rfl⟩
  | _ =>
      simp only [workerStep, hpc, Option.some.injEq, Prod.mk.injEq] at h
      obtain ⟨rfl, -⟩ := h
      exact ⟨⟨rfl, rfl, rfl, rfl, rfl⟩, rfl⟩

/-- Nor does it hold a task afterwards. -/
theorem workerStep_stage_free (h : workerStep s i w ch = some (s₁, w'))
    (hlocal : LocalQueuesEmpty s) (hfree : w.stage = .free)
    (hshared : w.pc ≠ .sharedQueue) : w'.stage = .free := by
  have hnext := workerStep_follows h
  rw [Worker.stage] at hfree ⊢
  generalize w.pc = pc, w'.pc = pc' at hnext hfree hshared ⊢
  cases hnext with
  | takeShared | trySteal | noShared => exact absurd rfl hshared
  | takeLocal htask =>
      rw [popLocal_none hlocal] at htask
      cases htask
  | stolen htask =>
      rw [stealTask_none hlocal] at htask
      cases htask
  | invoke | skip | pass | enter | count | countRecurring | run | done
  | uncount | uncounted => cases hfree
  | _ => rfl

theorem workerStep_flow (h : workerStep s i w ch = some (s₁, w'))
    (hlocal : LocalQueuesEmpty s) (unread : Multiset Task)
    (pending carried : Multiset ℕ) :
    Flow.Step (flowOf s w unread pending carried) (s.workerEvent w)
      (flowOf s₁ w' unread pending carried) := by
  cases hpc : w.pc with
  | running t phase =>
      simp only [workerStep, hpc] at h
      exact runningStep_flow h hpc hlocal _ _ _
  | wrapper t =>
      simp only [workerStep, hpc, Option.some.injEq] at h
      have hevent : s.workerEvent w = .read t := by
        simp only [State.workerEvent, hpc]
      rw [hevent]
      exact startWrapper_flow h hpc _ _ _
  | exited => simp only [workerStep, hpc, reduceCtorEq] at h
  | gotTask t =>
      simp only [workerStep, hpc, Option.some.injEq, Prod.mk.injEq] at h
      obtain ⟨rfl, rfl⟩ := h
      simp only [State.workerEvent, hpc]
      apply flowOf_same ⟨rfl, rfl, rfl, rfl, rfl⟩ rfl
      simp [Worker.unread, Worker.pending, Worker.carried, hpc]
  | count t =>
      simp only [workerStep, hpc, Option.some.injEq, Prod.mk.injEq] at h
      obtain ⟨rfl, rfl⟩ := h
      simp only [State.workerEvent, hpc]
      apply flowOf_same ⟨rfl, rfl, rfl, rfl, rfl⟩ rfl
      simp only [Worker.unread, Worker.pending, Worker.carried, hpc,
        Worker.goto_pc]
      split <;> simp [Phase.carried, Phase.pending]
  | returned t | uncount t =>
      simp only [workerStep, hpc, Option.some.injEq, Prod.mk.injEq] at h
      obtain ⟨rfl, rfl⟩ := h
      simp only [State.workerEvent, hpc]
      apply flowOf_same ⟨rfl, rfl, rfl, rfl, rfl⟩ rfl
      simp [Worker.unread, Worker.pending, Worker.carried, hpc]
  | sharedQueue =>
      simp only [workerStep, hpc, Option.ite_none_left_eq_some,
        Option.map_eq_some_iff, Prod.mk.injEq] at h
      obtain ⟨-, ⟨t, s₂⟩, hdeq, rfl, rfl⟩ := h
      simp only [State.workerEvent, hpc]
      have hfree : w.stage = .free := by simp [Worker.stage, hpc]
      cases t with
      | none =>
          obtain rfl := dequeueTask_none hdeq
          apply flowOf_free ⟨rfl, rfl, rfl, rfl, rfl⟩ rfl hfree
          cases s.config.enableWorkStealing <;> rfl
      | some t =>
          obtain ⟨hsame, hwaiting⟩ := dequeueTask_flow hdeq
          rw [flowOf_take hsame hwaiting hfree rfl]
          exact .quiet
  | _ =>
      have hfree : w.stage = .free := by simp [Worker.stage, hpc]
      have hevent : s.workerEvent w = .other := by
        simp only [State.workerEvent, hpc]
      have hshared : w.pc ≠ .sharedQueue := by simp [hpc]
      obtain ⟨hsame, hwaiting⟩ := workerStep_free h hlocal hfree hshared
      rw [hevent]
      exact flowOf_free hsame hwaiting hfree
        (workerStep_stage_free h hlocal hfree hshared) _ _ _

end

/-! ## The scheduler -/

/-- A move of the scheduler that keeps the tasks that wait. -/
theorem flowWith_scheduler {s s₁ : State} {pc : SchedulerPc}
    (hsame : SameFlow s s₁)
    (hwaiting : (s₁.delayedTasks.map DelayedTask.task : List Task) +
      (pc.ready.map DelayedTask.task : List Task) + s₁.sharedTasks =
        s.waitingTasks)
    (unread : Multiset Task) (pending carried : Multiset ℕ) :
    Flow.Step (flowWith s unread pending carried) .other
      (flowWith { s₁ with scheduler := some pc } unread pending carried) := by
  have hsame' : SameFlow s { s₁ with scheduler := some pc } :=
    ⟨hsame.flags, hsame.registry, hsame.accepted, hsame.discarded,
      hsame.aborted⟩
  rw [flowWith_congr hsame' hwaiting]
  exact .quiet

theorem schedulerStep_flow {s s₁ : State} {ch : Choice}
    {pc pc' : SchedulerPc} (h : schedulerStep s ch pc = some (s₁, pc'))
    (hpc : s.scheduler = some pc) (unread : Multiset Task)
    (pending carried : Multiset ℕ) :
    Flow.Step (flowWith s unread pending carried) (s.schedulerEvent ch pc)
      (flowWith { s₁ with scheduler := some pc' } unread pending carried) := by
  have hwaiting : s.waitingTasks =
      (s.delayedTasks.map DelayedTask.task : List Task) +
        (pc.ready.map DelayedTask.task : List Task) + s.sharedTasks := by
    rw [State.waitingTasks, State.ready, hpc]
    rfl
  cases pc with
  | collect now ready =>
      simp only [schedulerStep] at h
      simp only [State.schedulerEvent]
      split at h
      · next hdue =>
          simp only [Option.map_eq_some_iff] at h
          obtain ⟨⟨d, s₂⟩, hpop, h⟩ := h
          simp only [if_pos hdue, hpop]
          obtain ⟨htask, rfl⟩ := popDelayed_some hpop
          have hsplit : (s.delayedTasks : Multiset DelayedTask) =
              d ::ₘ (s.delayedTasks.eraseIdx ch.index : List DelayedTask) := by
            obtain ⟨hk, hget⟩ := List.getElem?_eq_some_iff.mp htask
            rw [Multiset.cons_coe, Multiset.coe_eq_coe, ← hget]
            exact (List.getElem_cons_eraseIdx_perm hk).symm
          have hrest : s.waitingTasks = d.task ::ₘ
              (((s.delayedTasks.eraseIdx ch.index).map
                DelayedTask.task : List Task) +
                  (ready.map DelayedTask.task : List Task) +
                    s.sharedTasks) := by
            rw [hwaiting, ← Multiset.map_coe, hsplit]
            simp only [Multiset.map_cons, Multiset.cons_add,
              Multiset.map_coe, SchedulerPc.ready]
          unfold collectReady at h
          split at h
          · next hset =>
              rw [if_pos hset]
              obtain ⟨rfl, rfl⟩ := Prod.mk.inj h
              apply Flow.Step.drop
              simp only [flowWith, hrest, Multiset.add_cons]
              rfl
          · next hset =>
              rw [if_neg hset]
              obtain ⟨rfl, rfl⟩ := Prod.mk.inj h
              have hsame : SameFlow s (popTop s ch.index) :=
                ⟨rfl, rfl, rfl, rfl, rfl⟩
              refine flowWith_scheduler hsame ?_ _ _ _
              rw [hrest]
              simp only [SchedulerPc.ready, List.map_append, List.map_cons,
                List.map_nil, coe_append_task, Multiset.add_cons,
                Multiset.cons_add]
              rfl
      · next hdue =>
          rw [if_neg hdue]
          obtain ⟨rfl, rfl⟩ := Prod.mk.inj (Option.some.inj h)
          apply flowWith_scheduler ⟨rfl, rfl, rfl, rfl, rfl⟩
          rw [hwaiting]
          cases ready <;> rfl
  | push ready =>
      simp only [schedulerStep, whenFree_eq_some, Prod.mk.injEq] at h
      obtain ⟨-, rfl, rfl⟩ := h
      apply flowWith_scheduler (pushReady_sameFlow ready s)
      rw [sharedTasks_pushReady, (pushReady_same ready s).1.delayedTasks,
        hwaiting]
      simp only [SchedulerPc.ready, List.map_nil, Multiset.coe_nil, add_zero,
        add_assoc]
  | notify count =>
      simp only [schedulerStep] at h
      simp only [State.schedulerEvent]
      split at h
      · simp only [Option.map_eq_some_iff, Prod.mk.injEq] at h
        obtain ⟨s₂, hs₂, rfl, rfl⟩ := h
        unfold ThreadPool.notifyOne at hs₂
        split at hs₂
        · obtain rfl := Option.some.inj hs₂
          exact flowWith_scheduler ⟨rfl, rfl, rfl, rfl, rfl⟩ hwaiting.symm
            _ _ _
        · split at hs₂
          · obtain rfl := Option.some.inj hs₂
            exact flowWith_scheduler ⟨rfl, rfl, rfl, rfl, rfl⟩ hwaiting.symm
              _ _ _
          · cases hs₂
      · obtain ⟨rfl, rfl⟩ := Prod.mk.inj (Option.some.inj h)
        exact flowWith_scheduler ⟨rfl, rfl, rfl, rfl, rfl⟩ hwaiting.symm _ _ _
  | exited => cases h
  | test | waitTest | asleep =>
      obtain ⟨rfl, rfl⟩ := Prod.mk.inj (Option.some.inj h)
      split
      all_goals
        exact flowWith_scheduler ⟨rfl, rfl, rfl, rfl, rfl⟩ hwaiting.symm _ _ _
  | _ =>
      obtain ⟨rfl, rfl⟩ := Prod.mk.inj (Option.some.inj h)
      exact flowWith_scheduler ⟨rfl, rfl, rfl, rfl, rfl⟩ hwaiting.symm _ _ _

/-! ## Steps -/

/-- Workers that have not started hold nothing. -/
theorem tally_spawned (workers : List Worker) {ws : List Worker}
    (hspawned : ∀ w ∈ ws, w.pc = .spawned) :
    Roster.tally Worker.unread (workers ++ ws) =
        Roster.tally Worker.unread workers ∧
      Roster.tally Worker.pending (workers ++ ws) =
          Roster.tally Worker.pending workers ∧
        Roster.tally Worker.carried (workers ++ ws) =
          Roster.tally Worker.carried workers := by
  have hholds : ∀ w ∈ ws,
      w.unread = 0 ∧ w.pending = 0 ∧ w.carried = 0 := by
    intro w hw
    apply holds_of_free
    simp [Worker.stage, hspawned w hw]
  simp only [Roster.tally_append,
    Roster.tally_eq_zero fun w hw => (hholds w hw).1,
    Roster.tally_eq_zero fun w hw => (hholds w hw).2.1,
    Roster.tally_eq_zero fun w hw => (hholds w hw).2.2, add_zero, and_self]

/-- A step of the pool is one in the flow of the flags. -/
theorem step_flow {s s' : State} {a : Action} (hlocal : LocalQueuesEmpty s)
    (h : step s a = some s') : (flow s).Step (s.event a) (flow s') := by
  cases a with
  | tick elapsed =>
      obtain rfl := step_tick h
      exact .quiet
  | call op =>
      obtain rfl := step_call h
      obtain ⟨hpending, hcarried⟩ := startCall_flags s op
      simp only [flow, State.event, Roster.tally_append, Roster.tally_cons,
        Roster.tally_nil, hpending, hcarried, add_zero]
      exact .quiet
  | client n ch =>
      obtain ⟨pc, s₁, pc', hpc, hcall, rfl⟩ := step_client h
      obtain ⟨ws, hws, hspawned⟩ := (callStep_effect hcall).workers
      obtain ⟨hunread, hwpending, hwcarried⟩ :=
        tally_spawned s.workers hspawned
      obtain ⟨pending, hpending, hpending'⟩ :=
        Roster.exists_rest CallPc.pending hpc
      obtain ⟨carried, hcarried, hcarried'⟩ :=
        Roster.exists_rest CallPc.carried hpc
      have hstep := callStep_flow hcall hlocal
        (Roster.tally Worker.unread s.workers)
        (pending + Roster.tally Worker.pending s.workers)
        (carried + Roster.tally Worker.carried s.workers)
      simp only [flow, State.event, (callStep_effect hcall).clients, hws,
        hunread, hwpending, hwcarried, hpending, hpending', hcarried,
        hcarried', add_assoc]
      exact hstep
  | worker i ch =>
      obtain ⟨w, s₁, w', hw, hworker, rfl⟩ := step_worker h
      have heffect := workerStep_effect hworker
      obtain ⟨ws, hws, hspawned⟩ := heffect.workers
      obtain ⟨hunread₁, hpending₁, hcarried₁⟩ :=
        tally_spawned s.workers hspawned
      have hw₁ := Roster.getElem?_append hw ws
      obtain ⟨unread, hunread, hunread'⟩ :=
        Roster.exists_rest Worker.unread hw₁
      obtain ⟨pending, hpending, hpending'⟩ :=
        Roster.exists_rest Worker.pending hw₁
      obtain ⟨carried, hcarried, hcarried'⟩ :=
        Roster.exists_rest Worker.carried hw₁
      rw [hunread₁] at hunread
      rw [hpending₁] at hpending
      rw [hcarried₁] at hcarried
      have hstep := workerStep_flow hworker hlocal unread
        (pending + Roster.tally CallPc.pending s.clients)
        (carried + Roster.tally CallPc.carried s.clients)
      simp only [flow, State.event, hw, Option.map_some, Option.getD_some,
        heffect.clients, hws, hunread, hpending, hcarried, hunread',
        hpending', hcarried']
      simp only [flowOf, ← add_assoc] at hstep
      rw [add_comm (Roster.tally CallPc.pending s.clients),
        add_comm (Roster.tally CallPc.carried s.clients),
        add_comm (Roster.tally CallPc.pending s.clients),
        add_comm (Roster.tally CallPc.carried s.clients)]
      exact hstep
  | scheduler ch =>
      obtain ⟨pc, s₁, pc', hpc, hsched, rfl⟩ := step_scheduler h
      have hthreads := (schedulerStep_effect hsched).sameThreads
      have hstep := schedulerStep_flow hsched hpc
        (Roster.tally Worker.unread s.workers)
        (Roster.tally CallPc.pending s.clients +
          Roster.tally Worker.pending s.workers)
        (Roster.tally CallPc.carried s.clients +
          Roster.tally Worker.carried s.workers)
      simp only [flow, State.event, hpc, hthreads.workers, hthreads.clients]
      exact hstep
  | cancel f =>
      obtain rfl := step_cancel h
      exact .set f

/-! ## Reachable states -/

theorem construct_flow (c : CheckedConfig) (clock : ℤ) :
    flow (construct c clock) =
      { unread := 0
        pending := 0
        carried := 0
        flags := []
        registry := fun _ => none
        accepted := 0
        discarded := 0
        aborted := false } := by
  have hholds : ∀ w ∈ (construct c clock).workers,
      w.unread = 0 ∧ w.pending = 0 ∧ w.carried = 0 := by
    intro w hw
    apply holds_of_free
    simp [Worker.stage, mem_construct_workers hw]
  have hready : (construct c clock).ready = [] := by
    simp only [State.ready, construct]
    split <;> rfl
  rw [flow, flowWith, State.waitingTasks, hready,
    Roster.tally_eq_zero fun w hw => (hholds w hw).1,
    Roster.tally_eq_zero fun w hw => (hholds w hw).2.1,
    Roster.tally_eq_zero fun w hw => (hholds w hw).2.2]
  rfl

theorem reachable_unique {s : State}
    (hs : Transition.Reachable step initial s) : (flow s).Unique := by
  induction hs with
  | start hs =>
      obtain ⟨c, clock, rfl⟩ := hs
      rw [construct_flow]
      exact ⟨Multiset.nodup_zero, fun f hf => absurd hf (by
        simp [Flow.tokens])⟩
  | next hs _ h ih =>
      exact ih.step (step_flow (reachable_localQueuesEmpty hs) h)

theorem reachable_registered {s : State}
    (hs : Transition.Reachable step initial s) : (flow s).Registered := by
  induction hs with
  | start hs =>
      obtain ⟨c, clock, rfl⟩ := hs
      rw [construct_flow]
      constructor <;> intros <;> contradiction
  | next hs _ h ih =>
      exact ih.step (reachable_unique hs)
        (step_flow (reachable_localQueuesEmpty hs) h)

end ThreadPool
end Yacul
