import Yacul.ThreadPool.Cancellation
import Yacul.ThreadPool.SubmitAt

/-!
# When tasks run

A delayed task starts at its execute time or later, on whatever way it gets to
a worker.  The runs of a recurring task are one after the other, because its
flag is in one place at a time, and from the end of one run to the start of
the next it takes at least the interval.
-/

namespace Yacul
namespace ThreadPool

/-! ## What is observed -/

/-- The execute times of the accepted delayed submissions, by the number of
the task; and when the callables of the recurring tasks last came back, by
their flags. -/
structure Timing where
  due : ℕ → Option ℤ := fun _ => none
  ended : ℕ → Option ℤ := fun _ => none

/-- The execute time of the task that the section of
`SubmitDelayedWithPriority` inserts. -/
def State.inserts? (s : State) : CallPc → Option ℤ
  | .delayedInsert executeTime _ _ _ _ =>
      if s.shutdown then none else some executeTime
  | _ => none

/-- The recurring body whose callable comes back in the move of `w`. -/
def Worker.endedRun? (w : Worker) (ch : Choice) : Option Recurring :=
  match w.pc with
  | .running t .user => if ch.call.isNone then t.recurring? else none
  | _ => none

/-- A task is inserted with the next number. -/
def Timing.insert (o : Timing) (id : ℕ) : Option ℤ → Timing
  | none => o
  | some executeTime =>
      { o with due := Function.update o.due id (some executeTime) }

/-- A callable comes back at `now`. -/
def Timing.finish (o : Timing) (now : ℤ) : Option Recurring → Timing
  | none => o
  | some r =>
      { o with ended := Function.update o.ended r.cancelled (some now) }

/-- What a step adds. -/
def observeTiming (s : State) (a : Action) (o : Timing) : Timing :=
  let o := o.insert s.accepted ((a.caller?.bind s.callAt).bind s.inserts?)
  o.finish s.clock <|
    (a.worker?.bind fun i => s.workers[i]?).bind fun w =>
      w.endedRun? a.choice

/-- The pool, watched. -/
abbrev stepTiming : State × Timing → Action → Option (State × Timing) :=
  Transition.watch step observeTiming

/-- A pool that has just been constructed. -/
def initialTiming : Set (State × Timing) :=
  { x | x.1 ∈ initial ∧ x.2 = {} }

/-! ## On time -/

namespace Timing

/-- The next run of `r` is not before `time`, or `time` is late enough. -/
def NotBefore (o : Timing) (r : Recurring) (time : ℤ) : Prop :=
  ∀ e, o.ended r.cancelled = some e → e + milliseconds r.interval ≤ time

/-- The execute time of a task is over; `n` tasks have been accepted. -/
def Due (o : Timing) (n : ℕ) (now : ℤ) (t : Task) : Prop :=
  t.id < n ∧ (t.wrapper ≠ .immediate → ∃ e, o.due t.id = some e ∧ e ≤ now)

/-- The task may start. -/
def MayStart (o : Timing) (n : ℕ) (now : ℤ) (t : Task) : Prop :=
  o.Due n now t ∧ ∀ r, t.recurring? = some r → o.NotBefore r now

/-- A task in `delayed_tasks_`, or in the batch of the scheduler. -/
def Waits (o : Timing) (n : ℕ) (d : DelayedTask) : Prop :=
  d.task.id < n ∧ o.due d.task.id = some d.executeTime ∧
    ∀ r, d.task.recurring? = some r → o.NotBefore r d.executeTime

/-- What a call is going to submit. -/
def InCall (o : Timing) (now : ℤ) : CallPc → Prop
  | .delayedPrepare delay _ (.recurring r) =>
      o.NotBefore r (now + milliseconds delay)
  | .delayedInsert executeTime _ _ _ (.recurring r) =>
      o.NotBefore r executeTime
  | .recurringRegister _ r => o.ended r.cancelled = none
  | _ => True

/-- The task of a worker. -/
def AtWorker (o : Timing) (n : ℕ) (now : ℤ) : WorkerPc → Prop
  | .gotTask t | .wrapper t | .count t | .running t .recurringTest
  | .running t .user => o.MayStart n now t
  | .running t (.call pc) => o.MayStart n now t ∧ o.InCall now pc
  | .running t (.reschedule pc) => o.Due n now t ∧ o.InCall now pc
  | .running t .rescheduleTest | .returned t | .uncount t => o.Due n now t
  | _ => True

end Timing

/-- What the queues hold is on time. -/
structure QueuesOnTime (s : State) (o : Timing) : Prop where
  ended : ∀ f e, o.ended f = some e → f < s.flags.length ∧ e ≤ s.clock
  delayed : ∀ d ∈ s.delayedTasks, o.Waits s.accepted d
  ready : ∀ d ∈ s.ready, o.Waits s.accepted d
  shared : ∀ t ∈ s.sharedTasks, o.MayStart s.accepted s.clock t

/-- Everything in the pool is on time. -/
structure OnTime (s : State) (o : Timing) : Prop extends QueuesOnTime s o where
  clients : ∀ pc ∈ s.clients, o.InCall s.clock pc
  workers : ∀ w ∈ s.workers, o.AtWorker s.accepted s.clock w.pc

/-! ## As time goes on -/

/-- More tasks have been accepted. -/
structure Timing.Extends (o : Timing) (n : ℕ) (o' : Timing) : Prop where
  due : ∀ id < n, o'.due id = o.due id
  ended : o'.ended = o.ended

namespace Timing

variable {o o' : Timing} {n n' : ℕ} {now now' : ℤ} {t : Task}

theorem Extends.refl (o : Timing) (n : ℕ) : o.Extends n o :=
  ⟨fun _ _ => rfl, rfl⟩

theorem extends_insert (o : Timing) (n : ℕ) (e : Option ℤ) :
    o.Extends n (o.insert n e) := by
  cases e with
  | none => exact .refl o n
  | some e => exact ⟨fun id hid => Function.update_of_ne hid.ne _ _, rfl⟩

theorem NotBefore.mono {r : Recurring} (h : o.NotBefore r now)
    (hended : o'.ended r.cancelled = o.ended r.cancelled)
    (hnow : now ≤ now') : o'.NotBefore r now' := by
  intro e he
  exact (h e (hended ▸ he)).trans hnow

section

variable (ho : o.Extends n o') (hn : n ≤ n') (hnow : now ≤ now')

include ho hn

theorem Waits.mono {d : DelayedTask} (h : o.Waits n d) : o'.Waits n' d := by
  obtain ⟨hid, hdue, hrec⟩ := h
  exact ⟨hid.trans_le hn, (ho.due _ hid).trans hdue, fun r hr =>
    (hrec r hr).mono (by rw [ho.ended]) le_rfl⟩

include hnow

theorem Due.mono (h : o.Due n now t) : o'.Due n' now' t := by
  obtain ⟨hid, hdue⟩ := h
  refine ⟨hid.trans_le hn, fun hwrapper => ?_⟩
  obtain ⟨e, he, hle⟩ := hdue hwrapper
  exact ⟨e, (ho.due _ hid).trans he, hle.trans hnow⟩

theorem MayStart.mono (h : o.MayStart n now t) : o'.MayStart n' now' t :=
  ⟨h.1.mono ho hn hnow, fun r hr =>
    (h.2 r hr).mono (by rw [ho.ended]) hnow⟩

omit hn in
theorem InCall.mono {pc : CallPc} (h : o.InCall now pc) :
    o'.InCall now' pc := by
  cases pc with
  | delayedPrepare delay priority body =>
      cases body with
      | user => trivial
      | recurring r =>
          exact NotBefore.mono h (by rw [ho.ended]) (by omega)
  | delayedInsert e priority taskId cancelled body =>
      cases body with
      | user => trivial
      | recurring r => exact NotBefore.mono h (by rw [ho.ended]) le_rfl
  | recurringRegister taskId r => exact (congrFun ho.ended _).trans h
  | _ => trivial

theorem AtWorker.mono {pc : WorkerPc} (h : o.AtWorker n now pc) :
    o'.AtWorker n' now' pc := by
  cases pc with
  | gotTask t | wrapper t | count t => exact MayStart.mono ho hn hnow h
  | returned t | uncount t => exact Due.mono ho hn hnow h
  | running t phase =>
      cases phase with
      | user | recurringTest => exact MayStart.mono ho hn hnow h
      | call pc => exact ⟨h.1.mono ho hn hnow, h.2.mono ho hnow⟩
      | rescheduleTest => exact Due.mono ho hn hnow h
      | reschedule pc => exact ⟨h.1.mono ho hn hnow, h.2.mono ho hnow⟩
  | _ => trivial

end

end Timing

/-! ## Calls -/

section

variable {s s' : State} {o o' : Timing} {who : Caller} {ch : Choice}
  {pc pc' : CallPc}

/-- A task whose execute time is over may start. -/
theorem Timing.Waits.mayStart {n : ℕ} {now : ℤ} {d : DelayedTask}
    (h : o.Waits n d) (hnow : d.executeTime ≤ now) :
    o.MayStart n now d.task := by
  obtain ⟨hid, hdue, hrec⟩ := h
  exact ⟨⟨hid, fun _ => ⟨_, hdue, hnow⟩⟩, fun r hr =>
    (hrec r hr).mono rfl hnow⟩

theorem startCall_inCall (s : State) (now : ℤ) (op : Call) :
    o.InCall now (startCall s op) := by
  cases op with
  | shutdown waitForTasks => cases waitForTasks <;> trivial
  | _ => trivial

/-- A registration starts with a flag that no run has ended with. -/
theorem callStep_inCall (h : callStep s who ch pc = some (s', pc'))
    (hs : QueuesOnTime s o) (hpc : o.InCall s.clock pc) :
    o.InCall s.clock pc' := by
  cases pc with
  | delayedPrepare delay priority body =>
      simp only [callStep, Option.some.injEq] at h
      split at h <;> obtain ⟨-, rfl⟩ := Prod.mk.inj h
      · cases body with
        | user => trivial
        | recurring r => exact hpc
      · trivial
  | recurringPrepare interval priority =>
      simp only [callStep, Option.some.injEq] at h
      split at h <;> obtain ⟨-, rfl⟩ := Prod.mk.inj h
      · cases hended : o.ended s.flags.length with
        | none => exact hended
        | some e => exact absurd (hs.ended _ e hended).1 (lt_irrefl _)
      · trivial
  | recurringRegister taskId r =>
      simp only [callStep, whenFree_eq_some, Prod.mk.injEq] at h
      obtain ⟨-, -, rfl⟩ := h
      intro e he
      rw [show o.ended r.cancelled = none from hpc] at he
      cases he
  | _ => cases callStep_follows h <;> trivial

/-! ## Queues -/

/-- The queues lose tasks, and time goes on. -/
theorem QueuesOnTime.mono (hs : QueuesOnTime s o)
    (ho : o.Extends s.accepted o') (hn : s.accepted ≤ s'.accepted)
    (hclock : s.clock ≤ s'.clock)
    (hflags : s.flags.length ≤ s'.flags.length)
    (hdelayed : s'.delayedTasks ⊆ s.delayedTasks)
    (hready : s'.ready ⊆ s.ready)
    (hshared : s'.sharedTasks ⊆ s.sharedTasks) : QueuesOnTime s' o' where
  ended f e he := by
    obtain ⟨hf, hle⟩ := hs.ended f e (ho.ended ▸ he)
    exact ⟨hf.trans_le hflags, hle.trans hclock⟩
  delayed d hd := (hs.delayed d (hdelayed hd)).mono ho hn
  ready d hd := (hs.ready d (hready hd)).mono ho hn
  shared t ht := (hs.shared t (hshared ht)).mono ho hn hclock

theorem Quiet.queuesOnTime (hq : Quiet s s') (hs : QueuesOnTime s o)
    (ho : o.Extends s.accepted o')
    (hflags : s.flags.length ≤ s'.flags.length) : QueuesOnTime s' o' := by
  apply hs.mono ho hq.accepted.ge hq.clock.ge hflags
  · rw [hq.delayedTasks]
    exact List.Subset.refl _
  · rw [State.ready, hq.scheduler]
    exact List.Subset.refl _
  · rw [State.sharedTasks, hq.tasks, hq.priorityTasks]
    exact Multiset.Subset.refl _

theorem CallEffect.queuesOnTime (h : CallEffect s who pc s' pc')
    (hs : QueuesOnTime s o) (hpc : o.InCall s.clock pc)
    (hflags : s.flags.length ≤ s'.flags.length) :
    QueuesOnTime s' (o.insert s.accepted (s.inserts? pc)) := by
  have ho := o.extends_insert s.accepted (s.inserts? pc)
  cases h with
  | quiet hq => exact hq.queuesOnTime hs ho hflags
  | enqueue priority hopen =>
      have hsame := (enqueueTask_same s priority).1
      refine ⟨?_, ?_, ?_, ?_⟩
      · rw [hsame.clock]
        exact fun f e he =>
          ⟨(hs.ended f e he).1.trans_le hflags, (hs.ended f e he).2⟩
      · rw [hsame.delayedTasks]
        exact fun d hd => (hs.delayed d hd).mono ho (Nat.le_succ _)
      · rw [State.ready, hsame.scheduler]
        exact fun d hd => (hs.ready d hd).mono ho (Nat.le_succ _)
      · intro t ht
        rw [hsame.clock]
        have hpush := sharedTasks_pushTask s priority ⟨s.accepted, .immediate⟩
        have ht' : t ∈ (⟨s.accepted, .immediate⟩ : Task) ::ₘ s.sharedTasks :=
          hpush ▸ ht
        obtain rfl | hold := Multiset.mem_cons.mp ht'
        · exact ⟨⟨Nat.lt_succ_self _, fun hne => absurd rfl hne⟩,
            fun r hr => by cases hr⟩
        · exact (hs.shared t hold).mono ho (Nat.le_succ _) le_rfl
  | insert executeTime priority taskId cancelled body hopen hfree =>
      have hinserts : s.inserts? (.delayedInsert executeTime priority taskId
          cancelled body) = some executeTime := by
        simp [State.inserts?, hopen]
      rw [hinserts] at ho ⊢
      refine ⟨hs.ended, fun d hd => ?_, fun d hd => ?_, fun t ht => ?_⟩
      · rcases List.mem_append.mp hd with hold | hnew
        · exact (hs.delayed d hold).mono ho (Nat.le_succ _)
        · obtain rfl := List.mem_singleton.mp hnew
          refine ⟨Nat.lt_succ_self _, Function.update_self _ _ _, ?_⟩
          intro r hr
          cases body with
          | user => cases hr
          | recurring r' =>
              obtain rfl : r' = r := Option.some.inj hr
              exact hpc
      · exact (hs.ready d hd).mono ho (Nat.le_succ _)
      · exact (hs.shared t ht).mono ho (Nat.le_succ _) le_rfl
  | setShutdown now hfree =>
      cases now with
      | false => exact ⟨hs.ended, hs.delayed, hs.ready, hs.shared⟩
      | true =>
          exact ⟨hs.ended, fun d hd => absurd hd List.not_mem_nil, hs.ready,
            fun t ht => absurd ht (Multiset.notMem_zero t)⟩
  | _ =>
      refine hs.mono ho ?_ ?_ hflags ?_ ?_ ?_
      · exact le_rfl
      · exact le_rfl
      all_goals exact fun _ h => h

end

/-! ## Workers -/

section

variable {s s' : State} {o : Timing} {i : ℕ} {w w' : Worker} {ch : Choice}

theorem dequeueTask_mem {k : ℕ} {t : Task}
    (h : dequeueTask s k = some (some t, s')) : t ∈ s.sharedTasks := by
  rw [State.sharedTasks, Multiset.mem_add, Multiset.mem_coe, Multiset.mem_coe]
  obtain ⟨p, hp, rfl, -⟩ | ⟨rest, htasks, -⟩ := dequeueTask_some h
  · exact .inr (List.mem_map_of_mem (List.mem_of_getElem? hp))
  · exact .inl (htasks ▸ List.mem_cons_self)

/-- The callable runs again only through `rescheduleTest`, which reads the
clock after the end of the run. -/
theorem runningStep_atWorker {t : Task} {phase : Phase}
    (h : runningStep s i w t ch phase = some (s', w'))
    (hs : QueuesOnTime s o)
    (hw : o.AtWorker s.accepted s.clock (.running t phase)) :
    o.AtWorker s.accepted s.clock w'.pc := by
  cases phase with
  | user =>
      simp only [runningStep] at h
      split at h
      · obtain ⟨-, rfl⟩ := Prod.mk.inj (Option.some.inj h)
        exact ⟨hw, startCall_inCall s _ _⟩
      · split at h
        · obtain ⟨-, rfl⟩ := Prod.mk.inj (Option.some.inj h)
          exact hw.1
        · obtain ⟨-, rfl⟩ := Prod.mk.inj (Option.some.inj h)
          exact hw.1
  | call pc =>
      simp only [runningStep] at h
      split at h
      · obtain ⟨-, rfl⟩ := Prod.mk.inj (Option.some.inj h)
        exact hw.1
      · simp only [Option.map_eq_some_iff, Prod.mk.injEq] at h
        obtain ⟨⟨s₁, pc'⟩, hcall, -, rfl⟩ := h
        exact ⟨hw.1, callStep_inCall hcall hs hw.2⟩
  | recurringTest =>
      simp only [runningStep, Option.map_eq_some_iff, Prod.mk.injEq] at h
      obtain ⟨r, -, -, rfl⟩ := h
      dsimp only [Worker.goto_pc]
      split
      · exact hw.1
      · exact hw
  | rescheduleTest =>
      simp only [runningStep, Option.map_eq_some_iff, Prod.mk.injEq] at h
      obtain ⟨r, -, -, rfl⟩ := h
      dsimp only [Worker.goto_pc]
      split
      · exact hw
      · refine ⟨hw, fun e he => ?_⟩
        have hle := (hs.ended _ e he).2
        omega
  | reschedule pc =>
      simp only [runningStep] at h
      split at h
      · obtain ⟨-, rfl⟩ := Prod.mk.inj (Option.some.inj h)
        exact hw.1
      · simp only [Option.map_eq_some_iff, Prod.mk.injEq] at h
        obtain ⟨⟨s₁, pc'⟩, hcall, -, rfl⟩ := h
        exact ⟨hw.1, callStep_inCall hcall hs hw.2⟩

theorem workerStep_atWorker (h : workerStep s i w ch = some (s', w'))
    (hs : QueuesOnTime s o) (hlocal : LocalQueuesEmpty s)
    (hw : o.AtWorker s.accepted s.clock w.pc) :
    o.AtWorker s.accepted s.clock w'.pc := by
  by_cases hrun : ∃ t phase, w.pc = .running t phase
  · obtain ⟨t, phase, hpc⟩ := hrun
    simp only [workerStep, hpc] at h
    exact runningStep_atWorker h hs (hpc ▸ hw)
  · have hnext := workerStep_follows h
    generalize w.pc = pc, w'.pc = pc' at hnext hw hrun ⊢
    cases hnext with
    | takeLocal htask =>
        rw [popLocal_none hlocal] at htask
        cases htask
    | stolen htask =>
        rw [stealTask_none hlocal] at htask
        cases htask
    | takeShared htask => exact hs.shared _ (dequeueTask_mem htask)
    | run t phase | done t phase => exact absurd ⟨t, phase, rfl⟩ hrun
    | invoke | pass | enter | count | countRecurring => exact hw
    | uncount => exact hw
    | _ => trivial

theorem WorkerEffect.queuesOnTime (h : WorkerEffect s i w ch s' w')
    (hs : QueuesOnTime s o) (hlocal : LocalQueuesEmpty s)
    (hw : ∀ pc, w.call? = some pc → o.InCall s.clock pc)
    (hflags : s.flags.length ≤ s'.flags.length) :
    QueuesOnTime s' (o.insert s.accepted (w.call?.bind s.inserts?)) := by
  have ho := o.extends_insert s.accepted (w.call?.bind s.inserts?)
  cases h with
  | quiet hq => exact hq.queuesOnTime hs ho hflags
  | call hpc hpc' hcall =>
      rw [hpc]
      exact (callStep_effect hcall).queuesOnTime hs (hw _ hpc) hflags
  | takeFront htasks =>
      refine hs.mono ho le_rfl le_rfl hflags ?_ ?_ fun t ht => ?_
      · exact fun _ h => h
      · exact fun _ h => h
      · simp only [State.sharedTasks, popFront, Multiset.mem_add,
          Multiset.mem_coe] at ht ⊢
        exact ht.imp_left List.mem_of_mem_tail
  | @takePriority p k htask =>
      refine hs.mono ho le_rfl le_rfl hflags ?_ ?_ fun t ht => ?_
      · exact fun _ h => h
      · exact fun _ h => h
      · simp only [State.sharedTasks, popPriority, Multiset.mem_add,
          Multiset.mem_coe] at ht ⊢
        refine ht.imp_right fun hmem => ?_
        exact List.map_subset _ (List.eraseIdx_subset) hmem
  | takeLocal htask =>
      rw [popLocal_none hlocal] at htask
      cases htask
  | _ =>
      refine hs.mono ho ?_ ?_ hflags ?_ ?_ ?_
      · exact le_rfl
      · exact le_rfl
      all_goals exact fun _ h => h

/-! ## The scheduler -/

theorem SchedulerEffect.queuesOnTime {pc pc' : SchedulerPc}
    (h : SchedulerEffect s pc s' pc') (hs : QueuesOnTime s o)
    (hpc : s.scheduler = some pc) (hdue : CollectsDue s pc)
    (hflags : s.flags.length ≤ s'.flags.length) :
    QueuesOnTime { s' with scheduler := some pc' } o := by
  have ho := Timing.Extends.refl o s.accepted
  have hready₀ : s.ready = pc.ready := by
    rw [State.ready, hpc]
    rfl
  have hrest : ∀ {s₁ : State} {pc₁ : SchedulerPc},
      s₁.delayedTasks ⊆ s.delayedTasks → pc₁.ready ⊆ s.ready →
        s₁.sharedTasks = s.sharedTasks → s₁.accepted = s.accepted →
          s₁.clock = s.clock → s.flags.length ≤ s₁.flags.length →
            QueuesOnTime { s₁ with scheduler := some pc₁ } o := by
    intro s₁ pc₁ hdelayed hready hshared haccepted hclock hflags₁
    exact hs.mono ho haccepted.ge hclock.ge hflags₁ hdelayed hready
      (hshared ▸ Multiset.Subset.refl _)
  cases h with
  | quiet hq hready =>
      refine hrest ?_ ?_ ?_ hq.accepted hq.clock hflags
      · rw [hq.delayedTasks]
        exact List.Subset.refl _
      · rw [hready, hready₀]
        exact List.Subset.refl _
      · rw [State.sharedTasks, hq.tasks, hq.priorityTasks, State.sharedTasks]
  | sleep asleep hready =>
      exact hrest (List.Subset.refl _) (by rw [hready, hready₀]; simp) rfl rfl
        rfl hflags
  | drop htask hready =>
      exact hrest (List.eraseIdx_subset) (by rw [hready, hready₀]; simp) rfl
        rfl rfl hflags
  | @ready _ _ d k htask hready =>
      refine ⟨hs.ended, fun e he => ?_, fun e he => ?_, hs.shared⟩
      · exact hs.delayed e (List.eraseIdx_subset he)
      · have he' : e ∈ pc.ready ++ [d] := hready ▸ he
        rcases List.mem_append.mp he' with hold | hnew
        · exact hs.ready e (hready₀ ▸ hold)
        · obtain rfl := List.mem_singleton.mp hnew
          exact hs.delayed e (List.mem_of_getElem? htask)
  | push ready hready =>
      have hsame := (pushReady_same ready s).1
      have haccepted := (pushReady_sameFlow ready s).accepted
      have hended : ∀ f e, o.ended f = some e → f < _ ∧ e ≤ s.clock :=
        fun f e he => ⟨(hs.ended f e he).1.trans_le hflags,
          (hs.ended f e he).2⟩
      refine ⟨?_, ?_, ?_, ?_⟩
      · exact fun f e he => ⟨(hended f e he).1, hsame.clock ▸ (hended f e he).2⟩
      · intro d hd
        exact (hs.delayed d (hsame.delayedTasks ▸ hd)).mono ho haccepted.ge
      · intro d hd
        have hnone : d ∈ pc'.ready := hd
        rw [hready] at hnone
        cases hnone
      · intro t ht
        have ht' : t ∈ (ready.map DelayedTask.task : List Task) +
            s.sharedTasks := sharedTasks_pushReady ready s ▸ ht
        have hstart : o.MayStart s.accepted s.clock t := by
          rcases Multiset.mem_add.mp ht' with hnew | hold
          · obtain ⟨d, hd, rfl⟩ := List.mem_map.mp (Multiset.mem_coe.mp hnew)
            exact (hs.ready d (hready₀ ▸ hd)).mayStart (hdue d hd)
          · exact hs.shared t hold
        exact hstart.mono ho haccepted.ge hsame.clock.ge

end

/-! ## Steps -/

section

variable {s s' : State} {o : Timing} {a : Action} {i : ℕ} {w : Worker}

theorem Flow.Step.accepted_le {b b' : Flow} {e : Flow.Event}
    (h : b.Step e b') : b.accepted ≤ b'.accepted := by
  cases h with
  | submit | insert => exact Nat.le_succ _
  | _ => exact le_rfl

theorem step_clock (h : step s a = some s') : s.clock ≤ s'.clock := by
  by_cases ha : ∃ ch, a = .scheduler ch
  · obtain ⟨ch, rfl⟩ := ha
    obtain ⟨pc, s₁, pc', -, hsched, rfl⟩ := step_scheduler h
    show s.clock ≤ s₁.clock
    cases schedulerStep_effect hsched with
    | quiet hq => exact hq.clock.ge
    | push ready => exact (pushReady_same ready s).1.clock.ge
    | _ => exact le_rfl
  · exact (timerStep_of_step h fun ch hch => ha ⟨ch, hch⟩).clock

/-- A step keeps everything on time, as long as no callable comes back. -/
theorem OnTime.step (hs : OnTime s o) (hlocal : LocalQueuesEmpty s)
    (hdue : ∀ pc, s.scheduler = some pc → CollectsDue s pc)
    (h : step s a = some s') :
    OnTime s'
      (o.insert s.accepted ((a.caller?.bind s.callAt).bind s.inserts?)) := by
  have hflow := step_flow hlocal h
  have hflags : s.flags.length ≤ s'.flags.length := hflow.length_le
  have hn : s.accepted ≤ s'.accepted := hflow.accepted_le
  have hclock := step_clock h
  have ho := o.extends_insert s.accepted
    ((a.caller?.bind s.callAt).bind s.inserts?)
  have hspawned : ∀ {ws : List Worker}, (∀ w ∈ ws, w.pc = .spawned) →
      ∀ w ∈ s.workers ++ ws, (o.insert s.accepted
        ((a.caller?.bind s.callAt).bind s.inserts?)).AtWorker s'.accepted
          s'.clock w.pc := by
    intro ws hws w hw
    rcases List.mem_append.mp hw with hold | hnew
    · exact (hs.workers w hold).mono ho hn hclock
    · rw [hws w hnew]
      trivial
  have hclients : ∀ pc ∈ s.clients, (o.insert s.accepted
      ((a.caller?.bind s.callAt).bind s.inserts?)).InCall s'.clock pc :=
    fun pc hpc => (hs.clients pc hpc).mono ho hclock
  cases a with
  | tick elapsed =>
      obtain rfl := step_tick h
      refine ⟨⟨?_, hs.delayed, hs.ready, ?_⟩, hclients, ?_⟩
      · exact fun f e he =>
          ⟨(hs.ended f e he).1, (hs.ended f e he).2.trans hclock⟩
      · exact fun t ht => (hs.shared t ht).mono ho hn hclock
      · exact fun w hw => (hs.workers w hw).mono ho hn hclock
  | call op =>
      obtain rfl := step_call h
      refine ⟨⟨hs.ended, hs.delayed, hs.ready, hs.shared⟩, ?_, hs.workers⟩
      intro pc hpc
      rcases List.mem_append.mp hpc with hold | hnew
      · exact hs.clients pc hold
      · obtain rfl := List.mem_singleton.mp hnew
        exact startCall_inCall s _ op
  | client n ch =>
      obtain ⟨pc, s₁, pc', hpc, hcall, rfl⟩ := step_client h
      have heff := callStep_effect hcall
      have hin := hs.clients pc (List.mem_of_getElem? hpc)
      have hqueues := heff.queuesOnTime hs.toQueuesOnTime hin hflags
      have hat : (Action.client n ch).caller?.bind s.callAt = some pc := hpc
      obtain ⟨ws, hws, hspawn⟩ := heff.workers
      rw [hat] at ho hspawned hclients ⊢
      refine ⟨⟨hqueues.ended, hqueues.delayed, hqueues.ready,
        hqueues.shared⟩, fun q hq => ?_, ?_⟩
      · rcases List.mem_or_eq_of_mem_set hq with hold | rfl
        · exact hclients q (heff.clients ▸ hold)
        · exact (callStep_inCall hcall hs.toQueuesOnTime hin).mono ho hclock
      · show ∀ w ∈ s₁.workers, _
        rw [hws]
        exact hspawned hspawn
  | worker i ch =>
      obtain ⟨w, s₁, w', hw, hworker, rfl⟩ := step_worker h
      have heff := workerStep_effect hworker
      have hat := hs.workers w (List.mem_of_getElem? hw)
      have hin : ∀ pc, w.call? = some pc → o.InCall s.clock pc := by
        intro pc hpc
        obtain ⟨t, hrun | hrun⟩ := call?_eq_some.mp hpc
        all_goals exact (hrun ▸ hat).2
      have hqueues :=
        heff.queuesOnTime hs.toQueuesOnTime hlocal hin hflags
      have hcall : (Action.worker i ch).caller?.bind s.callAt = w.call? := by
        simp [Action.caller?, State.callAt, hw]
      obtain ⟨ws, hws, hspawn⟩ := heff.workers
      rw [hcall] at ho hspawned hclients ⊢
      refine ⟨⟨hqueues.ended, hqueues.delayed, hqueues.ready,
        hqueues.shared⟩, ?_, fun v hv => ?_⟩
      · show ∀ pc ∈ s₁.clients, _
        rw [heff.clients]
        exact hclients
      · rcases List.mem_or_eq_of_mem_set hv with hold | rfl
        · exact hspawned hspawn v (hws ▸ hold)
        · exact (workerStep_atWorker hworker hs.toQueuesOnTime hlocal
            hat).mono ho hn hclock
  | scheduler ch =>
      obtain ⟨pc, s₁, pc', hpc, hsched, rfl⟩ := step_scheduler h
      have heff := schedulerStep_effect hsched
      have hqueues :=
        heff.queuesOnTime hs.toQueuesOnTime hpc (hdue pc hpc) hflags
      refine ⟨hqueues, ?_, ?_⟩
      · show ∀ pc ∈ s₁.clients, _
        rw [heff.sameThreads.clients]
        exact hclients
      · show ∀ w ∈ s₁.workers, _
        rw [heff.sameThreads.workers]
        exact fun w hw => (hs.workers w hw).mono ho hn hclock
  | cancel f =>
      obtain rfl := step_cancel h
      refine ⟨⟨?_, hs.delayed, hs.ready, hs.shared⟩, hclients, hs.workers⟩
      exact fun f e he =>
        ⟨(hs.ended f e he).1.trans_le hflags, (hs.ended f e he).2⟩

end

/-! ## The end of a run -/

section

variable {s : State} {o : Timing} {f i : ℕ} {w : Worker} {r : Recurring}

/-- The flag that a running body carries is nowhere else. -/
theorem notMem_elsewhere (hu : (flow s).Unique)
    (hw : s.workers[i]? = some w) (hf : f ∈ w.carried) :
    f < s.flags.length ∧ (∀ t ∈ s.waitingTasks, f ∉ t.flags) ∧
      (∀ pc ∈ s.clients, f ∉ pc.pending ∧ f ∉ pc.carried) ∧
        ∀ j v, j ≠ i → s.workers[j]? = some v →
          (∀ t ∈ v.unread, f ∉ t.flags) ∧ f ∉ v.pending ∧ f ∉ v.carried := by
  have hmem := List.mem_of_getElem? hw
  have hcarried : f ∈ Roster.tally Worker.carried s.workers :=
    Roster.mem_tally.mpr ⟨w, hmem, hf⟩
  have hheld : f ∈ (flow s).carried :=
    Multiset.mem_add.mpr (.inr hcarried)
  have htoken : f ∈ (flow s).tokens :=
    Multiset.mem_add.mpr (.inr (Multiset.mem_add.mpr (.inr hheld)))
  obtain ⟨-, hrest, hunread⟩ := Multiset.nodup_add.mp hu.nodup
  obtain ⟨-, hnodup, hpending⟩ := Multiset.nodup_add.mp hrest
  obtain ⟨-, hworkers, hclients⟩ := Multiset.nodup_add.mp hnodup
  have hnone : ∀ t ∈ (flow s).unread, f ∉ t.flags := fun t ht hft =>
    Multiset.disjoint_left.mp hunread (Multiset.mem_bind.mpr ⟨t, ht, hft⟩)
      (Multiset.mem_add.mpr (.inr hheld))
  have hnotPending : f ∉ (flow s).pending := fun hp =>
    Multiset.disjoint_left.mp hpending hp hheld
  refine ⟨hu.created f htoken, fun t ht => ?_, fun pc hpc => ⟨?_, ?_⟩,
    fun j v hj hv => ⟨fun t ht => ?_, ?_, ?_⟩⟩
  · exact hnone t (Multiset.mem_add.mpr (.inr ht))
  · intro hp
    exact hnotPending (Multiset.mem_add.mpr
      (.inl (Roster.mem_tally.mpr ⟨pc, hpc, hp⟩)))
  · intro hc
    exact Multiset.disjoint_left.mp hclients
      (Roster.mem_tally.mpr ⟨pc, hpc, hc⟩) hcarried
  · exact hnone t (Multiset.mem_add.mpr
      (.inl (Roster.mem_tally.mpr ⟨v, List.mem_of_getElem? hv, ht⟩)))
  · intro hp
    exact hnotPending (Multiset.mem_add.mpr
      (.inr (Roster.mem_tally.mpr ⟨v, List.mem_of_getElem? hv, hp⟩)))
  · intro hc
    obtain ⟨rest, hsum, hset⟩ := Roster.exists_rest Worker.carried hw
    rw [hsum] at hworkers
    have hdisjoint := (Multiset.nodup_add.mp hworkers).2.2
    apply Multiset.disjoint_left.mp hdisjoint hf
    -- With the body gone, the others carry what is left.
    have hidle := hset (w.goto .top)
    have hzero : (w.goto .top).carried = 0 := rfl
    rw [hzero, zero_add] at hidle
    rw [← hidle, Roster.mem_tally]
    have hv' : (s.workers.set i (w.goto .top))[j]? = some v :=
      (List.getElem?_set_ne hj.symm).trans hv
    exact ⟨v, List.mem_of_getElem? hv', hc⟩

theorem Timing.finish_ended {now : ℤ} {g : ℕ} (hg : g ≠ r.cancelled) :
    (o.finish now (some r)).ended g = o.ended g :=
  Function.update_of_ne hg _ _

theorem Timing.NotBefore.finish {now time : ℤ} {r' : Recurring}
    (h : o.NotBefore r' time) (hne : r'.cancelled ≠ r.cancelled) :
    (o.finish now (some r)).NotBefore r' time :=
  h.mono (finish_ended hne) le_rfl

theorem mem_flags_of_recurring {t : Task} (hr : t.recurring? = some r) :
    r.cancelled ∈ t.flags := by
  rw [Task.flags, bodyFlags_of_some hr]
  exact Multiset.mem_add.mpr (.inr (Multiset.mem_singleton_self _))

theorem Timing.MayStart.finish {n : ℕ} {now time : ℤ} {t : Task}
    (h : o.MayStart n time t) (hne : r.cancelled ∉ t.bodyFlags) :
    (o.finish now (some r)).MayStart n time t := by
  refine ⟨h.1, fun r' hr' => (h.2 r' hr').finish fun heq => hne ?_⟩
  rw [bodyFlags_of_some hr', heq]
  exact Multiset.mem_singleton_self _

theorem Timing.Waits.finish {n : ℕ} {now : ℤ} {d : DelayedTask}
    (h : o.Waits n d) (hne : r.cancelled ∉ d.task.flags) :
    (o.finish now (some r)).Waits n d :=
  ⟨h.1, h.2.1, fun r' hr' => (h.2.2 r' hr').finish fun heq =>
    hne (heq ▸ mem_flags_of_recurring hr')⟩

theorem Timing.InCall.finish {now time : ℤ} {pc : CallPc}
    (h : o.InCall time pc) (hpending : r.cancelled ∉ pc.pending)
    (hcarried : r.cancelled ∉ pc.carried) :
    (o.finish now (some r)).InCall time pc := by
  cases pc with
  | delayedPrepare delay priority body =>
      cases body with
      | user => trivial
      | recurring r' =>
          exact NotBefore.finish h fun heq => hcarried
            (Multiset.mem_singleton.mpr heq.symm)
  | delayedInsert e priority taskId cancelled body =>
      cases body with
      | user => trivial
      | recurring r' =>
          exact NotBefore.finish h fun heq => hcarried
            (Multiset.mem_singleton.mpr heq.symm)
  | recurringRegister taskId r' =>
      refine (finish_ended fun heq => hpending ?_).trans h
      exact Multiset.mem_singleton.mpr heq.symm
  | _ => trivial

theorem Timing.AtWorker.finish {n : ℕ} {now time : ℤ} {v : Worker}
    (h : o.AtWorker n time v.pc)
    (hunread : ∀ t ∈ v.unread, r.cancelled ∉ t.flags)
    (hpending : r.cancelled ∉ v.pending)
    (hcarried : r.cancelled ∉ v.carried) :
    (o.finish now (some r)).AtWorker n time v.pc := by
  unfold Worker.unread at hunread
  unfold Worker.pending at hpending
  unfold Worker.carried at hcarried
  generalize v.pc = pc at *
  cases pc with
  | gotTask t | wrapper t =>
      have hflags := hunread t (Multiset.mem_singleton_self t)
      exact MayStart.finish h fun hmem =>
        hflags (Multiset.mem_add.mpr (.inr hmem))
  | count t => exact MayStart.finish h hcarried
  | running t phase =>
      cases phase with
      | user | recurringTest => exact MayStart.finish h hcarried
      | call pc =>
          have hparts := not_or.mp (mt Multiset.mem_add.mpr hcarried)
          exact ⟨h.1.finish hparts.2, h.2.finish hpending hparts.1⟩
      | rescheduleTest => exact h
      | reschedule pc => exact ⟨h.1, h.2.finish hpending hcarried⟩
  | returned t | uncount t => exact h
  | _ => trivial

/-- Everybody else is on time when a callable comes back, for the flag of the
run is with nobody else. -/
theorem OnTime.finish (hs : OnTime s o) (hu : (flow s).Unique)
    (hw : s.workers[i]? = some w) {t : Task}
    (hpc : w.pc = .running t .rescheduleTest) (hr : t.recurring? = some r) :
    OnTime s (o.finish s.clock (some r)) := by
  have hf : r.cancelled ∈ w.carried := by
    rw [Worker.carried, hpc]
    show r.cancelled ∈ t.bodyFlags
    rw [bodyFlags_of_some hr]
    exact Multiset.mem_singleton_self _
  obtain ⟨hcreated, hwaiting, hclients, hworkers⟩ :=
    notMem_elsewhere hu hw hf
  have hdelayed : ∀ d ∈ s.delayedTasks, d.task ∈ s.waitingTasks :=
    fun d hd => Multiset.mem_add.mpr (.inl (Multiset.mem_add.mpr
      (.inl (Multiset.mem_coe.mpr (List.mem_map_of_mem hd)))))
  have hready : ∀ d ∈ s.ready, d.task ∈ s.waitingTasks :=
    fun d hd => Multiset.mem_add.mpr (.inl (Multiset.mem_add.mpr
      (.inr (Multiset.mem_coe.mpr (List.mem_map_of_mem hd)))))
  have hshared : ∀ t ∈ s.sharedTasks, t ∈ s.waitingTasks :=
    fun t ht => Multiset.mem_add.mpr (.inr ht)
  refine ⟨⟨?_, ?_, ?_, ?_⟩, ?_, ?_⟩
  · intro g e he
    by_cases hg : g = r.cancelled
    · subst hg
      have hself : (o.finish s.clock (some r)).ended r.cancelled =
          some s.clock := Function.update_self _ _ _
      obtain rfl := Option.some.inj (hself.symm.trans he)
      exact ⟨hcreated, le_rfl⟩
    · rw [Timing.finish_ended hg] at he
      exact hs.ended g e he
  · exact fun d hd => (hs.delayed d hd).finish (hwaiting _ (hdelayed d hd))
  · exact fun d hd => (hs.ready d hd).finish (hwaiting _ (hready d hd))
  · intro t' ht'
    exact (hs.shared t' ht').finish fun hmem =>
      hwaiting t' (hshared t' ht') (Multiset.mem_add.mpr (.inr hmem))
  · exact fun pc hpc' => (hs.clients pc hpc').finish (hclients pc hpc').1
      (hclients pc hpc').2
  · intro v hv
    obtain ⟨j, hj⟩ := List.mem_iff_getElem?.mp hv
    by_cases hji : j = i
    · subst hji
      obtain rfl := Option.some.inj (hw.symm.trans hj)
      have hdue := hs.workers w hv
      rw [hpc] at hdue ⊢
      exact hdue
    · obtain ⟨hunread, hpending, hcarried⟩ := hworkers j v hji hj
      exact (hs.workers v hv).finish hunread hpending hcarried

end

/-! ## Reachable states -/

section

variable {x x' : State × Timing} {a : Action}

theorem stepTiming_onTime (hs : OnTime x.1 x.2)
    (hreach : Transition.Reachable step initial x.1)
    (h : stepTiming x a = some x') : OnTime x'.1 x'.2 := by
  obtain ⟨hstep, hobserve⟩ := Transition.watch_eq_some.mp h
  have hlocal := reachable_localQueuesEmpty hreach
  have hnext := hs.step hlocal
    (fun pc hpc => reachable_collectsDue hreach hpc) hstep
  rw [hobserve, observeTiming]
  cases hended : (a.worker?.bind fun i => x.1.workers[i]?).bind fun w =>
      w.endedRun? a.choice with
  | none => exact hnext
  | some r =>
      obtain ⟨w, hworker, hrun⟩ := Option.bind_eq_some_iff.mp hended
      obtain ⟨i, ha, hw⟩ := Option.bind_eq_some_iff.mp hworker
      obtain ⟨ch, rfl⟩ := worker?_eq_some ha
      obtain ⟨s₁, w', hmove, hw', hx'⟩ := worker_of_moved hstep hw
      unfold Worker.endedRun? at hrun
      split at hrun
      · next t hpc =>
          split at hrun
          · next hcall =>
              have hnone : ch.call = none := Option.isNone_iff_eq_none.mp hcall
              simp only [workerStep, hpc, runningStep, hnone, hrun,
                Option.some.injEq, Prod.mk.injEq] at hmove
              obtain ⟨rfl, rfl⟩ := hmove
              have hclock : x'.1.clock = x.1.clock := by
                rw [hx', countRecurring]
                split <;> rfl
              rw [← hclock]
              exact hnext.finish (reachable_unique (hreach.next trivial hstep))
                hw' rfl hrun
          · cases hrun
      · cases hrun

theorem construct_onTime (c : CheckedConfig) (clock : ℤ) :
    OnTime (construct c clock) {} := by
  have hready : (construct c clock).ready = [] := by
    simp only [State.ready, construct]
    split <;> rfl
  refine ⟨⟨?_, ?_, ?_, ?_⟩, ?_, fun w hw => ?_⟩
  · exact fun f e he => absurd he (by simp)
  · exact fun d hd => absurd hd List.not_mem_nil
  · rw [hready]
    exact fun d hd => absurd hd List.not_mem_nil
  · exact fun t ht => absurd ht (Multiset.notMem_zero t)
  · exact fun pc hpc => absurd hpc List.not_mem_nil
  · rw [mem_construct_workers hw]
    trivial

theorem reachable_onTime
    (hx : Transition.Reachable stepTiming initialTiming x) :
    OnTime x.1 x.2 := by
  induction hx with
  | start hx =>
      obtain ⟨⟨c, clock, hs⟩, ho⟩ := hx
      rw [hs, ho]
      exact construct_onTime c clock
  | next hx _ h ih =>
      exact stepTiming_onTime ih
        (hx.of_watch (fun _ hx => hx.1) fun _ _ _ => trivial) h

/-- The callables that run are delayed tasks past their execute times, and
recurring tasks, one run of each, that have let their interval go by. -/
structure RunsOnTime (x : State × Timing) : Prop where
  due : ∀ (i : ℕ) (w : Worker) (t : Task), x.1.workers[i]? = some w →
    w.pc.callable? = some t → t.wrapper ≠ .immediate →
      ∃ e, x.2.due t.id = some e ∧ e ≤ x.1.clock
  spaced : ∀ (i : ℕ) (w : Worker) (t : Task) (r : Recurring) (e : ℤ),
    x.1.workers[i]? = some w → w.pc.callable? = some t →
      t.recurring? = some r → x.2.ended r.cancelled = some e →
        e + milliseconds r.interval ≤ x.1.clock
  alone : ∀ (i j : ℕ) (w v : Worker) (t t' : Task) (r r' : Recurring),
    x.1.workers[i]? = some w → x.1.workers[j]? = some v →
      w.pc.callable? = some t → v.pc.callable? = some t' →
        t.recurring? = some r → t'.recurring? = some r' →
          r'.cancelled = r.cancelled → j = i

theorem Timing.AtWorker.mayStart {o : Timing} {n : ℕ} {now : ℤ}
    {pc : WorkerPc} {t : Task} (h : o.AtWorker n now pc)
    (hpc : pc.callable? = some t) : o.MayStart n now t := by
  unfold WorkerPc.callable? at hpc
  split at hpc
  · obtain rfl := Option.some.inj hpc
    exact h
  · obtain rfl := Option.some.inj hpc
    exact h.1
  · cases hpc

theorem mem_carried_of_callable {w : Worker} {t : Task} {r : Recurring}
    (hpc : w.pc.callable? = some t) (hr : t.recurring? = some r) :
    r.cancelled ∈ w.carried := by
  have hmem : r.cancelled ∈ t.bodyFlags := by
    rw [bodyFlags_of_some hr]
    exact Multiset.mem_singleton_self _
  unfold WorkerPc.callable? at hpc
  unfold Worker.carried
  split at hpc
  · next hrun =>
      obtain rfl := Option.some.inj hpc
      rw [hrun]
      exact hmem
  · next hrun =>
      obtain rfl := Option.some.inj hpc
      rw [hrun]
      exact Multiset.mem_add.mpr (.inr hmem)
  · cases hpc

end

/-- A recurring task runs, submits itself again and, after 5 ms, runs once
more. -/
def runsTwice : List Action :=
  [Action.call (.submitRecurring 5 .kNormal)] ++
    List.replicate 5 (Action.client 0 {}) ++
    List.replicate 6 (Action.scheduler {}) ++
    List.replicate 15 (Action.worker 0 {}) ++ [Action.tick 5000000] ++
    List.replicate 9 (Action.scheduler {}) ++
    List.replicate 8 (Action.worker 1 {})

theorem runsTwice_runs :
    (Transition.run stepTiming (construct delayConfig 0, {})
      runsTwice).isSome := by
  decide

end ThreadPool
end Yacul
