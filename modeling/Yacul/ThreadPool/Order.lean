import Yacul.ThreadPool.Lines
import Yacul.ThreadPool.DelayScheduler
import Yacul.ThreadPool.Pause

/-!
# In which order tasks run

The scheduler takes delayed tasks from the top of their queue and keeps the
others out while it collects a batch, so of two pending tasks the one that is
due first is queued first.  From the shared queue the workers take a task of
the highest priority or, without the priority queue, the oldest task.
-/

namespace Yacul
namespace ThreadPool

open Precedence
open DelayedTask (ids)

/-! ## The lines of the pool -/

/-- A task of `tasks_`. -/
def Task.entry (t : Task) : Entry :=
  ⟨t.id, 0⟩

/-- A task of `priority_tasks_`. -/
def PriorityTask.entry (p : PriorityTask) : Entry :=
  ⟨p.task.id, p.priority.value⟩

/-- The shared queue. -/
def State.entries (s : State) : List Entry :=
  s.tasks.map Task.entry ++ s.priorityTasks.map PriorityTask.entry

def line (s : State) : Line where
  accepted := s.accepted
  delayed := s.delayedTasks
  ready := s.ready
  shared := s.entries
  queued := s.queued.reverse
  dropped := s.dropped
  discarded := s.discarded

/-- The workers take the tasks in the order in which they were queued. -/
def State.fifo (s : State) : Bool :=
  !s.config.enablePriorityQueue

/-- Only one of the two queues is in use. -/
structure OneQueue (fifo : Bool) (s : State) : Prop where
  priorityTasks : fifo = true → s.priorityTasks = []
  tasks : fifo = false → s.tasks = []

/-- What a step does to the lines. -/
structure Moves (fifo : Bool) (s : State) (x? : Option ℕ) (s' : State) :
    Prop where
  line : (line s).Step fifo x? (line s')
  queue : OneQueue fifo s'

section

variable {s s' : State} {who : Caller} {pc pc' : CallPc} {i : ℕ}
  {w w' : Worker} {ch : Choice} {a : Action}

theorem Quiet.line (h : Quiet s s') : line s' = line s := by
  simp only [ThreadPool.line, State.ready, State.entries, h.accepted,
    h.delayedTasks, h.scheduler, h.tasks, h.priorityTasks, h.queued,
    h.dropped, h.discarded]

theorem Quiet.oneQueue {fifo : Bool} (h : Quiet s s')
    (hs : OneQueue fifo s) : OneQueue fifo s' where
  priorityTasks hfifo := h.priorityTasks.trans (hs.priorityTasks hfifo)
  tasks hfifo := h.tasks.trans (hs.tasks hfifo)

theorem Quiet.moves {fifo : Bool} (h : Quiet s s') (hs : OneQueue fifo s) :
    Moves fifo s none s' :=
  ⟨h.line ▸ .stay, h.oneQueue hs⟩

/-- A task goes to the end of the queue that is in use. -/
theorem pushTask_entries (hs : OneQueue s.fifo s) (priority : TaskPriority)
    (t : Task) :
    (∃ rank, (pushTask s priority t).entries = s.entries ++ [⟨t.id, rank⟩]) ∧
      OneQueue s.fifo (pushTask s priority t) := by
  unfold pushTask
  dsimp only
  split
  · next henable =>
      have hfifo : s.fifo = false := by rw [State.fifo, henable]; rfl
      have htasks := hs.tasks hfifo
      refine ⟨⟨priority.value, ?_⟩, fun hfifo' => ?_, fun _ => htasks⟩
      · simp [State.entries, PriorityTask.entry]
      · rw [hfifo] at hfifo'
        cases hfifo'
  · next henable =>
      have hfifo : s.fifo = true := by simpa [State.fifo] using henable
      have hpriority := hs.priorityTasks hfifo
      refine ⟨⟨0, ?_⟩, fun _ => hpriority, fun hfifo' => ?_⟩
      · simp [State.entries, Task.entry, hpriority]
      · rw [hfifo] at hfifo'
        cases hfifo'

theorem pushTask_fifo (s : State) (priority : TaskPriority) (t : Task) :
    (pushTask s priority t).fifo = s.fifo := by
  unfold pushTask State.fifo
  dsimp only
  split <;> rfl

theorem pushTask_queued (s : State) (priority : TaskPriority) (t : Task) :
    (pushTask s priority t).queued = t.id :: s.queued := by
  unfold pushTask
  dsimp only
  split <;> rfl

theorem pushTask_accepted (s : State) (priority : TaskPriority) (t : Task) :
    (pushTask s priority t).accepted = s.accepted := by
  unfold pushTask
  dsimp only
  split <;> rfl

/-- A batch goes there in its order. -/
theorem pushReady_entries (ready : List DelayedTask) {s : State}
    (hs : OneQueue s.fifo s) :
    (∃ more, more.map Entry.id = ids ready ∧
        (ready.foldl (fun s d => pushTask s d.priority d.task) s).entries =
          s.entries ++ more) ∧
      OneQueue s.fifo
        (ready.foldl (fun s d => pushTask s d.priority d.task) s) := by
  induction ready generalizing s with
  | nil => exact ⟨⟨[], rfl, by simp⟩, hs⟩
  | cons d ready ih =>
      obtain ⟨⟨rank, hentries⟩, hpush⟩ :=
        pushTask_entries hs d.priority d.task
      rw [← pushTask_fifo s d.priority d.task] at hpush ⊢
      obtain ⟨⟨more, hmore, hrest⟩, hall⟩ := ih hpush
      refine ⟨⟨⟨d.task.id, rank⟩ :: more, ?_, ?_⟩, hall⟩
      · rw [List.map_cons, hmore]
        rfl
      · rw [List.foldl_cons, hrest, hentries, List.append_assoc]
        rfl

theorem pushReady_queued (ready : List DelayedTask) (s : State) :
    (ready.foldl (fun s d => pushTask s d.priority d.task) s).queued =
        (ids ready).reverse ++ s.queued ∧
      (ready.foldl (fun s d => pushTask s d.priority d.task) s).accepted =
        s.accepted := by
  induction ready generalizing s with
  | nil => exact ⟨rfl, rfl⟩
  | cons d ready ih =>
      obtain ⟨hqueued, haccepted⟩ := ih (pushTask s d.priority d.task)
      refine ⟨?_, haccepted.trans (pushTask_accepted s _ _)⟩
      rw [List.foldl_cons, hqueued, pushTask_queued]
      simp [DelayedTask.ids]

/-! ## Steps -/

theorem drainQueues_moves {fifo : Bool} (hlocal : LocalQueuesEmpty s) :
    Moves fifo s none (drainQueues s) := by
  have hflat : s.localQueues.flatten = [] := List.flatten_eq_nil_iff.mpr hlocal
  refine ⟨?_, fun _ => rfl, fun _ => rfl⟩
  have hline : line (drainQueues s) = { line s with
      delayed := []
      shared := []
      discarded := (line s).shared.map Entry.id ++ ids (line s).delayed ++
        (line s).discarded } := by
    simp [line, drainQueues, State.entries, State.ready, hflat,
      Function.comp_def, Task.entry, PriorityTask.entry, DelayedTask.ids]
  exact hline ▸ .drain

theorem CallEffect.moves (h : CallEffect s who pc s' pc')
    (hlocal : LocalQueuesEmpty s) (hs : OneQueue s.fifo s) :
    Moves s.fifo s none s' := by
  cases h with
  | quiet hq => exact hq.moves hs
  | enqueue priority =>
      obtain ⟨⟨rank, hentries⟩, hpush⟩ :=
        pushTask_entries hs priority ⟨s.accepted, .immediate⟩
      refine ⟨?_, hpush.priorityTasks, hpush.tasks⟩
      have hsame := enqueueTask_same s priority
      have hline : line (enqueueTask s priority) = { line s with
          accepted := (line s).accepted + 1
          shared := (line s).shared ++ [⟨(line s).accepted, rank⟩]
          queued := (line s).queued ++ [(line s).accepted] } := by
        have hqueued : (enqueueTask s priority).queued =
            s.accepted :: s.queued := pushTask_queued s _ _
        have hshared : (enqueueTask s priority).entries =
            s.entries ++ [⟨s.accepted, rank⟩] := hentries
        simp only [line, State.ready, hqueued, hshared,
          hsame.1.delayedTasks, hsame.1.scheduler, hsame.2.dropped,
          hsame.2.discarded, List.reverse_cons]
        rfl
      exact hline ▸ .enqueue rank
  | insert executeTime priority taskId cancelled body =>
      exact ⟨.insert rfl, hs.priorityTasks, hs.tasks⟩
  | setShutdown now =>
      cases now with
      | false => exact ⟨.stay, hs.priorityTasks, hs.tasks⟩
      | true =>
          have hclosed : LocalQueuesEmpty { s with shutdown := true } := hlocal
          have hdrain : Moves s.fifo { s with shutdown := true } none _ :=
            drainQueues_moves hclosed
          exact ⟨hdrain.line, hdrain.queue⟩
  | _ => exact ⟨.stay, hs.priorityTasks, hs.tasks⟩

theorem taken?_eq_some_iff {t : Task} :
    w.pc.taken? = some t ↔ w.stage = .taken t := by
  unfold WorkerPc.taken? Worker.stage
  cases w.pc <;> simp

/-- The task that a worker takes is the oldest, or one of the highest
priority. -/
theorem dequeueTask_moves {k : ℕ} {t : Task}
    (h : dequeueTask s k = some (some t, s')) (hs : OneQueue s.fifo s) :
    Moves s.fifo s (some t.id) s' := by
  unfold dequeueTask at h
  split at h
  · next henable =>
      have hfifo : s.fifo = false := by
        simp only [Bool.and_eq_true] at henable
        rw [State.fifo, henable.1]
        rfl
      have htasks := hs.tasks hfifo
      split at h
      · cases h
      · next top htop =>
          split at h
          · next hall =>
              simp only [Option.some.injEq, Prod.mk.injEq] at h
              obtain ⟨rfl, rfl⟩ := h
              refine ⟨?_, fun h => absurd (hfifo.symm.trans h) (by decide),
                fun _ => htasks⟩
              have hentries : s.entries =
                  s.priorityTasks.map PriorityTask.entry := by
                rw [State.entries, htasks, List.map_nil, List.nil_append]
              have hline : line { s with
                    priorityTasks := s.priorityTasks.eraseIdx k
                    stats := { s.stats with
                      queueSize := s.stats.queueSize - 1 } } =
                  { line s with shared := (line s).shared.eraseIdx k } := by
                simp only [line, State.ready, hentries]
                simp [State.entries, htasks, List.eraseIdx_map]
              rw [hline]
              refine Line.Step.take (e := top.entry) ?_ ?_ ?_
              · simp [line, hentries, htop]
              · intro e he
                have hmem : e ∈ s.priorityTasks.map PriorityTask.entry := by
                  rwa [← hentries]
                obtain ⟨p, hp, rfl⟩ := List.mem_map.mp hmem
                exact of_decide_eq_true (List.all_eq_true.mp hall p hp)
              · exact fun h => absurd (hfifo.symm.trans h) (by decide)
          · cases h
  · next henable =>
      split at h
      · cases h
      · next t' rest htasks =>
          simp only [Option.some.injEq, Prod.mk.injEq] at h
          obtain ⟨rfl, rfl⟩ := h
          have hfifo : s.fifo = true := by
            by_contra hfifo
            have hnone := hs.tasks (Bool.eq_false_of_not_eq_true hfifo)
            rw [htasks] at hnone
            cases hnone
          have hpriority := hs.priorityTasks hfifo
          refine ⟨?_, fun _ => hpriority,
            fun h => absurd (hfifo.symm.trans h) (by decide)⟩
          have hline : line { s with
                tasks := rest
                stats := { s.stats with
                  queueSize := s.stats.queueSize - 1 } } =
              { line s with shared := (line s).shared.eraseIdx 0 } := by
            simp [line, State.ready, State.entries, htasks, hpriority]
          rw [hline]
          refine Line.Step.take (e := t'.entry) ?_ ?_ fun _ => rfl
          · simp [line, State.entries, htasks]
          · intro e he
            have hentries : e ∈ s.tasks.map Task.entry := by
              simpa [line, State.entries, hpriority] using he
            obtain ⟨t, -, rfl⟩ := List.mem_map.mp hentries
            exact Nat.le_refl _

theorem workerStep_moves (h : workerStep s i w ch = some (s', w'))
    (hlocal : LocalQueuesEmpty s) (hs : OneQueue s.fifo s) :
    Moves s.fifo s (w'.pc.taken?.map Task.id) s' := by
  cases htaken : w'.pc.taken? with
  | some t =>
      have hpc' : w'.pc = .gotTask t := by
        unfold WorkerPc.taken? at htaken
        split at htaken
        · next hpc' => exact hpc'.trans (congrArg _ (Option.some.inj htaken))
        · cases htaken
      obtain ⟨hpc, -⟩ := workerStep_taken hlocal h hpc'
      simp only [workerStep, hpc, Option.ite_none_left_eq_some,
        Option.map_eq_some_iff, Prod.mk.injEq] at h
      obtain ⟨-, ⟨t?, s₁⟩, hdequeue, rfl, rfl⟩ := h
      cases t? with
      | none =>
          rw [Worker.goto_pc] at hpc'
          dsimp only at hpc'
          split at hpc' <;> cases hpc'
      | some t' =>
          obtain rfl : t' = t := by simpa using hpc'
          exact dequeueTask_moves hdequeue hs
  | none =>
      have hnone : ∀ t, w'.stage ≠ .taken t := by
        intro t ht
        rw [taken?_eq_some_iff.mpr ht] at htaken
        cases htaken
      cases workerStep_effect h with
      | quiet hq => exact hq.moves hs
      | call _ _ hcall => exact (callStep_effect hcall).moves hlocal hs
      | takeFront | takePriority | takeLocal => cases htaken
      | _ => exact ⟨.stay, hs.priorityTasks, hs.tasks⟩

/-- Only the loop that collects a batch makes it longer. -/
theorem schedulerStep_ready {pc pc' : SchedulerPc}
    (h : schedulerStep s ch pc = some (s', pc'))
    (hpc : ∀ now ready, pc ≠ .collect now ready) : pc'.ready = [] := by
  cases pc with
  | collect now ready => exact absurd rfl (hpc now ready)
  | notify count =>
      simp only [schedulerStep] at h
      split at h
      · simp only [Option.map_eq_some_iff, Prod.mk.injEq] at h
        obtain ⟨s₁, -, -, rfl⟩ := h
        rfl
      · obtain ⟨-, rfl⟩ := Prod.mk.inj (Option.some.inj h)
        rfl
  | push ready =>
      simp only [schedulerStep, whenFree_eq_some, Prod.mk.injEq] at h
      obtain ⟨-, -, rfl⟩ := h
      rfl
  | exited => cases h
  | _ =>
      obtain ⟨-, rfl⟩ := Prod.mk.inj (Option.some.inj h)
      first | rfl | (split <;> rfl)

/-- The batch is all that the lines have of the scheduler. -/
theorem line_scheduler {pc pc' : SchedulerPc} (hpc : s.scheduler = some pc)
    (hready : pc'.ready = pc.ready) :
    line { s with scheduler := some pc' } = line s := by
  simp only [line, State.ready, State.entries, hpc, Option.elim_some, hready]

/-- The task on top is dropped or joins the batch. -/
theorem collect_moves {now : ℤ} {ready : List DelayedTask}
    {pc' : SchedulerPc} (hpc : s.scheduler = some (.collect now ready))
    (h : schedulerStep s ch (.collect now ready) = some (s', pc'))
    (hs : OneQueue s.fifo s) :
    Moves s.fifo s none { s' with scheduler := some pc' } := by
  have hready : (line s).ready = ready := by
    simp [line, State.ready, hpc, SchedulerPc.ready]
  simp only [schedulerStep] at h
  split at h
  · simp only [Option.map_eq_some_iff] at h
    obtain ⟨⟨d, s₁⟩, hpop, h⟩ := h
    obtain ⟨htask, rfl⟩ := popDelayed_some hpop
    have htop : ∀ e ∈ s.delayedTasks, d.before e = false := by
      simp only [popDelayed, htask] at hpop
      split at hpop
      · next hall => simpa using hall
      · cases hpop
    unfold collectReady at h
    split at h
    · obtain ⟨rfl, rfl⟩ := Prod.mk.inj h
      refine ⟨?_, hs.priorityTasks, hs.tasks⟩
      have hdrop : (line s).Step s.fifo none _ := .drop htask
      rw [show (line s).ready = ready from hready] at hdrop
      exact hdrop
    · obtain ⟨rfl, rfl⟩ := Prod.mk.inj h
      refine ⟨?_, hs.priorityTasks, hs.tasks⟩
      have hcollect : (line s).Step s.fifo none _ := .collect htask htop
      rw [hready] at hcollect
      exact hcollect
  · obtain ⟨rfl, rfl⟩ := Prod.mk.inj (Option.some.inj h)
    refine ⟨?_, hs.priorityTasks, hs.tasks⟩
    refine (line_scheduler hpc ?_) ▸ .stay
    cases ready <;> rfl

theorem schedulerStep_moves {pc pc' : SchedulerPc}
    (hpc : s.scheduler = some pc)
    (h : schedulerStep s ch pc = some (s', pc')) (hs : OneQueue s.fifo s) :
    Moves s.fifo s none { s' with scheduler := some pc' } := by
  by_cases hcollect : ∃ now ready, pc = .collect now ready
  · obtain ⟨now, ready, rfl⟩ := hcollect
    exact collect_moves hpc h hs
  · have hnone : pc'.ready = [] := schedulerStep_ready h fun now ready heq =>
      hcollect ⟨now, ready, heq⟩
    have hready : s.ready = pc.ready := by simp [State.ready, hpc]
    cases schedulerStep_effect h with
    | quiet hq hsame =>
        refine ⟨?_, (hq.oneQueue hs).priorityTasks, (hq.oneQueue hs).tasks⟩
        have hline := line_scheduler (hq.scheduler.trans hpc) hsame
        rw [hline, hq.line]
        exact .stay
    | sleep asleep hsame =>
        have hline : line { s with
            schedulerSleeps := asleep, scheduler := some pc' } = line s :=
          line_scheduler hpc hsame
        exact ⟨hline ▸ .stay, hs.priorityTasks, hs.tasks⟩
    | drop htask hsame =>
        refine ⟨?_, hs.priorityTasks, hs.tasks⟩
        have hdrop : (line s).Step s.fifo none _ := .drop htask
        rw [show (line s).ready = pc'.ready from hready.trans hsame.symm]
          at hdrop
        exact hdrop
    | ready htask hmore =>
        rw [hnone] at hmore
        exact absurd hmore (by simp)
    | push ready =>
        obtain ⟨⟨more, hmore, hentries⟩, hqueue⟩ := pushReady_entries ready hs
        obtain ⟨hqueued, haccepted⟩ := pushReady_queued ready s
        have hsame := pushReady_same ready s
        refine ⟨?_, hqueue.priorityTasks, hqueue.tasks⟩
        have hids : ids (line s).ready = ids ready := congrArg ids hready
        have hpush : (line s).Step s.fifo none _ :=
          .push more (hmore.trans hids.symm)
        rw [hids] at hpush
        have hline : line { ready.foldl
              (fun s d => pushTask s d.priority d.task) s with
                scheduler := some pc' } = { line s with
            ready := []
            shared := (line s).shared ++ more
            queued := (line s).queued ++ ids ready } := by
          have hreverse : ((ids ready).reverse ++ s.queued).reverse =
              s.queued.reverse ++ ids ready := by simp
          simp only [line, State.ready, Option.elim_some, hnone, haccepted,
            hqueued, hreverse, hsame.1.delayedTasks, hsame.2.dropped,
            hsame.2.discarded]
          congr 1
        exact hline ▸ hpush

/-- Every step moves the lines, and a worker that takes a task moves them by
that task. -/
theorem step_moves (h : step s a = some s') (hlocal : LocalQueuesEmpty s)
    (hs : OneQueue s.fifo s) :
    Moves s.fifo s ((s.taken? a).map Task.id) s' := by
  cases a with
  | tick elapsed =>
      obtain rfl := step_tick h
      exact ⟨.stay, hs.priorityTasks, hs.tasks⟩
  | call op =>
      obtain rfl := step_call h
      exact ⟨.stay, hs.priorityTasks, hs.tasks⟩
  | client n ch =>
      obtain ⟨pc, s₁, pc', -, hcall, rfl⟩ := step_client h
      have hmoves := (callStep_effect hcall).moves hlocal hs
      exact ⟨hmoves.line, hmoves.queue.priorityTasks, hmoves.queue.tasks⟩
  | worker i ch =>
      obtain ⟨w, s₁, w', hw, hworker, rfl⟩ := step_worker h
      have hmoves := workerStep_moves hworker hlocal hs
      rw [taken?_worker hw, hworker]
      exact ⟨hmoves.line, hmoves.queue.priorityTasks, hmoves.queue.tasks⟩
  | scheduler ch =>
      obtain ⟨pc, s₁, pc', hpc, hsched, rfl⟩ := step_scheduler h
      exact schedulerStep_moves hpc hsched hs
  | cancel f =>
      obtain rfl := step_cancel h
      exact ⟨.stay, hs.priorityTasks, hs.tasks⟩

theorem step_fifo (h : step s a = some s') : s'.fifo = s.fifo := by
  unfold State.fifo
  obtain hconfig | ⟨_, _, -, -, hconfig⟩ := step_config h
  · rw [hconfig]
  · rw [hconfig]

/-! ## Runs -/

/-- The tasks that the workers have taken, the first one first. -/
def observeTaken (s : State) (a : Action) (log : List ℕ) : List ℕ :=
  log ++ ((s.taken? a).map Task.id).toList

/-- The pool, watched. -/
abbrev stepTaken : State × List ℕ → Action → Option (State × List ℕ) :=
  Transition.watch step observeTaken

/-- A pool that has just been constructed. -/
def initialTaken : Set (State × List ℕ) :=
  { x | x.1 ∈ initial ∧ x.2 = [] }

structure InLine (x : State × List ℕ) : Prop where
  localQueues : LocalQueuesEmpty x.1
  queue : OneQueue x.1.fifo x.1
  numbered : (line x.1).Numbered
  taken : (line x.1).Taken x.2
  order : x.1.fifo = true → (line x.1).InOrder x.2

variable {x x' : State × List ℕ}

theorem InLine.kept (hx : InLine x) (h : stepTaken x a = some x') :
    InLine x' ∧ ∃ x?, (line x.1).Step x.1.fifo x? (line x'.1) ∧
      x'.2 = x.2 ++ x?.toList := by
  obtain ⟨hstep, hlog⟩ := Transition.watch_eq_some.mp h
  have hmoves := step_moves hstep hx.localQueues hx.queue
  have hfifo := step_fifo hstep
  refine ⟨⟨hx.localQueues.step hstep, ?_, hx.numbered.step hmoves.line, ?_,
    fun hin => ?_⟩, _, hmoves.line, hlog⟩
  · rw [hfifo]
    exact hmoves.queue
  · rw [hlog]
    exact hx.taken.step hmoves.line
  · rw [hfifo] at hin
    have hline := hmoves.line
    rw [hin] at hline
    rw [hlog]
    exact (hx.order hin).step hline

theorem construct_inLine (c : CheckedConfig) (clock : ℤ) :
    InLine (construct c clock, []) where
  localQueues := construct_localQueuesEmpty c clock
  queue := ⟨fun _ => rfl, fun _ => rfl⟩
  numbered := by
    have hready : (construct c clock).ready = [] := by
      simp only [State.ready, construct]
      split <;> rfl
    have hknown : (line (construct c clock)).known = 0 := by
      simp only [Line.known, line, hready]
      rfl
    exact ⟨hknown ▸ Multiset.nodup_zero,
      fun y hy => absurd (hknown ▸ hy) (Multiset.notMem_zero y)⟩
  taken := le_refl (0 : Multiset ℕ)
  order _ := ⟨List.Sublist.refl _, nofun, fun _ => rfl⟩

theorem reachable_inLine
    (hx : Transition.Reachable stepTaken initialTaken x) : InLine x := by
  apply hx.invariant
  · rintro ⟨s, log⟩ ⟨⟨c, clock, hs⟩, hlog⟩
    obtain rfl : s = construct c clock := hs
    obtain rfl : log = [] := hlog
    exact construct_inLine c clock
  · exact fun y a y' hy _ h => (hy.kept h).1

/-- What a run from `x` keeps. -/
theorem InLine.run {P : State × List ℕ → Prop} {acts : List Action}
    (hx : InLine x) (hrun : Transition.run stepTaken x acts = some x')
    (hP : P x)
    (hstep : ∀ y y' x?, InLine y → P y →
      (line y.1).Step y.1.fifo x? (line y'.1) → y'.2 = y.2 ++ x?.toList →
        y'.1.fifo = y.1.fifo → P y') : InLine x' ∧ P x' := by
  have hreach : Transition.Reachable stepTaken {x} x' :=
    Transition.Reachable.run (.start (Set.mem_singleton x)) hrun
  apply hreach.invariant (I := fun y => InLine y ∧ P y)
  · rintro y rfl
    exact ⟨hx, hP⟩
  · rintro y a y' ⟨hy, hPy⟩ - h
    obtain ⟨hy', x?, hline, hlog⟩ := hy.kept h
    have hfifo := step_fifo (Transition.watch_eq_some.mp h).1
    exact ⟨hy', hstep y y' x? hy hPy hline hlog hfifo⟩

/-- The order in which tasks have been queued and taken by the end of a run
from `x` to `x'`. -/
structure Ordered (x x' : State × List ℕ) : Prop where
  /-- Of two pending delayed tasks the one on top is queued first. -/
  promoted : ∀ a b : DelayedTask, a ∈ x.1.delayedTasks →
    b ∈ x.1.delayedTasks → b.before a = true →
      a.task.id ∈ x'.1.dropped ∨ a.task.id ∈ x'.1.discarded ∨
        Precedes a.task.id b.task.id x'.1.queued.reverse
  /-- Of two waiting tasks the one of the higher priority is taken first. -/
  chosen : ∀ p q : PriorityTask, p ∈ x.1.priorityTasks →
    q ∈ x.1.priorityTasks → q.priority.value < p.priority.value →
      p.task.id ∈ x'.1.discarded ∨ Precedes p.task.id q.task.id x'.2
  /-- Without the priority queue tasks are taken as they were queued. -/
  inOrder : x.1.config.enablePriorityQueue = false →
    (x'.2 ++ x'.1.tasks.map Task.id).Sublist x'.1.queued.reverse ∧
      (x'.1.discarded = [] →
        x'.2 ++ x'.1.tasks.map Task.id = x'.1.queued.reverse)
  /-- There delayed tasks are taken as they came to the top. -/
  started : x.1.config.enablePriorityQueue = false →
    ∀ a b : DelayedTask, a ∈ x.1.delayedTasks → b ∈ x.1.delayedTasks →
      b.before a = true → a.task.id ∈ x'.1.dropped ∨
        a.task.id ∈ x'.1.discarded ∨ Precedes a.task.id b.task.id x'.2

variable {acts : List Action}

theorem before_irrefl (d : DelayedTask) : d.before d = false := by
  simp [DelayedTask.before]

/-- Of two pending delayed tasks the one on top goes ahead. -/
theorem InLine.ahead {a b : DelayedTask} (hx : InLine x)
    (hrun : Transition.run stepTaken x acts = some x')
    (ha : a ∈ x.1.delayedTasks) (hb : b ∈ x.1.delayedTasks)
    (hab : b.before a = true) : InLine x' ∧ (line x'.1).Ahead a b := by
  have hne : a.task.id ≠ b.task.id := by
    intro heq
    have hnodup : (ids x.1.delayedTasks).Nodup :=
      (Multiset.nodup_add.mp (Multiset.nodup_add.mp hx.numbered.nodup).1).1
    rw [List.inj_on_of_nodup_map hnodup ha hb heq, before_irrefl] at hab
    cases hab
  have hids : b.task.id ∈ ids x.1.delayedTasks := List.mem_map_of_mem hb
  have hmem : b.task.id ∈ (line x.1).known :=
    Multiset.mem_add.mpr (.inl (Multiset.mem_add.mpr (.inl hids)))
  have hall := hx.run (P := fun y =>
      b.task.id < (line y.1).accepted ∧ (line y.1).Ahead a b) hrun
    ⟨hx.numbered.below _ hmem, hx.numbered.ahead ha hb⟩ ?_
  · exact ⟨hall.1, hall.2.2⟩
  · rintro y y' x? - ⟨hbelow, hahead⟩ hline - -
    exact ⟨hbelow.trans_le hline.accepted_le,
      hahead.step hab hne hbelow hline⟩

/-- Of two tasks on the shared queue the one of the higher priority goes
first. -/
theorem InLine.outranks {p q : PriorityTask} (hx : InLine x)
    (hrun : Transition.run stepTaken x acts = some x')
    (hp : p ∈ x.1.priorityTasks) (hq : q ∈ x.1.priorityTasks)
    (hpq : q.priority.value < p.priority.value) :
    (line x'.1).Outranks p.entry q.entry x'.2 := by
  have hshared : ∀ e ∈ x.1.priorityTasks, e.entry ∈ (line x.1).shared :=
    fun e he => List.mem_append_right _ (List.mem_map_of_mem he)
  have hqueued : q.entry.id ∈ (line x.1).queued := by
    have hmem : q.entry.id ∈ (line x.1).shared.map Entry.id :=
      List.mem_map_of_mem (hshared q hq)
    exact Multiset.mem_of_le hx.taken (Multiset.mem_add.mpr (.inr hmem))
  have hall := hx.run (P := fun y => q.entry.id ∈ (line y.1).queued ∧
      (line y.1).Outranks p.entry q.entry y.2) hrun
    ⟨hqueued, hx.taken.outranks hx.numbered (hshared p hp) (hshared q hq)⟩ ?_
  · exact hall.2.2
  · rintro y y' x? hy ⟨hmem, hout⟩ hline hlog -
    refine ⟨hline.mem_queued hmem, ?_⟩
    rw [hlog]
    exact hout.step hpq hy.numbered hmem hline

theorem InLine.fifo_run (hx : InLine x)
    (hrun : Transition.run stepTaken x acts = some x')
    (hfifo : x.1.fifo = true) : (line x'.1).InOrder x'.2 ∧
      (line x'.1).shared.map Entry.id = x'.1.tasks.map Task.id := by
  have hall := hx.run (P := fun y => y.1.fifo = true) hrun hfifo
    fun _ _ _ _ hy _ _ heq => heq.trans hy
  refine ⟨hall.1.order hall.2, ?_⟩
  have hpriority := hall.1.queue.priorityTasks hall.2
  simp [line, State.entries, hpriority, Function.comp_def, Task.entry]

/-- In every run of the pool, from any state that it reaches, delayed tasks are
queued in the order of their execute times and priorities, queued tasks are
taken in the order of their priorities, and without the priority queue in the
order in which they were queued. -/
theorem reachable_ordered
    (hx : Transition.Reachable stepTaken initialTaken x)
    (hrun : Transition.run stepTaken x acts = some x') : Ordered x x' where
  promoted _ _ ha hb hab :=
    ((reachable_inLine hx).ahead hrun ha hb hab).2.precedes
  chosen _ _ hp hq hpq :=
    ((reachable_inLine hx).outranks hrun hp hq hpq).precedes
  inOrder hfifo := by
    have hin : x.1.fifo = true := by rw [State.fifo, hfifo]; rfl
    obtain ⟨horder, hshared⟩ := (reachable_inLine hx).fifo_run hrun hin
    rw [← hshared]
    exact ⟨horder.sublist, horder.all⟩
  started hfifo a b ha hb hab := by
    have hin : x.1.fifo = true := by rw [State.fifo, hfifo]; rfl
    have hinit := reachable_inLine hx
    obtain ⟨hx', hahead⟩ := hinit.ahead hrun ha hb hab
    obtain ⟨horder, -⟩ := hinit.fifo_run hrun hin
    rcases hahead.precedes with hdropped | hdiscarded | hqueued
    · exact .inl hdropped
    · exact .inr (.inl hdiscarded)
    · by_cases hgone : a.task.id ∈ x'.1.discarded
      · exact .inr (.inl hgone)
      · exact .inr (.inr (horder.precedes hx'.numbered hqueued hgone))

end

/-- Delayed tasks, and no priority queue. -/
def plainConfig : CheckedConfig :=
  { delayConfig with
    config := { delayConfig.config with enablePriorityQueue := false } }

/-- Task 0 is due after 5 ms, task 1 after 2 ms. -/
def delaysTwo : List Action :=
  submitsDelayed 0 5 ++ submitsDelayed 1 2

/-- Both are queued in one batch, and taken. -/
def takesTwo : List Action :=
  [Action.tick 6000000] ++ List.replicate 3 (Action.scheduler {}) ++
    [Action.scheduler { index := 1 }] ++
    List.replicate 3 (Action.scheduler {}) ++ List.replicate 4 (Action.worker 0 {}) ++
    List.replicate 4 (Action.worker 1 {})

theorem delaysTwo_runs :
    (Transition.run stepTaken (construct plainConfig 0, [])
      delaysTwo).isSome := by
  decide

theorem takesTwo_runs :
    (Transition.run stepTaken ((Transition.run stepTaken
      (construct plainConfig 0, []) delaysTwo).get delaysTwo_runs)
        takesTwo).isSome := by
  decide

theorem reachable_ordered_takesTwo :
    Ordered
      ((Transition.run stepTaken (construct plainConfig 0, [])
        delaysTwo).get delaysTwo_runs)
      ((Transition.run stepTaken ((Transition.run stepTaken
        (construct plainConfig 0, []) delaysTwo).get delaysTwo_runs)
          takesTwo).get takesTwo_runs) := by
  have hstart : (construct plainConfig 0, []) ∈ initialTaken :=
    ⟨⟨plainConfig, 0, rfl⟩, rfl⟩
  exact reachable_ordered
    (Transition.reachable_get_run hstart delaysTwo_runs)
    (Option.some_get takesTwo_runs).symm

end ThreadPool
end Yacul
