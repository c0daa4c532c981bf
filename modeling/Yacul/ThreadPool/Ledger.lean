import Yacul.Support.Roster
import Yacul.ThreadPool.Books
import Yacul.ThreadPool.Effects

/-!
# The pool keeps the books

The books of a state count its tasks by compartment.  Every step of the pool
is an event in the life of one task, a batch or a drain, or it leaves the
books alone; so the books of every reachable state are balanced.
-/

namespace Yacul
namespace ThreadPool

/-! ## The books of a state -/

/-- The task that is taken and not yet invoked. -/
def Stage.takenIds : Stage → Multiset ℕ
  | .taken t => {t.id}
  | _ => 0

/-- The task whose wrapper is invoked and not yet counted. -/
def Stage.startedIds : Stage → Multiset ℕ
  | .invoked t => {t.id}
  | _ => 0

/-- The task that is counted as active. -/
def Stage.countedIds : Stage → Multiset ℕ
  | .counted t => {t.id}
  | _ => 0

/-- The tasks of the workers, of one kind. -/
def workerIds (ids : Stage → Multiset ℕ) (workers : List Worker) :
    Multiset ℕ :=
  Roster.tally (fun w => ids w.stage) workers

/-- The batch of ready tasks of the delay scheduler. -/
def State.ready (s : State) : List DelayedTask :=
  s.scheduler.elim [] SchedulerPc.ready

/-- The tasks on the shared queue, `priority_tasks_` or `tasks_`. -/
def State.shared (s : State) : Multiset ℕ :=
  (s.tasks.map Task.id : List ℕ) +
    (s.priorityTasks.map fun p => p.task.id : List ℕ)

/-- The books of a state. -/
def books (s : State) : Books where
  accepted := s.accepted
  delayed := (s.delayedTasks.map fun d => d.task.id : List ℕ)
  ready := (s.ready.map fun d => d.task.id : List ℕ)
  shared := s.shared
  taken := workerIds Stage.takenIds s.workers
  started := workerIds Stage.startedIds s.workers
  counted := workerIds Stage.countedIds s.workers
  finished := s.finished
  dropped := s.dropped
  discarded := s.discarded
  queued := s.queued
  invoked := s.invoked
  queueSize := s.stats.queueSize
  delayedQueueSize := s.stats.delayedQueueSize
  activeThreads := s.stats.activeThreads

/-- Nothing is ever put on a local queue. -/
def LocalQueuesEmpty (s : State) : Prop :=
  ∀ q ∈ s.localQueues, q = []

/-! ## Sections -/

theorem Quiet.books {s s' : State} (h : Quiet s s') : books s' = books s := by
  simp only [ThreadPool.books, State.ready, State.shared, workerIds, h.accepted,
    h.delayedTasks, h.scheduler, h.tasks, h.priorityTasks, h.workers,
    h.finished, h.dropped, h.discarded, h.queued, h.invoked, h.queueSize,
    h.delayedQueueSize, h.activeThreads]

theorem coe_append_singleton (l : List ℕ) (x : ℕ) :
    ((l ++ [x] : List ℕ) : Multiset ℕ) = x ::ₘ (l : Multiset ℕ) := by
  rw [← Multiset.coe_add, Multiset.coe_singleton, Multiset.add_comm,
    Multiset.singleton_add]

/-- The elements of a list, with the one at position `k` in front. -/
theorem coe_map_eraseIdx {β : Type*} {l : List β} {k : ℕ} {x : β}
    (hx : l[k]? = some x) (f : β → ℕ) :
    (l.map f : Multiset ℕ) = f x ::ₘ ((l.eraseIdx k).map f : List ℕ) := by
  obtain ⟨hk, rfl⟩ := List.getElem?_eq_some_iff.mp hx
  rw [Multiset.cons_coe, ← List.map_cons, Multiset.coe_eq_coe]
  exact ((List.getElem_cons_eraseIdx_perm hk).map f).symm

theorem books_pushTask (s : State) (priority : TaskPriority) (t : Task) :
    books (pushTask s priority t) =
      { books s with
        shared := t.id ::ₘ (books s).shared
        queued := t.id ::ₘ (books s).queued
        queueSize := (books s).queueSize + 1 } := by
  unfold pushTask
  dsimp only
  split
  · simp only [books, State.shared, State.ready, workerIds,
      List.map_append, List.map_cons, List.map_nil, coe_append_singleton,
      Multiset.add_cons, ← Multiset.cons_coe]
  · simp only [books, State.shared, State.ready, workerIds,
      List.map_append, List.map_cons, List.map_nil, coe_append_singleton,
      Multiset.cons_add, ← Multiset.cons_coe]

theorem books_enqueueTask (s : State) (priority : TaskPriority) :
    Books.Step (books s) (books (enqueueTask s priority)) := by
  have hpush := books_pushTask s priority ⟨s.accepted, .immediate⟩
  have hbooks : books (enqueueTask s priority) =
      { books (pushTask s priority ⟨s.accepted, .immediate⟩) with
        accepted := s.accepted + 1 } := rfl
  rw [hbooks, hpush]
  exact .submit

theorem books_insertDelayed (s : State) (executeTime : ℤ)
    (priority : TaskPriority) (taskId : UInt64) (cancelled : ℕ)
    (body : Body) :
    Books.Step (books s)
      (books (insertDelayed s executeTime priority taskId cancelled body)) := by
  have hbooks :
      books (insertDelayed s executeTime priority taskId cancelled body) =
        { books s with
          accepted := (books s).accepted + 1
          delayed := (books s).accepted ::ₘ (books s).delayed
          delayedQueueSize := (books s).delayedQueueSize + 1 } := by
    simp only [books, insertDelayed, State.shared, State.ready, workerIds,
      List.map_append, List.map_cons, List.map_nil, coe_append_singleton]
  rw [hbooks]
  exact .submitDelayed

theorem books_drainQueues {s : State} (hlocal : LocalQueuesEmpty s) :
    Books.Step (books s) (books (drainQueues s)) := by
  have hflat : s.localQueues.flatten = [] := List.flatten_eq_nil_iff.mpr hlocal
  have hbooks : books (drainQueues s) =
      { books s with
        delayed := 0
        shared := 0
        discarded :=
          (books s).delayed + (books s).shared + (books s).discarded
        queueSize := 0
        delayedQueueSize := 0 } := by
    simp only [books, drainQueues, State.shared, State.ready,
      workerIds, hflat,
      List.map_nil, List.append_nil, ← Multiset.coe_add, Multiset.coe_nil,
      Multiset.zero_add]
    congr 1
    abel
  rw [hbooks]
  exact .discard

/-- The scheduler pushes its batch. -/
theorem books_pushReady (ready : List DelayedTask) (s : State) :
    books (ready.foldl (fun s d => pushTask s d.priority d.task) s) =
      { books s with
        shared :=
          (ready.map fun d => d.task.id : List ℕ) + (books s).shared
        queued :=
          (ready.map fun d => d.task.id : List ℕ) + (books s).queued
        queueSize := (books s).queueSize + UInt32.ofNat ready.length } := by
  induction ready generalizing s with
  | nil => simp
  | cons d ready ih =>
      rw [List.foldl_cons, ih, books_pushTask]
      simp only [List.map_cons, ← Multiset.cons_coe, Multiset.add_cons,
        Multiset.cons_add, List.length_cons, Books.ofNat_succ]
      congr 1
      rw [UInt32.add_assoc, UInt32.add_comm 1]

/-! ## Calls -/

theorem CallEffect.books {s s' : State} {who : Caller} {pc pc' : CallPc}
    (h : CallEffect s who pc s' pc') (hlocal : LocalQueuesEmpty s) :
    books s' = books s ∨ Books.Step (books s) (books s') := by
  cases h with
  | quiet hq => exact .inl hq.books
  | enqueue priority => exact .inr (books_enqueueTask s priority)
  | insert => exact .inr (books_insertDelayed s _ _ _ _ _)
  | addThread threadId target =>
      left
      simp [ThreadPool.books, addWorkerThread, State.shared, State.ready,
        workerIds, Stage.takenIds, Stage.startedIds, Stage.countedIds,
        Worker.stage]
  | setShutdown now =>
      cases now with
      | false => exact .inl rfl
      | true =>
          exact .inr
            (books_drainQueues (s := { s with shutdown := true }) hlocal)
  | _ => exact .inl rfl

/-! ## Workers -/

section Workers

variable {workers : List Worker} {i : ℕ} {w w' : Worker} {p q : Stage}
  (ids : Stage → Multiset ℕ)

/-- A worker that moves trades its old task for its new one. -/
theorem workerIds_set (hw : workers[i]? = some w) (w' : Worker) :
    ids w.stage + workerIds ids (workers.set i w') =
      ids w'.stage + workerIds ids workers :=
  Roster.tally_set (f := fun w : Worker => ids w.stage) hw w'

theorem workerIds_set_of_eq (hw : workers[i]? = some w) (hp : w.stage = p)
    (hq : w'.stage = q) (hids : ids q = ids p) :
    workerIds ids (workers.set i w') = workerIds ids workers := by
  apply Roster.tally_set_of_eq (f := fun w : Worker => ids w.stage) hw
  rw [hp, hq, hids]

/-- A worker that comes to hold a task. -/
theorem workerIds_set_cons (hw : workers[i]? = some w) (hp : w.stage = p)
    (hq : w'.stage = q) {x : ℕ} (hold : ids p = 0) (hnew : ids q = {x}) :
    workerIds ids (workers.set i w') = x ::ₘ workerIds ids workers := by
  have hset := workerIds_set ids hw w'
  rwa [hp, hq, hold, hnew, Multiset.zero_add, Multiset.singleton_add] at hset

/-- A worker that gives a task up. -/
theorem workerIds_eq_cons_set (hw : workers[i]? = some w) (hp : w.stage = p)
    (hq : w'.stage = q) {x : ℕ} (hold : ids p = {x}) (hnew : ids q = 0) :
    workerIds ids workers = x ::ₘ workerIds ids (workers.set i w') := by
  have hset := workerIds_set ids hw w'
  rw [hp, hq, hold, hnew, Multiset.zero_add, Multiset.singleton_add] at hset
  exact hset.symm

end Workers

theorem popLocal_none {s : State} (hlocal : LocalQueuesEmpty s) (slot : ℕ) :
    popLocal s slot = none := by
  unfold popLocal
  split
  · rename_i t rest hslot
    exact absurd (hlocal _ (List.mem_of_getElem? hslot)) (by simp)
  · rfl

theorem WorkerEffect.books {s s₁ : State} {i : ℕ} {w w' : Worker}
    {ch : Choice} (h : WorkerEffect s i w ch s₁ w')
    (hw : s.workers[i]? = some w) (hlocal : LocalQueuesEmpty s) :
    books { s₁ with workers := s₁.workers.set i w' } = books s ∨
      Books.Step (books s)
        (books { s₁ with workers := s₁.workers.set i w' }) := by
  -- A worker at the same stage does not change the books.
  have hsame : ∀ {s₂ : State}, s₂.workers[i]? = some w → w'.stage = w.stage →
      ThreadPool.books { s₂ with workers := s₂.workers.set i w' } =
        ThreadPool.books s₂ := by
    intro s₂ hw₂ hstage
    have hids : ∀ ids : Stage → Multiset ℕ,
        workerIds ids (s₂.workers.set i w') = workerIds ids s₂.workers :=
      fun ids => workerIds_set_of_eq ids hw₂ rfl hstage rfl
    simp only [ThreadPool.books, hids, State.ready, State.shared]
  cases h with
  | quiet hq hstage =>
      left
      rw [hsame (by rw [hq.workers, hw]) hstage, hq.books]
  | start _ _ _ hstage => exact .inl (hsame hw hstage)
  | reschedule _ _ hstage => exact .inl (hsame hw hstage)
  | call _ _ hcall hstage =>
      have heff := callStep_effect hcall
      obtain ⟨ws, hws, -⟩ := heff.workers
      have hw₁ : s₁.workers[i]? = some w := by
        rw [hws, Roster.getElem?_append hw]
      rw [hsame hw₁ hstage]
      exact heff.books hlocal
  | @takeFront t rest htasks hstage =>
      have hshared : s.shared = t.id ::ₘ ((rest.map Task.id : List ℕ) +
          (s.priorityTasks.map fun p => p.task.id : List ℕ)) := by
        rw [State.shared, htasks, List.map_cons, ← Multiset.cons_coe,
          Multiset.cons_add]
      have hrest : (popFront s).shared = (rest.map Task.id : List ℕ) +
          (s.priorityTasks.map fun p => p.task.id : List ℕ) := by
        rw [State.shared, popFront, htasks, List.tail_cons]
      have hstage' : (w.goto (.gotTask t)).stage = .taken t := rfl
      refine .inr (Eq.subst (motive := Books.Step _) ?_ (.take hshared))
      exact Books.ext rfl rfl rfl hrest.symm
        (workerIds_set_cons _ hw hstage hstage' rfl rfl).symm
        (workerIds_set_of_eq _ hw hstage hstage' rfl).symm
        (workerIds_set_of_eq _ hw hstage hstage' rfl).symm
        rfl rfl rfl rfl rfl rfl rfl rfl
  | @takePriority p k htask hstage =>
      have hstage' : (w.goto (.gotTask p.task)).stage = .taken p.task := rfl
      have hshared : s.shared = p.task.id ::ₘ (popPriority s k).shared := by
        rw [State.shared, coe_map_eraseIdx htask, Multiset.add_cons]
        rfl
      refine .inr (Eq.subst (motive := Books.Step _) ?_ (.take hshared))
      exact Books.ext rfl rfl rfl rfl
        (workerIds_set_cons _ hw hstage hstage' rfl rfl).symm
        (workerIds_set_of_eq _ hw hstage hstage' rfl).symm
        (workerIds_set_of_eq _ hw hstage hstage' rfl).symm
        rfl rfl rfl rfl rfl rfl rfl rfl
  | takeLocal htask => simp [popLocal_none hlocal] at htask
  | @invoke t _ hstage hstage' =>
      have htaken :=
        workerIds_eq_cons_set Stage.takenIds hw hstage hstage' rfl rfl
      refine .inr (Eq.subst (motive := Books.Step _) ?_ (.invoke htaken))
      exact Books.ext rfl rfl rfl rfl rfl
        (workerIds_set_cons _ hw hstage hstage' rfl rfl).symm
        (workerIds_set_of_eq _ hw hstage hstage' rfl).symm
        rfl rfl rfl rfl rfl rfl rfl rfl
  | @skip t _ hstage hstage' =>
      have hstarted :=
        workerIds_eq_cons_set Stage.startedIds hw hstage hstage' rfl rfl
      refine .inr (Eq.subst (motive := Books.Step _) ?_ (.skip hstarted))
      exact Books.ext rfl rfl rfl rfl
        (workerIds_set_of_eq _ hw hstage hstage' rfl).symm rfl
        (workerIds_set_of_eq _ hw hstage hstage' rfl).symm
        rfl rfl rfl rfl rfl rfl rfl rfl
  | @count t _ hstage hstage' =>
      have hstarted :=
        workerIds_eq_cons_set Stage.startedIds hw hstage hstage' rfl rfl
      refine .inr (Eq.subst (motive := Books.Step _) ?_ (.count hstarted))
      exact Books.ext rfl rfl rfl rfl
        (workerIds_set_of_eq _ hw hstage hstage' rfl).symm rfl
        (workerIds_set_cons _ hw hstage hstage' rfl rfl).symm
        rfl rfl rfl rfl rfl rfl rfl rfl
  | @uncount t _ hstage hstage' =>
      have hcounted :=
        workerIds_eq_cons_set Stage.countedIds hw hstage hstage' rfl rfl
      refine .inr (Eq.subst (motive := Books.Step _) ?_ (.finish hcounted))
      exact Books.ext rfl rfl rfl rfl
        (workerIds_set_of_eq _ hw hstage hstage' rfl).symm
        (workerIds_set_of_eq _ hw hstage hstage' rfl).symm rfl
        rfl rfl rfl rfl rfl rfl rfl rfl

/-! ## The scheduler -/

theorem SchedulerEffect.books {s s₁ : State} {pc pc' : SchedulerPc}
    (h : SchedulerEffect s pc s₁ pc') (hpc : s.scheduler = some pc) :
    books { s₁ with scheduler := some pc' } = books s ∨
      Books.Step (books s) (books { s₁ with scheduler := some pc' }) := by
  have hready₀ : s.ready = pc.ready := by rw [State.ready, hpc]; rfl
  cases h with
  | quiet hq hready =>
      left
      rw [← hq.books]
      have hready₁ : s₁.ready = pc'.ready := by
        rw [State.ready, hq.scheduler, hready, hpc]
        rfl
      simp only [ThreadPool.books, hready₁, State.shared]
      rfl
  | sleep asleep hready =>
      left
      simp only [ThreadPool.books, hready₀, ← hready, State.shared]
      rfl
  | @drop _ _ d k _ _ htask hready =>
      have hdelayed := coe_map_eraseIdx htask fun d => d.task.id
      refine .inr (Eq.subst (motive := Books.Step _) ?_ (.drop hdelayed))
      refine Books.ext rfl rfl ?_ rfl rfl rfl rfl rfl rfl rfl rfl rfl rfl rfl rfl
      simp only [ThreadPool.books, hready₀, ← hready]
      rfl
  | @ready _ _ d k htask hready =>
      have hdelayed := coe_map_eraseIdx htask fun d => d.task.id
      refine .inr (Eq.subst (motive := Books.Step _) ?_ (.promote hdelayed))
      refine Books.ext rfl rfl ?_ rfl rfl rfl rfl rfl rfl rfl rfl rfl rfl rfl rfl
      have hready₁ : (pc'.ready.map fun d => d.task.id) =
          (pc.ready.map fun d => d.task.id) ++ [d.task.id] := by
        rw [hready, List.map_append, List.map_cons, List.map_nil]
      simp only [ThreadPool.books, hready₀]
      rw [← coe_append_singleton, ← hready₁]
      rfl
  | push ready hready =>
      have hbooks := books_pushReady ready s
      refine .inr (Eq.subst (motive := Books.Step _) ?_ .push)
      have hmoved : ThreadPool.books
          { ready.foldl (fun s d => pushTask s d.priority d.task) s with
            scheduler := some pc' } =
          { ThreadPool.books
              (ready.foldl (fun s d => pushTask s d.priority d.task) s) with
            ready := 0 } := by
        simp only [ThreadPool.books, State.ready, Option.elim_some, hready,
          List.map_nil, Multiset.coe_nil, State.shared]
      rw [hmoved, hbooks]
      have hbatch : (ThreadPool.books s).ready =
          (ready.map fun d => d.task.id : List ℕ) := by
        simp only [ThreadPool.books, hready₀, SchedulerPc.ready]
      rw [hbatch, Multiset.coe_card, List.length_map]

/-! ## Steps -/

theorem CallEffect.localQueuesEmpty {s s' : State} {who : Caller}
    {pc pc' : CallPc} (h : CallEffect s who pc s' pc')
    (hlocal : LocalQueuesEmpty s) : LocalQueuesEmpty s' := by
  unfold LocalQueuesEmpty at *
  cases h with
  | quiet hq => rwa [hq.localQueues]
  | enqueue priority => rwa [(enqueueTask_same s priority).2.localQueues]
  | setShutdown now =>
      cases now with
      | false => exact hlocal
      | true => simp [ThreadPool.setShutdown, drainQueues]
  | _ => exact hlocal

/-- No step puts a task on a local queue. -/
theorem LocalQueuesEmpty.step {s s' : State} {a : Action}
    (hlocal : LocalQueuesEmpty s) (h : step s a = some s') :
    LocalQueuesEmpty s' := by
  cases a with
  | tick elapsed =>
      obtain rfl := step_tick h
      exact hlocal
  | call op =>
      obtain rfl := step_call h
      exact hlocal
  | client n ch =>
      obtain ⟨pc, s₁, pc', -, hcall, rfl⟩ := step_client h
      exact (callStep_effect hcall).localQueuesEmpty hlocal
  | worker i ch =>
      obtain ⟨w, s₁, w', -, hworker, rfl⟩ := step_worker h
      cases workerStep_effect hworker with
      | quiet hq => exact hq.localQueues ▸ hlocal
      | call _ _ hcall =>
          exact (callStep_effect hcall).localQueuesEmpty hlocal
      | takeLocal htask => simp [popLocal_none hlocal] at htask
      | _ => exact hlocal
  | scheduler ch =>
      obtain ⟨pc, s₁, pc', -, hsched, rfl⟩ := step_scheduler h
      cases schedulerStep_effect hsched with
      | quiet hq => exact hq.localQueues ▸ hlocal
      | push ready => exact (pushReady_same ready s).2.localQueues ▸ hlocal
      | _ => exact hlocal
  | cancel f =>
      obtain rfl := step_cancel h
      exact hlocal

/-- Every step of the pool is an event in the books, or leaves them alone. -/
theorem step_books {s s' : State} {a : Action}
    (hlocal : LocalQueuesEmpty s) (h : step s a = some s') :
    books s' = books s ∨ Books.Step (books s) (books s') := by
  cases a with
  | tick elapsed =>
      obtain rfl := step_tick h
      exact .inl rfl
  | call op =>
      obtain rfl := step_call h
      exact .inl rfl
  | client n ch =>
      obtain ⟨pc, s₁, pc', -, hcall, rfl⟩ := step_client h
      exact (callStep_effect hcall).books hlocal
  | worker i ch =>
      obtain ⟨w, s₁, w', hw, hworker, rfl⟩ := step_worker h
      exact (workerStep_effect hworker).books hw hlocal
  | scheduler ch =>
      obtain ⟨pc, s₁, pc', hpc, hsched, rfl⟩ := step_scheduler h
      exact (schedulerStep_effect hsched).books hpc
  | cancel f =>
      obtain rfl := step_cancel h
      exact .inl rfl

/-- The pool simulates the books. -/
theorem simulates_books :
    Transition.Simulates step LocalQueuesEmpty books Books.Step := by
  intro s a s' hlocal h
  obtain hsame | hstep := step_books hlocal h
  · rw [hsame]
  · exact .single hstep

theorem construct_balanced (c : CheckedConfig) (clock : ℤ) :
    (books (construct c clock)).Balanced := by
  have hready : (construct c clock).ready = [] := by
    simp only [State.ready, construct]
    split <;> rfl
  have hids : ∀ ids : Stage → Multiset ℕ, ids .free = 0 →
      workerIds ids (construct c clock).workers = 0 := by
    intro ids hfree
    rw [Multiset.eq_zero_iff_forall_notMem]
    intro x hx
    obtain ⟨w, hw, hxw⟩ := Roster.mem_tally.mp hx
    have hstage : w.stage = .free := by
      simp [Worker.stage, mem_construct_workers hw]
    rw [hstage, hfree] at hxw
    exact Multiset.notMem_zero x hxw
  have htaken := hids Stage.takenIds rfl
  have hstarted := hids Stage.startedIds rfl
  have hcounted := hids Stage.countedIds rfl
  constructor
  · simp only [books, Books.held, hready, htaken, hstarted, hcounted]
    rfl
  · simp only [books, hstarted, hcounted]
    rfl
  · exact fun x hx => absurd hx (Multiset.notMem_zero x)
  · rfl
  · rfl
  · simp only [books, hcounted]
    rfl

theorem construct_localQueuesEmpty (c : CheckedConfig) (clock : ℤ) :
    LocalQueuesEmpty (construct c clock) := by
  intro q hq
  simp only [construct] at hq
  split at hq
  · exact List.eq_of_mem_replicate hq
  · simp at hq

theorem reachable_localQueuesEmpty {s : State}
    (hs : Transition.Reachable step initial s) : LocalQueuesEmpty s := by
  apply hs.invariant (I := LocalQueuesEmpty)
  · rintro s ⟨c, clock, rfl⟩
    exact construct_localQueuesEmpty c clock
  · exact fun s a s' hlocal _ h => hlocal.step h

/-- The books of every reachable state are balanced. -/
theorem reachable_balanced {s : State}
    (hs : Transition.Reachable step initial s) : (books s).Balanced := by
  apply simulates_books.invariant (J := Books.Balanced)
    (fun s hs => reachable_localQueuesEmpty hs) _
    (fun b b' hb hstep => hb.step hstep) hs
  rintro s ⟨c, clock, rfl⟩
  exact construct_balanced c clock

end ThreadPool
end Yacul
