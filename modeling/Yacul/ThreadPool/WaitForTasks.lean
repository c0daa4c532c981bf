import Yacul.ThreadPool.Conservation
import Mathlib.Tactic.MkIffOfInductiveProp

/-!
# What `WaitForTasks` waits for

`WaitForTasks` returns when it finds the shared queue empty and no thread
active.  A worker counts itself as active inside the wrapper of its task,
after it has taken the task off the queue; in between the task is in neither
count.  The module shows that nothing else goes wrong.
-/

namespace Yacul
namespace ThreadPool

/-- Every task a return of `WaitForTasks` answers for is finished. -/
def WaitKept (s : State) : Prop :=
  ∀ before ∈ s.waitReturns, ∀ x ∈ before, x ∈ s.finished

/-- The tasks a call waits for, while it tests or sleeps. -/
def CallPc.snapshot? : CallPc → Option (List ℕ)
  | .waitTest before _ | .waitHeld before _ | .waitAsleep before _ =>
      some before
  | _ => none

/-- The tasks of a call that tests the predicate of `WaitForTasks`. -/
def CallPc.tests? : CallPc → Option (List ℕ)
  | .waitTest before _ => some before
  | _ => none

/-- The task of a worker that has dequeued it and is not counted as active. -/
def Worker.uncounted? (w : Worker) : Option Task :=
  match w.stage with
  | .taken t | .invoked t => some t
  | _ => none

/-- The worker is counted as active. -/
def Worker.active (w : Worker) : Bool :=
  match w.stage with
  | .counted _ => true
  | _ => false

/-- No `ShutdownNow` is started, and a wait that returns does so while no
worker is between dequeuing one of its tasks and counting itself, and while
neither counter has wrapped around. -/
@[mk_iff]
structure WaitsSafely (s : State) (a : Action) : Prop where
  keeps : a.op? ≠ some .shutdownNow
  returns : ∀ before ∈ (a.caller?.bind s.callAt).bind CallPc.tests?,
    allTasksFinished s = true →
      (∀ w ∈ s.workers, ∀ t ∈ w.uncounted?, t.id ∉ before) ∧
        s.tasks.length + s.priorityTasks.length < 2 ^ 32 ∧
          s.workers.countP Worker.active < 2 ^ 32

instance (s : State) (a : Action) : Decidable (WaitsSafely s a) :=
  decidable_of_iff' _ (waitsSafely_iff s a)

/-! ## Snapshots -/

/-- A queued task stays queued, and a finished one finished. -/
theorem step_subset {s s' : State} {a : Action} (hlocal : LocalQueuesEmpty s)
    (h : step s a = some s') :
    s.queued ⊆ s'.queued ∧ s.finished ⊆ s'.finished := by
  obtain hsame | hstep := step_books hlocal h
  · have hqueued := congrArg Books.queued hsame
    have hfinished := congrArg Books.finished hsame
    exact ⟨(Multiset.coe_eq_coe.mp hqueued).symm.subset,
      (Multiset.coe_eq_coe.mp hfinished).symm.subset⟩
  · exact ⟨(Multiset.coe_le.mp hstep.queued_le).subset,
      (Multiset.coe_le.mp hstep.finished_le).subset⟩

theorem CallPc.Follows.snapshot? {pc pc' : CallPc} (h : pc.Follows pc')
    {before : List ℕ} (hsnap : pc'.snapshot? = some before) :
    pc.snapshot? = some before := by
  cases h <;> first | exact hsnap | simp [CallPc.snapshot?] at hsnap

theorem startCall_snapshot? {s : State} {op : Call} {before : List ℕ}
    (hsnap : (startCall s op).snapshot? = some before) :
    before = s.queued := by
  cases op with
  | waitForTasks => exact (Option.some.inj hsnap).symm
  | shutdown waitForTasks =>
      cases waitForTasks with
      | true => exact (Option.some.inj hsnap).symm
      | false => simp [startCall, CallPc.snapshot?] at hsnap
  | _ => simp [startCall, CallPc.snapshot?] at hsnap

/-- The tasks a call waits for have been queued. -/
def SnapshotsQueued (s : State) : Prop :=
  ∀ pc ∈ s.calls, ∀ before, pc.snapshot? = some before → before ⊆ s.queued

theorem SnapshotsQueued.step {s s' : State} {a : Action}
    (hI : SnapshotsQueued s) (hlocal : LocalQueuesEmpty s)
    (h : step s a = some s') : SnapshotsQueued s' := by
  intro pc hpc before hsnap
  have hsub := (step_subset hlocal h).1
  obtain hold | ⟨op, -, rfl⟩ | ⟨r, rfl⟩ |
    ⟨who, ch, pc₀, s₁, -, hpc₀, hcall, -⟩ := mem_calls_step h hpc
  · exact List.Subset.trans (hI pc hold before hsnap) hsub
  · obtain rfl := startCall_snapshot? hsnap
    exact hsub
  · simp [CallPc.snapshot?] at hsnap
  · have hsnap₀ := (callStep_follows hcall).snapshot? hsnap
    exact List.Subset.trans
      (hI pc₀ (callAt_mem_calls hpc₀) before hsnap₀) hsub

/-- A task that a call tests for has been queued. -/
theorem SnapshotsQueued.tested {s : State} (hI : SnapshotsQueued s)
    {a : Action} {before : List ℕ}
    (htests : (a.caller?.bind s.callAt).bind CallPc.tests? = some before)
    {x : ℕ} (hx : x ∈ before) : x ∈ s.queued := by
  obtain ⟨pc, hpc, htests⟩ := Option.bind_eq_some_iff.mp htests
  obtain ⟨who, -, hat⟩ := Option.bind_eq_some_iff.mp hpc
  have hsnap : pc.snapshot? = some before := by
    cases pc <;> first | exact htests | simp [CallPc.tests?] at htests
  exact hI pc (callAt_mem_calls hat) before hsnap hx

/-! ## Returns -/

theorem CallEffect.waitReturns {s s' : State} {who : Caller}
    {pc pc' : CallPc} (h : CallEffect s who pc s' pc') :
    s'.waitReturns = s.waitReturns ∨
      ∃ before, pc.tests? = some before ∧ allTasksFinished s = true ∧
        s'.waitReturns = before :: s.waitReturns := by
  cases h with
  | quiet hq => exact .inl hq.waitReturns
  | enqueue priority => exact .inl (enqueueTask_same s priority).2.waitReturns
  | waitReturn before next hdone => exact .inr ⟨before, rfl, hdone, rfl⟩
  | setShutdown now => cases now <;> exact .inl rfl
  | _ => exact .inl rfl

/-- A return is recorded when the call that tests the predicate finds it
true. -/
theorem step_waitReturns {s s' : State} {a : Action}
    (h : step s a = some s') :
    s'.waitReturns = s.waitReturns ∨
      ∃ before, (a.caller?.bind s.callAt).bind CallPc.tests? = some before ∧
        allTasksFinished s = true ∧
          s'.waitReturns = before :: s.waitReturns := by
  obtain hsame | ⟨who, ch, pc, s₁, pc', hwho, hpc, hcall, hs'⟩ :=
    step_callParts h
  · exact .inl hsame.waitReturns
  · rw [hs']
    obtain hsame | ⟨before, htests, hdone, hnew⟩ :=
      (callStep_effect hcall).waitReturns
    · exact .inl hsame
    · refine .inr ⟨before, ?_, hdone, hnew⟩
      simp [hwho, hpc, htests]

/-! ## Runs -/

theorem mem_workerIds {ids : Stage → Multiset ℕ} {workers : List Worker}
    {x : ℕ} : x ∈ workerIds ids workers ↔ ∃ w ∈ workers, x ∈ ids w.stage :=
  Roster.mem_tally

/-- Each active worker contributes one task. -/
theorem card_countedIds (workers : List Worker) :
    (workerIds Stage.countedIds workers).card =
      workers.countP Worker.active := by
  induction workers with
  | nil => rfl
  | cons w workers ih =>
      rw [workerIds, Roster.tally_cons, Multiset.card_add, List.countP_cons,
        Nat.add_comm]
      congr 1
      cases hstage : w.stage <;>
        simp [Worker.active, hstage, Stage.countedIds]

/-- When the predicate of `WaitForTasks` holds and neither counter has wrapped
around, a queued task is finished, unless a worker has dequeued it and is not
yet counted as active. -/
theorem finished_of_allTasksFinished {s : State} {x : ℕ}
    (hb : (books s).Balanced) (hnone : s.discarded = [])
    (hdone : allTasksFinished s = true) (hx : x ∈ s.queued)
    (huncounted : ∀ w ∈ s.workers, ∀ t ∈ w.uncounted?, t.id ≠ x)
    (hqueue : s.tasks.length + s.priorityTasks.length < 2 ^ 32)
    (hactive : s.workers.countP Worker.active < 2 ^ 32) :
    x ∈ s.finished := by
  obtain ⟨hsize, hthreads⟩ : s.stats.queueSize = 0 ∧
      s.stats.activeThreads = 0 := by simpa [allTasksFinished] using hdone
  have hshared : (books s).shared = 0 := by
    have hcounter := hb.counter.1
    have hlength : (books s).shared.card =
        s.tasks.length + s.priorityTasks.length := by
      simp [books, State.shared]
    have hzero : (books s).queueSize.toNat = 0 := by
      have hsize' : (books s).queueSize = 0 := hsize
      rw [hsize']
      rfl
    rw [hzero, hlength, Nat.mod_eq_of_lt hqueue] at hcounter
    rw [← Multiset.card_eq_zero, hlength, ← hcounter]
  have hcounted : (books s).counted = 0 := by
    have hcounter := hb.activeThreads
    have hlength : (books s).counted.card = s.workers.countP Worker.active :=
      card_countedIds s.workers
    have hzero : (books s).activeThreads = 0 := hthreads
    rw [hzero, hlength] at hcounter
    rw [← Multiset.card_eq_zero, hlength]
    have htoNat := congrArg UInt32.toNat hcounter
    rw [UInt32.toNat_ofNat', Nat.mod_eq_of_lt hactive] at htoNat
    exact htoNat.symm
  obtain hmem | hmem | hmem | hmem := hb.queued x hx
  · simp [hshared] at hmem
  · exfalso
    rw [Books.mem_held, hcounted] at hmem
    have hworker : ∃ w ∈ s.workers, x ∈ w.stage.takenIds ∨
        x ∈ w.stage.startedIds := by
      obtain htaken | hstarted | hnone' := hmem
      · obtain ⟨w, hw, hxw⟩ := mem_workerIds.mp htaken
        exact ⟨w, hw, .inl hxw⟩
      · obtain ⟨w, hw, hxw⟩ := mem_workerIds.mp hstarted
        exact ⟨w, hw, .inr hxw⟩
      · exact absurd hnone' (Multiset.notMem_zero x)
    obtain ⟨w, hw, hxw⟩ := hworker
    cases hstage : w.stage with
    | taken t | invoked t =>
        have hxt : t.id = x := by
          simpa [hstage, Stage.takenIds, Stage.startedIds, eq_comm] using hxw
        exact huncounted w hw t (by simp [Worker.uncounted?, hstage]) hxt
    | free | counted t =>
        simp [hstage, Stage.takenIds, Stage.startedIds] at hxw
  · exact hmem
  · have hnone' : (books s).discarded = 0 := by
      simp [books, hnone]
    simp [hnone'] at hmem

/-- In runs whose returns from `WaitForTasks` are safe, every task queued
before the call is finished when it returns. -/
theorem reachable_waitKept {s : State} (hs : ReachableVia WaitsSafely s) :
    WaitKept s := by
  have hall : ReachableVia WaitsSafely s ∧ SnapshotsQueued s ∧ WaitKept s := by
    induction hs with
    | start hs =>
        refine ⟨.start hs, ?_⟩
        obtain ⟨c, clock, rfl⟩ := hs
        exact ⟨fun pc hpc => by simp [construct_calls] at hpc,
          fun before hbefore => by simp [construct] at hbefore⟩
    | @next s s' a hs hsafe h ih =>
        obtain ⟨-, hsnap, hkept⟩ := ih
        have hlocal := reachable_localQueuesEmpty hs.reachable
        refine ⟨hs.next hsafe h, hsnap.step hlocal h, ?_⟩
        have hfinished := (step_subset hlocal h).2
        intro before hbefore x hx
        obtain hsame | ⟨returned, htests, hdone, hnew⟩ := step_waitReturns h
        · rw [hsame] at hbefore
          exact hfinished (hkept before hbefore x hx)
        · rw [hnew] at hbefore
          obtain rfl | hold := List.mem_cons.mp hbefore
          · obtain ⟨huncounted, hqueue, hactive⟩ :=
              hsafe.returns before htests hdone
            apply hfinished
            apply finished_of_allTasksFinished
              (reachable_balanced hs.reachable)
              (reachable_discarded (hs.mono fun _ _ hsafe => hsafe.keeps))
              hdone (hsnap.tested htests hx) _ hqueue hactive
            rintro w hw t ht rfl
            exact huncounted w hw t ht hx
          · exact hfinished (hkept before hold x hx)
  exact hall.2.2

/-- A client submits a task and a worker runs it to its end; then a second
client waits for it. -/
def waitsForTask : List Action :=
  [Action.call (.submit .kNormal), .client 0 {}] ++
    List.replicate 9 (Action.worker 0 {}) ++
    [Action.call .waitForTasks, .client 1 {}]

theorem waitsForTask_runs :
    (Transition.run step (construct pairConfig 0) waitsForTask).isSome := by
  decide

theorem reachable_waitKept_waitsForTask :
    WaitKept ((Transition.run step (construct pairConfig 0)
      waitsForTask).get waitsForTask_runs) := by
  apply reachable_waitKept
  exact (construct_reachableVia _ pairConfig 0).run (by decide)
    (Option.some_get waitsForTask_runs).symm

/-- A worker has dequeued the task and has not yet counted itself as active
when the second client calls `WaitForTasks`. -/
def missesTaken : List Action :=
  [Action.call (.submit .kNormal), .client 0 {}] ++
    List.replicate 4 (Action.worker 0 {}) ++
    [Action.call .waitForTasks, .client 1 {}]

theorem missesTaken_runs :
    (Transition.run step (construct pairConfig 0) missesTaken).isSome := by
  decide

/-- A run in which `WaitForTasks` returns before a task queued before it has
started. -/
theorem exists_waitBroken :
    ¬ ∀ s, ReachableVia KeepsQueues s → WaitKept s := by
  intro hall
  have hreach := (construct_reachableVia KeepsQueues pairConfig 0).run
    (by decide) (Option.some_get missesTaken_runs).symm
  have hkept := hall _ hreach [0] (by decide) 0 (by decide)
  exact absurd hkept (by decide)

end ThreadPool
end Yacul
