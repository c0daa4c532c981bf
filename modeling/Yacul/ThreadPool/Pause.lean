import Yacul.ThreadPool.Minimum
import Yacul.ThreadPool.QueueBound
import Mathlib.Tactic.MkIffOfInductiveProp

/-!
# What a pause freezes

A worker tests `paused_` once, at the top of its loop, and looks into the
queues later.  A worker that has passed its test when `Pause` returns still
takes a task.  Nobody else does until a `Resume` or a shutdown.
-/

namespace Yacul
namespace ThreadPool

/-! ## Pauses -/

/-- The operations that end a pause. -/
def Call.endsPause : Call → Bool
  | .resume | .shutdown _ | .shutdownNow => true
  | _ => false

/-- The call is about to store a flag that ends a pause. -/
def CallPc.endsPause : CallPc → Bool
  | .resume | .shutdownSet _ => true
  | _ => false

/-- The worker has passed its test of `paused_` and goes on to the queues. -/
def WorkerPc.pastPause : WorkerPc → Bool
  | .shutdownTest | .drainTest | .localQueue | .sharedQueue | .steal => true
  | _ => false

/-- The worker is in the user's callable. -/
def WorkerPc.inUser : WorkerPc → Bool
  | .running _ .user => true
  | _ => false

/-- The operation that begins in the action. -/
def State.begins? (s : State) : Action → Option Call
  | .call op => some op
  | .worker i ch => if s.workerIn i WorkerPc.inUser then ch.call else none
  | _ => none

/-- The action is the return of a `Pause`. -/
def State.pauses (s : State) (a : Action) : Bool :=
  (a.caller?.bind s.callAt).any fun pc => pc = .pause

/-- What has happened since `Pause` returned. -/
structure Pausing where
  /-- `Pause` has returned, and no `Resume` and no shutdown has begun since. -/
  frozen : Bool := false
  /-- The workers that had passed their test of `paused_` by then. -/
  stale : List ℕ := []
  /-- The workers that have taken a task since. -/
  takers : List ℕ := []
  /-- One of them has started its task before the end of the pause. -/
  started : Bool := false
deriving DecidableEq, Repr

/-- A worker that has taken a task during the pause starts it. -/
def Pausing.starts (o : Pausing) (s : State) (a : Action) : Bool :=
  a.worker?.any fun i =>
    i ∈ o.takers && s.workerIn i fun pc => pc.taken?.isSome

/-- The workers that take a task in the action. -/
def State.takers (s : State) (a : Action) : List ℕ :=
  if (s.taken? a).isSome then a.worker?.toList else []

/-- What a step adds. -/
def observePause (s : State) (a : Action) (o : Pausing) : Pausing :=
  if (s.begins? a).any Call.endsPause then
    { o with frozen := false, stale := [], takers := [] }
  else if s.pauses a then
    { o with
      frozen := true
      stale := (s.workerNumbers.filter fun i =>
        s.workerIn i WorkerPc.pastPause) ++ o.stale }
  else if o.frozen then
    { o with
      takers := s.takers a ++ o.takers
      started := o.started || o.starts s a }
  else o

/-- The pool, watched. -/
abbrev stepPausing : State × Pausing → Action → Option (State × Pausing) :=
  Transition.watch step observePause

/-- A pool that has just been constructed. -/
def initialPausing : Set (State × Pausing) :=
  { x | x.1 ∈ initial ∧ x.2 = {} }

/-- From the return of a `Pause` to the next `Resume` or shutdown no worker
takes a task and starts it. -/
def PauseFreezes (x : State × Pausing) : Prop :=
  x.2.started = false

/-- `Pause` returns in a pool that is not shut down; no `Resume` and no
shutdown that has begun before stores its flag during the pause; and a worker
that had passed its test of `paused_` finds the shared queue empty. -/
@[mk_iff]
structure FreezesAll (x : State × Pausing) (a : Action) : Prop where
  returns : x.1.pauses a = true → x.1.shutdown = false
  stores : x.2.frozen = true →
    (a.caller?.bind x.1.callAt).any CallPc.endsPause = false
  finds : x.2.frozen = true → ∀ i ∈ a.worker?, i ∈ x.2.stale →
    x.1.workerAt i .sharedQueue = true → x.1.queueLength = 0

instance (x : State × Pausing) : Decidable (PauseFreezes x) := by
  unfold PauseFreezes
  exact inferInstance

instance (x : State × Pausing) (a : Action) : Decidable (FreezesAll x a) :=
  decidable_of_iff' _ (freezesAll_iff x a)

/-! ## Workers -/

section

variable {s s' : State} {a : Action} {i : ℕ}

/-- A worker passes its test of `paused_` in a pool that is not paused, or
that is shut down. -/
theorem workerStep_pastPause {w w' : Worker} {ch : Choice}
    (h : workerStep s i w ch = some (s', w'))
    (hpc' : w'.pc.pastPause = true) :
    w.pc.pastPause = true ∨ s.paused = false ∨ s.shutdown = true := by
  have hnext := workerStep_follows h
  generalize w.pc = pc, w'.pc = pc' at hnext hpc' ⊢
  cases hnext with
  | work hpaused => exact .inr (.inl hpaused)
  | resume hopen => exact .inr hopen
  | drain | searchLocal | searchShared | drainLocal | drainShared | noLocal
  | trySteal => exact .inl rfl
  | _ => cases hpc'

/-- A worker takes a task from the shared queue, and finds it there. -/
theorem workerStep_taken {w w' : Worker} {ch : Choice} {t : Task}
    (hlocal : LocalQueuesEmpty s) (h : workerStep s i w ch = some (s', w'))
    (hpc' : w'.pc = .gotTask t) :
    w.pc = .sharedQueue ∧ s.queueLength ≠ 0 := by
  have hnext := workerStep_follows h
  rw [hpc'] at hnext
  generalize hpc : w.pc = pc at hnext ⊢
  cases hnext with
  | takeShared htask =>
      refine ⟨rfl, ?_⟩
      unfold State.queueLength
      obtain ⟨p, hp, -, -⟩ | ⟨rest, htasks, -⟩ := dequeueTask_some htask
      · obtain ⟨hlt, -⟩ := List.getElem?_eq_some_iff.mp hp
        omega
      · rw [htasks, List.length_cons]
        omega
  | takeLocal htask =>
      rw [popLocal_none hlocal] at htask
      cases htask
  | stolen htask =>
      obtain ⟨slot, htask⟩ := stealTask_some htask
      rw [popLocal_none hlocal] at htask
      cases htask

theorem taken?_eq_some {t : Task} (hlocal : LocalQueuesEmpty s)
    (ht : s.taken? a = some t) :
    ∃ i, a.worker? = some i ∧ s.workerAt i .sharedQueue = true ∧
      s.queueLength ≠ 0 := by
  obtain ⟨i, ha, ht⟩ := Option.bind_eq_some_iff.mp ht
  obtain ⟨w, hw, ht⟩ := Option.bind_eq_some_iff.mp ht
  obtain ⟨⟨s₁, w'⟩, hworker, ht⟩ := Option.bind_eq_some_iff.mp ht
  have hpc' : w'.pc = .gotTask t := by
    cases hpc : w'.pc with
    | gotTask t' => simpa [WorkerPc.taken?, hpc] using ht
    | _ => simp [WorkerPc.taken?, hpc] at ht
  obtain ⟨hpc, hqueue⟩ := workerStep_taken hlocal hworker hpc'
  exact ⟨i, ha, workerAt_eq_true.mpr ⟨w, hw, hpc⟩, hqueue⟩

/-! ## Steps -/

/-- The pool stays paused until a `Resume` stores its flag. -/
theorem paused_of_step (h : step s a = some s')
    (hstores : (a.caller?.bind s.callAt).any CallPc.endsPause = false)
    (hpaused : s.paused = true) : s'.paused = true := by
  obtain hsame | ⟨-, hset⟩ | ⟨who, ha, hat, -⟩ := step_paused h
  · exact hsame.trans hpaused
  · exact hset
  · rw [ha, Option.bind_some, hat] at hstores
    cases hstores

/-- After a `Pause` the pool is paused. -/
theorem paused_of_pauses (h : step s a = some s')
    (hpauses : s.pauses a = true) :
    s'.paused = true ∧ s'.shutdown = s.shutdown ∧
      ∀ i w', s'.workers[i]? = some w' → w'.pc.pastPause = true →
        s.workerIn i WorkerPc.pastPause = true := by
  unfold State.pauses at hpauses
  cases hat : a.caller?.bind s.callAt with
  | none => simp [hat] at hpauses
  | some pc =>
      obtain rfl : pc = .pause := by simpa [hat] using hpauses
      obtain ⟨who, ha, hat⟩ := Option.bind_eq_some_iff.mp hat
      obtain ⟨s₁, pc', hcall, -, hs'⟩ :=
        step_of_callAt h ha hat CallPc.noConfusion
      obtain ⟨rfl, -⟩ := Prod.mk.inj (Option.some.inj hcall)
      refine ⟨by rw [hs'], by rw [hs'], fun i w' hw' hpast => ?_⟩
      obtain ⟨hold, -⟩ | hnew | ⟨ch, w, s₁, rfl, hw, hworker⟩ :=
        getElem?_workers_step h hw'
      · exact workerIn_eq_true.mpr ⟨w', hold, hpast⟩
      · simp [hnew, WorkerPc.pastPause] at hpast
      · -- The worker that calls `Pause` is inside a task.
        obtain rfl := Option.some.inj ha
        have hcall' : w.call? = some .pause := by
          simpa [State.callAt, hw] using hat
        obtain ⟨t, hrun | hrun⟩ := call?_eq_some.mp hcall'
        all_goals
          simp only [workerStep, hrun] at hworker
          obtain hret | ⟨phase, hphase⟩ := runningStep_pc hworker
          · simp [hret, WorkerPc.pastPause] at hpast
          · simp [hphase, WorkerPc.pastPause] at hpast

end

/-! ## Runs -/

/-- During the pause the pool is paused and open, and the only workers past
their test of `paused_` are those that had passed it before. -/
structure FrozenPool (x : State × Pausing) : Prop where
  localQueues : LocalQueuesEmpty x.1
  paused : x.2.frozen = true → x.1.paused = true
  stillOpen : x.2.frozen = true → x.1.shutdown = false
  stale : x.2.frozen = true → ∀ i w, x.1.workers[i]? = some w →
    w.pc.pastPause = true → i ∈ x.2.stale
  takers : x.2.takers = []
  started : x.2.started = false

theorem FrozenPool.step {x x' : State × Pausing} {a : Action}
    (hx : FrozenPool x) (hfreezes : FreezesAll x a)
    (h : stepPausing x a = some x') : FrozenPool x' := by
  obtain ⟨s, o⟩ := x
  obtain ⟨s', o'⟩ := x'
  obtain ⟨h, rfl⟩ := Transition.watch_eq_some.mp h
  have hlocal : LocalQueuesEmpty s' := hx.localQueues.step h
  unfold observePause
  dsimp only at h ⊢
  split
  · exact ⟨hlocal, Bool.noConfusion, Bool.noConfusion, Bool.noConfusion, rfl,
      hx.started⟩
  split
  · next hpauses =>
      obtain ⟨hpaused, hshutdown, hpast⟩ := paused_of_pauses h hpauses
      refine ⟨hlocal, fun _ => hpaused,
        fun _ => hshutdown.trans (hfreezes.returns hpauses),
        fun _ i w' hw' hw'past => ?_, hx.takers, hx.started⟩
      have hstale := hpast i w' hw' hw'past
      obtain ⟨w, hw, -⟩ := workerIn_eq_true.mp hstale
      obtain ⟨hlt, -⟩ := List.getElem?_eq_some_iff.mp hw
      apply List.mem_append_left
      exact List.mem_filter.mpr ⟨List.mem_range.mpr hlt, hstale⟩
  split
  · next hfrozen =>
      have hstores := hfreezes.stores hfrozen
      have hshut : ∀ now,
          a.caller?.bind s.callAt ≠ some (.shutdownSet now) := by
        intro now hat
        rw [hat] at hstores
        cases hstores
      have hstarts : o.starts s a = false := by
        have htakers : o.takers = [] := hx.takers
        unfold Pausing.starts
        rw [htakers]
        cases a.worker? <;> simp
      have hnone : s.taken? a = none := by
        rw [Option.eq_none_iff_forall_not_mem]
        intro t ht
        obtain ⟨i, ha, hat, hqueue⟩ := taken?_eq_some hx.localQueues ht
        obtain ⟨w, hw, hpc⟩ := workerAt_eq_true.mp hat
        have hstale := hx.stale hfrozen i w hw (by rw [hpc]; rfl)
        exact hqueue (hfreezes.finds hfrozen i ha hstale hat)
      refine ⟨hlocal, fun _ => paused_of_step h hstores (hx.paused hfrozen),
        fun _ => open_of_step h hshut (hx.stillOpen hfrozen),
        fun _ i w' hw' hpast => ?_, ?_, ?_⟩
      · obtain ⟨hold, -⟩ | hnew | ⟨ch, w, s₁, -, hw, hworker⟩ :=
          getElem?_workers_step h hw'
        · exact hx.stale hfrozen i w' hold hpast
        · simp [hnew, WorkerPc.pastPause] at hpast
        · obtain hpast₀ | hpaused | hshut :=
            workerStep_pastPause hworker hpast
          · exact hx.stale hfrozen i w hw hpast₀
          · cases hpaused.symm.trans (hx.paused hfrozen)
          · cases hshut.symm.trans (hx.stillOpen hfrozen)
      · have htakers : o.takers = [] := hx.takers
        simp [State.takers, hnone, htakers]
      · have hstarted : o.started = false := hx.started
        simp [hstarted, hstarts]
  · next hfrozen =>
      exact ⟨hlocal, fun hf => absurd hf hfrozen, fun hf => absurd hf hfrozen,
        fun hf => absurd hf hfrozen, hx.takers, hx.started⟩

theorem construct_frozenPool (c : CheckedConfig) (clock : ℤ) :
    FrozenPool (construct c clock, {}) where
  localQueues := construct_localQueuesEmpty c clock
  paused := Bool.noConfusion
  stillOpen := Bool.noConfusion
  stale := Bool.noConfusion
  takers := rfl
  started := rfl

/-- When only workers that had passed their test of `paused_` look into the
queue during a pause, and find it empty, a pause freezes the pool. -/
theorem reachable_pauseFreezes {x : State × Pausing}
    (hx : Transition.ReachableVia stepPausing FreezesAll initialPausing x) :
    PauseFreezes x := by
  have hfrozen : FrozenPool x := by
    refine hx.invariant ?_ fun x a x' hF hfreezes h => hF.step hfreezes h
    rintro ⟨s, o⟩ ⟨⟨c, clock, rfl⟩, rfl⟩
    exact construct_frozenPool c clock
  exact hfrozen.started

/-! ## Runs with a pause -/

/-- A worker passes its test of `paused_`, and then `Pause` returns. -/
def pausesPastTest : List Action :=
  List.replicate 3 (Action.worker 0 {}) ++ [Action.call .pause, .client 0 {}]

/-- The worker finds the queue empty and comes back to its test; a task is
submitted and starts after a `Resume`. -/
def freezesSubmission : List Action :=
  pausesPastTest ++ List.replicate 3 (Action.worker 0 {}) ++
    [Action.call (.submit .kNormal), .client 1 {}] ++
    List.replicate 4 (Action.worker 0 {}) ++
    [Action.call .resume, .client 2 {}, .client 2 {}] ++
    List.replicate 5 (Action.worker 0 {})

theorem freezesSubmission_runs :
    (Transition.run stepPausing (construct pairConfig 0, {})
      freezesSubmission).isSome := by
  decide

theorem reachable_pauseFreezes_freezesSubmission :
    PauseFreezes ((Transition.run stepPausing (construct pairConfig 0, {})
      freezesSubmission).get freezesSubmission_runs) := by
  have hstart : (construct pairConfig 0, {}) ∈ initialPausing :=
    ⟨⟨pairConfig, 0, rfl⟩, rfl⟩
  have hall : Transition.AllSteps stepPausing FreezesAll
      (construct pairConfig 0, {}) freezesSubmission := by
    decide
  exact reachable_pauseFreezes
    ((Transition.ReachableVia.start hstart).run hall
      (Option.some_get freezesSubmission_runs).symm)

/-- A task is submitted after the return of `Pause`, and the worker starts
it. -/
def startsPaused : List Action :=
  pausesPastTest ++ [Action.call (.submit .kNormal), .client 1 {}] ++
    List.replicate 2 (Action.worker 0 {})

theorem startsPaused_runs :
    (Transition.run stepPausing (construct pairConfig 0, {})
      startsPaused).isSome := by
  decide

/-- A worker can start a task that was submitted during the pause. -/
theorem exists_startedPaused :
    ¬ ∀ x, Transition.Reachable stepPausing initialPausing x →
      PauseFreezes x := by
  intro hall
  have hstart : (construct pairConfig 0, {}) ∈ initialPausing :=
    ⟨⟨pairConfig, 0, rfl⟩, rfl⟩
  have hreach := Transition.reachable_get_run hstart startsPaused_runs
  exact absurd (hall _ hreach) (by decide)

end ThreadPool
end Yacul
