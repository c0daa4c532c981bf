import Yacul.ThreadPool.Graceful

/-!
# What a forced shutdown drops

`ShutdownNow` clears the queues in one section.  A batch that the delay
scheduler carries between the two queues at that moment is pushed afterwards.
It is the only thing that survives the section.
-/

namespace Yacul
namespace ThreadPool

/-! ## Books that are cleared -/

namespace Books

/-- No task is pending. -/
structure Cleared (b : Books) : Prop where
  delayed : b.delayed = 0
  ready : b.ready = 0
  shared : b.shared = 0

/-- Without a submission no task becomes pending. -/
theorem Step.cleared {b b' : Books} (h : Step b b') (hb : b.Cleared)
    (haccepted : b'.accepted = b.accepted) : b'.Cleared := by
  obtain ⟨hdelayed, hready, hshared⟩ := hb
  cases h with
  | submit | submitDelayed =>
      exact absurd haccepted (Nat.succ_ne_self _)
  | promote hx | drop hx =>
      rw [hdelayed] at hx
      exact absurd hx.symm (Multiset.cons_ne_zero)
  | take hx =>
      rw [hshared] at hx
      exact absurd hx.symm (Multiset.cons_ne_zero)
  | push =>
      exact ⟨hdelayed, rfl, by rw [hready, hshared]; rfl⟩
  | discard => exact ⟨rfl, hready, rfl⟩
  | _ => exact ⟨hdelayed, hready, hshared⟩

/-- The wrapper of a task that has been discarded is never invoked. -/
theorem Balanced.notMem_invoked {b : Books} (hb : b.Balanced) {x : ℕ}
    (hx : x ∈ b.discarded) : x ∉ b.invoked := by
  have hdisjoint := (Multiset.nodup_add.mp hb.nodup).2.2
  intro hinvoked
  apply Multiset.disjoint_left.mp hdisjoint _ hx
  rw [hb.invoked] at hinvoked
  simp only [Multiset.mem_add, mem_held] at hinvoked ⊢
  tauto

end Books

/-! ## Forced shutdowns -/

/-- The tasks that no worker has taken: on the shared queue, on the local
queues, on the delayed queue and in the scheduler's batch. -/
def State.pending (s : State) : List ℕ :=
  s.tasks.map Task.id ++ s.priorityTasks.map (fun p => p.task.id) ++
    s.localQueues.flatten.map Task.id ++
      s.delayedTasks.map (fun d => d.task.id) ++
        s.ready.map (fun d => d.task.id)

/-- What has happened since a `ShutdownNow` executed its section: who called
it, which tasks were pending in the section, and whether a call has returned
with a `queue_size` other than zero. -/
structure Forcing where
  callers : List Caller := []
  pending : List ℕ := []
  leftSize : Bool := false
deriving DecidableEq, Repr

/-- In the action a call of `callers` returns and `queue_size` is not zero. -/
def State.leavesSizeAt (s : State) (callers : List Caller) (a : Action) :
    Bool :=
  a.caller?.any fun who => who ∈ callers && (s.callAt who).any s.returns &&
    s.stats.queueSize ≠ 0

/-- What a step adds. -/
def observeForcing (s : State) (a : Action) (o : Forcing) : Forcing where
  callers := if s.drains a then a.caller?.toList ++ o.callers else o.callers
  pending := if s.drains a then s.pending ++ o.pending else o.pending
  leftSize := o.leftSize || s.leavesSizeAt o.callers a

/-- The pool, watched. -/
abbrev stepForcing : State × Forcing → Action → Option (State × Forcing) :=
  Transition.watch step observeForcing

/-- A pool that has just been constructed. -/
def initialForcing : Set (State × Forcing) :=
  { x | x.1 ∈ initial ∧ x.2 = {} }

/-- No task that was pending in the section of a `ShutdownNow` is executed,
and `queue_size` is zero when a `ShutdownNow` returns. -/
def DropsPending (x : State × Forcing) : Prop :=
  (∀ t ∈ x.2.pending, t ∉ x.1.invoked) ∧ x.2.leftSize = false

/-- The scheduler carries no batch in the section of `ShutdownNow`. -/
def ClearsAll (x : State × Forcing) (a : Action) : Prop :=
  x.1.drains a = true → x.1.ready = []

instance (x : State × Forcing) : Decidable (DropsPending x) := by
  unfold DropsPending
  exact inferInstance

instance (x : State × Forcing) (a : Action) : Decidable (ClearsAll x a) := by
  unfold ClearsAll
  exact inferInstance

/-! ## Steps -/

section

variable {s s' : State} {a : Action}

theorem CallEffect.accepted {who : Caller} {pc pc' : CallPc}
    (h : CallEffect s who pc s' pc') (hshut : s.shutdown = true) :
    s'.accepted = s.accepted := by
  cases h with
  | quiet hq => exact hq.accepted
  | enqueue _ hopen | insert _ _ _ _ _ hopen =>
      cases hopen.symm.trans hshut
  | setShutdown now => cases now <;> rfl
  | _ => rfl

/-- After a shutdown nothing is accepted. -/
theorem step_accepted (h : step s a = some s') (hshut : s.shutdown = true) :
    s'.accepted = s.accepted := by
  cases a with
  | tick elapsed =>
      obtain rfl := step_tick h
      rfl
  | call op =>
      obtain rfl := step_call h
      rfl
  | client n ch =>
      obtain ⟨pc, s₁, pc', -, hcall, rfl⟩ := step_client h
      exact (callStep_effect hcall).accepted hshut
  | worker i ch =>
      obtain ⟨w, s₁, w', -, hworker, rfl⟩ := step_worker h
      show s₁.accepted = s.accepted
      cases workerStep_effect hworker with
      | quiet hq => exact hq.accepted
      | call _ _ hcall => exact (callStep_effect hcall).accepted hshut
      | takeLocal htask => rw [popLocal_some htask]
      | _ => rfl
  | scheduler ch =>
      obtain ⟨pc, s₁, pc', -, hsched, rfl⟩ := step_scheduler h
      show s₁.accepted = s.accepted
      cases schedulerStep_effect hsched with
      | quiet hq => exact hq.accepted
      | push ready => exact congrArg Books.accepted (books_pushReady ready s)
      | _ => rfl
  | cancel f =>
      obtain rfl := step_cancel h
      rfl

/-- The section of `ShutdownNow`. -/
theorem step_drains (h : step s a = some s') (hdrains : s.drains a = true) :
    ∃ who, a.caller? = some who ∧ s'.shutdown = true ∧
      s' = { setShutdown s true with
        clients := s'.clients, workers := s'.workers } := by
  obtain ⟨who, ha, hat⟩ :=
    Option.bind_eq_some_iff.mp (drains_eq_true.mp hdrains)
  obtain ⟨s₁, pc', hcall, -, hs'⟩ :=
    step_of_callAt h ha hat CallPc.noConfusion
  simp only [callStep, whenFree_eq_some, Prod.mk.injEq] at hcall
  obtain ⟨-, rfl, -⟩ := hcall
  refine ⟨who, ha, ?_, hs'⟩
  rw [hs']
  rfl

/-- The section leaves no task pending when the scheduler carries no batch,
and drops those that were. -/
theorem books_of_drains (h : step s a = some s')
    (hdrains : s.drains a = true) (hready : s.ready = []) :
    (books s').Cleared ∧ ∀ t ∈ s.pending, t ∈ s'.discarded := by
  obtain ⟨-, -, -, hs'⟩ := step_drains h hdrains
  constructor
  · have hscheduler : s'.ready = s.ready := by
      rw [hs']
      rfl
    refine ⟨?_, ?_, ?_⟩
    · rw [hs']
      rfl
    · simp [books, hscheduler, hready]
    · rw [hs']
      rfl
  · intro t ht
    rw [hs']
    simp only [State.pending, hready, List.map_nil, List.append_nil,
      List.mem_append] at ht
    simp only [setShutdown, drainQueues, if_true, List.mem_append]
    tauto

end

/-! ## Runs -/

/-- After the section of a `ShutdownNow` no task is pending, and those that
were are dropped. -/
structure ForcedPool (x : State × Forcing) : Prop where
  shutdown : x.2.callers ≠ [] → x.1.shutdown = true
  cleared : x.2.callers ≠ [] → (books x.1).Cleared
  pending : ∀ t ∈ x.2.pending, t ∈ x.1.discarded
  leftSize : x.2.leftSize = false

theorem ForcedPool.step {x x' : State × Forcing} {a : Action}
    (hx : ForcedPool x) (hlocal : LocalQueuesEmpty x.1)
    (hb : (books x.1).Balanced) (hclears : ClearsAll x a)
    (h : stepForcing x a = some x') : ForcedPool x' := by
  obtain ⟨s, o⟩ := x
  obtain ⟨s', o'⟩ := x'
  obtain ⟨h, rfl⟩ := Transition.watch_eq_some.mp h
  dsimp only at h hb hlocal
  have hdiscarded : ∀ t ∈ s.discarded, t ∈ s'.discarded := by
    intro t ht
    obtain hsame | hstep := step_books hlocal h
    · have heq : (s'.discarded : Multiset ℕ) = s.discarded :=
        congrArg Books.discarded hsame
      exact Multiset.mem_coe.mp (heq ▸ Multiset.mem_coe.mpr ht)
    · exact Multiset.mem_coe.mp
        (Multiset.mem_of_le hstep.discarded_le (Multiset.mem_coe.mpr ht))
  have hsize : o.callers ≠ [] → s.stats.queueSize = 0 := by
    intro hcallers
    have hqueue := hb.queueSize
    rw [(hx.cleared hcallers).shared] at hqueue
    exact hqueue
  have hleft : (observeForcing s a o).leftSize = false := by
    have hleft : o.leftSize = false := hx.leftSize
    have hnot : s.leavesSizeAt o.callers a = false := by
      rw [← Bool.not_eq_true]
      intro hleaves
      obtain ⟨who, -, hwho⟩ := (Option.any_eq_true _ _).mp hleaves
      obtain ⟨hwho, hne⟩ := Bool.and_eq_true_iff.mp hwho
      obtain ⟨hmem, -⟩ := Bool.and_eq_true_iff.mp hwho
      have hmem : who ∈ o.callers := of_decide_eq_true hmem
      exact of_decide_eq_true hne (hsize (List.ne_nil_of_mem hmem))
    simp [observeForcing, hleft, hnot]
  cases hdrains : s.drains a with
  | true =>
      obtain ⟨who, ha, hshut, -⟩ := step_drains h hdrains
      obtain ⟨hcleared, hdropped⟩ :=
        books_of_drains h hdrains (hclears hdrains)
      refine ⟨fun _ => hshut, fun _ => hcleared, ?_, hleft⟩
      intro t ht
      simp only [observeForcing, hdrains, if_true, List.mem_append] at ht
      obtain hnew | hold := ht
      · exact hdropped t hnew
      · exact hdiscarded t (hx.pending t hold)
  | false =>
      have hcallers : (observeForcing s a o).callers = o.callers := by
        simp [observeForcing, hdrains]
      refine ⟨fun hne => ?_, fun hne => ?_, ?_, hleft⟩
      · exact step_shutdown h (hx.shutdown (hcallers ▸ hne))
      · have hne : o.callers ≠ [] := hcallers ▸ hne
        have hcleared := hx.cleared hne
        obtain hsame | hstep := step_books hlocal h
        · exact hsame ▸ hcleared
        · exact hstep.cleared hcleared (step_accepted h (hx.shutdown hne))
      · intro t ht
        simp only [observeForcing, hdrains, Bool.false_eq_true, if_false] at ht
        exact hdiscarded t (hx.pending t ht)

/-- When the scheduler carries no batch in the sections of `ShutdownNow`, a
forced shutdown drops every pending task. -/
theorem reachable_dropsPending {x : State × Forcing}
    (hx : Transition.ReachableVia stepForcing ClearsAll initialForcing x) :
    DropsPending x := by
  have hpool : ∀ {x}, Transition.ReachableVia stepForcing ClearsAll
      initialForcing x → Transition.Reachable step initial x.1 := fun hx =>
    hx.of_watch (fun _ hx => hx.1) fun _ _ _ => trivial
  have hforced : ForcedPool x := by
    induction hx with
    | @start x hx =>
        obtain ⟨s, o⟩ := x
        obtain ⟨-, rfl⟩ := hx
        exact ⟨fun hne => absurd rfl hne, fun hne => absurd rfl hne,
          fun t ht => absurd ht List.not_mem_nil, rfl⟩
    | @next x x' a hx hclears h ih =>
        exact ih.step (reachable_localQueuesEmpty (hpool hx))
          (reachable_balanced (hpool hx)) hclears h
  refine ⟨fun t ht => ?_, hforced.leftSize⟩
  have hmem : t ∈ (books x.1).discarded :=
    Multiset.mem_coe.mpr (hforced.pending t ht)
  exact (reachable_balanced (hpool hx)).notMem_invoked hmem

/-! ## Runs with a forced shutdown -/

/-- A task is on the shared queue and another is delayed when `ShutdownNow`
clears the queues; then it returns. -/
def dropsBoth : List Action :=
  [Action.call (.submit .kNormal), .client 0 {},
    .call (.submitDelayed 5 .kNormal), .client 1 {}, .client 1 {},
    .call .shutdownNow, .client 2 {}, .scheduler {}] ++
    List.replicate 4 (Action.worker 0 {}) ++
    List.replicate 4 (Action.worker 1 {}) ++ List.replicate 8 (Action.client 2 {})

theorem dropsBoth_runs :
    (Transition.run stepForcing (construct tightConfig 0, {})
      dropsBoth).isSome := by
  decide

theorem reachable_dropsPending_dropsBoth :
    DropsPending ((Transition.run stepForcing (construct tightConfig 0, {})
      dropsBoth).get dropsBoth_runs) := by
  have hstart : (construct tightConfig 0, {}) ∈ initialForcing :=
    ⟨⟨tightConfig, 0, rfl⟩, rfl⟩
  have hall : Transition.AllSteps stepForcing ClearsAll
      (construct tightConfig 0, {}) dropsBoth := by
    decide
  exact reachable_dropsPending
    ((Transition.ReachableVia.start hstart).run hall
      (Option.some_get dropsBoth_runs).symm)

/-- The scheduler carries a task when `ShutdownNow` clears the queues, and a
worker takes it from the shared queue. -/
def runsPending : List Action :=
  submitsReady 0 ++ List.replicate 5 (Action.scheduler {}) ++
    [Action.call .shutdownNow, .client 1 {}, .scheduler {}] ++
    List.replicate 6 (Action.worker 0 {})

theorem runsPending_runs :
    (Transition.run stepForcing (construct tightConfig 0, {})
      runsPending).isSome := by
  decide

/-- A task can be executed after `ShutdownNow` has cleared the queues. -/
theorem exists_pendingRun :
    ¬ ∀ x, Transition.Reachable stepForcing initialForcing x →
      DropsPending x := by
  intro hall
  have hstart : (construct tightConfig 0, {}) ∈ initialForcing :=
    ⟨⟨tightConfig, 0, rfl⟩, rfl⟩
  have hreach := Transition.reachable_get_run hstart runsPending_runs
  exact absurd (hall _ hreach) (by decide)

end ThreadPool
end Yacul
