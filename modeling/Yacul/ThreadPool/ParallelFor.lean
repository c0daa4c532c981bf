import Yacul.ThreadPool.ParallelFutures

/-!
# `ParallelFor`

`wait()` returns for a broken promise as it does for a task that has run, so
the loop over the futures ends whether or not the function has been applied.
It has been applied to every element, once, exactly when no promise of the
call is broken: when each of its submissions finds room in the queue, and no
`ShutdownNow` clears the queues while one of its tasks is there.
-/

namespace Yacul
namespace ThreadPool

section

variable {α β ε : Type*}

/-- The function has been applied to each of `n` elements exactly once. -/
def Parallel.AppliesOnce (n : ℕ) (s : Parallel β ε) : Prop :=
  (s.outcomes.map Outcome.element).Perm (List.range n)

/-- The caller is about to execute the section of `EnqueueTask`. -/
def Parallel.enqueuing (s : Parallel β ε) : Bool :=
  match s.pc with
  | .submit n => s.pool.clients[n]?.any CallPc.enqueues
  | _ => false

/-- A submission of the call finds room in the queue, unless it ends the
process, and a section of `ShutdownNow` finds no task of the call. -/
def KeepsTasks (s : Parallel β ε) : ParallelAction → Prop
  | .caller _ => s.enqueuing = true →
      s.pool.shutdown = true ∨ s.pool.queueFull = false
  | .other a => s.pool.drains a = true →
      ∀ x ∈ s.pool.onQueues, some x ∉ s.futures

instance (s : Parallel β ε) (act : ParallelAction) :
    Decidable (KeepsTasks s act) := by
  cases act <;> unfold KeepsTasks <;> infer_instance

variable {j : Job α β ε} {s s' : Parallel β ε}

/-! ## One step -/

/-- A task that will be accepted has not been discarded. -/
theorem accepted_notMem_discarded {s : State} (hb : (books s).Balanced) :
    s.accepted ∉ s.discarded := by
  intro hmem
  have hrange : s.accepted ∈ Multiset.range (books s).accepted := by
    rw [hb.accepted]
    exact Multiset.mem_add.mpr (.inr (Multiset.mem_coe.mpr hmem))
  exact absurd (Multiset.mem_range.mp hrange) (Nat.lt_irrefl _)

/-- A move of the call never clears the queues. -/
theorem Parallel.Sound.not_drains (h : s.Sound j) {n : ℕ} {ch : Choice}
    (hpc : s.pc = .submit n) : s.pool.drains (.client n ch) = false := by
  have hsubmits := h.submits
  simp only [Parallel.Submits, hpc] at hsubmits
  obtain ⟨-, pc, hat, hnot, -⟩ := hsubmits
  rw [Bool.eq_false_iff]
  intro hdrains
  have hset : s.pool.clients[n]? = some (.shutdownSet true) :=
    drains_eq_true.mp hdrains
  exact hnot (Option.some.inj (hat.symm.trans hset))

theorem none_mem_submission {s : State} :
    none ∈ s.submission ↔ s.shutdown = false ∧ s.queueFull = true := by
  rw [mem_submission]
  cases s.queueFull <;> simp

theorem Parallel.Sound.unbroken_submitting (h : s.Sound j)
    (hs : s.Unbroken) {n : ℕ} {ch : Choice} {pc : CallPc} {pool : State}
    (hpc : s.pc = .submit n) (hat : s.pool.clients[n]? = some pc)
    (hstep : ThreadPool.step s.pool (.client n ch) = some pool) :
    Parallel.Unbroken { s with
      pool := pool
      futures := s.futures ++ if pc.enqueues then s.pool.submission else [] } ↔
      KeepsTasks s (.caller ch) := by
  have hdiscarded : pool.discarded = s.pool.discarded := by
    rw [discarded_step hstep, h.not_drains hpc]
    rfl
  have henqueuing : s.enqueuing = pc.enqueues := by
    simp [Parallel.enqueuing, hpc, hat]
  rw [KeepsTasks, henqueuing]
  by_cases henqueues : pc.enqueues = true
  · rw [if_pos henqueues, imp_iff_right henqueues]
    constructor
    · intro hunbroken
      have hnot : ¬ (s.pool.shutdown = false ∧ s.pool.queueFull = true) :=
        fun hfull => hunbroken.submitted
          (List.mem_append_right _ (none_mem_submission.mpr hfull))
      cases hshut : s.pool.shutdown with
      | true => exact .inl rfl
      | false => exact .inr (Bool.eq_false_iff.mpr fun hfull =>
          hnot ⟨hshut, hfull⟩)
    · intro hroom
      constructor
      · intro hnone
        obtain hold | hnew := List.mem_append.mp hnone
        · exact hs.submitted hold
        · obtain ⟨hopen, hfull⟩ := none_mem_submission.mp hnew
          simp [hopen, hfull] at hroom
      · intro x hx hsome
        simp only [hdiscarded] at hx
        obtain hold | hnew := List.mem_append.mp hsome
        · exact hs.kept x hx hold
        · obtain ⟨rfl, -⟩ := accepted_of_submission hstep hat henqueues hnew
          exact accepted_notMem_discarded
            (reachable_balanced h.traced.reachable) hx
  · rw [if_neg henqueues, List.append_nil]
    exact iff_of_true ⟨hs.submitted, hdiscarded ▸ hs.kept⟩
      fun hyes => absurd hyes henqueues

theorem keepsTasks_of_not_enqueuing {ch : Choice}
    (h : s.enqueuing = false) : KeepsTasks s (.caller ch) :=
  fun hyes => absurd hyes (Bool.eq_false_iff.mp h)

theorem Parallel.Sound.unbroken_caller (h : s.Sound j) (hs : s.Unbroken)
    {ch : Choice} (hstep : callerStep j s ch = some s') :
    s'.Unbroken ↔ KeepsTasks s (.caller ch) := by
  have hmoves := callerStep_moves hstep
  cases hmoves with
  | @submit pool hpc hmore hcall =>
      have hdiscarded : pool.discarded = s.pool.discarded :=
        discarded_step hcall
      have hidle : s.enqueuing = false := by simp [Parallel.enqueuing, hpc]
      exact iff_of_true ⟨hs.submitted, hdiscarded ▸ hs.kept⟩
        (keepsTasks_of_not_enqueuing hidle)
  | submitting hpc hat hclient =>
      have hiff := h.unbroken_submitting hs hpc hat hclient
      exact hiff
  | submitted hpc hat =>
      have hidle : s.enqueuing = false := by
        simp [Parallel.enqueuing, hpc, hat, CallPc.enqueues]
      exact iff_of_true ⟨hs.submitted, hs.kept⟩
        (keepsTasks_of_not_enqueuing hidle)
  | collect hpc | wait hpc | waited hpc | get hpc | got hpc =>
      have hidle : s.enqueuing = false := by simp [Parallel.enqueuing, hpc]
      exact iff_of_true ⟨hs.submitted, hs.kept⟩
        (keepsTasks_of_not_enqueuing hidle)

theorem Parallel.unbroken_other {a : Action} (hs : s.Unbroken)
    (hstep : otherStep j s a = some s') :
    s'.Unbroken ↔ KeepsTasks s (.other a) := by
  obtain ⟨-, pool, hpool, rfl⟩ := otherStep_eq_some hstep
  have hdiscarded := discarded_step hpool
  constructor
  · intro hunbroken hdrains x hx
    apply hunbroken.kept x
    simp only [hdiscarded, if_pos hdrains]
    exact List.mem_append_left _ hx
  · intro hkeeps
    refine ⟨hs.submitted, fun x hx => ?_⟩
    simp only [hdiscarded] at hx
    obtain hnew | hold := List.mem_append.mp hx
    · split at hnew
      · next hdrains => exact hkeeps hdrains x hnew
      · cases hnew
    · exact hs.kept x hold

/-- A step breaks no promise of the call exactly when it keeps the tasks of
the call. -/
theorem Parallel.Sound.unbroken_step (h : s.Sound j) (hs : s.Unbroken)
    {act : ParallelAction} (hstep : parallelStep j s act = some s') :
    s'.Unbroken ↔ KeepsTasks s act := by
  cases act with
  | caller ch => exact h.unbroken_caller hs hstep
  | other a => exact Parallel.unbroken_other hs hstep

/-! ## The loop over the futures -/

/-- The futures behind the caller are ready. -/
def Parallel.Waited (s : Parallel β ε) : Prop :=
  match s.pc with
  | .wait k => ∀ l < k, (s.futureAt l).isSome = true
  | .returned _ => ∀ l < s.futures.length, (s.futureAt l).isSome = true
  | .get _ => False
  | _ => True

variable {input : List α} {func : α → Except ε β}

theorem Parallel.Waited.caller (h : s.Waited)
    (hmoves : CallerMoves ⟨.parallelFor, input, func⟩ s s') :
    s'.Waited := by
  cases hmoves with
  | submit => exact trivial
  | collect =>
      intro l hl
      exact absurd hl (Nat.not_lt_zero l)
  | submitted => exact trivial
  | submitting hpc =>
      simp only [Parallel.Waited, hpc]
  | @wait k r hpc hk hready =>
      simp only [Parallel.Waited, hpc] at h
      intro l hl
      obtain hlt | rfl := Nat.lt_succ_iff_lt_or_eq.mp hl
      · exact h l hlt
      · exact Option.isSome_of_eq_some hready
  | @waited k hpc hk =>
      simp only [Parallel.Waited, hpc] at h
      intro l hl
      exact h l (Nat.lt_of_lt_of_le hl (Nat.le_of_not_lt hk))
  | get hpc | got hpc => simp only [Parallel.Waited, hpc] at h

theorem Parallel.Waited.step (h : s.Waited) {act : ParallelAction}
    (hstep : parallelForStep input func s act = some s') : s'.Waited := by
  cases act with
  | caller ch => exact h.caller (callerStep_moves hstep)
  | other a =>
      have hgrows := parallelStep_grows hstep
      obtain ⟨-, pool, hpool, rfl⟩ := otherStep_eq_some hstep
      unfold Parallel.Waited at h ⊢
      cases hpc : s.pc with
      | wait k =>
          simp only [hpc] at h ⊢
          intro l hl
          exact hgrows.isSome_futureAt (h l hl)
      | returned results =>
          simp only [hpc] at h ⊢
          intro l hl
          exact hgrows.isSome_futureAt (h l hl)
      | get results => simp only [hpc] at h
      | next | submit n | threw error => exact trivial

/-! ## The elements -/

theorem Parallel.Sound.element_lt (h : s.Sound j) {k : ℕ}
    (hk : k ∈ s.outcomes.map Outcome.element) : k < j.input.length := by
  obtain ⟨o, ho, rfl⟩ := List.mem_map.mp hk
  obtain ⟨-, -, a, ha, -⟩ := h.traced.sound o ho
  obtain ⟨hlt, -⟩ := List.getElem?_eq_some_iff.mp ha
  exact hlt

/-- No element is skipped or repeated exactly when every position has an
outcome. -/
theorem Parallel.Sound.appliesOnce_iff (h : s.Sound j) :
    s.AppliesOnce j.input.length ↔
      ∀ k < j.input.length, k ∈ s.outcomes.map Outcome.element := by
  unfold Parallel.AppliesOnce
  rw [List.perm_ext_iff_of_nodup h.traced.once List.nodup_range]
  constructor
  · intro hall k hk
    exact (hall k).mpr (List.mem_range.mpr hk)
  · intro hall k
    rw [List.mem_range]
    exact ⟨h.element_lt, hall k⟩

/-- A ready future whose promise is not broken belongs to an element that the
function has been applied to. -/
theorem Parallel.Sound.mem_elements (h : s.Sound j) (hs : s.Unbroken)
    {k : ℕ} (hready : (s.futureAt k).isSome = true) :
    k ∈ s.outcomes.map Outcome.element := by
  obtain ⟨f, hf, hset⟩ := isSome_futureAt.mp hready
  have hmem := List.mem_of_getElem? hf
  cases f with
  | none => exact absurd hmem hs.submitted
  | some x =>
      obtain ⟨o, ho, rfl⟩ | hdiscarded := hset x rfl
      · obtain ⟨hfuture, -⟩ := h.traced.sound o ho
        obtain rfl := h.traced.distinct _ _ _ hfuture hf
        exact List.mem_map_of_mem ho
      · exact absurd hmem (hs.kept x hdiscarded)

/-- The promise of an element that the function has been applied to is not
broken. -/
theorem Parallel.Sound.exists_task (h : s.Sound j) {k : ℕ}
    (hk : k ∈ s.outcomes.map Outcome.element) :
    ∃ x, s.futures[k]? = some (some x) ∧ x ∉ s.pool.discarded := by
  obtain ⟨o, ho, rfl⟩ := List.mem_map.mp hk
  obtain ⟨hfuture, hran, -⟩ := h.traced.sound o ho
  exact ⟨o.task, hfuture, notMem_discarded_of_ran
    (reachable_balanced h.traced.reachable) hran⟩

/-- At the end of the loop, each element has been applied to once exactly when
no promise is broken. -/
theorem Parallel.Sound.appliesOnce_iff_unbroken (h : s.Sound j)
    (hlength : s.futures.length = j.input.length)
    (hready : ∀ k < s.futures.length, (s.futureAt k).isSome = true) :
    s.AppliesOnce j.input.length ↔ s.Unbroken := by
  rw [h.appliesOnce_iff]
  constructor
  · intro hall
    have htask : ∀ f ∈ s.futures, ∃ x, f = some x ∧ x ∉ s.pool.discarded := by
      intro f hf
      obtain ⟨k, hk⟩ := List.mem_iff_getElem?.mp hf
      obtain ⟨hlt, -⟩ := List.getElem?_eq_some_iff.mp hk
      obtain ⟨x, hx, hkept⟩ := h.exists_task (hall k (hlength ▸ hlt))
      exact ⟨x, Option.some.inj (hk.symm.trans hx), hkept⟩
    constructor
    · intro hnone
      obtain ⟨x, hx, -⟩ := htask none hnone
      cases hx
    · intro x hx hsome
      obtain ⟨y, hy, hkept⟩ := htask (some x) hsome
      exact hkept (Option.some.inj hy ▸ hx)
  · intro hs k hk
    exact h.mem_elements hs (hready k (hlength ▸ hk))

/-! ## Runs -/

theorem unbroken_initial (hs : s ∈ initialParallel) : s.Unbroken := by
  rw [hs.2]
  constructor
  · exact List.not_mem_nil
  · intro x _
    exact List.not_mem_nil

/-- When `ParallelFor` returns, the function has been applied to each element
exactly once if and only if every step of the run kept the tasks of the
call. -/
theorem parallelFor_appliesOnce_iff (input : List α) (func : α → Except ε β)
    (hs : s ∈ initialParallel) {acts : List ParallelAction}
    {results : List β}
    (hrun : Transition.run (parallelForStep input func) s acts = some s')
    (hreturned : s'.pc = .returned results) :
    s'.AppliesOnce input.length ↔
      Transition.AllSteps (parallelForStep input func) KeepsTasks s acts := by
  have hreachable : Transition.Reachable (parallelForStep input func)
      initialParallel s' :=
    Transition.Reachable.run (.start hs) hrun
  have hsound : s'.Sound ⟨.parallelFor, input, func⟩ :=
    hreachable.invariant (fun s hs => sound_initial _ hs)
      fun s a s' h _ hstep => h.step hstep
  have hwaited : s'.Waited := by
    refine hreachable.invariant (fun s hs => ?_)
      fun s a s' h _ hstep => h.step hstep
    rw [hs.2]
    exact trivial
  have hlength := hsound.submits
  simp only [Parallel.Submits, hreturned] at hlength
  simp only [Parallel.Waited, hreturned] at hwaited
  calc s'.AppliesOnce input.length
      ↔ s'.Unbroken := hsound.appliesOnce_iff_unbroken hlength hwaited
    _ ↔ Transition.AllStates (parallelForStep input func)
          Parallel.Unbroken s acts :=
        ⟨Transition.AllStates.of_last
          (fun _ _ _ hstep => (parallelStep_grows hstep).unbroken) hrun,
          fun hall => hall.last hrun⟩
    _ ↔ Transition.AllSteps (parallelForStep input func) KeepsTasks s acts :=
        Transition.allStates_iff_allSteps
          (fun s a s' h hs hstep => ⟨h.step hstep, h.unbroken_step hs hstep⟩)
          (sound_initial _ hs) (unbroken_initial hs) acts

end

/-! ## Runs of a call with two elements -/

instance {β ε : Type*} (n : ℕ) (s : Parallel β ε) :
    Decidable (s.AppliesOnce n) :=
  inferInstanceAs (Decidable (List.Perm _ _))

/-- A call for two elements, with a function that does not throw. -/
def stepPair : Parallel Unit Empty → ParallelAction →
    Option (Parallel Unit Empty) :=
  parallelForStep [(), ()] fun _ => .ok ()

/-- Each worker runs one of the tasks. -/
def appliesBoth : List ParallelAction :=
  List.replicate 11 (ParallelAction.caller {}) ++
    List.replicate 7 (ParallelAction.other (.worker 1 {})) ++
      List.replicate 7 (ParallelAction.other (.worker 0 {})) ++
        List.replicate 3 (ParallelAction.caller {})

theorem appliesBoth_runs :
    (Transition.run stepPair { pool := construct pairConfig 0 }
      appliesBoth).isSome := by
  decide

theorem parallelFor_appliesOnce_iff_appliesBoth :
    ((Transition.run stepPair { pool := construct pairConfig 0 }
      appliesBoth).get appliesBoth_runs).AppliesOnce 2 := by
  have hall : Transition.AllSteps stepPair KeepsTasks
      { pool := construct pairConfig 0 } appliesBoth := by
    decide
  exact (parallelFor_appliesOnce_iff [(), ()] (fun _ => .ok ())
    (construct_mem_initialParallel pairConfig 0)
    (Option.some_get appliesBoth_runs).symm rfl).mpr hall

/-- The maximum is set to one before the call, and the second submission finds
the first task on the queue. -/
def skipsSecond : List ParallelAction :=
  [ParallelAction.other (.call (.setMaxQueueSize 1)), .other (.client 0 {})] ++
    List.replicate 9 (ParallelAction.caller {}) ++
      List.replicate 7 (ParallelAction.other (.worker 0 {})) ++
        List.replicate 3 (ParallelAction.caller {})

theorem skipsSecond_runs :
    (Transition.run stepPair { pool := construct pairConfig 0 }
      skipsSecond).isSome := by
  decide

/-- `ParallelFor` can return without having applied the function to every
element. -/
theorem exists_skippedElement :
    ¬ ∀ (input : List Unit) (func : Unit → Except Empty Unit)
      (s s' : Parallel Unit Empty) (acts : List ParallelAction)
      (results : List Unit), s ∈ initialParallel →
      Transition.run (parallelForStep input func) s acts = some s' →
      s'.pc = .returned results → s'.AppliesOnce input.length := by
  intro hall
  have hskipped := hall [(), ()] (fun _ => .ok ()) _ _ _ _
    (construct_mem_initialParallel pairConfig 0)
    (Option.some_get skipsSecond_runs).symm rfl
  exact absurd hskipped (by decide)

end ThreadPool
end Yacul
