import Yacul.ThreadPool.Signals

/-!
# The maximum number of threads

`TryExpandPool` and `Resize` compare the number of threads with the maximum
before `AddWorkerThread` takes the mutex again, so several calls can pass the
comparison for the same place.  The pool stays within its maximum in exactly
the runs in which every thread is added while there is a place for it.
-/

namespace Yacul
namespace ThreadPool

/-- `threads_` is no longer than the maximum. -/
def KeepsMaximum (maxThreads : UInt32) (s : State) : Prop :=
  s.threads.length ≤ maxThreads.toNat

/-- `AddWorkerThread` is about to add a thread for `who`. -/
def AddsThread (s : State) (who : Caller) : Prop :=
  ∃ threadId target, s.callAt who = some (.addThread threadId target)

/-- A thread is added only while `threads_` is shorter than the maximum. -/
def AddsBelow (s : State) (a : Action) : Prop :=
  ∀ who, a.caller? = some who → AddsThread s who →
    s.threads.length < s.config.maxThreads.toNat

theorem clamp_le {v lo hi : UInt32} (h : lo ≤ hi) : clamp v lo hi ≤ hi := by
  unfold clamp
  split
  · exact h
  · split
    · exact UInt32.le_refl hi
    · exact UInt32.not_lt.mp ‹_›

theorem step_maxThreads {s s' : State} {a : Action}
    (h : step s a = some s') : s'.config.maxThreads = s.config.maxThreads := by
  obtain hconfig | ⟨who, maxSize, -, -, hconfig⟩ := step_config h
  · rw [hconfig]
  · rw [hconfig]

theorem CallEffect.threads_le {s s' : State} {who : Caller} {pc pc' : CallPc}
    (h : CallEffect s who pc s' pc')
    (hpc : ∀ threadId target, pc ≠ .addThread threadId target) :
    s'.threads.length ≤ s.threads.length := by
  cases h with
  | quiet hq => rw [hq.threads]
  | enqueue priority => rw [(enqueueTask_same s priority).1.threads]
  | addThread threadId target => exact absurd rfl (hpc threadId target)
  | setShutdown now => cases now <;> exact Nat.le_refl _
  | joined => exact Nat.zero_le _
  | _ => exact Nat.le_refl _

/-- The move that adds a thread. -/
theorem AddsThread.step {s s' : State} {a : Action} {who : Caller}
    (hadds : AddsThread s who) (ha : a.caller? = some who)
    (h : step s a = some s') :
    s'.threads.length = s.threads.length + 1 := by
  obtain ⟨threadId, target, hat⟩ := hadds
  obtain ⟨s₁, pc', hcall, -, hs'⟩ :=
    step_of_callAt h ha hat CallPc.noConfusion
  simp only [callStep, whenFree_eq_some, Prod.mk.injEq] at hcall
  obtain ⟨-, rfl, -⟩ := hcall
  rw [hs']
  simp [addWorkerThread]

/-- Every other move leaves no more threads than before. -/
theorem step_threads_le {s s' : State} {a : Action}
    (h : step s a = some s')
    (hadds : ∀ who, a.caller? = some who → ¬ AddsThread s who) :
    s'.threads.length ≤ s.threads.length := by
  obtain hsame | ⟨who, ch, pc, s₁, pc', ha, hat, hcall, hs'⟩ :=
    step_callParts h
  · rw [hsame.threads]
  · rw [hs']
    refine (callStep_effect hcall).threads_le fun threadId target hpc => ?_
    exact hadds who ha ⟨threadId, target, hpc ▸ hat⟩

/-- A step keeps the maximum exactly when it adds no thread beyond it. -/
theorem step_keepsMaximum {m : UInt32} {s s' : State} {a : Action}
    (hm : s.config.maxThreads = m) (hP : KeepsMaximum m s)
    (h : step s a = some s') : KeepsMaximum m s' ↔ AddsBelow s a := by
  subst hm
  by_cases hadds : ∃ who, a.caller? = some who ∧ AddsThread s who
  · obtain ⟨who, ha, hwho⟩ := hadds
    have hlength := hwho.step ha h
    constructor
    · intro hkeep _ _ _
      unfold KeepsMaximum at hkeep
      omega
    · intro hbelow
      have hlt := hbelow who ha hwho
      unfold KeepsMaximum
      omega
  · have hnone : ∀ who, a.caller? = some who → ¬ AddsThread s who :=
      fun who ha hwho => hadds ⟨who, ha, hwho⟩
    constructor
    · intro _ who ha hwho
      exact absurd hwho (hnone who ha)
    · intro _
      exact (step_threads_le h hnone).trans hP

/-! ## Runs -/

/-- The initial threads are clamped to the maximum. -/
theorem construct_keepsMaximum (c : CheckedConfig) (clock : ℤ) :
    KeepsMaximum c.config.maxThreads (construct c clock) := by
  have hclamp : c.clamped.initialThreads ≤ c.config.maxThreads :=
    clamp_le c.minThreads_le_maxThreads
  have hlength : (construct c clock).threads.length =
      c.clamped.initialThreads.toNat := List.length_range
  rw [KeepsMaximum, hlength]
  exact UInt32.le_iff_toNat_le.mp hclamp

/-- A run of the pool never has more than `max_threads` threads if and only if
every thread in it is added while there are fewer. -/
theorem keepsMaximum_iff (c : CheckedConfig) (clock : ℤ)
    (acts : List Action) :
    Transition.AllStates step (KeepsMaximum c.config.maxThreads)
        (construct c clock) acts ↔
      Transition.AllSteps step AddsBelow (construct c clock) acts := by
  apply Transition.allStates_iff_allSteps
    (I := fun s => s.config.maxThreads = c.config.maxThreads) _ rfl
    (construct_keepsMaximum c clock)
  intro s a s' hm hP h
  exact ⟨(step_maxThreads h).trans hm, step_keepsMaximum hm hP h⟩

/-- One thread, and a place for another. -/
def growConfig : CheckedConfig where
  config := { pairConfig.config with initialThreads := 1 }
  one_le_maxThreads := by decide
  minThreads_le_maxThreads := by decide

/-- Two calls of `Resize` compare before either adds its thread. -/
def bothGrow : List Action :=
  [Action.call (.resize 2), Action.call (.resize 2)] ++
    List.replicate 3 (Action.client 0 {}) ++
      List.replicate 3 (Action.client 1 {}) ++ [Action.client 0 {}, Action.client 1 {}]

theorem bothGrow_runs :
    (Transition.run step (construct growConfig 0) bothGrow).isSome := by
  decide

/-- A pool with `max_threads = 2` that has three threads. -/
theorem exists_tooManyThreads :
    ¬ ∀ (c : CheckedConfig) (clock : ℤ) (s : State),
      Transition.Reachable step {construct c clock} s →
        KeepsMaximum c.config.maxThreads s := by
  intro hall
  have hreach := Transition.reachable_get_run
    (Set.mem_singleton (construct growConfig 0)) bothGrow_runs
  have hkeep := hall growConfig 0 _ hreach
  exact absurd hkeep (by unfold KeepsMaximum; decide)

end ThreadPool
end Yacul
