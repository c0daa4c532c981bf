import Yacul.Support.Roster
import Yacul.ThreadPool.Effects

/-!
# The minimum number of threads

A worker retires after it has compared the length of `threads_` with
`min_threads`.  A retired worker keeps its place in `threads_`, so the length
counts every worker ever added: several workers can retire on the strength of
the same surplus.  The pool stays at its minimum in exactly the runs in which
no retirement does this.
-/

namespace Yacul
namespace ThreadPool

/-- The number of workers inside `WorkerLoop`. -/
def State.live (s : State) : ℕ :=
  s.workers.countP fun w => w.pc ≠ .exited

/-- The number of workers that have left `WorkerLoop`. -/
def State.retired (s : State) : ℕ :=
  s.workers.countP fun w => w.pc = .exited

/-- The pool has at least `minThreads` live workers until it is shut down. -/
def KeepsMinimum (minThreads : UInt32) (s : State) : Prop :=
  s.shutdown = false → minThreads.toNat ≤ s.live

/-- Worker `i` is about to pass its retirement check. -/
def Retires (s : State) (i : ℕ) : Prop :=
  ∃ w, s.workers[i]? = some w ∧ w.pc = .retire ∧
    s.config.minThreads < s.threadCount

/-- A worker that retires does so while `threads_` is longer than the minimum
and the workers already retired together. -/
def RetiresAbove (s : State) : Action → Prop
  | .worker i _ =>
      s.shutdown = false → Retires s i →
        s.config.minThreads.toNat + s.retired < s.threads.length
  | _ => True

theorem live_add_retired (s : State) :
    s.live + s.retired = s.workers.length := by
  have h := List.length_eq_countP_add_countP
    (fun w : Worker => decide (w.pc ≠ .exited)) (l := s.workers)
  simpa [State.live, State.retired] using h.symm

/-- The calls that run after the flag of a shutdown is up. -/
def CallPc.afterShutdown : CallPc → Bool
  | .shutdownNotify | .shutdownNotifyDelayed | .shutdownNotifyPause
  | .joinScheduler | .lockThreads | .join _ => true
  | _ => false

/-- Until shutdown `threads_` has one entry for each worker. -/
structure Roll (minThreads : UInt32) (s : State) : Prop where
  minThreads_eq : s.config.minThreads = minThreads
  threads : s.shutdown = false → s.threads.length = s.workers.length
  calls : ∀ pc ∈ s.calls, pc.afterShutdown → s.shutdown = true
  draining : ∀ w ∈ s.workers, w.pc = .drainTest → s.shutdown = true

/-! ## Calls -/

theorem CallEffect.minThreads {s s' : State} {who : Caller}
    {pc pc' : CallPc} (h : CallEffect s who pc s' pc') :
    s'.config.minThreads = s.config.minThreads := by
  cases h with
  | quiet hq => exact hq.minThreads
  | enqueue priority => exact (enqueueTask_same s priority).1.minThreads
  | setShutdown now => cases now <;> rfl
  | _ => rfl

/-- The flag of a shutdown stays up. -/
theorem CallEffect.shutdown {s s' : State} {who : Caller} {pc pc' : CallPc}
    (h : CallEffect s who pc s' pc') (hs : s.shutdown = true) :
    s'.shutdown = true := by
  cases h with
  | quiet hq => rw [hq.shutdown, hs]
  | enqueue priority =>
      rw [(enqueueTask_same s priority).1.shutdown, hs]
  | setShutdown now => cases now <;> rfl
  | _ => exact hs

/-- While the pool is open a call adds workers together with their entries in
`threads_`, and removes none. -/
theorem CallEffect.roll {s s' : State} {who : Caller} {pc pc' : CallPc}
    (h : CallEffect s who pc s' pc')
    (hafter : pc.afterShutdown → s.shutdown = true)
    (hopen : s'.shutdown = false) :
    ∃ ws, s'.workers = s.workers ++ ws ∧ (∀ w ∈ ws, w.pc = .spawned) ∧
      s'.threads.length = s.threads.length + ws.length := by
  have hs : s.shutdown = false := by
    by_contra hs
    have hs' := h.shutdown (by simpa using hs)
    simp [hs'] at hopen
  cases h with
  | quiet hq => exact ⟨[], by simp [hq.workers, hq.threads]⟩
  | enqueue priority =>
      have hsame := (enqueueTask_same s priority).1
      exact ⟨[], by simp [hsame.workers, hsame.threads]⟩
  | addThread threadId target =>
      exact ⟨_, rfl, by simp, by simp [addWorkerThread]⟩
  | setShutdown now =>
      have hset : (ThreadPool.setShutdown s now).shutdown = true := by
        cases now <;> rfl
      simp [hset] at hopen
  | joined k => simp [hafter rfl] at hs
  | insert => exact ⟨[], (List.append_nil _).symm, by simp, rfl⟩
  | _ => exact ⟨[], by simp⟩

theorem startCall_afterShutdown (s : State) (op : Call) :
    (startCall s op).afterShutdown = false := by
  cases op with
  | shutdown waitForTasks => cases waitForTasks <;> rfl
  | _ => rfl

/-- A call gets past the flag by raising it. -/
theorem CallPc.Follows.afterShutdown {pc pc' : CallPc} (h : pc.Follows pc')
    (hpc' : pc'.afterShutdown = true) :
    pc.afterShutdown = true ∨ ∃ now, pc = .shutdownSet now := by
  cases h with
  | shutdownNotify now => exact .inr ⟨now, rfl⟩
  | _ => simp_all [CallPc.afterShutdown]

theorem callStep_shutdownSet {s s' : State} {who : Caller} {ch : Choice}
    {now : Bool} {pc' : CallPc}
    (h : callStep s who ch (.shutdownSet now) = some (s', pc')) :
    s'.shutdown = true := by
  simp only [callStep, whenFree_eq_some, Prod.mk.injEq] at h
  obtain ⟨-, rfl, -⟩ := h
  cases now <;> rfl

/-- A retirement changes nothing but the worker. -/
theorem workerStep_retire {s s' : State} {i : ℕ} {w w' : Worker}
    {ch : Choice} (h : workerStep s i w ch = some (s', w'))
    (hw : w.pc = .retire) (hcount : s.config.minThreads < s.threadCount) :
    s' = s ∧ w'.pc = .exited := by
  simp only [workerStep, hw, whenFree_eq_some, Prod.mk.injEq, if_pos hcount]
    at h
  obtain ⟨-, rfl, rfl⟩ := h
  exact ⟨rfl, rfl⟩

/-! ## Steps -/

/-- While the pool is open a step adds workers together with their entries in
`threads_`, and moves at most one worker. -/
inductive RollStep (s : State) (a : Action) (s' : State) : Prop
  | added {ws : List Worker} (hworkers : s'.workers = s.workers ++ ws)
      (hspawned : ∀ w ∈ ws, w.pc = .spawned)
      (hthreads : s'.threads.length = s.threads.length + ws.length)
      (hworker : ∀ i ch, a ≠ .worker i ch)
  | moved {ws : List Worker} {i : ℕ} {ch : Choice} {s₁ : State}
      {w w' : Worker} (ha : a = .worker i ch)
      (hw : s.workers[i]? = some w)
      (hmove : workerStep s i w ch = some (s₁, w'))
      (hworkers : s'.workers = (s.workers ++ ws).set i w')
      (hspawned : ∀ w ∈ ws, w.pc = .spawned)
      (hthreads : s'.threads.length = s.threads.length + ws.length)
      (hcall : w.call? = none → ws = [])

theorem step_minThreads {s s' : State} {a : Action}
    (h : step s a = some s') :
    s'.config.minThreads = s.config.minThreads := by
  obtain hsame | ⟨who, ch, pc, s₁, pc', -, -, hcall, hs'⟩ := step_callParts h
  · exact hsame.minThreads
  · rw [hs']
    exact (callStep_effect hcall).minThreads

theorem step_shutdown {s s' : State} {a : Action} (h : step s a = some s')
    (hs : s.shutdown = true) : s'.shutdown = true := by
  obtain hsame | ⟨who, ch, pc, s₁, pc', -, -, hcall, hs'⟩ := step_callParts h
  · exact hsame.shutdown.trans hs
  · rw [hs']
    exact (callStep_effect hcall).shutdown hs

/-- A pool that is open after a step was open before it. -/
theorem step_open {s s' : State} {a : Action} (h : step s a = some s')
    (hopen : s'.shutdown = false) : s.shutdown = false := by
  by_contra hs
  have hs' := step_shutdown h (by simpa using hs)
  simp [hs'] at hopen

/-- The pool stays open until a shutdown stores its flag. -/
theorem open_of_step {s s' : State} {a : Action} (h : step s a = some s')
    (hstores : ∀ now, a.caller?.bind s.callAt ≠ some (.shutdownSet now))
    (hopen : s.shutdown = false) : s'.shutdown = false := by
  obtain hsame | ⟨who, ch, pc, s₁, pc', ha, hat, hcall, hs'⟩ :=
    step_callParts h
  · exact hsame.shutdown.trans hopen
  · rw [hs']
    show s₁.shutdown = false
    cases callStep_effect hcall with
    | quiet hq => exact hq.shutdown.trans hopen
    | enqueue priority =>
        exact (enqueueTask_same s priority).1.shutdown.trans hopen
    | setShutdown now =>
        apply absurd _ (hstores now)
        rw [ha]
        exact hat
    | _ => exact hopen

theorem step_rollStep {m : UInt32} {s s' : State} {a : Action}
    (hR : Roll m s) (h : step s a = some s') (hopen : s'.shutdown = false) :
    RollStep s a s' := by
  cases a with
  | tick elapsed =>
      obtain rfl := step_tick h
      exact .added (List.append_nil _).symm (by simp) rfl (by simp)
  | call op =>
      obtain rfl := step_call h
      exact .added (List.append_nil _).symm (by simp) rfl (by simp)
  | client n ch =>
      obtain ⟨pc, s₁, pc', hpc, hcall, rfl⟩ := step_client h
      have hmem : pc ∈ s.calls :=
        mem_calls.mpr (.inl (List.mem_of_getElem? hpc))
      obtain ⟨ws, hws, hspawned, hthreads⟩ :=
        (callStep_effect hcall).roll (hR.calls pc hmem) hopen
      exact .added hws hspawned hthreads (by simp)
  | worker i ch =>
      obtain ⟨w, s₁, w', hw, hworker, rfl⟩ := step_worker h
      obtain hsame | ⟨pc, pc', hpc, -, hcall⟩ :=
        (workerStep_effect hworker).sameControl
      · refine .moved rfl hw hworker ?_ (List.forall_mem_nil _) ?_ fun _ => rfl
        · simp [hsame.workers]
        · simp [hsame.threads]
      · have hmem : pc ∈ s.calls :=
          mem_calls.mpr (.inr ⟨w, List.mem_of_getElem? hw, hpc⟩)
        obtain ⟨ws, hws, hspawned, hthreads⟩ :=
          (callStep_effect hcall).roll (hR.calls pc hmem) hopen
        exact .moved rfl hw hworker (by simp [hws]) hspawned hthreads
          fun hnone => absurd hpc (by simp [hnone])
  | scheduler ch =>
      obtain ⟨pc, s₁, pc', -, hsched, rfl⟩ := step_scheduler h
      have hsame := (schedulerStep_effect hsched).sameThreads
      refine .added ?_ (List.forall_mem_nil _) ?_ (by simp)
      · simp [hsame.workers]
      · simp [hsame.threads]
  | cancel f =>
      obtain rfl := step_cancel h
      exact .added (List.append_nil _).symm (by simp) rfl (by simp)

theorem Roll.step {m : UInt32} {s s' : State} {a : Action}
    (hR : Roll m s) (h : step s a = some s') : Roll m s' where
  minThreads_eq := (step_minThreads h).trans hR.minThreads_eq
  threads hopen := by
    have hlength := hR.threads (step_open h hopen)
    cases step_rollStep hR h hopen with
    | added hworkers _ hthreads =>
        rw [hthreads, hworkers, hlength, List.length_append]
    | moved _ _ _ hworkers _ hthreads =>
        rw [hthreads, hworkers, hlength, List.length_set, List.length_append]
  calls pc hpc hafter := by
    obtain hold | ⟨op, -, rfl⟩ | ⟨r, rfl⟩ |
      ⟨who, ch, pc₀, s₁, -, hpc₀, hcall, hs'⟩ := mem_calls_step h hpc
    · exact step_shutdown h (hR.calls pc hold hafter)
    · simp [startCall_afterShutdown] at hafter
    · simp [CallPc.afterShutdown] at hafter
    · rw [hs']
      obtain hpc₀' | ⟨now, rfl⟩ := (callStep_follows hcall).afterShutdown hafter
      · exact (callStep_effect hcall).shutdown
          (hR.calls pc₀ (callAt_mem_calls hpc₀) hpc₀')
      · have hset := callStep_shutdownSet hcall
        exact hset
  draining w hw hpc := by
    by_contra hs'
    have hopen : s'.shutdown = false := by simpa using hs'
    have hdown : s.shutdown = true := by
      cases step_rollStep hR h hopen with
      | added hworkers hspawned =>
          rw [hworkers] at hw
          rcases List.mem_append.mp hw with hw | hw
          · exact hR.draining w hw hpc
          · simp [hspawned w hw] at hpc
      | moved _ _ hmove hworkers hspawned =>
          rw [hworkers] at hw
          rcases List.mem_or_eq_of_mem_set hw with hw | rfl
          · rcases List.mem_append.mp hw with hw | hw
            · exact hR.draining w hw hpc
            · simp [hspawned w hw] at hpc
          · exact (workerStep_enters hmove).2.1 hpc
    exact hs' (step_shutdown h hdown)

/-- A step keeps the minimum exactly when it is no retirement on the strength
of a surplus that is already used up. -/
theorem step_keepsMinimum {m : UInt32} {s s' : State} {a : Action}
    (hR : Roll m s) (hP : KeepsMinimum m s) (h : step s a = some s') :
    KeepsMinimum m s' ↔ RetiresAbove s a := by
  by_cases hopen : s'.shutdown = false
  · have hs := step_open h hopen
    have hlive := hP hs
    cases step_rollStep hR h hopen with
    | added hworkers hspawned _ hworker =>
        constructor
        · intro _
          cases a with
          | worker i ch => exact absurd rfl (hworker i ch)
          | _ => trivial
        · intro _ _
          have hge : s.live ≤ s'.live := by
            simp [State.live, hworkers, List.countP_append]
          omega
    | @moved ws i ch s₁ w w' ha hw hmove hworkers hspawned hthreads hcall =>
        subst ha
        have hpcs := workerStep_enters hmove
        have hnot : w.pc ≠ .exited := by
          intro hpc
          simp [workerStep, hpc] at hmove
        have hcount := Roster.countP_set_add
          (p := fun w : Worker => w.pc ≠ .exited)
          (Roster.getElem?_append hw ws) w'
        rw [← hworkers, List.countP_append] at hcount
        by_cases hexit : w'.pc = .exited
        · obtain hdrain | ⟨hretire, hmin⟩ := hpcs.1 hexit
          · have hdown := hR.draining w (List.mem_of_getElem? hw) hdrain
            simp [hs] at hdown
          · have hws : ws = [] := hcall (by simp [Worker.call?, hretire])
            have hlive' : s'.live + 1 = s.live := by
              simpa [State.live, hnot, hexit, hws, add_comm] using hcount
            have htotal := live_add_retired s
            have hroll := hR.threads hs
            have hminEq := congrArg UInt32.toNat hR.minThreads_eq
            constructor
            · intro hkeep _ _
              have hkeep' := hkeep hopen
              omega
            · intro hsafe _
              have hsafe' := hsafe hs ⟨w, hw, hretire, hmin⟩
              omega
        · constructor
          · rintro - - ⟨v, hv, hretire, hmin⟩
            obtain rfl := Option.some.inj (hw.symm.trans hv)
            exact absurd (workerStep_retire hmove hretire hmin).2 hexit
          · intro _ _
            have hone : (decide (w.pc ≠ .exited)).toNat = 1 := by simp [hnot]
            have hone' : (decide (w'.pc ≠ .exited)).toNat = 1 := by
              simp [hexit]
            rw [hone, hone'] at hcount
            have hge : s.live ≤ s'.live :=
              (Nat.le_add_right _ _).trans_eq (Nat.add_left_cancel hcount).symm
            omega
  · constructor
    · intro _
      cases a with
      | worker i ch =>
          rintro hs ⟨v, hv, hretire, hmin⟩
          obtain ⟨w, s₁, w', hw, hmove, rfl⟩ := step_worker h
          obtain rfl := Option.some.inj (hw.symm.trans hv)
          obtain ⟨rfl, -⟩ := workerStep_retire hmove hretire hmin
          exact absurd hs hopen
      | _ => trivial
    · intro _ hopen'
      exact absurd hopen' hopen

/-! ## Runs -/

theorem construct_roll (c : CheckedConfig) (clock : ℤ) :
    Roll c.config.minThreads (construct c clock) where
  minThreads_eq := rfl
  threads _ := by simp [construct]
  calls pc hpc := by simp [construct_calls] at hpc
  draining w hw hpc := by simp [mem_construct_workers hw] at hpc

/-- The initial threads are clamped to the minimum. -/
theorem construct_keepsMinimum (c : CheckedConfig) (clock : ℤ) :
    KeepsMinimum c.config.minThreads (construct c clock) := by
  intro _
  have hlive : (construct c clock).live = c.clamped.initialThreads.toNat := by
    rw [State.live, List.countP_eq_length.mpr]
    · simp [construct]
    · intro w hw
      simp [mem_construct_workers hw]
  have hclamp : c.config.minThreads ≤ c.clamped.initialThreads :=
    le_clamp c.minThreads_le_maxThreads
  rw [hlive]
  exact UInt32.le_iff_toNat_le.mp hclamp

/-- A run of the pool never has fewer than `min_threads` live workers before
shutdown if and only if every retirement in it happens above the minimum. -/
theorem keepsMinimum_iff (c : CheckedConfig) (clock : ℤ)
    (acts : List Action) :
    Transition.AllStates step (KeepsMinimum c.config.minThreads)
        (construct c clock) acts ↔
      Transition.AllSteps step RetiresAbove (construct c clock) acts := by
  apply Transition.allStates_iff_allSteps
    (I := Roll c.config.minThreads) _ (construct_roll c clock)
    (construct_keepsMinimum c clock)
  intro s a s' hR hP h
  exact ⟨hR.step h, step_keepsMinimum hR hP h⟩

/-- Both workers find the queue empty, are idle for longer than the timeout,
and retire one after the other. -/
def bothRetire : List Action :=
  [.worker 0 {}, .worker 0 {}, .worker 0 {}, .worker 0 {},
    .worker 1 {}, .worker 1 {}, .worker 1 {}, .worker 1 {},
    .tick 30000000001,
    .worker 0 {}, .worker 0 {}, .worker 1 {}, .worker 1 {}]

theorem bothRetire_runs :
    (Transition.run step (construct pairConfig 0) bothRetire).isSome := by
  decide

/-- A pool with `min_threads = 1` that is open and has no live worker. -/
theorem exists_noWorker :
    ¬ ∀ (c : CheckedConfig) (clock : ℤ) (s : State),
      Transition.Reachable step {construct c clock} s →
        KeepsMinimum c.config.minThreads s := by
  intro hall
  have hreach := Transition.reachable_get_run
    (Set.mem_singleton (construct pairConfig 0)) bothRetire_runs
  have hkeep := hall pairConfig 0 _ hreach (by decide)
  exact absurd hkeep (by decide)

end ThreadPool
end Yacul
