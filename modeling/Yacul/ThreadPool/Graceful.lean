import Yacul.ThreadPool.Conservation
import Yacul.ThreadPool.Pause
import Yacul.ThreadPool.Shutdown

/-!
# What a graceful shutdown leaves behind

`Shutdown` joins the delay scheduler and the workers.  A worker leaves when it
finds the queue empty, and the scheduler can push its last batch after that.
When the queue is served by somebody to the end, a `Shutdown` returns with
every task done.
-/

namespace Yacul
namespace ThreadPool

/-! ## Who serves the queue -/

/-- Worker `i` has not left `WorkerLoop`. -/
def State.inLoop (s : State) (i : ℕ) : Bool :=
  s.workerIn i fun pc => pc ≠ .exited

/-- Some worker has not left `WorkerLoop`. -/
def State.hasWorker (s : State) : Prop :=
  ∃ i ∈ s.workerNumbers, s.inLoop i = true

instance (s : State) : Decidable s.hasWorker := by
  unfold State.hasWorker
  exact inferInstance

/-- Worker `i` is going to leave `WorkerLoop` in its next move. -/
def State.leaves (s : State) (i : ℕ) : Bool :=
  s.workerAt i .retire && decide (s.config.minThreads < s.threadCount) ||
    s.workerAt i .drainTest && decide (s.stats.queueSize = 0)

/-- The call is in the section of `EnqueueTask`. -/
def CallPc.enqueues : CallPc → Bool
  | .enqueueTask _ => true
  | _ => false

/-- The action places tasks on the shared queue. -/
def State.places (s : State) (a : Action) : Bool :=
  (a.caller?.bind s.callAt).any CallPc.enqueues ||
    match a with
    | .scheduler _ => (s.scheduler.bind SchedulerPc.batch?).isSome
    | _ => false

/-! ## Shutdowns -/

/-- The operation is `Shutdown`. -/
def Call.isShutdown : Call → Bool
  | .shutdown _ => true
  | _ => false

/-- Who is in the call that begins in the action. -/
def State.beginner? (s : State) : Action → Option Caller
  | .call _ => some (.client s.clients.length)
  | .worker i _ => some (.worker i)
  | _ => none

/-- The call has joined everybody and returns. -/
def State.returns (s : State) : CallPc → Bool
  | .join k => s.threads[k]? = none
  | _ => false

/-- A task is on the shared queue, or has been there and is neither executed
nor found cancelled. -/
def State.leavesTask (s : State) : Bool :=
  s.queueLength ≠ 0 || s.queued.any fun x => x ∉ s.finished

/-- The calls of `Shutdown` that began while a worker was live, and whether
one of them has returned and left a task behind. -/
structure Closing where
  covered : List Caller := []
  leftTask : Bool := false
deriving DecidableEq, Repr

/-- Who calls `Shutdown` in the action while a worker is live. -/
def State.covers (s : State) (a : Action) : List Caller :=
  if (s.begins? a).any Call.isShutdown ∧ s.hasWorker then
    (s.beginner? a).toList
  else []

/-- In the action a call of `covered` returns and leaves a task behind. -/
def State.leavesTaskAt (s : State) (covered : List Caller) (a : Action) :
    Bool :=
  a.caller?.any fun who => who ∈ covered && (s.callAt who).any s.returns &&
    s.leavesTask

/-- What a step adds. -/
def observeClosing (s : State) (a : Action) (o : Closing) : Closing where
  covered := s.covers a ++ o.covered
  leftTask := o.leftTask || s.leavesTaskAt o.covered a

/-- The pool, watched. -/
abbrev stepClosing : State × Closing → Action → Option (State × Closing) :=
  Transition.watch step observeClosing

/-- A pool that has just been constructed. -/
def initialClosing : Set (State × Closing) :=
  { x | x.1 ∈ initial ∧ x.2 = {} }

/-- When a `Shutdown` that began while a worker was live returns, the shared
queue is empty and every task that was ever placed on it is done. -/
def LeavesNothing (x : State × Closing) : Prop :=
  x.2.leftTask = false

/-- Nobody calls `ShutdownNow`. -/
def KeepsClosing (x : State × Closing) (a : Action) : Prop :=
  KeepsQueues x.1 a

/-- After `Shutdown` has begun a task is placed on the shared queue only while
a worker is live, and the last live worker does not leave a task on it. -/
@[mk_iff]
structure ServesQueue (x : State × Closing) (a : Action) : Prop where
  keeps : KeepsClosing x a
  places : x.2.covered ≠ [] → x.1.places a = true → x.1.hasWorker
  leaves : x.2.covered ≠ [] → ∀ i ∈ a.worker?, x.1.leaves i = true →
    x.1.queueLength ≠ 0 → ∃ j ∈ x.1.workerNumbers, j ≠ i ∧ x.1.inLoop j = true

instance (x : State × Closing) : Decidable (LeavesNothing x) := by
  unfold LeavesNothing
  exact inferInstance

instance (x : State × Closing) (a : Action) : Decidable (KeepsClosing x a) := by
  unfold KeepsClosing
  exact inferInstance

instance (x : State × Closing) (a : Action) : Decidable (ServesQueue x a) :=
  decidable_of_iff' _ (servesQueue_iff x a)

/-! ## Workers -/

section

variable {s s' : State} {a : Action} {i : ℕ}

theorem inLoop_eq_true :
    s.inLoop i = true ↔ ∃ w, s.workers[i]? = some w ∧ w.pc ≠ .exited := by
  unfold State.inLoop
  rw [workerIn_eq_true]
  simp

theorem mem_workerNumbers_of_inLoop (hi : s.inLoop i = true) :
    i ∈ s.workerNumbers := by
  obtain ⟨w, hw, -⟩ := inLoop_eq_true.mp hi
  obtain ⟨hlt, -⟩ := List.getElem?_eq_some_iff.mp hw
  exact List.mem_range.mpr hlt

/-- A worker that leaves has found the queue empty, or retires. -/
theorem workerStep_leaves {w w' : Worker} {ch : Choice}
    (hw : s.workers[i]? = some w) (h : workerStep s i w ch = some (s', w'))
    (hpc' : w'.pc = .exited) : s.leaves i = true := by
  unfold State.leaves
  obtain hdrain | ⟨hretire, hcount⟩ := (workerStep_enters h).1 hpc'
  · have hat : s.workerAt i .drainTest = true :=
      workerAt_eq_true.mpr ⟨w, hw, hdrain⟩
    simp only [workerStep, hdrain, Option.some.injEq, Prod.mk.injEq] at h
    obtain ⟨-, rfl⟩ := h
    have hzero : s.stats.queueSize = 0 := by
      dsimp only [Worker.goto_pc] at hpc'
      split at hpc'
      · assumption
      · unfold takeTask at hpc'
        split at hpc' <;> cases hpc'
    simp [hat, hzero]
  · have hat : s.workerAt i .retire = true :=
      workerAt_eq_true.mpr ⟨w, hw, hretire⟩
    simp [hat, hcount]

theorem inLoop_step (h : step s a = some s') (hi : s.inLoop i = true) :
    s'.inLoop i = true ∨ a.worker? = some i ∧ s.leaves i = true := by
  obtain ⟨w, hw, hpc⟩ := inLoop_eq_true.mp hi
  by_cases ha : a.caller? = some (.worker i)
  · cases a with
    | worker j ch =>
        obtain rfl : j = i := Caller.worker.inj (Option.some.inj ha)
        obtain ⟨s₁, w', hworker, hw', -⟩ := worker_of_moved h hw
        by_cases hpc' : w'.pc = .exited
        · exact .inr ⟨rfl, workerStep_leaves hw hworker hpc'⟩
        · exact .inl (inLoop_eq_true.mpr ⟨w', hw', hpc'⟩)
    | client | tick | call | scheduler | cancel => cases ha
  · exact .inl (inLoop_eq_true.mpr ⟨w, worker_of_not_moved h ha hw, hpc⟩)

/-- A worker that has left has left for good. -/
theorem inLoop_of_step (h : step s a = some s')
    (hlt : i < s.workers.length) (hi : s'.inLoop i = true) :
    s.inLoop i = true := by
  obtain ⟨w', hw', hpc'⟩ := inLoop_eq_true.mp hi
  obtain ⟨w, hw⟩ : ∃ w, s.workers[i]? = some w :=
    ⟨s.workers[i], List.getElem?_eq_getElem hlt⟩
  refine inLoop_eq_true.mpr ⟨w, hw, fun hpc => ?_⟩
  by_cases ha : a.caller? = some (.worker i)
  · cases a with
    | worker j ch =>
        obtain rfl : j = i := Caller.worker.inj (Option.some.inj ha)
        obtain ⟨s₁, w₁, hworker, -, -⟩ := worker_of_moved h hw
        simp [workerStep, hpc] at hworker
    | client | tick | call | scheduler | cancel => cases ha
  · have hsame := worker_of_not_moved h ha hw
    obtain rfl := Option.some.inj (hsame.symm.trans hw')
    exact hpc' hpc

/-- A step that places nothing does not make the queue longer. -/
theorem step_queueLength_le (h : step s a = some s')
    (hplaces : s.places a = false) : s'.queueLength ≤ s.queueLength := by
  unfold State.places at hplaces
  obtain ⟨hcalls, hpush⟩ := Bool.or_eq_false_iff.mp hplaces
  cases a with
  | tick elapsed =>
      obtain rfl := step_tick h
      exact Nat.le_refl _
  | call op =>
      obtain rfl := step_call h
      exact Nat.le_refl _
  | client n ch =>
      obtain ⟨pc, s₁, pc', hpc, hcall, rfl⟩ := step_client h
      apply (callStep_effect hcall).queueLength_le
      rintro priority rfl
      simp [Action.caller?, State.callAt, hpc, CallPc.enqueues] at hcalls
  | worker i ch =>
      obtain ⟨w, s₁, w', hw, hworker, rfl⟩ := step_worker h
      show s₁.queueLength ≤ s.queueLength
      cases workerStep_effect hworker with
      | quiet hq => exact hq.queueLength.le
      | call hpc _ hcall =>
          apply (callStep_effect hcall).queueLength_le
          rintro priority rfl
          simp [Action.caller?, State.callAt, hw, hpc, CallPc.enqueues]
            at hcalls
      | takeFront htasks =>
          refine Nat.add_le_add_right ?_ _
          simp [popFront, htasks]
      | takePriority htask =>
          exact Nat.add_le_add_left (List.length_eraseIdx_le _ _) _
      | takeLocal htask =>
          rw [popLocal_some htask]
          exact Nat.le_refl _
      | _ => exact Nat.le_refl _
  | scheduler ch =>
      obtain ⟨pc, s₁, pc', hpc, hsched, rfl⟩ := step_scheduler h
      obtain ⟨hsame, -⟩ | ⟨ready, hbatch, -⟩ :=
        schedulerStep_queueLength hsched
      · exact hsame.le
      · simp [hpc, hbatch] at hpush
  | cancel f =>
      obtain rfl := step_cancel h
      exact Nat.le_refl _

/-! ## `threads_` -/

/-- A move of a call adds a worker with its entry, or clears `threads_` at the
end of its joins. -/
theorem CallEffect.threads_cases {who : Caller} {pc pc' : CallPc}
    (h : CallEffect s who pc s' pc') :
    (s'.threads = s.threads ∧ s'.workers.length = s.workers.length) ∨
      (s'.threads = s.threads ++ [s.workers.length] ∧
        s'.workers.length = s.workers.length + 1) ∨
      (s.returns pc = true ∧ s'.threads = [] ∧
        s'.workers.length = s.workers.length) := by
  cases h with
  | quiet hq => exact .inl ⟨hq.threads, congrArg _ hq.workers⟩
  | enqueue priority =>
      have hsame := (enqueueTask_same s priority).1
      exact .inl ⟨hsame.threads, congrArg _ hsame.workers⟩
  | setShutdown now => cases now <;> exact .inl ⟨rfl, rfl⟩
  | addThread threadId target =>
      refine .inr (.inl ⟨rfl, ?_⟩)
      simp [addWorkerThread]
  | joined k hend =>
      exact .inr (.inr ⟨by simp [State.returns, hend], rfl, rfl⟩)
  | _ => exact .inl ⟨rfl, rfl⟩

theorem step_threads_cases (h : step s a = some s') :
    (s'.threads = s.threads ∧ s'.workers.length = s.workers.length) ∨
      (s'.threads = s.threads ++ [s.workers.length] ∧
        s'.workers.length = s.workers.length + 1) ∨
      ((∃ who, a.caller? = some who ∧ (s.callAt who).any s.returns = true) ∧
        s'.threads = [] ∧ s'.workers.length = s.workers.length) := by
  cases a with
  | tick elapsed =>
      obtain rfl := step_tick h
      exact .inl ⟨rfl, rfl⟩
  | call op =>
      obtain rfl := step_call h
      exact .inl ⟨rfl, rfl⟩
  | client n ch =>
      obtain ⟨pc, s₁, pc', hpc, hcall, rfl⟩ := step_client h
      obtain hsame | hadded | ⟨hreturns, hclear⟩ :=
        (callStep_effect hcall).threads_cases
      · exact .inl hsame
      · exact .inr (.inl hadded)
      · refine .inr (.inr ⟨⟨.client n, rfl, ?_⟩, hclear⟩)
        simp [State.callAt, hpc, hreturns]
  | worker i ch =>
      obtain ⟨w, s₁, w', hw, hworker, rfl⟩ := step_worker h
      simp only [List.length_set]
      obtain hsame | ⟨pc, pc', hpc, -, hcall⟩ :=
        (workerStep_effect hworker).sameControl
      · exact .inl ⟨hsame.threads, congrArg _ hsame.workers⟩
      · obtain hsame | hadded | ⟨hreturns, hclear⟩ :=
          (callStep_effect hcall).threads_cases
        · exact .inl hsame
        · exact .inr (.inl hadded)
        · refine .inr (.inr ⟨⟨.worker i, rfl, ?_⟩, hclear⟩)
          simp [State.callAt, hw, hpc, hreturns]
  | scheduler ch =>
      obtain ⟨pc, s₁, pc', -, hsched, rfl⟩ := step_scheduler h
      have hsame := (schedulerStep_effect hsched).sameThreads
      exact .inl ⟨hsame.threads, congrArg _ hsame.workers⟩
  | cancel f =>
      obtain rfl := step_cancel h
      exact .inl ⟨rfl, rfl⟩

/-- Every worker in `WorkerLoop` has its entry in `threads_`, and a call that
joins has waited for the entries before the one it is at. -/
structure Listed (s : State) : Prop where
  joiner : OneJoiner s
  listed : ∀ i, s.inLoop i = true → i ∈ s.threads
  joined : ∀ k, .join k ∈ s.calls → ∀ m i, m < k →
    s.threads[m]? = some i → s.inLoop i = false

theorem inLoop_false_of_step (h : step s a = some s')
    (hlength : s'.workers.length = s.workers.length)
    (hi : s.inLoop i = false) : s'.inLoop i = false := by
  rw [← Bool.not_eq_true]
  intro hi'
  obtain ⟨w', hw', -⟩ := inLoop_eq_true.mp hi'
  obtain ⟨hlt, -⟩ := List.getElem?_eq_some_iff.mp hw'
  rw [hlength] at hlt
  cases hi.symm.trans (inLoop_of_step h hlt hi')

/-- When a call has joined everybody nobody is in `WorkerLoop`. -/
theorem Listed.inLoop_of_returns (hs : Listed s) {who : Caller}
    (hwho : (s.callAt who).any s.returns = true) (i : ℕ) :
    s.inLoop i = false := by
  obtain ⟨pc, hat, hreturns⟩ := (Option.any_eq_true _ _).mp hwho
  rw [← Bool.not_eq_true]
  intro hi
  cases pc with
  | join k =>
      have hend : s.threads[k]? = none := by
        simpa [State.returns] using hreturns
      obtain ⟨m, hm⟩ := List.mem_iff_getElem?.mp (hs.listed i hi)
      obtain ⟨hlt, -⟩ := List.getElem?_eq_some_iff.mp hm
      have hle := List.getElem?_eq_none_iff.mp hend
      have hexited := hs.joined k (callAt_mem_calls hat) m i (by omega) hm
      cases hi.symm.trans hexited
  | _ => cases hreturns

theorem Listed.step_listed (hs : Listed s) (h : step s a = some s')
    (hi : s'.inLoop i = true) : i ∈ s'.threads := by
  obtain ⟨w', hw', -⟩ := inLoop_eq_true.mp hi
  obtain ⟨hlt', -⟩ := List.getElem?_eq_some_iff.mp hw'
  obtain ⟨hthreads, hlength⟩ | ⟨hthreads, hlength⟩ |
      ⟨⟨who, -, hwho⟩, -, hlength⟩ := step_threads_cases h
  · rw [hlength] at hlt'
    rw [hthreads]
    exact hs.listed i (inLoop_of_step h hlt' hi)
  · rw [hlength] at hlt'
    rw [hthreads, List.mem_append, List.mem_singleton]
    by_cases hlt : i < s.workers.length
    · exact .inl (hs.listed i (inLoop_of_step h hlt hi))
    · exact .inr (by omega)
  · rw [hlength] at hlt'
    have hnone := hs.inLoop_of_returns hwho i
    cases hnone.symm.trans (inLoop_of_step h hlt' hi)

/-- A call joins the next entry when it has waited for this one. -/
theorem callStep_joinNext {who : Caller} {ch : Choice} {k k' : ℕ}
    (h : callStep s who ch (.join k) = some (s', .join k')) :
    k' = k + 1 ∧ s' = s ∧
      ∀ i, s.threads[k]? = some i → s.inLoop i = false := by
  simp only [callStep] at h
  split at h
  · cases (Prod.mk.inj (Option.some.inj h)).2
  · next i hk =>
      split at h
      · cases (Prod.mk.inj (Option.some.inj h)).2
      · simp only [whenFree_eq_some, Prod.mk.injEq,
          Bool.not_eq_eq_eq_not, Bool.not_false] at h
        obtain ⟨hexited, rfl, hnext⟩ := h
        refine ⟨(CallPc.join.inj hnext).symm, rfl, fun j hj => ?_⟩
        obtain rfl := Option.some.inj (hk.symm.trans hj)
        rw [← Bool.not_eq_true]
        intro hi
        obtain ⟨w, hw, hpc⟩ := inLoop_eq_true.mp hi
        simp [State.exited, hw, hpc] at hexited

theorem Listed.step (hs : Listed s) (h : step s a = some s') :
    Listed s' where
  joiner := hs.joiner.step h
  listed i hi := hs.step_listed h hi
  joined k' hk' m i hm hi := by
    obtain hold | ⟨op, -, hstart⟩ | ⟨r, hr⟩ |
        ⟨who, ch, pc, s₁, -, hat, hcall, hs'⟩ := mem_calls_step h hk'
    · have hheld := hs.joiner.held hold
      obtain hthreads | hclear := step_threads hheld h
      · have hlength : s'.workers.length = s.workers.length := by
          obtain ⟨-, hlength⟩ | ⟨hadded, -⟩ | ⟨-, -, hlength⟩ :=
            step_threads_cases h
          · exact hlength
          · rw [hadded] at hthreads
            have hcount := congrArg List.length hthreads
            simp at hcount
          · exact hlength
        rw [hthreads] at hi
        exact inLoop_false_of_step h hlength (hs.joined k' hold m i hm hi)
      · rw [hclear] at hi
        cases hi
    · have hjoins := startCall_joins s op
      rw [← hstart] at hjoins
      cases hjoins
    · cases hr
    · cases callStep_follows hcall with
      | join => exact absurd hm (Nat.not_lt_zero m)
      | joinNext k =>
          obtain ⟨-, rfl, hk⟩ := callStep_joinNext hcall
          have hthreads : s'.threads = s₁.threads := by rw [hs']
          rw [hthreads] at hi
          have hlength : s'.workers.length = s₁.workers.length := by
            obtain ⟨-, hlength⟩ | ⟨hadded, -⟩ | ⟨-, -, hlength⟩ :=
              step_threads_cases h
            · exact hlength
            · rw [hadded] at hthreads
              have hcount := congrArg List.length hthreads
              simp at hcount
            · exact hlength
          apply inLoop_false_of_step h hlength
          obtain hlt | rfl := Nat.lt_succ_iff_lt_or_eq.mp hm
          · exact hs.joined k (callAt_mem_calls hat) m i hlt hi
          · exact hk i hi

theorem construct_listed (c : CheckedConfig) (clock : ℤ) :
    Listed (construct c clock) where
  joiner := construct_oneJoiner c clock
  listed i hi := by
    obtain ⟨w, hw, -⟩ := inLoop_eq_true.mp hi
    obtain ⟨hlt, -⟩ := List.getElem?_eq_some_iff.mp hw
    simpa [construct] using hlt
  joined k hk := by simp [construct_calls] at hk

/-! ## The queue is served -/

/-- A worker in a call leaves `WorkerLoop` only later. -/
theorem not_leaves_of_callAt {pc : CallPc} (ha : a.worker? = some i)
    (hat : a.caller?.bind s.callAt = some pc) : s.leaves i = false := by
  obtain ⟨ch, rfl⟩ := worker?_eq_some ha
  obtain ⟨w, hw, hcall⟩ := Option.bind_eq_some_iff.mp
    (show s.workers[i]?.bind Worker.call? = some pc from hat)
  obtain ⟨t, hrun | hrun⟩ := call?_eq_some.mp hcall
  all_goals simp [State.leaves, State.workerAt, hw, hrun]

theorem not_leaves_of_places (ha : a.worker? = some i)
    (hplaces : s.places a = true) : s.leaves i = false := by
  obtain hcall | hpush := Bool.or_eq_true_iff.mp hplaces
  · obtain ⟨pc, hat, -⟩ := (Option.any_eq_true _ _).mp hcall
    exact not_leaves_of_callAt ha hat
  · obtain ⟨ch, rfl⟩ := worker?_eq_some ha
    cases hpush

theorem not_leaves_of_begins {op : Call} (ha : a.worker? = some i)
    (hbegins : s.begins? a = some op) : s.leaves i = false := by
  obtain ⟨ch, rfl⟩ := worker?_eq_some ha
  simp only [State.begins?] at hbegins
  split at hbegins
  · next huser =>
      obtain ⟨w, hw, hpc⟩ := workerIn_eq_true.mp huser
      cases hrun : w.pc with
      | running t phase => simp [State.leaves, State.workerAt, hw, hrun]
      | _ =>
          rw [hrun] at hpc
          cases hpc
  · cases hbegins

/-- The queue stays served. -/
theorem served_step (h : step s a = some s')
    (hserved : s.queueLength ≠ 0 → s.hasWorker)
    (hplaces : s.places a = true → s.hasWorker)
    (hleaves : ∀ i ∈ a.worker?, s.leaves i = true → s.queueLength ≠ 0 →
      ∃ j ∈ s.workerNumbers, j ≠ i ∧ s.inLoop j = true)
    (hqueue : s'.queueLength ≠ 0) : s'.hasWorker := by
  cases hp : s.places a with
  | true =>
      obtain ⟨i, -, hi⟩ := hplaces hp
      obtain hi' | ⟨ha, hl⟩ := inLoop_step h hi
      · exact ⟨i, mem_workerNumbers_of_inLoop hi', hi'⟩
      · cases (not_leaves_of_places ha hp).symm.trans hl
  | false =>
      have hle := step_queueLength_le h hp
      have hqueue₀ : s.queueLength ≠ 0 := by omega
      obtain ⟨i, -, hi⟩ := hserved hqueue₀
      obtain hi' | ⟨ha, hl⟩ := inLoop_step h hi
      · exact ⟨i, mem_workerNumbers_of_inLoop hi', hi'⟩
      · obtain ⟨j, -, hne, hj⟩ := hleaves i ha hl hqueue₀
        obtain hj' | ⟨ha', -⟩ := inLoop_step h hj
        · exact ⟨j, mem_workerNumbers_of_inLoop hj', hj'⟩
        · exact absurd (Option.some.inj (ha'.symm.trans ha)) hne

/-- When nobody is in `WorkerLoop`, the queue is empty and nothing has been
discarded, every task that was queued is done. -/
theorem leavesTask_eq_false (hb : (books s).Balanced)
    (hnone : s.discarded = []) (hqueue : s.queueLength = 0)
    (hworkers : ∀ i, s.inLoop i = false) : s.leavesTask = false := by
  have hshared : (books s).shared = 0 := by
    rw [← Multiset.card_eq_zero]
    have hcard : (books s).shared.card = s.queueLength := by
      simp [books, State.shared, State.queueLength]
    exact hcard.trans hqueue
  have hheld : (books s).held = 0 := by
    rw [books_held, Multiset.coe_eq_zero, List.map_eq_nil_iff,
      List.filterMap_eq_nil_iff]
    intro w hw
    obtain ⟨i, hi⟩ := List.mem_iff_getElem?.mp hw
    have hpc : w.pc = .exited := by
      by_contra hpc
      have hin := inLoop_eq_true.mpr ⟨w, hi, hpc⟩
      cases (hworkers i).symm.trans hin
    simp [Worker.task?, Worker.stage, hpc]
  have hdone : ∀ x ∈ s.queued, x ∈ s.finished := by
    intro x hx
    obtain hmem | hmem | hmem | hmem := hb.queued x hx
    · simp [hshared] at hmem
    · simp [hheld] at hmem
    · exact hmem
    · have hnone' : (books s).discarded = 0 := by simp [books, hnone]
      simp [hnone'] at hmem
  simpa [State.leavesTask, hqueue] using hdone

end

/-! ## Runs -/

/-- After `Shutdown` has begun somebody serves the queue. -/
structure ClosingPool (x : State × Closing) : Prop where
  listed : Listed x.1
  served : x.2.covered ≠ [] → x.1.queueLength ≠ 0 → x.1.hasWorker
  leftTask : x.2.leftTask = false

theorem ClosingPool.step {x x' : State × Closing} {a : Action}
    (hx : ClosingPool x) (hb : (books x.1).Balanced)
    (hnone : x.1.discarded = []) (hserves : ServesQueue x a)
    (h : stepClosing x a = some x') : ClosingPool x' := by
  obtain ⟨s, o⟩ := x
  obtain ⟨s', o'⟩ := x'
  obtain ⟨h, rfl⟩ := Transition.watch_eq_some.mp h
  dsimp only at h hb hnone
  constructor
  · exact hx.listed.step h
  · intro hcovered hqueue
    by_cases hold : o.covered = []
    · -- A `Shutdown` begins while a worker is in its loop.
      have hcovers : s.covers a ≠ [] := by
        intro hempty
        exact hcovered (by simp [observeClosing, hempty, hold])
      unfold State.covers at hcovers
      split at hcovers
      · next hbegin =>
          obtain ⟨hop, i, -, hi⟩ := hbegin
          obtain ⟨op, hbegins, -⟩ := (Option.any_eq_true _ _).mp hop
          obtain hi' | ⟨ha, hl⟩ := inLoop_step h hi
          · exact ⟨i, mem_workerNumbers_of_inLoop hi', hi'⟩
          · cases (not_leaves_of_begins ha hbegins).symm.trans hl
      · exact absurd rfl hcovers
    · exact served_step h (hx.served hold) (hserves.places hold)
        (hserves.leaves hold) hqueue
  · have hleft : o.leftTask = false := hx.leftTask
    have hnot : s.leavesTaskAt o.covered a = false := by
      rw [← Bool.not_eq_true]
      intro hleaves
      obtain ⟨who, -, hwho⟩ := (Option.any_eq_true _ _).mp hleaves
      obtain ⟨hwho, htask⟩ := Bool.and_eq_true_iff.mp hwho
      obtain ⟨hmem, hreturns⟩ := Bool.and_eq_true_iff.mp hwho
      have hmem : who ∈ o.covered := of_decide_eq_true hmem
      have hworkers := hx.listed.inLoop_of_returns hreturns
      have hqueue : s.queueLength = 0 := by
        by_contra hqueue
        obtain ⟨i, -, hi⟩ := hx.served (List.ne_nil_of_mem hmem) hqueue
        cases (hworkers i).symm.trans hi
      have hdone := leavesTask_eq_false hb hnone hqueue hworkers
      cases hdone.symm.trans htask
    simp [observeClosing, hleft, hnot]

theorem construct_closingPool (c : CheckedConfig) (clock : ℤ) :
    ClosingPool (construct c clock, {}) where
  listed := construct_listed c clock
  served hcovered := absurd rfl hcovered
  leftTask := rfl

/-- When the queue is served after `Shutdown` has begun, `Shutdown` leaves no
task behind. -/
theorem reachable_leavesNothing {x : State × Closing}
    (hx : Transition.ReachableVia stepClosing ServesQueue initialClosing x) :
    LeavesNothing x := by
  have hclosing : ClosingPool x := by
    induction hx with
    | @start x hx =>
        obtain ⟨s, o⟩ := x
        obtain ⟨⟨c, clock, rfl⟩, rfl⟩ := hx
        exact construct_closingPool c clock
    | @next x x' a hx hserves h ih =>
        have hpool : ReachableVia KeepsQueues x.1 :=
          hx.of_watch (fun _ hx => hx.1) fun _ _ hserves => hserves.keeps
        exact ih.step (reachable_balanced hpool.reachable)
          (reachable_discarded hpool) hserves h
  exact hclosing.leftTask

/-! ## Runs with a shutdown -/

/-- A delayed task is due and with the scheduler when `Shutdown` begins. -/
def collectsBatch : List Action :=
  submitsReady 0 ++ List.replicate 5 (Action.scheduler {}) ++
    [Action.call (.shutdown false), .client 1 {}]

/-- The scheduler pushes its batch and leaves; `Shutdown` joins it and both
workers. -/
def pushesBatch : List Action :=
  List.replicate 5 (.scheduler {})

/-- A worker runs the task, and then both leave. -/
def servesBatch : List Action :=
  collectsBatch ++ pushesBatch ++ List.replicate 15 (Action.worker 0 {}) ++
    List.replicate 4 (Action.worker 1 {}) ++
    List.replicate 8 (Action.client 1 {})

theorem servesBatch_runs :
    (Transition.run stepClosing (construct tightConfig 0, {})
      servesBatch).isSome := by
  decide

theorem reachable_leavesNothing_servesBatch :
    LeavesNothing ((Transition.run stepClosing (construct tightConfig 0, {})
      servesBatch).get servesBatch_runs) := by
  have hstart : (construct tightConfig 0, {}) ∈ initialClosing :=
    ⟨⟨tightConfig, 0, rfl⟩, rfl⟩
  have hall : Transition.AllSteps stepClosing ServesQueue
      (construct tightConfig 0, {}) servesBatch := by
    decide
  exact reachable_leavesNothing
    ((Transition.ReachableVia.start hstart).run hall
      (Option.some_get servesBatch_runs).symm)

/-- Both workers leave before the task is pushed. -/
def leavesBatch : List Action :=
  collectsBatch ++ List.replicate 4 (Action.worker 0 {}) ++
    List.replicate 4 (Action.worker 1 {}) ++ pushesBatch ++
    List.replicate 8 (Action.client 1 {})

theorem leavesBatch_runs :
    (Transition.run stepClosing (construct tightConfig 0, {})
      leavesBatch).isSome := by
  decide

/-- `Shutdown` can leave a task on the shared queue. -/
theorem exists_leftTask :
    ¬ ∀ x, Transition.ReachableVia stepClosing KeepsClosing initialClosing x →
      LeavesNothing x := by
  intro hall
  have hstart : (construct tightConfig 0, {}) ∈ initialClosing :=
    ⟨⟨tightConfig, 0, rfl⟩, rfl⟩
  have hkeeps : Transition.AllSteps stepClosing KeepsClosing
      (construct tightConfig 0, {}) leavesBatch := by
    decide
  have hreach := (Transition.ReachableVia.start hstart).run hkeeps
    (Option.some_get leavesBatch_runs).symm
  exact absurd (hall _ hreach) (by decide)

end ThreadPool
end Yacul
