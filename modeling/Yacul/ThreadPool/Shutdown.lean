import Yacul.Support.Roster
import Yacul.ThreadPool.Effects
import Mathlib.Tactic.MkIffOfInductiveProp

/-!
# Joining under the mutex of the threads

`Shutdown` and `ShutdownNow` join the workers while they hold
`threads_mutex_`.  A worker that comes to wait for that mutex never leaves
`WorkerLoop` again, and the join never returns.  The module names the two ways
into such a state and shows that there is no third.
-/

namespace Yacul
namespace ThreadPool

/-- The call is about to lock `threads_mutex_`. -/
def CallPc.locksThreads : CallPc → Bool
  | .expandThreads | .addThread _ _ | .lockThreads | .resizeLog _
  | .resizeGrow _ | .resizeShrink _ | .resizeNotify | .getThreadCount => true
  | _ => false

/-- The worker waits for `threads_mutex_`: in its retirement check, or in a
call that its task makes. -/
def Worker.awaitsThreads (w : Worker) : Bool :=
  w.pc = .retire || w.call?.any CallPc.locksThreads

/-- The call holds `threads_mutex_` and joins a worker. -/
def CallPc.joins : CallPc → Bool
  | .join _ => true
  | _ => false

/-- The worker that the call joins. -/
def State.joinedBy (s : State) : CallPc → Option ℕ
  | .join k => s.threads[k]?
  | _ => none

/-- No call joins a worker that waits for the mutex the call holds. -/
def NoJoinDeadlock (s : State) : Prop :=
  ∀ pc ∈ s.calls, ∀ i ∈ s.joinedBy pc, ∀ w ∈ s.workers[i]?,
    w.awaitsThreads = false

/-- The next move of the worker takes it to `threads_mutex_`: it has been idle
for too long, or the task makes a call that locks the mutex. -/
def Worker.turnsToThreads (s : State) (w : Worker) (ch : Choice) : Bool :=
  match w.pc with
  | .idleTest =>
      milliseconds s.config.threadIdleTimeout < s.clock - w.lastWorkTime
  | .running _ .user =>
      ch.call.any fun op => (startCall s op).locksThreads
  | .running _ (.call pc) | .running _ (.reschedule pc) =>
      match pc with
      | .notifyOne | .addThreadId _ | .joinScheduler => true
      | _ => false
  | _ => false

/-- The place in `threads_` a call goes on to join. -/
def CallPc.nextJoin : CallPc → Option ℕ
  | .lockThreads => some 0
  | .join k => some (k + 1)
  | _ => none

/-- No call comes to join another worker that already waits for
`threads_mutex_`, and no worker turns to the mutex while it is joined. -/
@[mk_iff]
structure JoinsFreely (s : State) (a : Action) : Prop where
  arrives : ∀ who ∈ a.caller?, ∀ pc ∈ s.callAt who, ∀ k ∈ pc.nextJoin,
    ∀ i ∈ s.threads[k]?, who ≠ .worker i →
      ∀ w ∈ s.workers[i]?, w.awaitsThreads = false
  joined : ∀ pc ∈ s.calls, ∀ i ∈ s.joinedBy pc, ∀ w ∈ s.workers[i]?,
    a.caller? = some (.worker i) → w.turnsToThreads s a.choice = false

instance (s : State) (a : Action) : Decidable (JoinsFreely s a) :=
  decidable_of_iff' _ (joinsFreely_iff s a)

/-! ## The holder of the mutex -/

/-- The number of calls that join. -/
def State.joining (s : State) : ℕ :=
  s.clients.countP CallPc.joins +
    s.workers.countP fun w => w.call?.any CallPc.joins

/-- `threads_mutex_` is held from one step to the next exactly by the one call
that joins. -/
def OneJoiner (s : State) : Prop :=
  s.joining = s.threadsHeld.toNat

theorem joining_pos {s : State} {k : ℕ} (h : .join k ∈ s.calls) :
    0 < s.joining := by
  unfold State.joining
  obtain hclient | ⟨w, hw, hcall⟩ := mem_calls.mp h
  · have hpos : 0 < s.clients.countP CallPc.joins :=
      List.countP_pos_iff.mpr ⟨_, hclient, rfl⟩
    omega
  · have hpos : 0 < s.workers.countP fun w => w.call?.any CallPc.joins :=
      List.countP_pos_iff.mpr ⟨w, hw, by simp [hcall, CallPc.joins]⟩
    omega

/-- A call that joins holds the mutex. -/
theorem OneJoiner.held {s : State} (hJ : OneJoiner s) {k : ℕ}
    (h : .join k ∈ s.calls) : s.threadsHeld = true := by
  have hpos := joining_pos h
  rw [hJ] at hpos
  cases hheld : s.threadsHeld with
  | true => rfl
  | false => simp [hheld] at hpos

theorem CallEffect.threadsHeld {s s' : State} {who : Caller}
    {pc pc' : CallPc} (h : CallEffect s who pc s' pc')
    (hjoins : pc.joins = false) (hlock : pc ≠ .lockThreads) :
    s'.threadsHeld = s.threadsHeld := by
  cases h with
  | quiet hq => exact hq.threadsHeld
  | enqueue priority =>
      exact (enqueueTask_same s priority).1.threadsHeld
  | setShutdown now => cases now <;> rfl
  | lockThreads => exact absurd rfl hlock
  | joined => simp [CallPc.joins] at hjoins
  | joinSelf => simp [CallPc.joins] at hjoins
  | _ => rfl

/-- A call joins after it has locked the mutex or joined before. -/
theorem CallPc.Follows.joins {pc : CallPc} {k : ℕ}
    (h : pc.Follows (.join k)) : pc.nextJoin = some k := by
  cases h <;> rfl

/-- A move of a call takes the mutex when it starts to join and gives it back
when it ends. -/
theorem callStep_joins {s s' : State} {who : Caller} {ch : Choice}
    {pc pc' : CallPc} (h : callStep s who ch pc = some (s', pc'))
    (hheld : pc.joins = true → s.threadsHeld = true) :
    pc.joins.toNat + s'.threadsHeld.toNat =
      pc'.joins.toNat + s.threadsHeld.toNat := by
  by_cases hnext : pc.nextJoin = none
  · have hjoins : pc.joins = false := by
      cases pc <;> first | rfl | simp [CallPc.nextJoin] at hnext
    have hlock : pc ≠ .lockThreads := by
      rintro rfl
      simp [CallPc.nextJoin] at hnext
    have hjoins' : pc'.joins = false := by
      by_contra hjoins'
      cases pc' with
      | join k => simp [(callStep_follows h).joins] at hnext
      | _ => simp [CallPc.joins] at hjoins'
    rw [(callStep_effect h).threadsHeld hjoins hlock, hjoins, hjoins']
  · cases pc with
    | join k =>
        have hs := hheld rfl
        simp only [callStep] at h
        split at h
        · simp only [Option.some.injEq, Prod.mk.injEq] at h
          obtain ⟨rfl, rfl⟩ := h
          simp [hs, CallPc.joins]
        · split at h
          · simp only [Option.some.injEq, Prod.mk.injEq] at h
            obtain ⟨rfl, rfl⟩ := h
            simp [hs, CallPc.joins]
          · simp only [whenFree_eq_some, Prod.mk.injEq] at h
            obtain ⟨-, rfl, rfl⟩ := h
            rfl
    | lockThreads =>
        simp only [callStep, whenFree_eq_some, Prod.mk.injEq] at h
        obtain ⟨hfree, rfl, rfl⟩ := h
        simp [hfree, CallPc.joins]
    | _ => exact absurd rfl hnext

/-- The move that comes to join leaves `threads_` and the workers alone. -/
theorem callStep_toJoin {s s' : State} {who : Caller} {ch : Choice}
    {pc : CallPc} {k : ℕ}
    (h : callStep s who ch pc = some (s', .join k)) :
    s'.threads = s.threads := by
  cases callStep_effect h with
  | quiet hq => exact hq.threads
  | addThread => cases callStep_follows h
  | _ => rfl

theorem startCall_joins (s : State) (op : Call) :
    (startCall s op).joins = false := by
  cases op with
  | shutdown waitForTasks => cases waitForTasks <;> rfl
  | _ => rfl

theorem workerStep_joins {s s' : State} {i : ℕ} {w w' : Worker}
    {ch : Choice} (h : workerStep s i w ch = some (s', w'))
    (hheld : ∀ k, w.call? = some (.join k) → s.threadsHeld = true) :
    (w.call?.any CallPc.joins).toNat + s'.threadsHeld.toNat =
      (w'.call?.any CallPc.joins).toNat + s.threadsHeld.toNat := by
  cases hpc : w.call? with
  | some pc =>
      obtain ⟨rfl, rfl, hcall'⟩ | ⟨pc', hcall', hcall⟩ :=
        workerStep_call? h hpc
      · simp [hcall', CallPc.joins]
      · rw [hcall', Option.any_some, Option.any_some]
        apply callStep_joins hcall
        intro hjoins
        cases pc with
        | join k => exact hheld k hpc
        | _ => simp [CallPc.joins] at hjoins
  | none =>
      have heff := workerStep_effect h
      have hsame : SameControl s s' := by
        obtain hsame | ⟨pc, pc', hcall, -⟩ := heff.sameControl
        · exact hsame
        · simp [hpc] at hcall
      have hjoins' : w'.call?.any CallPc.joins = false := by
        cases hq : w'.call? with
        | none => rfl
        | some q =>
            obtain ⟨op, t, -, -, rfl⟩ | ⟨r, rfl⟩ | ⟨pc, hcall, -⟩ :=
              heff.call?_cases hq
            · exact startCall_joins s op
            · rfl
            · simp [hpc] at hcall
      simp [hjoins', hsame.threadsHeld]

theorem spawned_joins {ws : List Worker}
    (hspawned : ∀ w ∈ ws, w.pc = .spawned) :
    ws.countP (fun w => w.call?.any CallPc.joins) = 0 := by
  rw [List.countP_eq_zero]
  intro w hw
  simp [call?_spawned (hspawned w hw)]

theorem OneJoiner.step {s s' : State} {a : Action} (hJ : OneJoiner s)
    (h : step s a = some s') : OneJoiner s' := by
  cases a with
  | tick elapsed =>
      obtain rfl := step_tick h
      exact hJ
  | call op =>
      obtain rfl := step_call h
      have hnew := startCall_joins s op
      simpa [OneJoiner, State.joining, List.countP_append, hnew] using hJ
  | client n ch =>
      obtain ⟨pc, s₁, pc', hpc, hcall, rfl⟩ := step_client h
      have heff := callStep_effect hcall
      obtain ⟨ws, hws, hspawned⟩ := heff.workers
      have hmoved := callStep_joins hcall fun hjoins => by
        cases pc with
        | join k =>
            exact hJ.held (mem_calls.mpr (.inl (List.mem_of_getElem? hpc)))
        | _ => simp [CallPc.joins] at hjoins
      have hcount := Roster.countP_set_add (p := CallPc.joins) hpc pc'
      have hnone := spawned_joins hspawned
      unfold OneJoiner State.joining at *
      simp only [heff.clients, hws, List.countP_append, hnone]
      omega
  | worker i ch =>
      obtain ⟨w, s₁, w', hw, hworker, rfl⟩ := step_worker h
      have heff := workerStep_effect hworker
      obtain ⟨ws, hws, hspawned⟩ := heff.workers
      have hmoved := workerStep_joins hworker fun k hcall =>
        hJ.held (mem_calls.mpr (.inr ⟨w, List.mem_of_getElem? hw, hcall⟩))
      have hcount := Roster.countP_set_add
        (p := fun w : Worker => w.call?.any CallPc.joins)
        (Roster.getElem?_append hw ws) w'
      have hnone := spawned_joins hspawned
      unfold OneJoiner State.joining at *
      simp only [heff.clients, hws, List.countP_append, hnone] at *
      omega
  | scheduler ch =>
      obtain ⟨pc, s₁, pc', -, hsched, rfl⟩ := step_scheduler h
      have hsame := (schedulerStep_effect hsched).sameThreads
      simpa [OneJoiner, State.joining, hsame.clients, hsame.workers,
        hsame.threadsHeld] using hJ
  | cancel f =>
      obtain rfl := step_cancel h
      exact hJ

/-! ## The workers that are joined -/

theorem CallPc.Follows.locksThreads {pc pc' : CallPc} (h : pc.Follows pc')
    (hpc' : pc'.locksThreads = true) :
    pc.locksThreads = true ∨ pc = .notifyOne ∨ (∃ t, pc = .addThreadId t) ∨
      pc = .joinScheduler := by
  cases h with
  | notified => exact .inr (.inl rfl)
  | addThread _ target => exact .inr (.inr (.inl ⟨target, rfl⟩))
  | lockThreads => exact .inr (.inr (.inr rfl))
  | added | resizeGrow | resizeShrink | resizeNotify => exact .inl rfl
  | _ => exact absurd hpc' Bool.false_ne_true

theorem CallPc.Follows.locksThreads_of_nextJoin {pc pc' : CallPc} {k : ℕ}
    (h : pc.Follows pc') (hnext : pc.nextJoin = some k) :
    pc'.locksThreads = false := by
  cases h with
  | finish | join | joinNext => rfl
  | _ => simp [CallPc.nextJoin] at hnext

/-- A worker comes to wait for the mutex by a move that turns to it. -/
theorem workerStep_awaitsThreads {s s' : State} {i : ℕ} {w w' : Worker}
    {ch : Choice} (h : workerStep s i w ch = some (s', w'))
    (hw : w.awaitsThreads = false) (hw' : w'.awaitsThreads = true) :
    w.turnsToThreads s ch = true := by
  have heff := workerStep_effect h
  rcases Bool.or_eq_true_iff.mp hw' with hretire | hlocks
  · obtain ⟨hidle, htimeout⟩ :=
      (workerStep_enters h).2.2 (of_decide_eq_true hretire)
    simpa [Worker.turnsToThreads, hidle] using htimeout
  · obtain ⟨q, hq, hlocks⟩ := (Option.any_eq_true _ _).mp hlocks
    obtain ⟨op, t, hop, hpc, rfl⟩ | ⟨r, rfl⟩ | ⟨pc, hpc, hcall⟩ :=
      heff.call?_cases hq
    · simp [Worker.turnsToThreads, hpc, hop, hlocks]
    · exact absurd hlocks Bool.false_ne_true
    · obtain hold | hturns := (callStep_follows hcall).locksThreads hlocks
      · simp [Worker.awaitsThreads, hpc, hold] at hw
      · obtain ⟨t, hrun | hrun⟩ := call?_eq_some.mp hpc
        all_goals
          obtain rfl | ⟨target, rfl⟩ | rfl := hturns
          all_goals simp [Worker.turnsToThreads, hrun]

theorem callStep_threads {s s' : State} {who : Caller} {ch : Choice}
    {pc pc' : CallPc} (hheld : s.threadsHeld = true)
    (h : callStep s who ch pc = some (s', pc')) :
    s'.threads = s.threads ∨ s'.threads = [] := by
  cases callStep_effect h with
  | quiet hq => exact .inl hq.threads
  | enqueue priority => exact .inl (enqueueTask_same s priority).1.threads
  | setShutdown now => cases now <;> exact .inl rfl
  | addThread threadId target hfree => simp [hheld] at hfree
  | joined => exact .inr rfl
  | _ => exact .inl rfl

/-- While a call joins, `threads_` changes only by being cleared. -/
theorem step_threads {s s' : State} {a : Action}
    (hheld : s.threadsHeld = true) (h : step s a = some s') :
    s'.threads = s.threads ∨ s'.threads = [] := by
  obtain hsame | ⟨who, ch, pc, s₁, pc', -, -, hcall, hs'⟩ := step_callParts h
  · exact .inl hsame.threads
  · rw [hs']
    have hthreads := callStep_threads hheld hcall
    exact hthreads

/-- A step that meets the condition leads to no deadlock. -/
theorem step_noJoinDeadlock {s s' : State} {a : Action} (hJ : OneJoiner s)
    (hP : NoJoinDeadlock s) (hfree : JoinsFreely s a)
    (h : step s a = some s') : NoJoinDeadlock s' := by
  intro q hq i hi w' hw'
  cases q with
  | join k =>
      by_contra hawaits
      replace hawaits : w'.awaitsThreads = true := by simpa using hawaits
      obtain hold | ⟨op, -, hstart⟩ | ⟨r, hprepare⟩ |
        ⟨who, ch, pc, s₁, hwho, hpc, hcall, hs'⟩ := mem_calls_step h hq
      · -- The call was joining before the step.
        obtain hthreads | hthreads := step_threads (hJ.held hold) h
        · have hi₀ : i ∈ s.joinedBy (.join k) := by
            rwa [State.joinedBy, ← hthreads]
          obtain ⟨hsame, -⟩ | hspawned | ⟨ch, w, s₁, rfl, hw, hworker⟩ :=
            getElem?_workers_step h hw'
          · simp [hP _ hold i hi₀ w' hsame] at hawaits
          · simp [Worker.awaitsThreads, Worker.call?, hspawned] at hawaits
          · have hturns := workerStep_awaitsThreads hworker
              (hP _ hold i hi₀ w hw) hawaits
            have hclear := hfree.joined _ hold i hi₀ w hw rfl
            exact Bool.false_ne_true (hclear.symm.trans hturns)
        · simp [State.joinedBy, hthreads] at hi
      · have hjoins := startCall_joins s op
        rw [← hstart] at hjoins
        simp [CallPc.joins] at hjoins
      · exact absurd hprepare (by simp)
      · -- The call comes to join.
        have hnext := (callStep_follows hcall).joins
        have hthreads : s'.threads = s.threads := by
          have hsame := callStep_toJoin hcall
          rw [hs']
          exact hsame
        have hi₀ : i ∈ s.threads[k]? := by
          rwa [State.joinedBy, hthreads] at hi
        obtain ⟨hsame, hother⟩ | hspawned | ⟨ch', w, s₂, rfl, hw, hworker⟩ :=
          getElem?_workers_step h hw'
        · have hne : who ≠ .worker i := by
            rintro rfl
            cases a with
            | worker j ch' =>
                obtain rfl : j = i := by simpa [Action.caller?] using hwho
                exact hother ch' rfl
            | _ => simp [Action.caller?] at hwho
          have hclear :=
            hfree.arrives who hwho pc hpc k hnext i hi₀ hne w' hsame
          exact Bool.false_ne_true (hclear.symm.trans hawaits)
        · simp [Worker.awaitsThreads, Worker.call?, hspawned] at hawaits
        · -- The worker that joins is itself in no call that locks.
          obtain rfl := Option.some.inj hwho
          have hwpc : w.call? = some pc := by simpa [State.callAt, hw] using hpc
          obtain ⟨rfl, -⟩ | ⟨pc', hpc', hmove⟩ := workerStep_call? hworker hwpc
          · simp [CallPc.nextJoin] at hnext
          · have hlocks :=
              (callStep_follows hmove).locksThreads_of_nextJoin hnext
            obtain ⟨t, hrun | hrun⟩ := call?_eq_some.mp hpc'
            all_goals
              simp [Worker.awaitsThreads, Worker.call?, hrun, hlocks]
                at hawaits
  | _ => simp [State.joinedBy] at hi

theorem construct_oneJoiner (c : CheckedConfig) (clock : ℤ) :
    OneJoiner (construct c clock) := by
  simp [OneJoiner, State.joining, construct, Worker.call?]

/-- A client shuts the pool down and starts to join the first worker. -/
def startsToJoin : List Action :=
  [.call (.shutdown false), .client 0 {}, .client 0 {}, .client 0 {},
    .client 0 {}, .client 0 {}, .client 0 {}]

theorem startsToJoin_runs :
    (Transition.run step (construct pairConfig 0) startsToJoin).isSome := by
  decide

/-- A worker that has found the queue empty is idle for too long and turns to
its retirement check while it is joined. -/
def retiresWhileJoined : List Action :=
  [Action.worker 0 {}, Action.worker 0 {}, Action.worker 0 {}, Action.worker 0 {},
    Action.tick 30000000001] ++ startsToJoin ++ [Action.worker 0 {}]

theorem retiresWhileJoined_runs :
    (Transition.run step (construct pairConfig 0)
      retiresWhileJoined).isSome := by
  decide

end ThreadPool
end Yacul
