import Yacul.ThreadPool.Forced

/-!
# The parallel utilities

`ParallelFor` and `ParallelTransform` submit one task for each element to the
global pool and wait for the futures in the order of the elements.  The caller
moves among the threads of a pool that anybody else may use at the same time.
A future is named by the task that sets it.  It is broken when its
`packaged_task` is destroyed before it has run: at once if the queue is full,
later if `ShutdownNow` drops the task.
-/

namespace Yacul
namespace ThreadPool

/-! ## Calls -/

inductive Utility
  | parallelFor
  | parallelTransform
deriving DecidableEq, Repr

/-- A call of one of the utilities; `func` says what the function returns or
throws. -/
structure Job (α β ε : Type*) where
  utility : Utility
  input : List α
  func : α → Except ε β

/-- Where the caller is. -/
inductive UtilityPc (β ε : Type*)
  /-- The head of the loop over the elements. -/
  | next
  /-- In `Submit`, which is the call `client` of the pool. -/
  | submit (client : ℕ)
  /-- `f.wait()` for the future at `k`. -/
  | wait (k : ℕ)
  /-- `f.get()`, with the results so far. -/
  | get (results : List β)
  | returned (results : List β)
  /-- An exception of the function, or the `future_error` of a broken
  promise. -/
  | threw (error : Option ε)

/-- The loop over the futures. -/
def Utility.collect {β ε : Type*} : Utility → UtilityPc β ε
  | .parallelFor => .wait 0
  | .parallelTransform => .get []

/-- A task has applied the function to the element at a position. -/
structure Outcome (β ε : Type*) where
  element : ℕ
  task : ℕ
  value : Except ε β

/-- A ready future. -/
inductive Ready (β ε : Type*)
  | broken
  | done (value : Except ε β)

/-- The pool with the caller; `futures` has the task of each submission, or
`none` for a submission that was dropped; `outcomes` are in the order of
time. -/
structure Parallel (β ε : Type*) where
  pool : State
  pc : UtilityPc β ε := .next
  futures : List (Option ℕ) := []
  outcomes : List (Outcome β ε) := []

/-! ## Steps -/

/-- The queue has no room for another submission. -/
def State.queueFull (s : State) : Bool :=
  s.config.maxQueueSize > 0 && s.config.maxQueueSize ≤ s.stats.queueSize

/-- The future of a submission whose `EnqueueTask` executes its section; the
process ends if the pool is shut down. -/
def State.submission (s : State) : List (Option ℕ) :=
  if s.shutdown then []
  else if s.queueFull then [none]
  else [some s.accepted]

/-- The task whose callable returns in a move of the worker. -/
def Worker.returning? (w : Worker) (ch : Choice) : Option Task :=
  match w.pc, ch.call with
  | .running t .user, none => if t.recurring?.isSome then none else some t
  | _, _ => none

/-- The task whose callable returns in an action. -/
def State.returning? (s : State) : Action → Option Task
  | .worker i ch => s.workers[i]?.bind fun w => w.returning? ch
  | _ => none

section

variable {α β ε : Type*}

/-- The future at position `k`, when it is ready. -/
def Parallel.futureAt (s : Parallel β ε) (k : ℕ) : Option (Ready β ε) :=
  match s.futures[k]? with
  | some (some id) =>
      match s.outcomes.find? fun o => o.task = id with
      | some o => some (.done o.value)
      | none => if id ∈ s.pool.discarded then some .broken else none
  | some none => some .broken
  | none => none

/-- `results.emplace_back(f.get())`. -/
def emplaceBack (results : List β) : Ready β ε → UtilityPc β ε
  | .broken => .threw none
  | .done (.error e) => .threw (some e)
  | .done (.ok v) => .get (results ++ [v])

/-- A move of the caller. -/
def callerStep (j : Job α β ε) (s : Parallel β ε) (ch : Choice) :
    Option (Parallel β ε) :=
  if s.pool.aborted then none
  else match s.pc with
    | .next =>
        if s.futures.length < j.input.length then
          (step s.pool (.call (.submit .kNormal))).map fun pool =>
            { s with pool := pool, pc := .submit s.pool.clients.length }
        else some { s with pc := j.utility.collect }
    | .submit n =>
        s.pool.clients[n]?.bind fun pc =>
          if pc = .done then some { s with pc := .next }
          else (step s.pool (.client n ch)).map fun pool =>
            { s with
              pool := pool
              futures := s.futures ++
                if pc.enqueues then s.pool.submission else [] }
    | .wait k =>
        if k < s.futures.length then
          (s.futureAt k).map fun _ => { s with pc := .wait (k + 1) }
        else some { s with pc := .returned [] }
    | .get results =>
        if results.length < s.futures.length then
          (s.futureAt results.length).map fun r =>
            { s with pc := emplaceBack results r }
        else some { s with pc := .returned results }
    | .returned _ | .threw _ => none

/-- The outcome of a task of the job. -/
def outcomeOf (j : Job α β ε) (futures : List (Option ℕ)) (t : Task) :
    Option (Outcome β ε) :=
  (futures.idxOf? (some t.id)).bind fun k =>
    j.input[k]?.map fun a => ⟨k, t.id, j.func a⟩

/-- The action is a move of the submission that the caller is in. -/
def Parallel.owns (s : Parallel β ε) (a : Action) : Bool :=
  match s.pc with
  | .submit n => a.caller? = some (.client n)
  | _ => false

/-- A move of any other thread. -/
def otherStep (j : Job α β ε) (s : Parallel β ε) (a : Action) :
    Option (Parallel β ε) :=
  if s.owns a then none
  else (step s.pool a).map fun pool =>
    { s with
      pool := pool
      outcomes := s.outcomes ++
        ((s.pool.returning? a).bind (outcomeOf j s.futures)).toList }

inductive ParallelAction
  | caller (ch : Choice)
  | other (a : Action)
deriving DecidableEq, Repr

/-- One step. -/
def parallelStep (j : Job α β ε) (s : Parallel β ε) :
    ParallelAction → Option (Parallel β ε)
  | .caller ch => callerStep j s ch
  | .other a => otherStep j s a

/-- `ParallelFor`. -/
def parallelForStep (input : List α) (func : α → Except ε β) :
    Parallel β ε → ParallelAction → Option (Parallel β ε) :=
  parallelStep ⟨.parallelFor, input, func⟩

/-- `ParallelTransform`. -/
def parallelTransformStep (input : List α) (func : α → Except ε β) :
    Parallel β ε → ParallelAction → Option (Parallel β ε) :=
  parallelStep ⟨.parallelTransform, input, func⟩

/-- The caller is about to begin, with a pool in any state it can be in. -/
def initialParallel : Set (Parallel β ε) :=
  { s | Transition.Reachable step initial s.pool ∧
    s = { pool := s.pool } }

end

theorem construct_mem_initialParallel {β ε : Type*} (c : CheckedConfig)
    (clock : ℤ) :
    ({ pool := construct c clock } : Parallel β ε) ∈ initialParallel :=
  ⟨.start ⟨c, clock, rfl⟩, rfl⟩

/-! ## What a step can do -/

section

variable {α β ε : Type*}

/-- The moves of the caller. -/
inductive CallerMoves (j : Job α β ε) (s : Parallel β ε) :
    Parallel β ε → Prop
  | submit {pool : State} (hpc : s.pc = .next)
      (hmore : s.futures.length < j.input.length)
      (hstep : step s.pool (.call (.submit .kNormal)) = some pool) :
      CallerMoves j s
        { s with pool := pool, pc := .submit s.pool.clients.length }
  | collect (hpc : s.pc = .next)
      (hall : ¬ s.futures.length < j.input.length) :
      CallerMoves j s { s with pc := j.utility.collect }
  | submitted {n : ℕ} (hpc : s.pc = .submit n)
      (hat : s.pool.clients[n]? = some .done) :
      CallerMoves j s { s with pc := .next }
  | submitting {n : ℕ} {ch : Choice} {pc : CallPc} {pool : State}
      (hpc : s.pc = .submit n) (hat : s.pool.clients[n]? = some pc)
      (hstep : step s.pool (.client n ch) = some pool) :
      CallerMoves j s
        { s with
          pool := pool
          futures := s.futures ++
            if pc.enqueues then s.pool.submission else [] }
  | wait {k : ℕ} {r : Ready β ε} (hpc : s.pc = .wait k)
      (hk : k < s.futures.length) (hready : s.futureAt k = some r) :
      CallerMoves j s { s with pc := .wait (k + 1) }
  | waited {k : ℕ} (hpc : s.pc = .wait k) (hk : ¬ k < s.futures.length) :
      CallerMoves j s { s with pc := .returned [] }
  | get {results : List β} {r : Ready β ε} (hpc : s.pc = .get results)
      (hlength : results.length < s.futures.length)
      (hready : s.futureAt results.length = some r) :
      CallerMoves j s { s with pc := emplaceBack results r }
  | got {results : List β} (hpc : s.pc = .get results)
      (hlength : ¬ results.length < s.futures.length) :
      CallerMoves j s { s with pc := .returned results }

theorem callerStep_moves {j : Job α β ε} {s s' : Parallel β ε} {ch : Choice}
    (h : callerStep j s ch = some s') : CallerMoves j s s' := by
  unfold callerStep at h
  split at h
  · cases h
  · split at h
    · next hpc =>
      split at h
      · next hmore =>
        obtain ⟨pool, hstep, rfl⟩ := Option.map_eq_some_iff.mp h
        exact .submit hpc hmore hstep
      · next hall =>
        obtain rfl := Option.some.inj h
        exact .collect hpc hall
    · next n hpc =>
      obtain ⟨pc, hat, h⟩ := Option.bind_eq_some_iff.mp h
      split at h
      · next hdone =>
        obtain rfl := Option.some.inj h
        exact .submitted hpc (hdone ▸ hat)
      · obtain ⟨pool, hstep, rfl⟩ := Option.map_eq_some_iff.mp h
        exact .submitting hpc hat hstep
    · next k hpc =>
      split at h
      · next hk =>
        obtain ⟨r, hready, rfl⟩ := Option.map_eq_some_iff.mp h
        exact .wait hpc hk hready
      · next hk =>
        obtain rfl := Option.some.inj h
        exact .waited hpc hk
    · next results hpc =>
      split at h
      · next hlength =>
        obtain ⟨r, hready, rfl⟩ := Option.map_eq_some_iff.mp h
        exact .get hpc hlength hready
      · next hlength =>
        obtain rfl := Option.some.inj h
        exact .got hpc hlength
    · cases h
    · cases h

theorem otherStep_eq_some {j : Job α β ε} {s s' : Parallel β ε} {a : Action}
    (h : otherStep j s a = some s') :
    s.owns a = false ∧ ∃ pool, step s.pool a = some pool ∧
      s' = { s with
        pool := pool
        outcomes := s.outcomes ++
          ((s.pool.returning? a).bind (outcomeOf j s.futures)).toList } := by
  unfold otherStep at h
  split at h
  · cases h
  · next howns =>
    obtain ⟨pool, hstep, rfl⟩ := Option.map_eq_some_iff.mp h
    exact ⟨Bool.eq_false_iff.mpr howns, pool, hstep, rfl⟩

end

end ThreadPool
end Yacul
