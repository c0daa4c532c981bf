import Yacul.Support.Transition
import Yacul.Support.Roster

/-!
# The spinlock

`Spinlock` is one atomic flag.  `lock` exchanges it once and, when that fails,
alternates between `SpinWait`, which only loads it, and further exchanges;
`try_lock` loads it before it exchanges it.  A thread makes one access to the
flag in a step.
-/

namespace Yacul
namespace Spinlock

/-! ## Threads -/

def kMaxSpinCount : UInt32 := 1024

def kYieldInterval : UInt32 := 64

/-- Where a thread is in an operation. -/
inductive Pc
  | idle
  /-- The exchange of the fast path. -/
  | fastExchange
  /-- `SpinWait` has emitted `i` of `spinCount` pauses. -/
  | relax (spinCount i : UInt32)
  | spinLoad (spinCount : UInt32)
  | yieldLoad (yieldIter : UInt32)
  | yield (yieldIter : UInt32)
  | sleep (yieldIter : UInt32)
  /-- The exchange after `SpinWait`. -/
  | retryExchange
  | tryLoad
  | tryExchange
  /-- The store of `unlock`. -/
  | release
  /-- The load of `is_locked`. -/
  | load
deriving DecidableEq, Repr

/-- A thread; `holds` from a successful acquisition to its `unlock`. -/
structure Thread where
  pc : Pc := .idle
  holds : Bool := false
deriving DecidableEq, Repr

def Thread.goto (t : Thread) (pc : Pc) : Thread :=
  { t with pc := pc }

inductive Call
  | lock
  | tryLock
  | unlock
  | isLocked
deriving DecidableEq, Repr

/-- A call up to its first access.  A thread unlocks only what it has
acquired. -/
def begin (t : Thread) : Call → Option Thread
  | .lock => some (t.goto .fastExchange)
  | .tryLock => some (t.goto .tryLoad)
  | .unlock => if t.holds then some (t.goto .release) else none
  | .isLocked => some (t.goto .load)

/-- `SpinWait` from its first line. -/
def spinWait : Pc :=
  .relax 1 0

/-- `locked_.exchange(true)`; the thread goes to `failed` if the flag was set
already. -/
def exchange (locked : Bool) (t : Thread) (failed : Pc) : Bool × Thread :=
  if locked then (true, t.goto failed)
  else (true, { pc := .idle, holds := true })

/-- The next access of a thread inside an operation. -/
def advance (locked : Bool) (t : Thread) : Option (Bool × Thread) :=
  match t.pc with
  | .idle => none
  | .fastExchange => some (exchange locked t spinWait)
  | .relax spinCount i =>
      some (locked, t.goto
        (if i < spinCount then .relax spinCount (i + 1)
          else .spinLoad spinCount))
  | .spinLoad spinCount =>
      some (locked, t.goto
        (if !locked then .retryExchange
          else if spinCount <<< 1 ≤ kMaxSpinCount then
            .relax (spinCount <<< 1) 0
          else .yieldLoad 0))
  | .yieldLoad yieldIter =>
      some (locked, t.goto
        (if !locked then .retryExchange
          else if (yieldIter + 1) % kYieldInterval = 0 then
            .sleep (yieldIter + 1)
          else .yield (yieldIter + 1)))
  | .yield yieldIter | .sleep yieldIter =>
      some (locked, t.goto (.yieldLoad yieldIter))
  | .retryExchange => some (exchange locked t spinWait)
  | .tryLoad => some (locked, t.goto (if locked then .idle else .tryExchange))
  | .tryExchange => some (exchange locked t .idle)
  | .release => some (false, { pc := .idle, holds := false })
  | .load => some (locked, t.goto .idle)

/-! ## The lock -/

/-- The flag and the threads that use it. -/
structure State where
  locked : Bool := false
  threads : List Thread
deriving DecidableEq, Repr

inductive Action
  /-- An idle thread calls an operation. -/
  | call (thread : ℕ) (call : Call)
  | run (thread : ℕ)
deriving DecidableEq, Repr

/-- One step. -/
def step (s : State) : Action → Option State
  | .call i call =>
      s.threads[i]?.bind fun t =>
        if t.pc = .idle then
          (begin t call).map fun t' =>
            { s with threads := s.threads.set i t' }
        else none
  | .run i =>
      s.threads[i]?.bind fun t =>
        (advance s.locked t).map fun (locked, t') =>
          { locked := locked, threads := s.threads.set i t' }

/-- Any number of threads, none of which has used the lock. -/
def init : Set State :=
  { s | ∃ n, s = { threads := List.replicate n {} } }

abbrev Reachable : State → Prop :=
  Transition.Reachable step init

/-- The threads between a successful acquisition and its `unlock`. -/
def State.holders (s : State) : ℕ :=
  s.threads.countP Thread.holds

/-! ## What a step can do -/

/-- The effect of an access on the flag and on the thread's hold. -/
inductive Moves (locked : Bool) (t : Thread) : Bool → Thread → Prop
  | quiet {t' : Thread} (hholds : t'.holds = t.holds) :
      Moves locked t locked t'
  | acquire {t' : Thread} (hfree : locked = false)
      (hholds : t'.holds = true) : Moves locked t true t'
  | release {t' : Thread} (hpc : t.pc = .release)
      (hholds : t'.holds = false) : Moves locked t false t'

variable {locked locked' : Bool} {t t' : Thread} {s s' : State}

theorem exchange_moves {failed : Pc}
    (h : exchange locked t failed = (locked', t')) :
    Moves locked t locked' t' := by
  cases locked with
  | true =>
      obtain ⟨rfl, rfl⟩ := Prod.mk.inj h
      exact .quiet rfl
  | false =>
      obtain ⟨rfl, rfl⟩ := Prod.mk.inj h
      exact .acquire rfl rfl

theorem advance_moves (h : advance locked t = some (locked', t')) :
    Moves locked t locked' t' := by
  unfold advance at h
  cases hpc : t.pc with
  | idle => simp only [hpc, reduceCtorEq] at h
  | fastExchange | retryExchange | tryExchange =>
      simp only [hpc, Option.some.injEq] at h
      exact exchange_moves h
  | release =>
      simp only [hpc, Option.some.injEq, Prod.mk.injEq] at h
      obtain ⟨rfl, rfl⟩ := h
      exact .release hpc rfl
  | _ =>
      simp only [hpc, Option.some.injEq, Prod.mk.injEq] at h
      obtain ⟨rfl, rfl⟩ := h
      exact .quiet rfl

/-- Where a call begins, the hold is as before; only a holder releases. -/
theorem begin_eq_some {call : Call} (h : begin t call = some t') :
    t'.holds = t.holds ∧ (t'.pc = .release → t.holds = true) := by
  cases call with
  | unlock =>
      simp only [begin, Option.ite_none_right_eq_some,
        Option.some.injEq] at h
      obtain ⟨hholds, rfl⟩ := h
      exact ⟨rfl, fun _ => hholds⟩
  | _ =>
      obtain rfl := Option.some.inj h
      exact ⟨rfl, nofun⟩

/-- No access leads to the store of `unlock`. -/
theorem advance_pc_ne (h : advance locked t = some (locked', t')) :
    t'.pc ≠ .release := by
  unfold advance at h
  cases hpc : t.pc with
  | idle => simp only [hpc, reduceCtorEq] at h
  | fastExchange | retryExchange | tryExchange =>
      simp only [hpc, Option.some.injEq] at h
      cases locked <;> obtain ⟨-, rfl⟩ := Prod.mk.inj h <;> exact nofun
  | relax | spinLoad | yieldLoad | tryLoad =>
      simp only [hpc, Option.some.injEq, Prod.mk.injEq] at h
      obtain ⟨-, rfl⟩ := h
      dsimp only [Thread.goto]
      split_ifs <;> exact nofun
  | _ =>
      simp only [hpc, Option.some.injEq, Prod.mk.injEq] at h
      obtain ⟨-, rfl⟩ := h
      exact nofun

/-! ## Mutual exclusion -/

/-- The flag is set exactly while there is a holder, and only a holder is
about to clear it. -/
structure Owned (s : State) : Prop where
  flag : s.holders = s.locked.toNat
  releasing : ∀ (i : ℕ) (t : Thread), s.threads[i]? = some t →
    t.pc = .release → t.holds = true

/-- One thread moves to `t'`. -/
theorem Owned.set (hs : Owned s) {i : ℕ} (ht : s.threads[i]? = some t)
    (hmoves : Moves s.locked t locked' t')
    (hpc : t'.pc = .release → t'.holds = true) :
    Owned { locked := locked', threads := s.threads.set i t' } := by
  have hcount := Roster.countP_set_add (p := Thread.holds) ht t'
  have hflag := hs.flag
  simp only [State.holders] at hflag
  constructor
  · simp only [State.holders]
    cases hmoves with
    | quiet hholds =>
        rw [hholds] at hcount
        omega
    | acquire hfree hholds =>
        rw [hholds, hflag, hfree] at hcount
        have hnone : s.threads.countP Thread.holds = 0 := by
          rw [hflag, hfree]
          rfl
        have hout : t.holds = false := by
          have hno := List.countP_eq_zero.mp hnone t (List.mem_of_getElem? ht)
          exact Bool.eq_false_iff.mpr hno
        rw [hout] at hcount
        simpa using hcount
    | release hrelease hholds =>
        have hin := hs.releasing i t ht hrelease
        rw [hholds, hin] at hcount
        have hle : s.locked.toNat ≤ 1 := Bool.toNat_le _
        simp only [Bool.toNat_true, Bool.toNat_false] at hcount ⊢
        omega
  · intro j u hu hrelease
    by_cases hij : i = j
    · subst hij
      obtain ⟨hlt, -⟩ := List.getElem?_eq_some_iff.mp ht
      rw [List.getElem?_set_self hlt] at hu
      obtain rfl := Option.some.inj hu
      exact hpc hrelease
    · rw [List.getElem?_set_ne hij] at hu
      exact hs.releasing j u hu hrelease

theorem Owned.step (hs : Owned s) {a : Action} (h : step s a = some s') :
    Owned s' := by
  cases a with
  | call i call =>
      obtain ⟨t, ht, h⟩ := Option.bind_eq_some_iff.mp h
      obtain ⟨-, h⟩ := Option.ite_none_right_eq_some.mp h
      obtain ⟨t', hbegin, rfl⟩ := Option.map_eq_some_iff.mp h
      obtain ⟨hholds, hrelease⟩ := begin_eq_some hbegin
      apply hs.set ht (.quiet hholds)
      intro hpc
      rw [hholds]
      exact hrelease hpc
  | run i =>
      obtain ⟨t, ht, h⟩ := Option.bind_eq_some_iff.mp h
      obtain ⟨⟨locked', t'⟩, hadvance, rfl⟩ := Option.map_eq_some_iff.mp h
      exact hs.set ht (advance_moves hadvance)
        fun hpc => absurd hpc (advance_pc_ne hadvance)

theorem owned_init (hs : s ∈ init) : Owned s := by
  obtain ⟨n, rfl⟩ := hs
  constructor
  · simp [State.holders, List.countP_replicate]
  · intro i t ht hpc
    obtain rfl := List.eq_of_mem_replicate (List.mem_of_getElem? ht)
    cases hpc

/-- At most one thread is between a successful acquisition and its `unlock`,
and the flag is set exactly when one is. -/
structure Exclusive (s : State) : Prop where
  holders_le_one : s.holders ≤ 1
  flag : s.locked = true ↔ s.holders = 1
  unique : ∀ (i j : ℕ) (t u : Thread), s.threads[i]? = some t →
    t.holds = true → s.threads[j]? = some u → u.holds = true → i = j

theorem reachable_exclusive (hs : Reachable s) : Exclusive s := by
  have howned : Owned s :=
    hs.invariant (fun s hs => owned_init hs) fun s a s' h _ => h.step
  have hle : s.holders ≤ 1 := by
    rw [howned.flag]
    exact Bool.toNat_le _
  refine ⟨hle, ?_, fun i j t u hi ht hj hu =>
    Roster.eq_of_countP_le_one hle hi ht hj hu⟩
  rw [howned.flag]
  cases s.locked <;> simp

/-! ## A contended run -/

/-- One thread takes the lock and releases it while another spins; the other
takes it, and `try_lock` of the first fails. -/
def contends : List Action :=
  [Action.call 0 .lock, .run 0, .call 1 .lock, .run 1, .run 1, .run 1, .run 1,
    .call 0 .unlock, .run 0] ++ List.replicate 4 (Action.run 1) ++
    [Action.run 1, .call 0 .tryLock, .run 0]

theorem contends_runs :
    (Transition.run step { threads := [{}, {}] } contends).isSome := by
  decide

theorem pair_mem_init : { threads := [{}, {}] } ∈ init :=
  ⟨2, rfl⟩

theorem reachable_exclusive_contends :
    Exclusive ((Transition.run step { threads := [{}, {}] } contends).get
      contends_runs) :=
  reachable_exclusive (Transition.reachable_get_run pair_mem_init contends_runs)

end Spinlock
end Yacul
