import Yacul.Misc.MonitorLoop

/-!
# Noticing an exited child

`WaitForChildWithTimeout` reads the clock before each `waitpid`, and gives up
when the deadline is over.  With a timeout of zero, or after a delay, it gives
up before it has asked for the child at all, and the loop of the health checks
goes round beside a child that is dead.
-/

namespace Yacul
namespace MonitorProcess
namespace MonitorLoop

/-- What a call meets: the clock at its start and before each `waitpid`,
whether a signal interrupts that, whether the child has exited by then, and
the child's status.  Times are in nanoseconds. -/
structure Waits where
  start : ℤ
  clock : ℕ → ℤ
  interrupted : ℕ → Bool
  exited : ℕ → Bool
  status : Int32

/-- What a call returns, `*out_status`, and the children. -/
structure Waited where
  exited : Bool
  out_status : Int32
  children : List Child
deriving DecidableEq, Repr

/-- The answers to the `i`-th round. -/
def Waits.answer (w : Waits) (i : ℕ) : Answer where
  interrupted := w.interrupted i
  exited := w.exited i

/-- The loop, from its `i`-th round on, as far as the fuel goes. -/
def pollLoop (w : Waits) (child_pid : ℤ) (deadline : ℤ) (out_status : Int32)
    (children : List Child) : ℕ → ℕ → Option Waited
  | 0, _ => none
  | fuel + 1, i =>
      if w.clock i < deadline then
        match waitpid children child_pid (w.answer i) with
        | (.reaped, children) => some ⟨true, w.status, children⟩
        | (.echild, children) => some ⟨true, 0, children⟩
        | (.running, children) =>
            pollLoop w child_pid deadline out_status children fuel (i + 1)
        | (.eintr, children) =>
            pollLoop w child_pid deadline out_status children fuel (i + 1)
      else some ⟨false, out_status, children⟩

/-- `MonitorProcess::WaitForChildWithTimeout`. -/
def waitForChildWithTimeout (w : Waits) (child_pid timeout : ℤ)
    (out_status : Int32) (children : List Child) (fuel : ℕ) : Option Waited :=
  pollLoop w child_pid (w.start + timeout) out_status children fuel 0

/-- A round of the loop is `waitRound`. -/
theorem pollLoop_waitRound (w : Waits) (deadline : ℤ) (out_status : Int32)
    (m : Memory) (fuel i : ℕ) :
    (pollLoop w m.shared.child_pid deadline out_status m.children (fuel + 1)
        i).map (fun r => (r.exited, r.children)) =
      match waitRound m
          { w.answer i with expired := decide (deadline ≤ w.clock i) } with
      | (some exited, children) => some (exited, children)
      | (none, children) =>
          (pollLoop w m.shared.child_pid deadline out_status children fuel
            (i + 1)).map fun r => (r.exited, r.children) := by
  by_cases hclock : w.clock i < deadline
  · have hopen : decide (deadline ≤ w.clock i) = false :=
      decide_eq_false (Int.not_le.mpr hclock)
    have hsame : waitpid m.children m.shared.child_pid
        { w.answer i with expired := false } =
          waitpid m.children m.shared.child_pid (w.answer i) := rfl
    rw [pollLoop, if_pos hclock, hopen, waitRound, if_neg Bool.false_ne_true,
      hsame]
    cases waitpid m.children m.shared.child_pid (w.answer i) with
    | mk result children =>
        cases result with
        | reaped => rfl
        | running => rfl
        | echild => rfl
        | eintr => rfl
  · have hexpired : decide (deadline ≤ w.clock i) = true :=
      decide_eq_true (Int.not_lt.mp hclock)
    rw [pollLoop, if_neg hclock, hexpired, waitRound, if_pos rfl]
    rfl

section

variable {w : Waits} {pid deadline timeout : ℤ} {out_status : Int32}
  {children : List Child} {fuel i n : ℕ} {r : Waited}

/-! ## The rounds -/

/-- The first `n` rounds are before the deadline and interrupted. -/
def Waits.Skips (w : Waits) (deadline : ℤ) (n : ℕ) : Prop :=
  ∀ j < n, w.clock j < deadline ∧ w.interrupted j = true

/-- A `waitpid` that no signal interrupts is made before the deadline. -/
def Waits.Polls (w : Waits) (timeout : ℤ) : Prop :=
  ∃ n, w.Skips (w.start + timeout) n ∧ w.clock n < w.start + timeout ∧
    w.interrupted n = false

/-- The deadline passes before such a `waitpid`. -/
def Waits.TimesOut (w : Waits) (timeout : ℤ) : Prop :=
  ∃ n, w.Skips (w.start + timeout) n ∧ w.start + timeout ≤ w.clock n

/-- The child of the loop has exited before the call, and nobody has reaped
it. -/
structure Dead (w : Waits) (pid : ℤ) (children : List Child) : Prop where
  exited : ∀ i, w.exited i = true
  held : children.any (Child.holds pid) = true

theorem pollLoop_expired (h : deadline ≤ w.clock i) :
    pollLoop w pid deadline out_status children (fuel + 1) i =
      some ⟨false, out_status, children⟩ := by
  rw [pollLoop, if_neg (Int.not_lt.mpr h)]

theorem pollLoop_interrupted (hclock : w.clock i < deadline)
    (h : w.interrupted i = true) :
    pollLoop w pid deadline out_status children (fuel + 1) i =
      pollLoop w pid deadline out_status children fuel (i + 1) := by
  have hwait : waitpid children pid (w.answer i) = (.eintr, children) := by
    rw [waitpid, Waits.answer, if_pos h]
  rw [pollLoop, if_pos hclock, hwait]

theorem pollLoop_reaped (hdead : Dead w pid children)
    (hclock : w.clock i < deadline) (h : w.interrupted i = false) :
    pollLoop w pid deadline out_status children (fuel + 1) i =
      some ⟨true, w.status, reap pid children⟩ := by
  have hwait : waitpid children pid (w.answer i) =
      (.reaped, reap pid children) := by
    rw [waitpid, Waits.answer, if_neg (by simp [h]), if_pos hdead.held,
      if_pos (hdead.exited i)]
  rw [pollLoop, if_pos hclock, hwait]

theorem pollLoop_skips (h : w.Skips deadline n) :
    pollLoop w pid deadline out_status children (n + fuel) 0 =
      pollLoop w pid deadline out_status children fuel n := by
  induction n generalizing fuel with
  | zero => rw [Nat.zero_add]
  | succ n ih =>
      obtain ⟨hclock, hinterrupted⟩ := h n n.lt_succ_self
      rw [Nat.succ_add_eq_add_succ,
        ih fun j hj => h j (Nat.lt_succ_of_lt hj),
        pollLoop_interrupted hclock hinterrupted]

/-- How the loop ends beside a dead child. -/
theorem pollLoop_eq_some (hdead : Dead w pid children)
    (hskips : w.Skips deadline i)
    (h : pollLoop w pid deadline out_status children fuel i = some r) :
    ∃ n, w.Skips deadline n ∧
      (deadline ≤ w.clock n ∧ r = ⟨false, out_status, children⟩ ∨
        w.clock n < deadline ∧ w.interrupted n = false ∧
          r = ⟨true, w.status, reap pid children⟩) := by
  induction fuel generalizing i with
  | zero => cases h
  | succ fuel ih =>
      by_cases hclock : w.clock i < deadline
      · cases hinterrupted : w.interrupted i with
        | true =>
            rw [pollLoop_interrupted hclock hinterrupted] at h
            refine ih (fun j hj => ?_) h
            obtain hlt | rfl := Nat.lt_succ_iff_lt_or_eq.mp hj
            · exact hskips j hlt
            · exact ⟨hclock, hinterrupted⟩
        | false =>
            rw [pollLoop_reaped hdead hclock hinterrupted] at h
            exact ⟨i, hskips,
              .inr ⟨hclock, hinterrupted, (Option.some.inj h).symm⟩⟩
      · have hexpired := Int.not_lt.mp hclock
        rw [pollLoop_expired hexpired] at h
        exact ⟨i, hskips, .inl ⟨hexpired, (Option.some.inj h).symm⟩⟩

theorem notices_of_polls (hdead : Dead w pid children)
    (h : w.Polls timeout) :
    ∃ fuel, waitForChildWithTimeout w pid timeout out_status children fuel =
      some ⟨true, w.status, reap pid children⟩ := by
  obtain ⟨n, hskips, hclock, hinterrupted⟩ := h
  refine ⟨n + 1, ?_⟩
  rw [waitForChildWithTimeout, pollLoop_skips hskips,
    pollLoop_reaped hdead hclock hinterrupted]

theorem givesUp_of_timesOut (h : w.TimesOut timeout) :
    ∃ fuel, waitForChildWithTimeout w pid timeout out_status children fuel =
      some ⟨false, out_status, children⟩ := by
  obtain ⟨n, hskips, hclock⟩ := h
  refine ⟨n + 1, ?_⟩
  rw [waitForChildWithTimeout, pollLoop_skips hskips, pollLoop_expired hclock]

/-- What a call beside a dead child returns, and why. -/
theorem waitForChild_cases (hdead : Dead w pid children)
    (h : waitForChildWithTimeout w pid timeout out_status children fuel =
      some r) :
    w.TimesOut timeout ∧ r = ⟨false, out_status, children⟩ ∨
      w.Polls timeout ∧ r = ⟨true, w.status, reap pid children⟩ := by
  obtain ⟨n, hskips, ⟨hclock, hr⟩ | ⟨hclock, hinterrupted, hr⟩⟩ :=
    pollLoop_eq_some hdead (fun _ hj => absurd hj (Nat.not_lt_zero _)) h
  · exact .inl ⟨⟨n, hskips, hclock⟩, hr⟩
  · exact .inr ⟨⟨n, hskips, hclock, hinterrupted⟩, hr⟩

theorem pollLoop_mono
    (h : pollLoop w pid deadline out_status children fuel i = some r)
    (n : ℕ) :
    pollLoop w pid deadline out_status children (fuel + n) i = some r := by
  induction fuel generalizing i children with
  | zero => cases h
  | succ fuel ih =>
      rw [Nat.succ_add]
      rw [pollLoop] at h ⊢
      split at h
      · next hclock =>
        rw [if_pos hclock]
        cases hwait : waitpid children pid (w.answer i) with
        | mk result children' =>
            rw [hwait] at h
            cases result with
            | reaped => exact h
            | echild => exact h
            | running => exact ih h
            | eintr => exact ih h
      · next hclock =>
        rw [if_neg hclock]
        exact h

/-! ## The loop of the health checks -/

/-- A round: a stop request, the call, and what the health check says. -/
structure HealthRound where
  stop_requested : Bool := false
  waits : Waits
  healthy : Bool := true

/-- How the loop is left: by the branch that terminates the child, because
`child_exited` is set, or by the branch that kills an unhealthy child. -/
inductive HealthEnd
  | stopping (wait_status : Int32) (children : List Child)
  | exited (wait_status : Int32) (children : List Child)
  | unhealthy (wait_status : Int32) (children : List Child)
deriving DecidableEq, Repr

/-- `poll_interval`: the interval of the health check, or 500 ms. -/
def pollInterval (health_check : Bool) (health_check_interval : ℤ) : ℤ :=
  if health_check then health_check_interval else 500000000

/-- `while (!child_exited)` of `MonitorLoop`, from the `k`-th round on.  The
fuel bounds the rounds and the rounds of each call. -/
def healthLoop (rounds : ℕ → HealthRound) (health_check : Bool)
    (health_check_interval pid : ℤ) (wait_status : Int32)
    (children : List Child) (fuel : ℕ) : ℕ → ℕ → Option HealthEnd
  | 0, _ => none
  | more + 1, k =>
      if (rounds k).stop_requested then some (.stopping wait_status children)
      else
        match waitForChildWithTimeout (rounds k).waits pid
            (pollInterval health_check health_check_interval) wait_status
            children fuel with
        | none => none
        | some r =>
            if r.exited then some (.exited r.out_status r.children)
            else if health_check && !(rounds k).healthy then
              some (.unhealthy r.out_status r.children)
            else
              healthLoop rounds health_check health_check_interval pid
                r.out_status r.children fuel more (k + 1)

end

section

variable {rounds : ℕ → HealthRound} {health_check : Bool}
  {health_check_interval pid : ℤ} {wait_status : Int32}
  {children : List Child} {fuel more k n : ℕ} {e : HealthEnd}

/-- No stop is requested, and the health check, if there is one, says that all
is well. -/
def Quiet (rounds : ℕ → HealthRound) (health_check : Bool) : Prop :=
  ∀ k, (rounds k).stop_requested = false ∧
    (health_check && !(rounds k).healthy) = false

/-- The loop is left only by a call that asks for the child before its
deadline, after calls that did not. -/
theorem healthLoop_eq_some (hquiet : Quiet rounds health_check)
    (hdead : ∀ k, Dead (rounds k).waits pid children)
    (h : healthLoop rounds health_check health_check_interval pid wait_status
      children fuel more k = some e) :
    ∃ n, (∀ j < n, (rounds (k + j)).waits.TimesOut
        (pollInterval health_check health_check_interval)) ∧
      (rounds (k + n)).waits.Polls
        (pollInterval health_check health_check_interval) ∧
      e = .exited (rounds (k + n)).waits.status (reap pid children) := by
  induction more generalizing k with
  | zero => cases h
  | succ more ih =>
      obtain ⟨hstop, hhealthy⟩ := hquiet k
      rw [healthLoop, if_neg (by simp [hstop])] at h
      cases hcall : waitForChildWithTimeout (rounds k).waits pid
          (pollInterval health_check health_check_interval) wait_status
          children fuel with
      | none =>
          rw [hcall] at h
          cases h
      | some r =>
          rw [hcall] at h
          obtain ⟨htimes, rfl⟩ | ⟨hpolls, rfl⟩ :=
            waitForChild_cases (hdead k) hcall
          · simp only [Bool.false_eq_true, if_false, hhealthy] at h
            obtain ⟨n, hbefore, hpolls, rfl⟩ := ih h
            rw [Nat.add_right_comm] at hpolls
            refine ⟨n + 1, fun j hj => ?_, hpolls, ?_⟩
            · cases j with
              | zero => exact htimes
              | succ j =>
                  have hj' := hbefore j (Nat.lt_of_succ_lt_succ hj)
                  rwa [Nat.add_right_comm] at hj'
            · rw [Nat.add_right_comm]
              rfl
          · obtain rfl := Option.some.inj h
            exact ⟨0, fun j hj => absurd hj (Nat.not_lt_zero j), hpolls, rfl⟩

theorem healthLoop_of_polls (hquiet : Quiet rounds health_check)
    (hdead : ∀ k, Dead (rounds k).waits pid children)
    (hbefore : ∀ j < n, (rounds (k + j)).waits.TimesOut
      (pollInterval health_check health_check_interval))
    (hpolls : (rounds (k + n)).waits.Polls
      (pollInterval health_check health_check_interval)) :
    ∃ fuel, ∀ extra,
      healthLoop rounds health_check health_check_interval pid wait_status
          children (fuel + extra) (n + 1) k =
        some (.exited (rounds (k + n)).waits.status (reap pid children)) := by
  induction n generalizing k with
  | zero =>
      obtain ⟨hstop, -⟩ := hquiet k
      obtain ⟨fuel, hcall⟩ :=
        @notices_of_polls _ _ _ wait_status _ (hdead k) hpolls
      refine ⟨fuel, fun extra => ?_⟩
      rw [healthLoop, if_neg (by simp [hstop]),
        waitForChildWithTimeout, pollLoop_mono hcall extra]
      rfl
  | succ n ih =>
      obtain ⟨hstop, hhealthy⟩ := hquiet k
      obtain ⟨fuel, hcall⟩ := @givesUp_of_timesOut _ pid _ wait_status children
        (hbefore 0 n.succ_pos)
      have hbefore' : ∀ j < n, (rounds (k + 1 + j)).waits.TimesOut
          (pollInterval health_check health_check_interval) := by
        intro j hj
        rw [Nat.add_right_comm]
        exact hbefore (j + 1) (Nat.succ_lt_succ hj)
      have hpolls' : (rounds (k + 1 + n)).waits.Polls
          (pollInterval health_check health_check_interval) := by
        rwa [Nat.add_right_comm]
      obtain ⟨fuel', hrest⟩ := ih hbefore' hpolls'
      refine ⟨fuel + fuel', fun extra => ?_⟩
      have hcall' := pollLoop_mono hcall (fuel' + extra)
      have hrest' := hrest (fuel + extra)
      rw [← Nat.add_assoc, Nat.add_zero] at hcall'
      rw [show fuel' + (fuel + extra) = fuel + fuel' + extra by omega] at hrest'
      rw [healthLoop, if_neg (by simp [hstop]), waitForChildWithTimeout, hcall']
      simp only [Bool.false_eq_true, if_false, hhealthy]
      rw [hrest', Nat.add_right_comm]
      rfl

end

/-- The child has exited with 1, and no time passes during the call. -/
def deadAtOnce : Waits where
  start := 0
  clock := fun _ => 0
  interrupted := fun _ => false
  exited := fun _ => true
  status := 256

theorem dead_deadAtOnce : Dead deadAtOnce 7 [{ pid := 7 }] :=
  ⟨fun _ => rfl, by decide⟩

end MonitorLoop
end MonitorProcess
end Yacul
