import Yacul.Misc.MonitorProcess

/-!
# The monitor loop, system call by system call

`MonitorLoop` with every `fork`, `kill` and `waitpid` a step of its own, and
with the children the process has.  A child counts how often it has been
reaped.  Whether it has exited is seen by `waitpid` only, so it is part of
what the operating system answers.
-/

namespace Yacul
namespace MonitorProcess
namespace MonitorLoop

/-- A child the process has forked, with the number of times a `waitpid` has
returned it. -/
structure Child where
  pid : ℤ
  reaps : ℕ := 0
deriving DecidableEq, Repr

/-- The child is the operating system's for this pid. -/
def Child.holds (pid : ℤ) (c : Child) : Bool :=
  c.pid = pid && c.reaps = 0

/-- The static members and the children, oldest first; times are in
nanoseconds. -/
structure Memory where
  shared : Shared
  last_start_time : ℤ
  children : List Child
deriving DecidableEq, Repr

/-- What the environment answers: the result of `fork`, whether the child has
exited, whether a signal interrupts `waitpid`, whether the deadline of the wait
is over, the health check, the clock, and whether the back-off is over. -/
structure Answer where
  pid : ℤ := 1
  exited : Bool := true
  interrupted : Bool := false
  expired : Bool := false
  healthy : Bool := true
  now : ℤ := 0
  rested : Bool := true
deriving DecidableEq, Repr

/-- Where the monitor thread is in `MonitorLoop`. -/
inductive Pc
  | test
  | preStart
  | spawn
  | publish (pid : ℤ)
  | stamp (pid : ℤ)
  | poll (pid : ℤ)
  | stopKill (pid : ℤ)
  | stopWait (pid : ℤ)
  | stopSigkill (pid : ℤ)
  | stopReap (pid : ℤ)
  | await (pid : ℤ)
  | health (pid : ℤ)
  | healthSigkill (pid : ℤ)
  | healthReap (pid : ℤ)
  | childExited
  | report
  | testStop
  | stable
  | countRestart
  | countConsecutive
  | maxRestarts
  | resetCounter
  | backoff
  | clear
  | store
  | returned
  | exited
deriving DecidableEq, Repr

/-! ## The system calls -/

/-- What `waitpid` returns: the pid of the child, 0, or -1 with an error. -/
inductive WaitResult
  | reaped
  | running
  | echild
  | eintr
deriving DecidableEq, Repr

/-- The child with the pid is reaped.  No two unreaped children have the same
pid. -/
def reap (pid : ℤ) (children : List Child) : List Child :=
  children.map fun c =>
    if c.holds pid then { c with reaps := c.reaps + 1 } else c

/-- `waitpid(pid, &status, WNOHANG)` of a positive pid. -/
def waitpid (children : List Child) (pid : ℤ) (ans : Answer) :
    WaitResult × List Child :=
  if ans.interrupted then (.eintr, children)
  else if children.any (Child.holds pid) then
    if ans.exited then (.reaped, reap pid children) else (.running, children)
  else (.echild, children)

/-- `waitpid(pid, &status, 0)`, whose result the loop does not look at; it
waits for a child that is running. -/
def waitpidBlocking (children : List Child) (pid : ℤ) (ans : Answer) :
    Option (List Child) :=
  match waitpid children pid ans with
  | (.running, _) => none
  | (_, children) => some children

/-- One round of `WaitForChildWithTimeout`: what the function returns, if it
does not go round again, and the children. -/
def waitRound (m : Memory) (ans : Answer) : Option Bool × List Child :=
  if ans.expired then (some false, m.children)
  else
    match waitpid m.children m.shared.child_pid ans with
    | (.reaped, children) => (some true, children)
    | (.echild, children) => (some true, children)
    | (.running, children) => (none, children)
    | (.eintr, children) => (none, children)

/-! ## The loop -/

/-- One access of the loop. -/
def loopStep (m : Memory) (ans : Answer) : Pc → Option (Memory × Pc)
  | .test =>
      some (m, if m.shared.stop_requested then .clear else .preStart)
  | .preStart => some (m, .spawn)
  -- After a failed `fork` the loop backs off and starts over.
  | .spawn =>
      if ans.pid ≤ 0 then some (m, .test)
      else if m.children.any (Child.holds ans.pid) then none
      else
        some ({ m with children := m.children ++ [{ pid := ans.pid }] },
          .publish ans.pid)
  | .publish pid =>
      some ({ m with shared := { m.shared with child_pid := pid } },
        .stamp pid)
  | .stamp pid =>
      if m.shared.state_mutex then none
      else some ({ m with last_start_time := ans.now }, .poll pid)
  | .poll pid =>
      some (m,
        if m.shared.stop_requested then .stopKill pid else .await pid)
  -- A stop has been requested.
  | .stopKill pid => some (m, .stopWait pid)
  | .stopWait pid =>
      let (result, children) := waitRound m ans
      some ({ m with children := children },
        match result with
        | some true => .childExited
        | some false => .stopSigkill pid
        | none => .stopWait pid)
  | .stopSigkill pid => some (m, .stopReap pid)
  | .stopReap pid => do
      let children ← waitpidBlocking m.children pid ans
      some ({ m with children := children }, .childExited)
  -- The poll and the health check.
  | .await pid =>
      let (result, children) := waitRound m ans
      some ({ m with children := children },
        match result with
        | some true => .childExited
        | some false =>
            if m.shared.config.health_check then .health pid else .poll pid
        | none => .await pid)
  | .health pid =>
      some (m, if ans.healthy then .poll pid else .healthSigkill pid)
  | .healthSigkill pid => some (m, .healthReap pid)
  | .healthReap pid => do
      let children ← waitpidBlocking m.children pid ans
      some ({ m with children := children }, .childExited)
  -- The child has exited.
  | .childExited =>
      some ({ m with shared := { m.shared with child_pid := 0 } }, .report)
  | .report => some (m, .testStop)
  | .testStop =>
      some (m, if m.shared.stop_requested then .clear else .stable)
  | .stable =>
      let run_duration := (ans.now - m.last_start_time).tdiv 1000000000
      some
        (if 0 < m.shared.config.stable_run_threshold ∧
            m.shared.config.stable_run_threshold ≤ run_duration then
          { m with
            shared := { m.shared with consecutive_restart_count := 0 } }
        else m, .countRestart)
  | .countRestart =>
      some
        ({ m with
          shared :=
            { m.shared with restart_count := m.shared.restart_count + 1 } },
        .countConsecutive)
  | .countConsecutive =>
      some
        ({ m with
          shared :=
            { m.shared with
              consecutive_restart_count :=
                m.shared.consecutive_restart_count + 1 } },
        .maxRestarts)
  | .maxRestarts =>
      some (m,
        if 0 < m.shared.config.max_restarts ∧
            m.shared.config.max_restarts <
              m.shared.consecutive_restart_count then
          match m.shared.config.max_restart_policy with
          | .kStopMonitoring => .clear
          | .kResetCounter => .resetCounter
        else .backoff)
  | .resetCounter =>
      some
        ({ m with
          shared := { m.shared with consecutive_restart_count := 0 } },
        .backoff)
  | .backoff =>
      some (m,
        if ans.rested || m.shared.stop_requested then .test else .backoff)
  | .clear =>
      some ({ m with shared := { m.shared with child_pid := 0 } }, .store)
  | .store =>
      some ({ m with shared := { m.shared with state := .kStopped } },
        .returned)
  | .returned => some (m, .exited)
  | .exited => none

/-! ## The coarser loop -/

/-- The end of the account of a restart: the counters are compared with the
maximum. -/
def settle (sh : Shared) : Shared × LoopPc :=
  if 0 < sh.config.max_restarts ∧
      sh.config.max_restarts < sh.consecutive_restart_count then
    match sh.config.max_restart_policy with
    | .kStopMonitoring => (sh, .clear)
    | .kResetCounter => ({ sh with consecutive_restart_count := 0 }, .backoff)
  else (sh, .backoff)

/-- The loop as `MonitorProcess.loopStep` sees it.  The system calls that end
a child are one step there, and so is the account of a restart, which it has
behind it when this loop begins. -/
def coarse (sh : Shared) : Pc → Shared × LoopPc
  | .test => (sh, .test)
  | .preStart => (sh, .preStart)
  | .spawn => (sh, .spawn)
  | .publish pid => (sh, .publish pid)
  | .stamp pid => (sh, .stamp pid)
  | .poll pid => (sh, .poll pid)
  | .stopKill pid | .stopWait pid | .stopSigkill pid | .stopReap pid =>
      (sh, .terminate pid)
  | .await pid | .health pid | .healthSigkill pid | .healthReap pid =>
      (sh, .await pid)
  | .childExited => (sh, .reap)
  | .report => (sh, .report)
  | .testStop => (sh, .testStop)
  | .stable => (sh, .account)
  | .countRestart =>
      settle
        { sh with
          restart_count := sh.restart_count + 1
          consecutive_restart_count := sh.consecutive_restart_count + 1 }
  | .countConsecutive =>
      settle
        { sh with
          consecutive_restart_count := sh.consecutive_restart_count + 1 }
  | .maxRestarts => settle sh
  | .resetCounter => ({ sh with consecutive_restart_count := 0 }, .backoff)
  | .backoff => (sh, .backoff)
  | .clear => (sh, .clear)
  | .store => (sh, .store)
  | .returned => (sh, .returned)
  | .exited => (sh, .exited)

/-- The coarser loop stays where it is or takes one step. -/
def CoarseStep (p q : Shared × LoopPc) : Prop :=
  q = p ∨ ∃ ch, MonitorProcess.loopStep p.1 ch p.2 = some q

section

variable {m m' : Memory} {ans : Answer} {pc pc' : Pc} {pid : ℤ}

theorem waitpidBlocking_eq_some {children children' : List Child}
    (h : waitpidBlocking children pid ans = some children') :
    (waitpid children pid ans).2 = children' ∧
      (waitpid children pid ans).1 ≠ .running := by
  cases hwait : waitpid children pid ans with
  | mk result after =>
      rw [waitpidBlocking, hwait] at h
      cases result with
      | running => cases h
      | reaped => exact ⟨Option.some.inj h, WaitResult.noConfusion⟩
      | echild => exact ⟨Option.some.inj h, WaitResult.noConfusion⟩
      | eintr => exact ⟨Option.some.inj h, WaitResult.noConfusion⟩

/-- What `accountRestart` does, in two parts. -/
theorem accountRestart_settle (sh : Shared) (run_duration : ℤ) :
    ((accountRestart sh run_duration).1,
      if (accountRestart sh run_duration).2 then LoopPc.clear
      else .backoff) =
      settle
        { sh with
          restart_count := sh.restart_count + 1
          consecutive_restart_count :=
            (if 0 < sh.config.stable_run_threshold ∧
                sh.config.stable_run_threshold ≤ run_duration then 0
              else sh.consecutive_restart_count) + 1 } := by
  unfold accountRestart settle
  dsimp only
  by_cases hstable : 0 < sh.config.stable_run_threshold ∧
      sh.config.stable_run_threshold ≤ run_duration
  · simp only [if_pos hstable]
    split
    · cases sh.config.max_restart_policy <;> rfl
    · rfl
  · simp only [if_neg hstable]
    split
    · cases sh.config.max_restart_policy <;> rfl
    · rfl

/-- The account of a restart is one step of the coarser loop. -/
theorem coarse_stable (hstep : loopStep m ans .stable = some (m', pc')) :
    CoarseStep (coarse m.shared .stable) (coarse m'.shared pc') := by
  let run_duration := (ans.now - m.last_start_time).tdiv 1000000000
  have haccount := accountRestart_settle m.shared run_duration
  obtain ⟨rfl, rfl⟩ := Prod.mk.inj (Option.some.inj hstep)
  refine Or.inr ⟨{ run_duration := run_duration }, ?_⟩
  refine congrArg some (haccount.trans ?_)
  by_cases hstable : 0 < m.shared.config.stable_run_threshold ∧
      m.shared.config.stable_run_threshold ≤ run_duration
  · simp only [coarse, run_duration, if_pos hstable]
  · simp only [coarse, run_duration, if_neg hstable]

/-- A comparison with the maximum was decided when the account began. -/
theorem coarse_maxRestarts
    (hstep : loopStep m ans .maxRestarts = some (m', pc')) :
    coarse m'.shared pc' = coarse m.shared .maxRestarts := by
  obtain ⟨rfl, rfl⟩ := Prod.mk.inj (Option.some.inj hstep)
  by_cases hmax : 0 < m.shared.config.max_restarts ∧
      m.shared.config.max_restarts < m.shared.consecutive_restart_count
  · simp only [coarse, settle, if_pos hmax]
    cases m.shared.config.max_restart_policy <;> rfl
  · simp only [coarse, settle, if_neg hmax]

/-- Every access of the loop is one of the coarser loop, or unseen by it. -/
theorem loopStep_coarse (hstep : loopStep m ans pc = some (m', pc')) :
    CoarseStep (coarse m.shared pc) (coarse m'.shared pc') := by
  cases pc with
  | stable => exact coarse_stable hstep
  | maxRestarts => exact Or.inl (coarse_maxRestarts hstep)
  | spawn =>
      simp only [loopStep] at hstep
      split at hstep
      · obtain ⟨rfl, rfl⟩ := Prod.mk.inj (Option.some.inj hstep)
        exact Or.inr ⟨{ pid := -1 }, rfl⟩
      · next hpid =>
          split at hstep
          · cases hstep
          · obtain ⟨rfl, rfl⟩ := Prod.mk.inj (Option.some.inj hstep)
            refine Or.inr ⟨{ pid := ans.pid }, congrArg some ?_⟩
            have hneg : ¬ ans.pid < 0 := by omega
            simp only [coarse, if_neg hneg]
  | stamp pid =>
      simp only [loopStep] at hstep
      split at hstep
      · cases hstep
      · next hfree =>
          obtain ⟨rfl, rfl⟩ := Prod.mk.inj (Option.some.inj hstep)
          exact Or.inr ⟨{}, if_neg hfree⟩
  | stopReap pid =>
      obtain ⟨children, -, hnext⟩ := Option.bind_eq_some_iff.mp hstep
      obtain ⟨rfl, rfl⟩ := Prod.mk.inj (Option.some.inj hnext)
      exact Or.inr ⟨{}, rfl⟩
  | healthReap pid =>
      obtain ⟨children, -, hnext⟩ := Option.bind_eq_some_iff.mp hstep
      obtain ⟨rfl, rfl⟩ := Prod.mk.inj (Option.some.inj hnext)
      exact Or.inr ⟨{}, rfl⟩
  | stopWait pid =>
      simp only [loopStep] at hstep
      generalize waitRound m ans = wait at hstep
      obtain ⟨result, children⟩ := wait
      obtain ⟨rfl, rfl⟩ := Prod.mk.inj (Option.some.inj hstep)
      cases result with
      | none => exact Or.inl rfl
      | some exited =>
          cases exited with
          | false => exact Or.inl rfl
          | true => exact Or.inr ⟨{}, rfl⟩
  | await pid =>
      simp only [loopStep] at hstep
      generalize waitRound m ans = wait at hstep
      obtain ⟨result, children⟩ := wait
      obtain ⟨rfl, rfl⟩ := Prod.mk.inj (Option.some.inj hstep)
      cases result with
      | none => exact Or.inl rfl
      | some exited =>
          cases exited with
          | true => exact Or.inr ⟨{}, rfl⟩
          | false =>
              cases hcheck : m.shared.config.health_check with
              | true => exact Or.inl rfl
              | false =>
                  refine Or.inr ⟨{ exited := false }, ?_⟩
                  simp [coarse, MonitorProcess.loopStep, hcheck]
  | health pid =>
      obtain ⟨rfl, rfl⟩ := Prod.mk.inj (Option.some.inj hstep)
      cases ans.healthy with
      | true =>
          refine Or.inr ⟨{ exited := false }, ?_⟩
          simp [coarse, MonitorProcess.loopStep]
      | false => exact Or.inl rfl
  | test | poll | testStop =>
      obtain ⟨rfl, rfl⟩ := Prod.mk.inj (Option.some.inj hstep)
      refine Or.inr ⟨{}, ?_⟩
      cases hstop : m.shared.stop_requested <;>
        simp [coarse, MonitorProcess.loopStep, hstop]
  | backoff =>
      obtain ⟨rfl, rfl⟩ := Prod.mk.inj (Option.some.inj hstep)
      refine Or.inr ⟨{ rested := ans.rested }, ?_⟩
      cases hrest : ans.rested || m.shared.stop_requested <;>
        simp [coarse, MonitorProcess.loopStep, hrest]
  | stopKill | stopSigkill | healthSigkill | countRestart
  | countConsecutive | resetCounter =>
      obtain ⟨rfl, rfl⟩ := Prod.mk.inj (Option.some.inj hstep)
      exact Or.inl rfl
  | preStart | publish | childExited | report | clear | store | returned =>
      obtain ⟨rfl, rfl⟩ := Prod.mk.inj (Option.some.inj hstep)
      exact Or.inr ⟨{}, rfl⟩
  | exited => cases hstep

end

end MonitorLoop
end MonitorProcess
end Yacul
