import Yacul.Support.Roster
import Yacul.Support.Transition
import Mathlib.Data.Int.Notation

/-!
# The process monitor

`MonitorProcess` keeps a child process running from a thread of its own.  The
callers of `Start`, `RequestStop` and `WaitForStop` and the monitor loops move
one access at a time.  What the operating system answers and how long the
child runs is chosen by the environment.
-/

namespace Yacul
namespace MonitorProcess

/-- `State`. -/
inductive MonitorState
  | kIdle
  | kRunning
  | kStopping
  | kStopped
deriving DecidableEq, Repr

/-- The states of a monitor that has been started and has not stopped. -/
def MonitorState.active : MonitorState → Bool
  | .kRunning | .kStopping => true
  | .kIdle | .kStopped => false

/-- `MaxRestartPolicy`. -/
inductive MaxRestartPolicy
  | kStopMonitoring
  | kResetCounter
deriving DecidableEq, Repr

/-- The part of `Config` that decides how the loop goes on; durations are in
seconds. -/
structure Config where
  argv : List String
  max_restarts : Int32 := 0
  max_restart_policy : MaxRestartPolicy := .kStopMonitoring
  stable_run_threshold : ℤ := 5
  health_check : Bool := false
deriving DecidableEq, Repr

/-- The static members.  A thread handle is the index of a monitor thread; the
mutex is locked or free. -/
structure Shared where
  config : Config
  state : MonitorState
  child_pid : ℤ
  restart_count : Int32
  consecutive_restart_count : Int32
  monitor_thread : ℕ
  monitor_thread_valid : Bool
  stop_requested : Bool
  state_mutex : Bool
deriving DecidableEq, Repr

/-- Where a monitor thread is in `MonitorLoop`; `returned` is after the loop,
before the thread has exited. -/
inductive LoopPc
  | test
  | preStart
  | spawn
  | publish (pid : ℤ)
  | stamp (pid : ℤ)
  | poll (pid : ℤ)
  | terminate (pid : ℤ)
  | await (pid : ℤ)
  | reap
  | report
  | testStop
  | account
  | backoff
  | clear
  | store
  | returned
  | exited
deriving DecidableEq, Repr

/-- A monitor thread, with the number of times it has been joined. -/
structure Monitor where
  pc : LoopPc
  joined : ℕ
deriving DecidableEq, Repr

/-- Where a caller is. -/
inductive Pc
  | idle
  | startLock (cfg : Config)
  | startLoadRunning (cfg : Config)
  | startLoadStopping (cfg : Config)
  | startRefuse
  | startStoreConfig (cfg : Config)
  | startClearStop
  | startClearRestarts
  | startClearConsecutive
  | startClearChild
  | startStoreState
  | startCreate
  | startFail
  | startValidate
  | stopLoadStopping
  | stopLoadStopped
  | stopLoadIdle
  | stopRequest
  | stopStoreState
  | stopLoadChild
  | stopKill (pid : ℤ)
  | waitRead
  | waitJoin (tid : ℕ)
  | waitInvalidate
  | waitStoreState
deriving DecidableEq, Repr

/-- The static members, the monitor threads ever created, and the callers. -/
structure State where
  shared : Shared
  monitors : List Monitor
  clients : List Pc
deriving DecidableEq, Repr

/-- The public calls that start and stop a monitor, and wait for it. -/
inductive Call
  | Start (cfg : Config)
  | RequestStop
  | WaitForStop
deriving DecidableEq, Repr

/-- What the environment answers a monitor loop: the result of `fork`, whether
the child has exited within the wait, the health check, the time the child has
run, and whether the back-off is over. -/
structure Choice where
  pid : ℤ := 1
  exited : Bool := true
  healthy : Bool := true
  run_duration : ℤ := 0
  rested : Bool := true
deriving DecidableEq, Repr

/-- A caller begins a call or moves, `created` being the success of
`pthread_create`; a monitor thread moves. -/
inductive Action
  | call (t : ℕ) (c : Call)
  | client (t : ℕ) (created : Bool)
  | monitor (i : ℕ) (ch : Choice)
deriving DecidableEq, Repr

/-! ## The calls -/

/-- The first access of a call.  `Start` refuses an empty `argv` before. -/
def begin : Call → Pc
  | .Start cfg => if cfg.argv = [] then .idle else .startLock cfg
  | .RequestStop => .stopLoadStopping
  | .WaitForStop => .waitRead

/-- One access of a caller: the static members, the monitor threads, and where
the caller is then. -/
def clientStep (sh : Shared) (monitors : List Monitor) (created : Bool) :
    Pc → Option (Shared × List Monitor × Pc)
  | .idle => none
  -- Start
  | .startLock cfg =>
      if sh.state_mutex then none
      else
        some ({ sh with state_mutex := true }, monitors,
          .startLoadRunning cfg)
  | .startLoadRunning cfg =>
      some (sh, monitors,
        if sh.state = .kRunning then .startRefuse else .startLoadStopping cfg)
  | .startLoadStopping cfg =>
      some (sh, monitors,
        if sh.state = .kStopping then .startRefuse else .startStoreConfig cfg)
  | .startRefuse => some ({ sh with state_mutex := false }, monitors, .idle)
  | .startStoreConfig cfg =>
      some ({ sh with config := cfg }, monitors, .startClearStop)
  | .startClearStop =>
      some ({ sh with stop_requested := false }, monitors, .startClearRestarts)
  | .startClearRestarts =>
      some ({ sh with restart_count := 0 }, monitors, .startClearConsecutive)
  | .startClearConsecutive =>
      some ({ sh with consecutive_restart_count := 0 }, monitors,
        .startClearChild)
  | .startClearChild =>
      some ({ sh with child_pid := 0 }, monitors, .startStoreState)
  | .startStoreState =>
      some ({ sh with state := .kRunning }, monitors, .startCreate)
  | .startCreate =>
      if created then
        some ({ sh with monitor_thread := monitors.length },
          monitors ++ [{ pc := .test, joined := 0 }], .startValidate)
      else some (sh, monitors, .startFail)
  | .startFail =>
      some ({ sh with state := .kIdle, state_mutex := false }, monitors, .idle)
  | .startValidate =>
      some ({ sh with monitor_thread_valid := true, state_mutex := false },
        monitors, .idle)
  -- RequestStop, which does not lock the mutex
  | .stopLoadStopping =>
      some (sh, monitors,
        if sh.state = .kStopping then .idle else .stopLoadStopped)
  | .stopLoadStopped =>
      some (sh, monitors,
        if sh.state = .kStopped then .idle else .stopLoadIdle)
  | .stopLoadIdle =>
      some (sh, monitors, if sh.state = .kIdle then .idle else .stopRequest)
  | .stopRequest =>
      some ({ sh with stop_requested := true }, monitors, .stopStoreState)
  | .stopStoreState =>
      some ({ sh with state := .kStopping }, monitors, .stopLoadChild)
  | .stopLoadChild =>
      some (sh, monitors,
        if 0 < sh.child_pid then .stopKill sh.child_pid else .idle)
  | .stopKill _ => some (sh, monitors, .idle)
  -- WaitForStop
  | .waitRead =>
      if sh.state_mutex then none
      else
        some (sh, monitors,
          if sh.monitor_thread_valid then .waitJoin sh.monitor_thread
          else .waitStoreState)
  | .waitJoin tid =>
      match monitors[tid]? with
      | some m =>
          if m.pc = .exited then
            some (sh, monitors.set tid { m with joined := m.joined + 1 },
              .waitInvalidate)
          else none
      | none => none
  | .waitInvalidate =>
      if sh.state_mutex then none
      else
        some ({ sh with monitor_thread_valid := false }, monitors,
          .waitStoreState)
  | .waitStoreState => some ({ sh with state := .kIdle }, monitors, .idle)

/-! ## The loop -/

/-- What happens to the counters when a child has exited, and whether the
maximum of restarts ends the loop. -/
def accountRestart (sh : Shared) (run_duration : ℤ) : Shared × Bool :=
  let consecutive :=
    if 0 < sh.config.stable_run_threshold ∧
        sh.config.stable_run_threshold ≤ run_duration then 0
    else sh.consecutive_restart_count
  let sh :=
    { sh with
      restart_count := sh.restart_count + 1
      consecutive_restart_count := consecutive + 1 }
  if 0 < sh.config.max_restarts ∧
      sh.config.max_restarts < sh.consecutive_restart_count then
    match sh.config.max_restart_policy with
    | .kStopMonitoring => (sh, true)
    | .kResetCounter => ({ sh with consecutive_restart_count := 0 }, false)
  else (sh, false)

/-- One access of a monitor loop. -/
def loopStep (sh : Shared) (ch : Choice) : LoopPc → Option (Shared × LoopPc)
  | .test => some (sh, if sh.stop_requested then .clear else .preStart)
  | .preStart => some (sh, .spawn)
  -- After a failed `fork` the loop backs off and starts over.
  | .spawn => some (sh, if ch.pid < 0 then .test else .publish ch.pid)
  | .publish pid => some ({ sh with child_pid := pid }, .stamp pid)
  | .stamp pid => if sh.state_mutex then none else some (sh, .poll pid)
  | .poll pid =>
      some (sh, if sh.stop_requested then .terminate pid else .await pid)
  | .terminate _ => some (sh, .reap)
  | .await pid =>
      -- An unhealthy child is killed.
      some (sh,
        if ch.exited || (sh.config.health_check && !ch.healthy) then .reap
        else .poll pid)
  | .reap => some ({ sh with child_pid := 0 }, .report)
  | .report => some (sh, .testStop)
  | .testStop => some (sh, if sh.stop_requested then .clear else .account)
  | .account =>
      let (sh, stop) := accountRestart sh ch.run_duration
      some (sh, if stop then .clear else .backoff)
  | .backoff =>
      some (sh, if ch.rested || sh.stop_requested then .test else .backoff)
  | .clear => some ({ sh with child_pid := 0 }, .store)
  | .store => some ({ sh with state := .kStopped }, .returned)
  | .returned => some (sh, .exited)
  | .exited => none

/-! ## The system -/

def step (s : State) : Action → Option State
  | .call t c =>
      match s.clients[t]? with
      | some .idle => some { s with clients := s.clients.set t (begin c) }
      | _ => none
  | .client t created => do
      let pc ← s.clients[t]?
      let (sh, monitors, pc) ← clientStep s.shared s.monitors created pc
      some
        { shared := sh
          monitors := monitors
          clients := s.clients.set t pc }
  | .monitor i ch => do
      let m ← s.monitors[i]?
      let (sh, pc) ← loopStep s.shared ch m.pc
      some
        { s with
          shared := sh
          monitors := s.monitors.set i { m with pc := pc } }

/-- The initial values of the static members. -/
def Shared.init : Shared where
  config := { argv := [] }
  state := .kIdle
  child_pid := 0
  restart_count := 0
  consecutive_restart_count := 0
  monitor_thread := 0
  monitor_thread_valid := false
  stop_requested := false
  state_mutex := false

def init (clients : ℕ) : State where
  shared := Shared.init
  monitors := []
  clients := List.replicate clients .idle

/-- A reachable state. -/
def Reachable (s : State) : Prop :=
  ∃ clients, Transition.Reachable step {init clients} s

/-! ## What the monitor promises -/

/-- The loop has begun and has not stored `kStopped`. -/
def Monitor.live (m : Monitor) : Bool :=
  match m.pc with
  | .returned | .exited => false
  | _ => true

/-- The number of live monitor loops. -/
def State.live (s : State) : ℕ := s.monitors.countP Monitor.live

/-- At most one monitor loop is live, and when no call is in progress the
state says whether one is. -/
structure Agrees (s : State) : Prop where
  live : s.live ≤ 1
  state : (∀ pc ∈ s.clients, pc = .idle) →
    (s.shared.state.active = true ↔ s.live = 1)

/-- `RequestStop` stores `kStopping` only over `kRunning` and `kStopping`, and
`WaitForStop` stores `kIdle` only over `kStopped` and `kIdle`. -/
def Pc.StoresInTurn (sh : Shared) : Pc → Prop
  | .stopStoreState => sh.state.active = true
  | .waitStoreState => sh.state.active = false
  | _ => True

instance (sh : Shared) (pc : Pc) : Decidable (pc.StoresInTurn sh) := by
  unfold Pc.StoresInTurn
  cases pc <;> exact inferInstance

/-- The caller that moves stores in turn. -/
def StoresInTurn (s : State) : Action → Prop
  | .client t _ => ∀ pc ∈ s.clients[t]?, pc.StoresInTurn s.shared
  | .call _ _ | .monitor _ _ => True

instance (s : State) (a : Action) : Decidable (StoresInTurn s a) := by
  unfold StoresInTurn
  cases a <;> exact inferInstance

/-- A `Start` has created the thread and not yet stored that the handle is
valid. -/
def Pc.validating : Pc → Bool
  | .startValidate => true
  | _ => false

/-- Every monitor thread has been joined once, or has not been joined and its
handle is still there for the next `WaitForStop`. -/
def Joins (s : State) : Prop :=
  ∀ i m, s.monitors[i]? = some m →
    m.joined = 1 ∨
      m.joined = 0 ∧ s.shared.monitor_thread = i ∧
        (s.shared.monitor_thread_valid = true ∨
          ∃ pc ∈ s.clients, pc.validating = true)

/-- A `WaitForStop` has read a valid handle and not yet invalidated it. -/
def Pc.joining : Pc → Bool
  | .waitJoin _ | .waitInvalidate => true
  | _ => false

/-- `Start` creates a thread only when no handle is valid, and `WaitForStop`
reads a valid handle only when no other `WaitForStop` has one. -/
def Pc.TakesTurn (s : State) : Pc → Prop
  | .startCreate => s.shared.monitor_thread_valid = false
  | .waitRead =>
      s.shared.monitor_thread_valid = true →
        ∀ pc ∈ s.clients, pc.joining = false
  | _ => True

instance (s : State) (pc : Pc) : Decidable (pc.TakesTurn s) := by
  unfold Pc.TakesTurn
  cases pc <;> exact inferInstance

/-- The caller that moves takes its turn. -/
def TakesTurns (s : State) : Action → Prop
  | .client t _ => ∀ pc ∈ s.clients[t]?, pc.TakesTurn s
  | .call _ _ | .monitor _ _ => True

instance (s : State) (a : Action) : Decidable (TakesTurns s a) := by
  unfold TakesTurns
  cases a <;> exact inferInstance

end MonitorProcess
end Yacul
