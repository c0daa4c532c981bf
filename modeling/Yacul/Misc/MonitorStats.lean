import Yacul.Misc.MonitorReaping
import Yacul.Support.Snapshot
import Mathlib.Data.Fintype.OfMap

/-!
# The statistics of the monitor

`GetStats` copies five members one after another, the last one with the mutex
locked.  The monitor threads and the callers of `Start`, `RequestStop`,
`WaitForStop` and `SendSignalToChild` go on meanwhile.
-/

namespace Yacul
namespace MonitorProcess
namespace MonitorLoop

/-- `Stats`. -/
structure Stats where
  current_child_pid : ℤ := 0
  restart_count : Int32 := 0
  consecutive_restart_count : Int32 := 0
  state : MonitorState := .kIdle
  last_start_time : ℤ := 0
deriving DecidableEq, Repr

/-- The members of `Stats`. -/
inductive Field
  | current_child_pid
  | restart_count
  | consecutive_restart_count
  | state
  | last_start_time
deriving DecidableEq, Repr

instance : Fintype Field :=
  Fintype.ofList
    [.current_child_pid, .restart_count, .consecutive_restart_count, .state,
      .last_start_time]
    fun f => by cases f <;> decide

/-- The values of a member. -/
def Field.Value : Field → Type
  | .current_child_pid | .last_start_time => ℤ
  | .restart_count | .consecutive_restart_count => Int32
  | .state => MonitorState

instance (f : Field) : DecidableEq f.Value := by
  cases f <;> unfold Field.Value <;> exact inferInstance

def Stats.get (s : Stats) : (f : Field) → f.Value
  | .current_child_pid => s.current_child_pid
  | .restart_count => s.restart_count
  | .consecutive_restart_count => s.consecutive_restart_count
  | .state => s.state
  | .last_start_time => s.last_start_time

/-- The assignment to one member of `Stats`. -/
def Stats.assign (s now : Stats) : Field → Stats
  | .current_child_pid => { s with current_child_pid := now.current_child_pid }
  | .restart_count => { s with restart_count := now.restart_count }
  | .consecutive_restart_count =>
      { s with consecutive_restart_count := now.consecutive_restart_count }
  | .state => { s with state := now.state }
  | .last_start_time => { s with last_start_time := now.last_start_time }

/-- The values of the static members together. -/
def Memory.stats (m : Memory) : Stats where
  current_child_pid := m.shared.child_pid
  restart_count := m.shared.restart_count
  consecutive_restart_count := m.shared.consecutive_restart_count
  state := m.shared.state
  last_start_time := m.last_start_time

namespace GetStats

/-- The order of the loads. -/
def loads : List Field :=
  [.current_child_pid, .restart_count, .consecutive_restart_count, .state,
    .last_start_time]

/-- A call: the members still to be loaded, the result so far, and the values
that the static members have had together since the call began. -/
structure Reader where
  todo : List Field
  s : Stats
  seen : List Stats
deriving DecidableEq, Repr

/-- The next load; `last_start_time_` is read with the mutex locked. -/
def readStep (m : Memory) (r : Reader) : Option Reader :=
  match r.todo with
  | [] => none
  | f :: todo =>
      if f = .last_start_time ∧ m.shared.state_mutex then none
      else some { r with todo := todo, s := r.s.assign m.stats f }

/-- The static members have changed; a call that has returned does not see
it. -/
def Reader.see (now : Stats) (r : Reader) : Reader :=
  match r.todo with
  | [] => r
  | _ :: _ => { r with seen := now :: r.seen }

/-- The static members, the monitor threads ever created, the callers, and
the calls of `GetStats`. -/
structure State where
  memory : Memory
  monitors : List Pc
  callers : List Caller
  readers : List Reader
deriving DecidableEq, Repr

inductive Action
  | call (t : ℕ) (c : Call)
  | sendSignalToChild (t : ℕ) (signum : ℤ)
  | caller (t : ℕ) (created : Bool)
  | monitor (i : ℕ) (ans : Answer)
  | getStats
  | read (k : ℕ)
deriving DecidableEq, Repr

/-- One access of a caller.  A call of the coarser model needs of a monitor
thread whether it has exited; a thread that it creates is at the beginning of
the loop. -/
def controlStep (m : Memory) (monitors : List Pc) (created : Bool) :
    Caller → Option (Shared × List Pc × Caller)
  | .call pc => do
      let threads := monitors.map fun pc : Pc =>
        { pc := (coarse m.shared pc).2, joined := 0 }
      let (sh, threads, pc) ← clientStep m.shared threads created pc
      some (sh,
        monitors ++ List.replicate (threads.length - monitors.length) .test,
        .call pc)
  | c => do
      let (sh, c) ← callerStep m.shared c
      some (sh, monitors, c)

def step (s : State) : Action → Option State
  | .call t c =>
      match s.callers[t]? with
      | some (.call .idle) =>
          some { s with callers := s.callers.set t (.call (begin c)) }
      | _ => none
  | .sendSignalToChild t signum =>
      match s.callers[t]? with
      | some (.call .idle) =>
          some { s with callers := s.callers.set t (.signalLoad signum) }
      | _ => none
  | .caller t created => do
      let c ← s.callers[t]?
      let (sh, monitors, c) ← controlStep s.memory s.monitors created c
      let memory := { s.memory with shared := sh }
      some
        { memory := memory
          monitors := monitors
          callers := s.callers.set t c
          readers := s.readers.map (Reader.see memory.stats) }
  | .monitor i ans => do
      let pc ← s.monitors[i]?
      let (memory, pc) ← loopStep s.memory ans pc
      some
        { s with
          memory := memory
          monitors := s.monitors.set i pc
          readers := s.readers.map (Reader.see memory.stats) }
  | .getStats =>
      some
        { s with
          readers := s.readers ++
            [{ todo := loads, s := {}, seen := [s.memory.stats] }] }
  | .read k => do
      let r ← s.readers[k]?
      let r ← readStep s.memory r
      some { s with readers := s.readers.set k r }

def init (callers : ℕ) : State where
  memory := { shared := Shared.init, last_start_time := 0, children := [] }
  monitors := []
  callers := List.replicate callers (.call .idle)
  readers := []

/-- What a call has returned are the values that the static members had
together at some instant of the call. -/
def ReturnsSnapshot (s : State) : Prop :=
  ∀ r ∈ s.readers, r.todo = [] → r.s ∈ r.seen

instance (s : State) : Decidable (ReturnsSnapshot s) := by
  unfold ReturnsSnapshot
  exact inferInstance

/-- Once a member that a call has loaded has changed, no member that the call
has still to load changes. -/
def ReadsUndisturbed (s : State) (a : Action) : Prop :=
  ∀ s' ∈ step s a, ∀ r ∈ s.readers,
    Snapshot.Undisturbed r.todo r.s.get s.memory.stats.get s'.memory.stats.get

instance (s : State) (a : Action) : Decidable (ReadsUndisturbed s a) := by
  unfold ReadsUndisturbed
  exact inferInstance

section

variable {s s' : State} {a : Action} {r r' : Reader} {m : Memory}
  {callers : ℕ}

theorem get_assign (s now : Stats) (f : Field) :
    (s.assign now f).get = Function.update s.get f (now.get f) := by
  funext g
  cases f <;> cases g <;> rfl

theorem get_injective : Function.Injective Stats.get := by
  intro s t h
  have hf := fun f => congrFun h f
  cases s
  cases t
  rw [Stats.mk.injEq]
  exact ⟨hf .current_child_pid, hf .restart_count,
    hf .consecutive_restart_count, hf .state, hf .last_start_time⟩

theorem mem_loads (f : Field) : f ∈ loads := by
  cases f <;> decide

/-- A call can still return a snapshot. -/
def Reader.Consistent (now : Stats) (r : Reader) : Prop :=
  Snapshot.Consistent r.todo r.s.get now.get (r.seen.map Stats.get)

theorem consistent_begin (now : Stats) :
    Reader.Consistent now { todo := loads, s := {}, seen := [now] } :=
  Snapshot.consistent_start mem_loads

theorem Reader.Consistent.read (h : r.Consistent m.stats)
    (hread : readStep m r = some r') : r'.Consistent m.stats := by
  obtain ⟨todo, got, seen⟩ := r
  cases todo with
  | nil => cases hread
  | cons f todo =>
      simp only [readStep] at hread
      split at hread
      · cases hread
      · obtain rfl := Option.some.inj hread
        unfold Reader.Consistent
        dsimp only
        rw [get_assign]
        exact Snapshot.Consistent.read h

theorem Reader.Consistent.see {now next : Stats} (h : r.Consistent now)
    (hchange : Snapshot.Undisturbed r.todo r.s.get now.get next.get) :
    (r.see next).Consistent next := by
  obtain ⟨todo, got, seen⟩ := r
  cases todo with
  | nil =>
      obtain ⟨v, hv, hcollected, -⟩ := h
      exact ⟨v, hv, hcollected, fun f hf => absurd hf List.not_mem_nil⟩
  | cons f todo => exact Snapshot.Consistent.change h hchange

theorem Reader.Consistent.mem {now : Stats} (h : r.Consistent now)
    (htodo : r.todo = []) : r.s ∈ r.seen := by
  unfold Reader.Consistent at h
  rw [htodo] at h
  exact (List.mem_map_of_injective get_injective).mp h.mem

/-- What a step does to the calls of `GetStats`. -/
theorem step_readers (hstep : step s a = some s') :
    s'.readers = s.readers.map (Reader.see s'.memory.stats) ∨
      s'.memory = s.memory ∧ (s'.readers = s.readers ∨
        s'.readers = s.readers ++
          [{ todo := loads, s := {}, seen := [s.memory.stats] }] ∨
        ∃ k, ∃ r ∈ s.readers, ∃ r', readStep s.memory r = some r' ∧
          s'.readers = s.readers.set k r') := by
  cases a with
  | call t c =>
      simp only [step] at hstep
      split at hstep
      · obtain rfl := Option.some.inj hstep
        exact Or.inr ⟨rfl, Or.inl rfl⟩
      · cases hstep
  | sendSignalToChild t signum =>
      simp only [step] at hstep
      split at hstep
      · obtain rfl := Option.some.inj hstep
        exact Or.inr ⟨rfl, Or.inl rfl⟩
      · cases hstep
  | caller t created =>
      obtain ⟨c, -, hrest⟩ := Option.bind_eq_some_iff.mp hstep
      obtain ⟨⟨sh, monitors, c'⟩, -, hnext⟩ := Option.bind_eq_some_iff.mp hrest
      obtain rfl := Option.some.inj hnext
      exact Or.inl rfl
  | monitor i ans =>
      obtain ⟨pc, -, hrest⟩ := Option.bind_eq_some_iff.mp hstep
      obtain ⟨⟨memory, pc'⟩, -, hnext⟩ := Option.bind_eq_some_iff.mp hrest
      obtain rfl := Option.some.inj hnext
      exact Or.inl rfl
  | getStats =>
      obtain rfl := Option.some.inj hstep
      exact Or.inr ⟨rfl, Or.inr (Or.inl rfl)⟩
  | read k =>
      obtain ⟨r, hr, hrest⟩ := Option.bind_eq_some_iff.mp hstep
      obtain ⟨r', hread, hnext⟩ := Option.bind_eq_some_iff.mp hrest
      obtain rfl := Option.some.inj hnext
      exact Or.inr ⟨rfl, Or.inr (Or.inr
        ⟨k, r, List.mem_of_getElem? hr, r', hread, rfl⟩)⟩

/-- Every call can still return a snapshot. -/
def Consistent (s : State) : Prop :=
  ∀ r ∈ s.readers, r.Consistent s.memory.stats

theorem Consistent.step (hs : Consistent s) (hreads : ReadsUndisturbed s a)
    (hstep : GetStats.step s a = some s') : Consistent s' := by
  intro r hr
  obtain hreaders | ⟨hmemory, hreaders | hreaders |
      ⟨k, r₀, hr₀, r', hread, hreaders⟩⟩ := step_readers hstep
  · rw [hreaders] at hr
    obtain ⟨r₀, hr₀, rfl⟩ := List.mem_map.mp hr
    exact (hs r₀ hr₀).see (hreads s' hstep r₀ hr₀)
  · rw [hmemory]
    exact hs r (hreaders ▸ hr)
  · rw [hreaders, List.mem_append, List.mem_singleton] at hr
    rw [hmemory]
    rcases hr with hr | rfl
    · exact hs r hr
    · exact consistent_begin s.memory.stats
  · rw [hreaders] at hr
    rw [hmemory]
    rcases List.mem_or_eq_of_mem_set hr with hr | rfl
    · exact hs r hr
    · exact (hs r₀ hr₀).read hread

/-- When no member changes that a `GetStats` has still to load, once one that
it has loaded has changed, every `GetStats` returns a snapshot. -/
theorem reachable_returnsSnapshot
    (hs : Transition.ReachableVia GetStats.step ReadsUndisturbed
      {init callers} s) : ReturnsSnapshot s := by
  have hconsistent : Consistent s := by
    refine hs.invariant ?_ fun s a s' h hreads hstep => h.step hreads hstep
    rintro _ rfl r hr
    exact absurd hr List.not_mem_nil
  exact fun r hr htodo => (hconsistent r hr).mem htodo

end

/-! ## Runs with one call -/

/-- Moves of the monitor thread. -/
def monitors (n : ℕ) (ans : Answer) : List Action :=
  List.replicate n (.monitor 0 ans)

/-- `Start`, up to the first poll of the child; then `GetStats` begins and
loads the pid of the child. -/
def startsAndLoads : List Action :=
  [Action.call 0 (.Start cfg₁)] ++ List.replicate 11 (Action.caller 0 true) ++
    monitors 6 { pid := 7 } ++ [Action.getStats, Action.read 0]

/-- The call is over before the child exits. -/
def loadsAll : List Action :=
  startsAndLoads ++ List.replicate 4 (Action.read 0) ++ monitors 8 {}

theorem loadsAll_isSome :
    (Transition.run step (init 1) loadsAll).isSome = true := by
  decide

theorem reachable_returnsSnapshot_loadsAll :
    ReturnsSnapshot
      ((Transition.run step (init 1) loadsAll).get loadsAll_isSome) := by
  have hstart : Transition.ReachableVia step ReadsUndisturbed {init 1}
      (init 1) := .start (Set.mem_singleton _)
  have hall : Transition.AllSteps step ReadsUndisturbed (init 1)
      loadsAll := by
    decide
  exact reachable_returnsSnapshot
    (hstart.run hall (Option.some_get loadsAll_isSome).symm)

/-- The child exits and the restart is counted before the other loads. -/
def loadsTorn : List Action :=
  startsAndLoads ++ monitors 8 {} ++ List.replicate 4 (Action.read 0)

theorem loadsTorn_isSome :
    (Transition.run step (init 1) loadsTorn).isSome = true := by
  decide

/-- `GetStats` can return the pid of the old child with the counters of the
next. -/
theorem exists_tornSnapshot :
    ∃ callers s, Transition.Reachable step {init callers} s ∧
      ¬ ReturnsSnapshot s := by
  refine ⟨1, (Transition.run step (init 1) loadsTorn).get loadsTorn_isSome,
    ?_, by decide⟩
  exact Transition.reachable_get_run (Set.mem_singleton _) loadsTorn_isSome

end GetStats
end MonitorLoop
end MonitorProcess
end Yacul
