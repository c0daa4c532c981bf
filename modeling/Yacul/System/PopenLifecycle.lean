import Yacul.System.PopenWrapper
import Mathlib.Data.Set.Insert

/-!
# The life of a wrapper object

`Start`, `Wait`, `Run`, `Terminate`, `Kill` and the destructor of one object
are called by one thread; the timer thread runs beside them.  `Wait` reaps the
child first, then cancels the timer, closes the write end of its pipe, and
joins it.  The module names the two windows this leaves.
-/

namespace Yacul
namespace PopenWrapper
namespace Lifecycle

/-- Where the owner of the object is. -/
inductive MainPc
  | idle
  /-- `Start` after `ForkExec`, called by `Run` or not. -/
  | startTimer (run : Bool)
  | runInput
  /-- `Wait`. -/
  | driveIo
  | waitpid
  | loadTimedOut
  | cancel
  | closeWrite
  | join
  | closeRead
  /-- The destructor. -/
  | destroyReap
  | destroyCancel
  | destroyJoin
  | destroyClose
  | destroyed
deriving DecidableEq, Repr

/-- The object; `run` holds its pipes, its timer thread and the child. -/
structure State where
  run : PopenWrapper.State
  main : MainPc
  started : Bool
  waited : Bool
  /-- `child_pid_ > 0`. -/
  childPid : Bool
  /-- The two ends of `timer_pipe_`. -/
  timerRead : Bool
  timerWrite : Bool
  timerJoinable : Bool
  /-- History: a `waitpid` has returned the child's pid; the pid was signalled
  after that; a closed end of the timer pipe was used. -/
  reaped : Bool
  lateKill : Bool
  lateUse : Bool
deriving DecidableEq, Repr

inductive Call
  | Start
  | Wait
  | Run
  | Terminate
  | Kill
  | destroy
deriving DecidableEq, Repr

inductive Action
  | call (c : Call)
  | main (ch : Choice)
  /-- A callback throws, and the exception leaves `Wait`. -/
  | throws
  | timer (interrupted : Bool)
  | child (m : ChildMove)
deriving DecidableEq, Repr

/-- `kill` with the child's pid. -/
def kill (s : State) : State :=
  { s with lateKill := s.lateKill || s.reaped }

/-- `ForkExec`. -/
def forkExec (opts : Options) (s : State) (run : Bool) : State :=
  { s with
    started := true
    childPid := true
    timerRead := 0 < opts.timeout
    timerWrite := 0 < opts.timeout
    main := .startTimer run }

/-- A call begins; one that only signals is over at once.  What throws
`logic_error` changes nothing. -/
def begin (opts : Options) (s : State) : Call → State
  | .Start => if s.started then s else forkExec opts s false
  | .Run => if s.started then s else forkExec opts s true
  | .Wait =>
      if !s.started || s.waited then s
      else
        { s with
          waited := true
          run := { s.run with pc := .rebuild }
          main := .driveIo }
  | .Terminate | .Kill => if s.childPid then kill s else s
  | .destroy =>
      if s.childPid && !s.waited then { kill s with main := .destroyReap }
      else { s with main := .destroyCancel }

/-- `DriveIO` signals the child when it aborts before the timeout. -/
def abortKill (s : State) : State :=
  match s.run.pc with
  | .dispatch ⟨[], true⟩ => if !s.run.timedOut && s.childPid then kill s else s
  | _ => s

/-- `poll` in `DriveIO` uses the read end of the timer pipe. -/
def pollTimer (opts : Options) (s : State) : State :=
  { s with
    lateUse := s.lateUse ||
      (s.run.pc = .poll && 0 < opts.timeout && !s.timerRead) }

/-- A byte is written to the timer pipe. -/
def cancelTimer (s : State) : State :=
  { s with run := { s.run with timerByte := true } }

/-- One move of the owner. -/
def mainStep (opts : Options) (s : State) (ch : Choice) : Option State :=
  match s.main with
  | .idle | .destroyed => none
  | .startTimer run =>
      some { s with
        run := { s.run with timer := if 0 < opts.timeout then .poll else .absent }
        timerJoinable := 0 < opts.timeout
        main := if run then .runInput else .idle }
  | .runInput =>
      (parentStep opts s.run ch).map fun r =>
        if r.pc = .rebuild then
          { s with run := r, waited := true, main := .driveIo }
        else { s with run := r }
  | .driveIo =>
      (parentStep opts s.run ch).map fun r =>
        let s := pollTimer opts (abortKill s)
        if r.pc = .waitpid then { s with run := r, main := .waitpid }
        else { s with run := r }
  | .waitpid =>
      if s.childPid then
        if s.run.exited then
          some { s with
            childPid := false
            reaped := true
            main := .loadTimedOut }
        else none
      else some { s with main := .loadTimedOut }
  | .loadTimedOut =>
      some { s with main := if s.timerJoinable then .cancel else .closeRead }
  | .cancel =>
      some (if s.timerWrite then { cancelTimer s with main := .closeWrite }
        else { s with main := .join })
  | .closeWrite => some { s with timerWrite := false, main := .join }
  | .join =>
      if s.run.timer = .finished then
        some { s with timerJoinable := false, main := .closeRead }
      else none
  | .closeRead => some { s with timerRead := false, main := .idle }
  | .destroyReap =>
      if s.run.exited then some { s with reaped := true, main := .destroyCancel }
      else none
  | .destroyCancel =>
      some { (if s.timerWrite then cancelTimer s else s) with
        main := .destroyJoin }
  | .destroyJoin =>
      if s.timerJoinable then
        if s.run.timer = .finished then
          some { s with timerJoinable := false, main := .destroyClose }
        else none
      else some { s with main := .destroyClose }
  | .destroyClose =>
      some { s with
        timerRead := false
        timerWrite := false
        main := .destroyed }

/-- What the timer thread is about to do with the pid and with its pipe. -/
def timerEffect (s : State) : State :=
  match s.run.timer with
  | .terminate | .kill => kill s
  | .poll | .grace => { s with lateUse := s.lateUse || !s.timerRead }
  | .signal => { s with lateUse := s.lateUse || !s.timerWrite }
  | .absent | .store | .finished => s

/-- Inside a callback. -/
def inCallback (opts : Options) (s : State) : Bool :=
  match s.run.pc with
  | .drain o _ _ | .drainLast o => opts.callback o
  | _ => false

def step (opts : Options) (s : State) : Action → Option State
  | .call c => if s.main = .idle then some (begin opts s c) else none
  | .main ch => mainStep opts s ch
  | .throws =>
      if s.main = .driveIo ∧ inCallback opts s then
        some { s with main := .idle }
      else none
  | .timer interrupted =>
      (timerStep opts s.run interrupted).map fun r =>
        { timerEffect s with run := r }
  | .child m =>
      if s.started then (childStep s.run m).map fun r => { s with run := r }
      else none

/-- A new object. -/
def initial (opts : Options) (caps : Capacities) : State where
  run := { init opts caps with timer := .absent }
  main := .idle
  started := false
  waited := false
  childPid := false
  timerRead := false
  timerWrite := false
  timerJoinable := false
  reaped := false
  lateKill := false
  lateUse := false

/-- A reachable state of an object. -/
abbrev Reachable (opts : Options) (caps : Capacities)
    (allowed : State → Action → Prop) : State → Prop :=
  Transition.ReachableVia (step opts) allowed {initial opts caps}

end Lifecycle

/-! ## What moves leave alone -/

/-- The timer thread and its pipe. -/
structure SameTimer (s s' : State) : Prop where
  timer : s'.timer = s.timer
  timerByte : s'.timerByte = s.timerByte

section

variable {opts : Options} {s s' : State}

theorem SameTimer.refl (s : State) : SameTimer s s := ⟨rfl, rfl⟩

theorem SameTimer.trans {s'' : State} (h : SameTimer s s')
    (h' : SameTimer s' s'') : SameTimer s s'' :=
  ⟨h'.timer.trans h.timer, h'.timerByte.trans h.timerByte⟩

theorem sameTimer_setOutput (s : State) (o : Output) (t : Stream) :
    SameTimer s (s.setOutput o t) := by
  cases o <;> exact ⟨rfl, rfl⟩

theorem sameTimer_closeOutput (s : State) (o : Output) :
    SameTimer s (s.closeOutput o) :=
  sameTimer_setOutput s o _

theorem sameTimer_dispatch (opts : Options) (s : State) (p : Pass) :
    SameTimer s (dispatch opts s p) := by
  unfold dispatch
  split
  · exact ⟨rfl, rfl⟩
  · exact ⟨rfl, rfl⟩
  · split <;> exact ⟨rfl, rfl⟩
  · exact ⟨rfl, rfl⟩

theorem sameTimer_drain (opts : Options) (s : State) (o : Output)
    (hup : Bool) (p : Pass) (ch : Choice) :
    SameTimer s (drain opts s o hup p ch) := by
  unfold drain
  dsimp only
  have hset := sameTimer_setOutput s o
    (drainRead opts (opts.callback o) (s.output o) s.outputTruncated ch).1
  split
  · exact ⟨hset.timer, hset.timerByte⟩
  · split
    · have hclose := sameTimer_closeOutput
        { s.setOutput o (drainRead opts (opts.callback o) (s.output o)
            s.outputTruncated ch).1 with
          outputTruncated := (drainRead opts (opts.callback o) (s.output o)
            s.outputTruncated ch).2.1 } o
      exact ⟨hclose.timer.trans hset.timer,
        hclose.timerByte.trans hset.timerByte⟩
    · exact ⟨hset.timer, hset.timerByte⟩

theorem sameTimer_drainNext (s : State) (o : Output) :
    SameTimer s (drainNext s o) := by
  cases o <;> exact ⟨rfl, rfl⟩

theorem sameTimer_drainLast (opts : Options) (s : State) (o : Output)
    (ch : Choice) : SameTimer s (drainLast opts s o ch) := by
  unfold drainLast
  split
  · dsimp only
    have hset := sameTimer_setOutput s o
      (drainRead opts (opts.callback o) (s.output o) s.outputTruncated ch).1
    split
    · exact ⟨hset.timer, hset.timerByte⟩
    · apply SameTimer.trans _ (sameTimer_drainNext _ o)
      apply SameTimer.trans _ (sameTimer_closeOutput _ o)
      exact ⟨hset.timer, hset.timerByte⟩
  · exact sameTimer_drainNext s o

theorem sameTimer_runInput (opts : Options) (s : State) :
    SameTimer s (runInput opts s) := by
  unfold runInput
  split_ifs <;> exact ⟨rfl, rfl⟩

theorem sameTimer_writeReturned (opts : Options) (s : State) (p : Pass)
    (n : ℤ) : SameTimer s (writeReturned opts s p n) := by
  unfold writeReturned
  dsimp only
  split_ifs <;> exact ⟨rfl, rfl⟩

/-- The parent does not touch the timer. -/
theorem parentStep_sameTimer {ch : Choice}
    (h : parentStep opts s ch = some s') : SameTimer s s' := by
  unfold parentStep at h
  split at h
  · obtain rfl := Option.some.inj h
    exact sameTimer_runInput opts s
  · obtain ⟨⟨q, move⟩, -, rfl⟩ := Option.map_eq_some_iff.mp h
    cases move <;> exact ⟨rfl, rfl⟩
  · obtain rfl := Option.some.inj h
    exact ⟨rfl, rfl⟩
  · split_ifs at h <;> cases h <;> exact ⟨rfl, rfl⟩
  · obtain rfl := Option.some.inj h
    exact sameTimer_dispatch opts s _
  · obtain rfl := Option.some.inj h
    exact sameTimer_drain opts s _ _ _ ch
  · obtain ⟨⟨q, move⟩, -, rfl⟩ := Option.map_eq_some_iff.mp h
    cases move with
    | storing | killed => exact ⟨rfl, rfl⟩
    | returned n =>
        have hwrite := sameTimer_writeReturned opts { s with stdin := q }
        exact ⟨(hwrite _ n).timer, (hwrite _ n).timerByte⟩
  · obtain rfl := Option.some.inj h
    exact sameTimer_drainLast opts s _ ch
  · split_ifs at h
    obtain rfl := Option.some.inj h
    exact ⟨rfl, rfl⟩
  · cases h
  · cases h

theorem childStep_sameTimer {m : ChildMove} (h : childStep s m = some s') :
    SameTimer s s' := by
  cases m with
  | read n =>
      simp only [childStep] at h
      split at h <;> cases h
      exact ⟨rfl, rfl⟩
  | write o n =>
      simp only [childStep] at h
      split at h <;> cases h
      exact sameTimer_setOutput s o _
  | closeStdin =>
      cases h
      exact ⟨rfl, rfl⟩
  | closeOutput o =>
      cases h
      exact sameTimer_setOutput s o _
  | exit =>
      cases h
      exact ⟨rfl, rfl⟩

end

/-! ## What the owner does -/

namespace Lifecycle

/-- Where the owner goes without doing anything. -/
inductive Goes (s : State) : MainPc → Prop
  | noChild (hmain : s.main = .waitpid) (hpid : s.childPid = false) :
      Goes s .loadTimedOut
  | toCancel (hmain : s.main = .loadTimedOut)
      (hjoinable : s.timerJoinable = true) : Goes s .cancel
  | toCloseRead (hmain : s.main = .loadTimedOut)
      (hjoinable : s.timerJoinable = false) : Goes s .closeRead
  | toJoin (hmain : s.main = .cancel) (hwrite : s.timerWrite = false) :
      Goes s .join
  | toDestroyJoin (hmain : s.main = .destroyCancel)
      (hwrite : s.timerWrite = false) : Goes s .destroyJoin
  | toDestroyClose (hmain : s.main = .destroyJoin)
      (hjoinable : s.timerJoinable = false) : Goes s .destroyClose

/-- The places at which the owner writes the cancel byte, with the next. -/
inductive Cancels : MainPc → MainPc → Prop
  | wait : Cancels .cancel .closeWrite
  | destroy : Cancels .destroyCancel .destroyJoin

/-- The places at which the owner joins the timer thread, with the next. -/
inductive Joins : MainPc → MainPc → Prop
  | wait : Joins .join .closeRead
  | destroy : Joins .destroyJoin .destroyClose

/-- What one move of the owner does to the object. -/
inductive MainEffect (opts : Options) (s : State) : State → Prop
  | startsTimer {run : Bool} (hmain : s.main = .startTimer run) :
      MainEffect opts s { s with
        run :=
          { s.run with timer := if 0 < opts.timeout then .poll else .absent }
        timerJoinable := 0 < opts.timeout
        main := if run then .runInput else .idle }
  | writes {r : PopenWrapper.State} (hmain : s.main = .runInput)
      (hsame : SameTimer s.run r) :
      MainEffect opts s { s with run := r, main := .runInput }
  | waits {r : PopenWrapper.State} (hmain : s.main = .runInput)
      (hsame : SameTimer s.run r) :
      MainEffect opts s { s with run := r, waited := true, main := .driveIo }
  | drives {r : PopenWrapper.State} {next : MainPc}
      (hmain : s.main = .driveIo) (hsame : SameTimer s.run r)
      (hnext : next = .driveIo ∨ next = .waitpid) :
      MainEffect opts s
        { pollTimer opts (abortKill s) with run := r, main := next }
  | reaps (hmain : s.main = .waitpid) (hpid : s.childPid = true)
      (hexited : s.run.exited = true) :
      MainEffect opts s
        { s with childPid := false, reaped := true, main := .loadTimedOut }
  | destroyReaps (hmain : s.main = .destroyReap)
      (hexited : s.run.exited = true) :
      MainEffect opts s { s with reaped := true, main := .destroyCancel }
  | goes {next : MainPc} (hgoes : Goes s next) :
      MainEffect opts s { s with main := next }
  | cancels {next : MainPc} (hcancels : Cancels s.main next) :
      MainEffect opts s { cancelTimer s with main := next }
  | closesWrite (hmain : s.main = .closeWrite) :
      MainEffect opts s { s with timerWrite := false, main := .join }
  | joins {next : MainPc} (hjoins : Joins s.main next)
      (hfinished : s.run.timer = .finished) :
      MainEffect opts s { s with timerJoinable := false, main := next }
  | closesRead (hmain : s.main = .closeRead) :
      MainEffect opts s { s with timerRead := false, main := .idle }
  | closesBoth (hmain : s.main = .destroyClose) :
      MainEffect opts s
        { s with timerRead := false, timerWrite := false, main := .destroyed }

section

variable {opts : Options} {s s' : State}

theorem main_pollTimer (opts : Options) (s : State) :
    (pollTimer opts (abortKill s)).main = s.main ∧
      (pollTimer opts (abortKill s)).waited = s.waited := by
  unfold abortKill
  split
  · split_ifs <;> exact ⟨rfl, rfl⟩
  · exact ⟨rfl, rfl⟩

theorem mainStep_effect {ch : Choice} (h : mainStep opts s ch = some s') :
    MainEffect opts s s' := by
  cases hmain : s.main with
  | idle | destroyed => simp [mainStep, hmain] at h
  | startTimer run =>
      simp only [mainStep, hmain, Option.some.injEq] at h
      exact h ▸ .startsTimer hmain
  | runInput =>
      simp only [mainStep, hmain, Option.map_eq_some_iff] at h
      obtain ⟨r, hr, rfl⟩ := h
      have hsame := parentStep_sameTimer hr
      split_ifs
      · exact .waits hmain hsame
      · exact .writes hmain hsame
  | driveIo =>
      simp only [mainStep, hmain, Option.map_eq_some_iff] at h
      obtain ⟨r, hr, rfl⟩ := h
      have hsame := parentStep_sameTimer hr
      split_ifs
      · exact .drives hmain hsame (.inr rfl)
      · have hstays : { pollTimer opts (abortKill s) with run := r } =
            { pollTimer opts (abortKill s) with run := r, main := .driveIo } := by
          rw [← hmain, ← (main_pollTimer opts s).1]
        rw [hstays]
        exact .drives hmain hsame (.inl rfl)
  | waitpid =>
      simp only [mainStep, hmain] at h
      split_ifs at h with hpid hexited
      · exact Option.some.inj h ▸ .reaps hmain hpid hexited
      · exact Option.some.inj h ▸
          .goes (.noChild hmain (Bool.eq_false_of_not_eq_true hpid))
  | loadTimedOut =>
      simp only [mainStep, hmain, Option.some.injEq] at h
      subst h
      split_ifs with hjoinable
      · exact .goes (.toCancel hmain hjoinable)
      · exact .goes
          (.toCloseRead hmain (Bool.eq_false_of_not_eq_true hjoinable))
  | cancel =>
      simp only [mainStep, hmain, Option.some.injEq] at h
      subst h
      split_ifs with hwrite
      · exact .cancels (hmain ▸ .wait)
      · exact .goes (.toJoin hmain (Bool.eq_false_of_not_eq_true hwrite))
  | closeWrite =>
      simp only [mainStep, hmain, Option.some.injEq] at h
      exact h ▸ .closesWrite hmain
  | join =>
      simp only [mainStep, hmain] at h
      split_ifs at h with hfinished
      exact Option.some.inj h ▸ .joins (hmain ▸ .wait) hfinished
  | closeRead =>
      simp only [mainStep, hmain, Option.some.injEq] at h
      exact h ▸ .closesRead hmain
  | destroyReap =>
      simp only [mainStep, hmain] at h
      split_ifs at h with hexited
      exact Option.some.inj h ▸ .destroyReaps hmain hexited
  | destroyCancel =>
      simp only [mainStep, hmain, Option.some.injEq] at h
      subst h
      split_ifs with hwrite
      · exact .cancels (hmain ▸ .destroy)
      · exact .goes
          (.toDestroyJoin hmain (Bool.eq_false_of_not_eq_true hwrite))
  | destroyJoin =>
      simp only [mainStep, hmain] at h
      split_ifs at h with hjoinable hfinished
      · exact Option.some.inj h ▸ .joins (hmain ▸ .destroy) hfinished
      · exact Option.some.inj h ▸ .goes
          (.toDestroyClose hmain (Bool.eq_false_of_not_eq_true hjoinable))
  | destroyClose =>
      simp only [mainStep, hmain, Option.some.injEq] at h
      exact h ▸ .closesBoth hmain

end

end Lifecycle

end PopenWrapper
end Yacul
