import Yacul.System.PopenExit
import Mathlib.Logic.Function.Basic

/-!
# Moving a started wrapper

The move operations copy every member, `timed_out_` by its value.  The timer
thread has captured a reference to the `timed_out_` of the object that `Start`
was called on, and keeps it.  `Wait` looks at the member of the object it is
called on.
-/

namespace Yacul
namespace PopenWrapper
namespace Moves

/-! ## Objects -/

/-- `Options`. -/
structure StartOptions extends Options where
  killGracePeriod : ℤ := 3000
deriving DecidableEq, Repr

/-- The members of a `PopenWrapper`; of `timer_thread_` it matters whether it
is joinable. -/
structure Wrapper where
  opts : StartOptions := {}
  childPid : ℤ := -1
  stdinPipe : ℤ × ℤ := (-1, -1)
  stdoutPipe : ℤ × ℤ := (-1, -1)
  stderrPipe : ℤ × ℤ := (-1, -1)
  parentStdinWrite : ℤ := -1
  parentStdoutRead : ℤ := -1
  parentStderrRead : ℤ := -1
  timerPipe : ℤ × ℤ := (-1, -1)
  timedOut : Bool := false
  timerThread : Bool := false
  started : Bool := false
  waited : Bool := false
deriving DecidableEq, Repr

/-- The move constructor: the new object, and what is left of `other`.  Nobody
asks for the options of a moved-from object, so they are left as they are. -/
def moveConstruct (other : Wrapper) : Wrapper × Wrapper :=
  ({ opts := other.opts
     childPid := other.childPid
     stdinPipe := other.stdinPipe
     stdoutPipe := other.stdoutPipe
     stderrPipe := other.stderrPipe
     parentStdinWrite := other.parentStdinWrite
     parentStdoutRead := other.parentStdoutRead
     parentStderrRead := other.parentStderrRead
     timerPipe := other.timerPipe
     timedOut := other.timedOut
     timerThread := other.timerThread
     started := other.started
     waited := other.waited },
   { other with
     childPid := -1
     stdinPipe := (-1, -1)
     stdoutPipe := (-1, -1)
     stderrPipe := (-1, -1)
     parentStdinWrite := -1
     parentStdoutRead := -1
     parentStderrRead := -1
     timerPipe := (-1, -1)
     timerThread := false
     started := false
     waited := false })

/-- The options that `DriveIO` goes by: `has_timer` asks for the pipe. -/
def Wrapper.ioOptions (w : Wrapper) : Options :=
  if 0 ≤ w.timerPipe.1 then w.opts.toOptions
  else { w.opts.toOptions with timeout := 0 }

/-! ## Waiting -/

/-- Where the owner is: before `Wait`, in `DriveIO`, after
`WaitpidWithTimeout`, after the load of `timed_out_`, or after `Wait`. -/
inductive Phase
  | owned
  | driveIo
  | reaped (r : Result)
  | loaded (r : Result)
  | returned (r : Result)
deriving DecidableEq, Repr

/-- What `Wait` works on: the object it is called on, the timer thread, the
streams with the variables of `DriveIO`, and where it is. -/
structure Process where
  wrapper : Wrapper
  timer : TimerPc
  streams : Streams.State
  phase : Phase
deriving DecidableEq, Repr

/-- The streams as `DriveIO` finds them. -/
def openStreams (w : Wrapper) (s : Streams.State) : Streams.State :=
  { s with
    pc := .rebuild
    stdout := { s.stdout with isOpen := 0 ≤ w.parentStdoutRead }
    stderr := { s.stderr with isOpen := 0 ≤ w.parentStderrRead }
    stdinOpen := 0 ≤ w.parentStdinWrite
    childPid := w.childPid }

/-- `Wait`, up to `DriveIO`; it throws unless the object has been started and
not waited for. -/
def beginWait (p : Process) : Option Process :=
  if p.wrapper.started = true ∧ p.wrapper.waited = false then
    some { p with
      wrapper := { p.wrapper with waited := true }
      streams := openStreams p.wrapper p.streams
      phase := .driveIo }
  else none

/-- One move of `DriveIO`. -/
def driveIo (p : Process) (ans : Streams.Answer) : Option Process :=
  (Streams.parentStep p.wrapper.ioOptions
    { p.streams with timedOut := p.wrapper.timedOut } ans).map
    fun streams => { p with streams := streams }

/-- `WaitpidWithTimeout`, after `DriveIO` has closed the parent's ends. -/
def reap (p : Process) (answers : List WaitAnswer) : Option Process :=
  let w := p.wrapper
  match waitpidWithTimeout w.opts.timeout w.opts.killGracePeriod w.childPid
      p.streams.result answers with
  | some (r, []) =>
      some { p with
        wrapper := { w with
          childPid := if 0 < w.childPid then -1 else w.childPid
          parentStdinWrite := -1
          parentStdoutRead := -1
          parentStderrRead := -1 }
        phase := .reaped r }
  | _ => none

/-- The timer thread is cancelled and joined. -/
def join (p : Process) (r : Result) : Option Process :=
  if p.wrapper.timerThread = true → p.timer = .finished then
    some { p with
      wrapper := { p.wrapper with timerThread := false, timerPipe := (-1, -1) }
      phase := .returned r }
  else none

/-- What the system calls of `Wait` answer. -/
structure WaitAnswers where
  io : Streams.Answer := {}
  exit : List WaitAnswer := []

/-- One move of `Wait`. -/
def waitStep (p : Process) (ans : WaitAnswers) : Option Process :=
  match p.phase with
  | .owned => beginWait p
  | .driveIo =>
      if p.streams.pc = .done then reap p ans.exit else driveIo p ans.io
  | .reaped r =>
      some { p with phase := .loaded { r with timedOut := p.wrapper.timedOut } }
  | .loaded r => join p r
  | .returned _ => none

/-! ## Moves -/

structure State where
  /-- The objects, by address. -/
  objects : ℕ → Wrapper
  /-- The object that the wrapper has been moved to. -/
  holder : ℕ
  /-- The object whose `timed_out_` the timer thread refers to. -/
  flag : ℕ
  timer : TimerPc
  streams : Streams.State
  phase : Phase
  /-- History: the timer thread has stored to another object. -/
  foreign : Bool

/-- What `Wait` works on, if it is called on the object that the wrapper has
been moved to. -/
def State.process (s : State) : Process where
  wrapper := s.objects s.holder
  timer := s.timer
  streams := s.streams
  phase := s.phase

def State.setProcess (s : State) (p : Process) : State :=
  { s with
    objects := Function.update s.objects s.holder p.wrapper
    timer := p.timer
    streams := p.streams
    phase := p.phase }

/-- What `Wait` has returned. -/
def State.result (s : State) : Option Result :=
  match s.phase with
  | .returned r => some r
  | _ => none

/-- The wrapper is moved to the address `d`, by construction, or by assignment
after the object there has been destroyed. -/
def move (s : State) (d : ℕ) : State :=
  if d = s.holder then s
  else
    let moved := moveConstruct (s.objects s.holder)
    { s with
      objects :=
        Function.update (Function.update s.objects s.holder moved.2) d moved.1
      holder := d }

/-- The store of `RunTimer`. -/
def storeTimedOut (s : State) : State :=
  { s with
    objects := Function.update s.objects s.flag
      { s.objects s.flag with timedOut := true }
    timer := .terminate
    foreign := s.foreign || s.flag ≠ s.holder }

/-- One move of `RunTimer`; a `poll` of the thread times out or returns. -/
def timerStep (s : State) (expired : Bool) : Option State :=
  match s.timer with
  | .absent | .finished => none
  | .poll => some { s with timer := if expired then .store else .finished }
  | .store => some (storeTimedOut s)
  | .terminate => some { s with timer := .grace }
  | .grace => some { s with timer := if expired then .kill else .signal }
  | .kill => some { s with timer := .signal }
  | .signal => some { s with timer := .finished }

/-- What the owner, the timer thread and the child side do. -/
inductive Action
  | move (d : ℕ)
  | wait (ans : WaitAnswers)
  | timer (expired : Bool)
  | child (o : Output) (bytes : List UInt8)

def Action.isMove : Action → Bool
  | .move _ => true
  | _ => false

def step (s : State) : Action → Option State
  | .move d => if s.phase = .owned then some (move s d) else none
  | .wait ans => (waitStep s.process ans).map s.setProcess
  | .timer expired => timerStep s expired
  | .child o bytes =>
      some { s with streams := Streams.childWrite s.streams o bytes }

/-- A stream before anything has been written. -/
def noBytes : Streams.Source where
  written := []
  taken := 0
  isOpen := false
  data := []

/-- The descriptors and the pid that `ForkExec` comes by. -/
structure Forked where
  pid : ℤ
  stdin : ℕ
  stdout : ℕ
  stderr : ℕ
  timer : ℕ × ℕ
deriving DecidableEq, Repr

/-- The object after `Start`. -/
def Wrapper.start (opts : StartOptions) (f : Forked) : Wrapper where
  opts := opts
  childPid := f.pid
  parentStdinWrite := if opts.needStdin then f.stdin else -1
  parentStdoutRead := if opts.needStdout then f.stdout else -1
  parentStderrRead := if opts.needStderr then f.stderr else -1
  timerPipe := if 0 < opts.timeout then (f.timer.1, f.timer.2) else (-1, -1)
  timerThread := 0 < opts.timeout
  started := true

/-- `Start` has returned on the object at the address `holder`; there may be
any objects at other addresses. -/
def started (objects : ℕ → Wrapper) (holder : ℕ) (opts : StartOptions)
    (f : Forked) : State where
  objects := Function.update objects holder (Wrapper.start opts f)
  holder := holder
  flag := holder
  timer := if 0 < opts.timeout then .poll else .absent
  streams :=
    { pc := .start, stdout := noBytes, stderr := noBytes, stdinOpen := false
      stdinOffset := 0, delivered := [], outputTruncated := false
      timedOut := false, childPid := f.pid, terminated := [] }
  phase := .owned
  foreign := false

/-! ## Runs without moves -/

/-- The timer thread stores to the object that the wrapper has been moved
to. -/
def StoresInPlace (s : State) : Action → Prop
  | .timer _ => s.timer = .store → s.flag = s.holder
  | _ => True

instance (s : State) (a : Action) : Decidable (StoresInPlace s a) := by
  cases a <;> unfold StoresInPlace <;> exact inferInstance

/-- The wrapper is the same in both states, and in `t` it has not been
moved. -/
structure SameProcess (s t : State) : Prop where
  process : t.process = s.process
  inPlace : t.flag = t.holder

section

variable {s s' t : State}

@[simp] theorem process_setProcess (s : State) (p : Process) :
    (s.setProcess p).process = p := by
  simp [State.process, State.setProcess]

/-- Every member is moved. -/
theorem moveConstruct_fst (w : Wrapper) : (moveConstruct w).1 = w := rfl

theorem process_move (s : State) (d : ℕ) :
    (move s d).process = s.process := by
  unfold move
  split_ifs with hd
  · rfl
  · simp [State.process, moveConstruct_fst]

/-- A store to the wrapper. -/
theorem process_storeTimedOut (hflag : s.flag = s.holder) :
    (storeTimedOut s).process =
      { s.process with
        wrapper := { s.process.wrapper with timedOut := true }
        timer := .terminate } := by
  simp [State.process, storeTimedOut, hflag]

theorem SameProcess.timerStep (h : SameProcess s t) {expired : Bool}
    (hflag : s.timer = .store → s.flag = s.holder)
    (hstep : Moves.timerStep s expired = some s') :
    ∃ t', Moves.timerStep t expired = some t' ∧ SameProcess s' t' := by
  have htimer : t.timer = s.timer := congrArg Process.timer h.process
  have hset : ∀ pc, State.process { t with timer := pc } =
      State.process { s with timer := pc } := fun pc =>
    congrArg (fun p => { p with timer := pc }) h.process
  unfold Moves.timerStep at hstep ⊢
  rw [htimer]
  cases hpc : s.timer with
  | absent | finished =>
      rw [hpc] at hstep
      cases hstep
  | store =>
      rw [hpc] at hstep
      obtain rfl := Option.some.inj hstep
      refine ⟨_, rfl, ?_, h.inPlace⟩
      rw [process_storeTimedOut h.inPlace, process_storeTimedOut (hflag hpc),
        h.process]
  | poll | terminate | grace | kill | signal =>
      rw [hpc] at hstep
      obtain rfl := Option.some.inj hstep
      exact ⟨_, rfl, hset _, h.inPlace⟩

/-- A step that is no move is made by the run without moves too. -/
theorem SameProcess.step (h : SameProcess s t) {a : Action}
    (ha : StoresInPlace s a) (hmove : a.isMove = false)
    (hstep : Moves.step s a = some s') :
    ∃ t', Moves.step t a = some t' ∧ SameProcess s' t' := by
  cases a with
  | move d => cases hmove
  | wait ans =>
      obtain ⟨p, hp, rfl⟩ := Option.map_eq_some_iff.mp hstep
      rw [← h.process] at hp
      refine ⟨t.setProcess p, Option.map_eq_some_iff.mpr ⟨p, hp, rfl⟩, ?_,
        h.inPlace⟩
      rw [process_setProcess, process_setProcess]
  | timer expired => exact h.timerStep ha hstep
  | child o bytes =>
      obtain rfl := Option.some.inj hstep
      refine ⟨_, rfl, ?_, h.inPlace⟩
      exact congrArg (fun p => { p with
        streams := Streams.childWrite p.streams o bytes }) h.process

/-- A move is none to the wrapper. -/
theorem SameProcess.move (h : SameProcess s t) {a : Action}
    (hmove : a.isMove = true) (hstep : Moves.step s a = some s') :
    SameProcess s' t := by
  cases a with
  | move d =>
      simp only [Moves.step] at hstep
      split_ifs at hstep
      obtain rfl := Option.some.inj hstep
      exact ⟨h.process.trans (process_move s d).symm, h.inPlace⟩
  | wait ans => cases hmove
  | timer expired => cases hmove
  | child o bytes => cases hmove

/-- What the timer thread has referred to is the wrapper unless a step stores
out of place. -/
theorem foreign_step {a : Action} (hs : s.foreign = false)
    (hstep : step s a = some s') :
    s'.foreign = false ↔ StoresInPlace s a := by
  cases a with
  | move d =>
      simp only [step, move] at hstep
      split_ifs at hstep
      · obtain rfl := Option.some.inj hstep
        exact iff_of_true hs trivial
      · obtain rfl := Option.some.inj hstep
        exact iff_of_true hs trivial
  | wait ans =>
      obtain ⟨p, hp, rfl⟩ := Option.map_eq_some_iff.mp hstep
      exact iff_of_true hs trivial
  | timer expired =>
      simp only [step, timerStep] at hstep
      simp only [StoresInPlace]
      cases hpc : s.timer with
      | absent | finished =>
          rw [hpc] at hstep
          cases hstep
      | store =>
          rw [hpc] at hstep
          obtain rfl := Option.some.inj hstep
          simp [storeTimedOut, hs]
      | poll | terminate | grace | kill | signal =>
          rw [hpc] at hstep
          obtain rfl := Option.some.inj hstep
          exact iff_of_true hs (by simp)
  | child o bytes =>
      obtain rfl := Option.some.inj hstep
      exact iff_of_true hs trivial

/-- The history is kept. -/
theorem foreign_back {a : Action} (hstep : step s a = some s')
    (hs' : s'.foreign = false) : s.foreign = false := by
  cases a with
  | move d =>
      simp only [step, move] at hstep
      split_ifs at hstep
      · obtain rfl := Option.some.inj hstep
        exact hs'
      · obtain rfl := Option.some.inj hstep
        exact hs'
  | wait ans =>
      obtain ⟨p, hp, rfl⟩ := Option.map_eq_some_iff.mp hstep
      exact hs'
  | timer expired =>
      simp only [step, timerStep] at hstep
      cases hpc : s.timer with
      | absent | finished =>
          rw [hpc] at hstep
          cases hstep
      | store =>
          rw [hpc] at hstep
          obtain rfl := Option.some.inj hstep
          exact (Bool.or_eq_false_iff.mp hs').1
      | poll | terminate | grace | kill | signal =>
          rw [hpc] at hstep
          obtain rfl := Option.some.inj hstep
          exact hs'
  | child o bytes =>
      obtain rfl := Option.some.inj hstep
      exact hs'

/-- The run without its moves comes to the same result, and the timer thread
has only stored to the object that the wrapper was in, exactly if it was there
whenever the timer thread stored. -/
theorem run_transparent_iff {objects : ℕ → Wrapper} {holder : ℕ}
    {opts : StartOptions} {f : Forked} {acts : List Action}
    (hrun : Transition.run step (started objects holder opts f) acts =
      some s) :
    ((∃ t, Transition.run step (started objects holder opts f)
        (acts.filter fun a => !a.isMove) = some t ∧
          t.phase = s.phase ∧ t.result = s.result) ∧ s.foreign = false) ↔
      Transition.AllSteps step StoresInPlace (started objects holder opts f)
        acts := by
  have hforeign :
      Transition.AllStates step (fun s => s.foreign = false)
        (started objects holder opts f) acts ↔
      Transition.AllSteps step StoresInPlace (started objects holder opts f)
        acts :=
    Transition.allStates_iff_allSteps (I := fun _ => True)
      (fun _ _ _ _ hs hstep => ⟨trivial, foreign_step hs hstep⟩) trivial rfl
      acts
  constructor
  · rintro ⟨-, hs⟩
    exact hforeign.mp
      (.of_last (fun _ _ _ hstep => foreign_back hstep) hrun hs)
  · intro hall
    have hinit : SameProcess (started objects holder opts f)
        (started objects holder opts f) := ⟨rfl, rfl⟩
    have hkeep : ∀ s t a s', SameProcess s t → StoresInPlace s a →
        (!a.isMove) = true → step s a = some s' →
          ∃ t', step t a = some t' ∧ SameProcess s' t' :=
      fun _ _ _ _ h ha hmove hstep => h.step ha (by simpa using hmove) hstep
    have hskip : ∀ s t a s', SameProcess s t → (!a.isMove) = false →
        step s a = some s' → SameProcess s' t :=
      fun _ _ _ _ h hmove hstep => h.move (by simpa using hmove) hstep
    obtain ⟨t, ht, hsame⟩ :=
      Transition.exists_run_filter hkeep hskip hinit hall hrun
    have hphase : t.phase = s.phase := congrArg Process.phase hsame.process
    refine ⟨⟨t, ht, hphase, ?_⟩, (hforeign.mpr hall).last hrun⟩
    unfold State.result
    rw [hphase]

end

/-- A child that only reads, with a timeout. -/
def timedOpts : StartOptions where
  mode := .kWriteOnly
  timeout := 100

/-- `Start` on the object at address 0. -/
def timedStart : State :=
  started (fun _ => {}) 0 timedOpts
    { pid := 42, stdin := 5, stdout := 6, stderr := 7, timer := (8, 9) }

/-- The timer thread sends `SIGTERM`, the grace period is over, it sends
`SIGKILL` and signals `Wait`, which then reaps the child. -/
def waitsOut : List Action :=
  [.wait {}, .wait {},
    .timer false, .timer true, .timer false, .timer false,
    .wait { io := { poll := .ready fun _ => ⟨true, false, false⟩ } },
    .wait {}, .wait {}, .wait {}, .wait {}, .wait { exit := [.status 9] },
    .wait {}, .wait {}]

/-- Moved once the timeout has expired. -/
def movesAfterStore : List Action :=
  [Action.timer true, .timer true, .move 1, .move 2, .move 0] ++ waitsOut

theorem movesAfterStore_isSome :
    (Transition.run step timedStart movesAfterStore).isSome = true := by
  decide +kernel

theorem run_transparent_iff_movesAfterStore :
    ((∃ t, Transition.run step timedStart
        (movesAfterStore.filter fun a => !a.isMove) = some t ∧
          t.phase = ((Transition.run step timedStart movesAfterStore).get
            movesAfterStore_isSome).phase ∧
          t.result = ((Transition.run step timedStart movesAfterStore).get
            movesAfterStore_isSome).result) ∧
      ((Transition.run step timedStart movesAfterStore).get
        movesAfterStore_isSome).foreign = false) ↔
      Transition.AllSteps step StoresInPlace timedStart movesAfterStore :=
  run_transparent_iff (Option.some_get movesAfterStore_isSome).symm

/-- Moved before the timeout expires. -/
def movesBeforeStore : List Action :=
  [Action.move 1, .timer true, .timer true] ++ waitsOut

/-- After a move the timeout is not in the result, and without it it is. -/
theorem exists_lostTimeout :
    ∃ r : Result,
      (Transition.run step timedStart movesBeforeStore).map
          (fun s => (s.result, s.foreign)) =
        some (some { r with timedOut := false }, true) ∧
      (Transition.run step timedStart
          (movesBeforeStore.filter fun a => !a.isMove)).map
          (fun t => (t.result, t.foreign)) =
        some (some { r with timedOut := true }, false) :=
  ⟨Result.decode {} 9, by decide +kernel, by decide +kernel⟩

end Moves
end PopenWrapper
end Yacul
