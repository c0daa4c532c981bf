import Yacul.Support.Transition
import Mathlib.Data.Int.Notation

/-!
# Running a child process

`PopenWrapper::Run` forks a child, writes to its stdin, and reads its output
in the poll loop of `DriveIO`.  The parent, its timer thread and the child
side move one system call at a time.  A pipe is a bounded buffer; what the
child side does with its ends is chosen by the environment.
-/

namespace Yacul
namespace PopenWrapper

/-! ## Options and pipes -/

/-- `Mode`. -/
inductive Mode
  | kReadOnly
  | kWriteOnly
  | kReadWrite
deriving DecidableEq, Repr

/-- The part of `Options` that decides what is done with the pipes; `timeout`
is in milliseconds, and a callback is there or not. -/
structure Options where
  mode : Mode := .kReadOnly
  captureStderr : Bool := false
  mergeStderrIntoStdout : Bool := false
  timeout : ℤ := 0
  maxOutputBytes : ℕ := 0
  stdoutCallback : Bool := false
  stderrCallback : Bool := false
  readBufferSize : ℕ := 65536
  stdinData : List UInt8 := []
deriving DecidableEq, Repr

def Options.needStdin (opts : Options) : Bool :=
  opts.mode = .kWriteOnly || opts.mode = .kReadWrite

def Options.needStdout (opts : Options) : Bool :=
  opts.mode = .kReadOnly || opts.mode = .kReadWrite

def Options.needStderr (opts : Options) : Bool :=
  opts.captureStderr && !opts.mergeStderrIntoStdout

/-- A pipe: the bytes in it, and whether the parent and the child side hold
their ends open. -/
structure Pipe where
  capacity : ℕ
  used : ℕ
  parent : Bool
  child : Bool
deriving DecidableEq, Repr

/-- A pipe of `ForkExec`, created when it is needed. -/
def Pipe.create (capacity : ℕ) (need : Bool) : Pipe where
  capacity := capacity
  used := 0
  parent := need
  child := need

/-- The capacities of the three pipes. -/
structure Capacities where
  stdin : ℕ
  stdout : ℕ
  stderr : ℕ
  stdin_pos : 0 < stdin
  stdout_pos : 0 < stdout
  stderr_pos : 0 < stderr

/-- Pipes of the usual size. -/
def usualCapacities : Capacities where
  stdin := 65536
  stdout := 65536
  stderr := 65536
  stdin_pos := by decide
  stdout_pos := by decide
  stderr_pos := by decide

/-- A stream the parent reads: its pipe and the size of the buffer it is
collected in. -/
structure Stream where
  pipe : Pipe
  size : ℕ
deriving DecidableEq, Repr

/-- The two streams. -/
inductive Output
  | stdout
  | stderr
deriving DecidableEq, Repr

def Options.callback (opts : Options) : Output → Bool
  | .stdout => opts.stdoutCallback
  | .stderr => opts.stderrCallback

/-- The descriptors that `DriveIO` polls. -/
inductive Fd
  | output (o : Output)
  | stdin
  | timer
deriving DecidableEq, Repr

/-- `revents`; `pollhup` stands for `POLLHUP | POLLERR`. -/
structure Revents where
  pollin : Bool
  pollout : Bool
  pollhup : Bool
deriving DecidableEq, Repr

/-! ## States -/

/-- What is left of a pass over `pfds`, and `abort`. -/
structure Pass where
  ready : List (Fd × Revents)
  abort : Bool
deriving DecidableEq, Repr

/-- Where the parent is in `Run`. -/
inductive Pc
  | start
  /-- `WriteStdin`, with the bytes to go and the bytes stored. -/
  | writeStdin (left stored : ℕ)
  /-- The loop of `DriveIO`. -/
  | rebuild
  | poll
  | dispatch (p : Pass)
  | drain (o : Output) (hup : Bool) (p : Pass)
  | write (left stored : ℕ) (p : Pass)
  /-- What `DriveIO` drains after the loop. -/
  | drainLast (o : Output)
  | waitpid
  | done
  /-- `SIGPIPE` has ended the process. -/
  | killed
deriving DecidableEq, Repr

/-- Where the timer thread is in `RunTimer`. -/
inductive TimerPc
  | absent
  | poll
  | store
  | terminate
  | grace
  | kill
  | signal
  | finished
deriving DecidableEq, Repr

structure State where
  pc : Pc
  stdin : Pipe
  stdout : Stream
  stderr : Stream
  timer : TimerPc
  /-- There is a byte in the timer pipe. -/
  timerByte : Bool
  timedOut : Bool
  exited : Bool
  stdinOffset : ℕ
  outputTruncated : Bool
  /-- History: the timer expired while the parent only waited for it. -/
  onlyWaited : Bool
deriving DecidableEq, Repr

def State.output (s : State) : Output → Stream
  | .stdout => s.stdout
  | .stderr => s.stderr

def State.setOutput (s : State) (o : Output) (t : Stream) : State :=
  match o with
  | .stdout => { s with stdout := t }
  | .stderr => { s with stderr := t }

section

variable (s : State) (o : Output) (t : Stream)

@[simp] theorem State.setOutput_pc : (s.setOutput o t).pc = s.pc := by
  cases o <;> rfl

@[simp] theorem State.setOutput_stdin :
    (s.setOutput o t).stdin = s.stdin := by
  cases o <;> rfl

@[simp] theorem State.setOutput_stdinOffset :
    (s.setOutput o t).stdinOffset = s.stdinOffset := by
  cases o <;> rfl

@[simp] theorem State.setOutput_onlyWaited :
    (s.setOutput o t).onlyWaited = s.onlyWaited := by
  cases o <;> rfl

@[simp] theorem State.output_setOutput (o' : Output) :
    (s.setOutput o t).output o' = if o' = o then t else s.output o' := by
  cases o <;> cases o' <;> rfl

end

/-- `CloseFd` on the parent's end of a stream. -/
def State.closeOutput (s : State) (o : Output) : State :=
  let t := s.output o
  s.setOutput o { t with pipe := { t.pipe with parent := false } }

/-- `PopenWrapper::CloseStdin`. -/
def closeStdin (s : State) : State :=
  { s with stdin := { s.stdin with parent := false } }

/-- The choices of the environment: the size of a partial write, the outcome
of a system call, the answer of a callback, and whether `SIGPIPE` is ignored. -/
structure Choice where
  count : ℕ := 0
  interrupted : Bool := false
  fails : Bool := false
  accepts : Bool := true
  ignoresSigpipe : Bool := true
deriving DecidableEq, Repr

/-! ## System calls -/

/-- What a move inside `write` leads to. -/
inductive WriteMove
  | storing (left stored : ℕ)
  | returned (n : ℤ)
  | killed
deriving DecidableEq, Repr

/-- A move inside a blocking `write`: it stores as long as there is room, and
returns when all bytes are stored or nobody can read them. -/
def blockingWrite (p : Pipe) (left stored : ℕ) (ch : Choice) :
    Option (Pipe × WriteMove) :=
  if left = 0 then some (p, .returned stored)
  else if !p.child then
    some (p, if !ch.ignoresSigpipe then .killed
      else .returned (if 0 < stored then stored else -1))
  else if 0 < ch.count ∧ ch.count ≤ left ∧ p.used + ch.count ≤ p.capacity then
    some ({ p with used := p.used + ch.count },
      .storing (left - ch.count) (stored + ch.count))
  else none

/-- One `read` in the loop of `DrainFd` and what is done with the bytes; the
last component is the result once the loop ends. -/
def drainRead (opts : Options) (callback : Bool) (t : Stream)
    (truncated : Bool) (ch : Choice) : Stream × Bool × Option Bool :=
  let n := min t.pipe.used opts.readBufferSize
  if ch.fails then (t, truncated, some false)
  else if n = 0 then (t, truncated, some true)
  else
    let t := { t with pipe := { t.pipe with used := t.pipe.used - n } }
    let next := if n < opts.readBufferSize then some true else none
    if callback then (t, truncated, if ch.accepts then next else some false)
    else if 0 < opts.maxOutputBytes then
      let space := opts.maxOutputBytes - t.size
      if space = 0 then (t, true, some false)
      else if space < n then
        ({ t with size := t.size + space }, true, some false)
      else
        ({ t with size := t.size + n }, truncated,
          if truncated then some false else next)
    else
      ({ t with size := t.size + n }, truncated,
        if truncated then some false else next)

/-- `rebuild_pfds`. -/
def rebuildPfds (opts : Options) (s : State) : List Fd :=
  (if s.stdout.pipe.parent then [Fd.output .stdout] else []) ++
    (if s.stderr.pipe.parent then [Fd.output .stderr] else []) ++
      (if s.stdin.parent && s.stdinOffset < opts.stdinData.length then
        [Fd.stdin] else []) ++
        (if 0 < opts.timeout then [Fd.timer] else [])

/-- What `poll` reports for a descriptor. -/
def revents (s : State) : Fd → Revents
  | .output o =>
      { pollin := 0 < (s.output o).pipe.used
        pollout := false
        pollhup := !(s.output o).pipe.child }
  | .stdin =>
      { pollin := false
        pollout := s.stdin.used < s.stdin.capacity
        pollhup := !s.stdin.child }
  | .timer => { pollin := s.timerByte, pollout := false, pollhup := false }

def Revents.any (r : Revents) : Bool :=
  r.pollin || r.pollout || r.pollhup

/-- The polled descriptors with something to report.  `poll` blocks while
there is none. -/
def ready (opts : Options) (s : State) : List (Fd × Revents) :=
  ((rebuildPfds opts s).map fun fd => (fd, revents s fd)).filter fun x =>
    x.2.any

/-! ## The parent -/

/-- All of the parent's ends are closed. -/
def allClosed (s : State) : Bool :=
  !s.stdout.pipe.parent && !s.stderr.pipe.parent && !s.stdin.parent

/-- `Run` between `Start` and `Wait`. -/
def runInput (opts : Options) (s : State) : State :=
  if opts.needStdin then
    if opts.stdinData = [] then { closeStdin s with pc := .rebuild }
    else if opts.mode = .kWriteOnly then
      { s with pc := .writeStdin opts.stdinData.length 0 }
    else { s with pc := .rebuild }
  else { s with pc := .rebuild }

/-- One descriptor in the pass over `pfds`. -/
def dispatch (opts : Options) (s : State) (p : Pass) : State :=
  match p.ready with
  | [] =>
      { s with
        pc := if p.abort || allClosed s then .drainLast .stdout else .rebuild }
  | (.output o, r) :: rest => { s with pc := .drain o r.pollhup ⟨rest, p.abort⟩ }
  | (.stdin, r) :: rest =>
      if r.pollout then
        { s with
          pc := .write (opts.stdinData.length - s.stdinOffset) 0
            ⟨rest, p.abort⟩ }
      else { closeStdin s with pc := .dispatch ⟨rest, p.abort⟩ }
  | (.timer, _) :: rest => { s with pc := .dispatch ⟨rest, true⟩ }

/-- `DrainFd` in the pass over `pfds`, one `read` at a time. -/
def drain (opts : Options) (s : State) (o : Output) (hup : Bool) (p : Pass)
    (ch : Choice) : State :=
  let (t, truncated, result) :=
    drainRead opts (opts.callback o) (s.output o) s.outputTruncated ch
  let s := { s.setOutput o t with outputTruncated := truncated }
  match result with
  | none => s
  | some ok =>
      let s := if !ok || hup then s.closeOutput o else s
      { s with pc := .dispatch ⟨p.ready, p.abort || !ok⟩ }

/-- The write to stdin has returned `n`. -/
def writeReturned (opts : Options) (s : State) (p : Pass) (n : ℤ) : State :=
  let s := { s with
    stdinOffset := if 0 < n then s.stdinOffset + n.toNat else s.stdinOffset
    pc := .dispatch p }
  if opts.stdinData.length ≤ s.stdinOffset ∨ n ≤ 0 then closeStdin s else s

/-- After the last drain of a stream. -/
def drainNext (s : State) : Output → State
  | .stdout => { s with pc := .drainLast .stderr }
  | .stderr => { closeStdin s with pc := .waitpid }

/-- `DrainFd` after the loop. -/
def drainLast (opts : Options) (s : State) (o : Output) (ch : Choice) :
    State :=
  if (s.output o).pipe.parent then
    let (t, truncated, result) :=
      drainRead opts (opts.callback o) (s.output o) s.outputTruncated ch
    let s := { s.setOutput o t with outputTruncated := truncated }
    match result with
    | none => s
    | some _ => drainNext (s.closeOutput o) o
  else drainNext s o

/-- One move of the parent. -/
def parentStep (opts : Options) (s : State) (ch : Choice) : Option State :=
  match s.pc with
  | .start => some (runInput opts s)
  | .writeStdin left stored =>
      (blockingWrite s.stdin left stored ch).map fun (p, move) =>
        let s := { s with stdin := p }
        match move with
        | .storing left stored => { s with pc := .writeStdin left stored }
        | .returned _ => { closeStdin s with pc := .rebuild }
        | .killed => { s with pc := .killed }
  | .rebuild =>
      some { s with
        pc := if rebuildPfds opts s = [] then .drainLast .stdout else .poll }
  | .poll =>
      if ch.interrupted then some { s with pc := .rebuild }
      else if ch.fails then some { s with pc := .drainLast .stdout }
      else if ready opts s = [] then none
      else some { s with pc := .dispatch ⟨ready opts s, false⟩ }
  | .dispatch p => some (dispatch opts s p)
  | .drain o hup p => some (drain opts s o hup p ch)
  | .write left stored p =>
      (blockingWrite s.stdin left stored ch).map fun (q, move) =>
        let s := { s with stdin := q }
        match move with
        | .storing left stored => { s with pc := .write left stored p }
        | .returned n => writeReturned opts s p n
        | .killed => { s with pc := .killed }
  | .drainLast o => some (drainLast opts s o ch)
  | .waitpid => if s.exited then some { s with pc := .done } else none
  | .done | .killed => none

/-- The parent is blocked in `poll` although the child has exited, the child
side has closed its ends, its output is consumed, and the timer has not
expired. -/
def State.hung (opts : Options) (s : State) : Bool :=
  s.exited && !s.stdin.child &&
    !s.stdout.pipe.child && s.stdout.pipe.used = 0 &&
      !s.stderr.pipe.child && s.stderr.pipe.used = 0 &&
        !s.timedOut && s.pc = .poll && ready opts s = []

/-! ## The timer thread and the child side -/

/-- One move in `RunTimer`.  A `poll` of the thread returns when there is a
byte in the pipe, is interrupted, or times out. -/
def timerStep (opts : Options) (s : State) (interrupted : Bool) :
    Option State :=
  match s.timer with
  | .absent | .finished => none
  | .poll =>
      some { s with
        timer := if s.timerByte || interrupted then .finished else .store }
  | .store =>
      some { s with
        timer := .terminate
        timedOut := true
        onlyWaited := s.onlyWaited || s.hung opts }
  | .terminate => some { s with timer := .grace }
  | .grace =>
      some { s with
        timer := if s.timerByte || interrupted then .signal else .kill }
  | .kill => some { s with timer := .signal }
  | .signal => some { s with timer := .finished, timerByte := true }

/-- What the child and its descendants do with their ends of the pipes. -/
inductive ChildMove
  | read (n : ℕ)
  | write (o : Output) (n : ℕ)
  | closeStdin
  | closeOutput (o : Output)
  | exit
deriving DecidableEq, Repr

def childStep (s : State) : ChildMove → Option State
  | .read n =>
      if s.stdin.child ∧ 0 < n ∧ n ≤ s.stdin.used then
        some { s with stdin := { s.stdin with used := s.stdin.used - n } }
      else none
  | .write o n =>
      let t := s.output o
      if t.pipe.child ∧ t.pipe.parent ∧ 0 < n ∧
          t.pipe.used + n ≤ t.pipe.capacity then
        some (s.setOutput o
          { t with pipe := { t.pipe with used := t.pipe.used + n } })
      else none
  | .closeStdin => some { s with stdin := { s.stdin with child := false } }
  | .closeOutput o =>
      let t := s.output o
      some (s.setOutput o { t with pipe := { t.pipe with child := false } })
  | .exit => some { s with exited := true }

/-! ## The system -/

inductive Action
  | parent (ch : Choice)
  | timer (interrupted : Bool)
  | child (m : ChildMove)
deriving DecidableEq, Repr

def step (opts : Options) (s : State) : Action → Option State
  | .parent ch => parentStep opts s ch
  | .timer interrupted => timerStep opts s interrupted
  | .child m => childStep s m

/-- `Run` after `Start`. -/
def init (opts : Options) (caps : Capacities) : State where
  pc := .start
  stdin := Pipe.create caps.stdin opts.needStdin
  stdout := { pipe := Pipe.create caps.stdout opts.needStdout, size := 0 }
  stderr := { pipe := Pipe.create caps.stderr opts.needStderr, size := 0 }
  timer := if 0 < opts.timeout then .poll else .absent
  timerByte := false
  timedOut := false
  exited := false
  stdinOffset := 0
  outputTruncated := false
  onlyWaited := false

/-- A reachable state of `Run`. -/
abbrev Reachable (opts : Options) (caps : Capacities) : State → Prop :=
  Transition.Reachable (step opts) {init opts caps}

end PopenWrapper
end Yacul
