import Yacul.Basic.Alignment
import Yacul.System.PopenWrapper

/-!
# The bytes that go through the pipes

`Run` with the bytes it writes to the child and the bytes it collects.  Every
system call is a step; what it answers is chosen by the environment, so the
streams are cut into pieces in every possible way.
-/

namespace Yacul
namespace PopenWrapper
namespace Streams

/-! ## States -/

/-- A stream that the parent reads: all that the child side has written, how
much of it has been read, whether the parent's end is open, and the member of
`Result` it is collected in. -/
structure Source where
  written : List UInt8
  taken : ℕ
  isOpen : Bool
  data : List UInt8
deriving DecidableEq, Repr

/-- Where the parent is in `Run`. -/
inductive Pc
  | start
  /-- `WriteStdin`. -/
  | writeStdin
  /-- The loop of `DriveIO`. -/
  | rebuild
  | poll (pfds : List Fd)
  | dispatch (p : Pass)
  | drain (o : Output) (hup : Bool) (p : Pass)
  | write (p : Pass)
  /-- What `DriveIO` drains after the loop. -/
  | drainLast (o : Output)
  | done
deriving DecidableEq, Repr

structure State where
  pc : Pc
  stdout : Source
  stderr : Source
  /-- `parent_stdin_write_ >= 0`. -/
  stdinOpen : Bool
  stdinOffset : ℕ
  /-- History: the bytes that stdin of the child has accepted. -/
  delivered : List UInt8
  outputTruncated : Bool
  timedOut : Bool
  childPid : ℤ
  /-- History: the pids that `DriveIO` has sent `SIGTERM` to. -/
  terminated : List ℤ
deriving DecidableEq, Repr

def State.source (s : State) : Output → Source
  | .stdout => s.stdout
  | .stderr => s.stderr

def State.setSource (s : State) (o : Output) (t : Source) : State :=
  match o with
  | .stdout => { s with stdout := t }
  | .stderr => { s with stderr := t }

/-- `CloseFd` on the parent's end of a stream. -/
def State.closeSource (s : State) (o : Output) : State :=
  s.setSource o { s.source o with isOpen := false }

/-- `PopenWrapper::CloseStdin`. -/
def closeStdin (s : State) : State :=
  { s with stdinOpen := false }

/-! ## What the system calls answer -/

/-- `read`: a number of bytes, `EAGAIN` or the end of the stream, another
error, `EINTR`. -/
inductive ReadAnswer
  | bytes (n : ℕ)
  | nothing
  | error
  | interrupted
deriving DecidableEq, Repr

/-- `write`. -/
inductive WriteAnswer
  | bytes (n : ℕ)
  | error
  | interrupted
deriving DecidableEq, Repr

/-- `poll`. -/
inductive PollAnswer
  | ready (revents : Fd → Revents)
  | error
  | interrupted

/-- The answers of the environment, and that of a callback. -/
structure Answer where
  poll : PollAnswer := .interrupted
  read : ReadAnswer := .nothing
  write : WriteAnswer := .interrupted
  accepts : Bool := true

/-! ## The parent -/

/-- The space that a buffer has left, in `std::size_t`. -/
def space (opts : Options) (size : ℕ) : ℕ :=
  Basic.wrapSub 64 opts.maxOutputBytes size

/-- What the loop of `DrainFd` does with `n` bytes; the last component is the
result once the loop ends. -/
def collect (opts : Options) (callback accepts : Bool) (t : Source)
    (truncated : Bool) (n : ℕ) : Source × Bool × Option Bool :=
  let chunk := (t.written.drop t.taken).take n
  let t := { t with taken := t.taken + n }
  let next := if n < opts.readBufferSize then some true else none
  if callback then (t, truncated, if accepts then next else some false)
  else if 0 < opts.maxOutputBytes then
    if space opts t.data.length = 0 then (t, true, some false)
    else if space opts t.data.length < chunk.length then
      ({ t with
          data := t.data ++ chunk.take (space opts t.data.length) }, true,
        some false)
    else
      ({ t with data := t.data ++ chunk }, truncated,
        if truncated then some false else next)
  else
    ({ t with data := t.data ++ chunk }, truncated,
      if truncated then some false else next)

/-- One `read` in the loop of `DrainFd`. -/
def drainRead (opts : Options) (callback : Bool) (t : Source)
    (truncated : Bool) (ans : Answer) : Option (Source × Bool × Option Bool) :=
  match ans.read with
  | .interrupted => some (t, truncated, none)
  | .error => some (t, truncated, some false)
  | .nothing => some (t, truncated, some true)
  | .bytes n =>
      if 0 < n ∧ n ≤ opts.readBufferSize ∧ t.taken + n ≤ t.written.length then
        some (collect opts callback ans.accepts t truncated n)
      else none

/-- `rebuild_pfds`. -/
def rebuildPfds (opts : Options) (s : State) : List Fd :=
  (if s.stdout.isOpen then [Fd.output .stdout] else []) ++
    (if s.stderr.isOpen then [Fd.output .stderr] else []) ++
      (if s.stdinOpen && s.stdinOffset < opts.stdinData.length then
        [Fd.stdin] else []) ++
        (if 0 < opts.timeout then [Fd.timer] else [])

/-- All of the parent's ends are closed. -/
def allClosed (s : State) : Bool :=
  !s.stdout.isOpen && !s.stderr.isOpen && !s.stdinOpen

/-- `Run` between `Start` and `Wait`. -/
def runInput (opts : Options) (s : State) : State :=
  if opts.needStdin then
    if opts.stdinData = [] then { closeStdin s with pc := .rebuild }
    else if opts.mode = .kWriteOnly then { s with pc := .writeStdin }
    else { s with pc := .rebuild }
  else { s with pc := .rebuild }

/-- The child is signalled when the pass has aborted before the timeout. -/
def abortKill (s : State) : State :=
  if !s.timedOut && 0 < s.childPid then
    { s with terminated := s.terminated ++ [s.childPid] }
  else s

/-- One descriptor in the pass over `pfds`.  One that has been closed in the
pass is not that of a stream any more. -/
def dispatch (s : State) (p : Pass) : State :=
  match p.ready with
  | [] =>
      if p.abort then { abortKill s with pc := .drainLast .stdout }
      else
        { s with pc := if allClosed s then .drainLast .stdout else .rebuild }
  | (.output o, r) :: rest =>
      if (s.source o).isOpen then
        { s with pc := .drain o r.pollhup ⟨rest, p.abort⟩ }
      else { s with pc := .dispatch ⟨rest, p.abort⟩ }
  | (.stdin, r) :: rest =>
      if s.stdinOpen && r.pollout then
        { s with pc := .write ⟨rest, p.abort⟩ }
      else if s.stdinOpen && r.pollhup then
        { closeStdin s with pc := .dispatch ⟨rest, p.abort⟩ }
      else { s with pc := .dispatch ⟨rest, p.abort⟩ }
  | (.timer, _) :: rest => { s with pc := .dispatch ⟨rest, true⟩ }

/-- `DrainFd` in the pass over `pfds`, one `read` at a time. -/
def drain (opts : Options) (s : State) (o : Output) (hup : Bool) (p : Pass)
    (ans : Answer) : Option State :=
  (drainRead opts (opts.callback o) (s.source o) s.outputTruncated ans).map
    fun (t, truncated, result) =>
      let s := { s.setSource o t with outputTruncated := truncated }
      match result with
      | none => s
      | some ok =>
          let s := if !ok || hup then s.closeSource o else s
          { s with pc := .dispatch ⟨p.ready, p.abort || !ok⟩ }

/-- `write` has accepted `n` bytes of `data`. -/
def State.deliver (s : State) (data : List UInt8) (n : ℕ) : State :=
  { s with delivered := s.delivered ++ data.take n }

/-- The `write` in `WriteStdin`, whose result `Run` does not look at. -/
def writeStdin (opts : Options) (s : State) : WriteAnswer → Option State
  | .interrupted => some s
  | .error => some { closeStdin s with pc := .rebuild }
  | .bytes n =>
      if n ≤ opts.stdinData.length then
        some { closeStdin (s.deliver opts.stdinData n) with pc := .rebuild }
      else none

/-- The `write` in `DriveIO`. -/
def write (opts : Options) (s : State) (p : Pass) :
    WriteAnswer → Option State
  | .interrupted => some s
  | .error => some { closeStdin s with pc := .dispatch p }
  | .bytes n =>
      let remaining := opts.stdinData.drop s.stdinOffset
      if n ≤ remaining.length then
        let s := { s.deliver remaining n with
          stdinOffset := s.stdinOffset + n
          pc := .dispatch p }
        some (if opts.stdinData.length ≤ s.stdinOffset ∨ n = 0 then
          closeStdin s else s)
      else none

/-- After the last drain of a stream. -/
def drainNext (s : State) : Output → State
  | .stdout => { s with pc := .drainLast .stderr }
  | .stderr => { closeStdin s with pc := .done }

/-- `DrainFd` after the loop. -/
def drainLast (opts : Options) (s : State) (o : Output) (ans : Answer) :
    Option State :=
  if (s.source o).isOpen then
    (drainRead opts (opts.callback o) (s.source o) s.outputTruncated ans).map
      fun (t, truncated, result) =>
        let s := { s.setSource o t with outputTruncated := truncated }
        match result with
        | none => s
        | some _ => drainNext (s.closeSource o) o
  else some (drainNext s o)

/-- One move of the parent. -/
def parentStep (opts : Options) (s : State) (ans : Answer) : Option State :=
  match s.pc with
  | .start => some (runInput opts s)
  | .writeStdin => writeStdin opts s ans.write
  | .rebuild =>
      some { s with
        pc :=
          if rebuildPfds opts s = [] then .drainLast .stdout
          else .poll (rebuildPfds opts s) }
  | .poll pfds =>
      match ans.poll with
      | .interrupted => some { s with pc := .rebuild }
      | .error => some { s with pc := .drainLast .stdout }
      | .ready revents =>
          let reported := pfds.map fun fd => (fd, revents fd)
          some { s with
            pc := .dispatch ⟨reported.filter fun x => x.2.any, false⟩ }
  | .dispatch p => some (dispatch s p)
  | .drain o hup p => drain opts s o hup p ans
  | .write p => write opts s p ans.write
  | .drainLast o => drainLast opts s o ans
  | .done => none

/-! ## The system -/

/-- The parent moves; the child side writes to a stream; the timer thread
stores that the timeout has expired. -/
inductive Action
  | parent (ans : Answer)
  | child (o : Output) (bytes : List UInt8)
  | timeout

def childWrite (s : State) (o : Output) (bytes : List UInt8) : State :=
  let t := s.source o
  s.setSource o { t with written := t.written ++ bytes }

def step (opts : Options) (s : State) : Action → Option State
  | .parent ans => parentStep opts s ans
  | .child o bytes => some (childWrite s o bytes)
  | .timeout => some { s with timedOut := true }

/-- `Run` after `Start`, which has forked the child `pid`. -/
def init (opts : Options) (pid : ℤ) : State where
  pc := .start
  stdout := { written := [], taken := 0, isOpen := opts.needStdout, data := [] }
  stderr := { written := [], taken := 0, isOpen := opts.needStderr, data := [] }
  stdinOpen := opts.needStdin
  stdinOffset := 0
  delivered := []
  outputTruncated := false
  timedOut := false
  childPid := pid
  terminated := []

end Streams
end PopenWrapper
end Yacul
