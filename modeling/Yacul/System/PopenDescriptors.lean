import Mathlib.Data.Finset.Basic
import Mathlib.Logic.Function.Basic
import Yacul.Support.Roster
import Yacul.System.PopenWrapper

/-!
# Descriptors and children

A call on a wrapper is a sequence of system calls, and most of them may fail.
Any number of wrappers and the rest of the program share one descriptor table
and one set of children.  The polls, reads and writes are left out: they decide
when `DriveIO` closes a descriptor, and here it may do so at any time.
-/

namespace Yacul
namespace PopenWrapper
namespace Descriptors

/-! ## Model -/

/-- The pipes. -/
inductive PipeMember
  | stdinPipe
  | stdoutPipe
  | stderrPipe
  | timerPipe
deriving DecidableEq, Repr

/-- The members that hold descriptors; a pipe has its read end at 0 and its
write end at 1. -/
inductive Member
  | readEnd (p : PipeMember)
  | writeEnd (p : PipeMember)
  | parentStdinWrite
  | parentStdoutRead
  | parentStderrRead
deriving DecidableEq, Repr

/-- The pipes, in the order in which they are closed. -/
def pipeEnds : List Member :=
  [.readEnd .stdinPipe, .readEnd .stdoutPipe, .readEnd .stderrPipe,
    .readEnd .timerPipe, .writeEnd .stdinPipe, .writeEnd .stdoutPipe,
    .writeEnd .stderrPipe, .writeEnd .timerPipe]

def Member.all : List Member :=
  [.parentStdinWrite, .parentStdoutRead, .parentStderrRead] ++ pipeEnds

/-- What `DriveIO` closes. -/
def Member.parent : Member → Bool
  | .parentStdinWrite | .parentStdoutRead | .parentStderrRead => true
  | _ => false

/-- The members of the object, where `none` is -1. -/
structure Wrapper where
  opts : Options
  members : Member → Option ℕ := fun _ => none
  childPid : Option ℕ := none
  started : Bool := false
  waited : Bool := false
  /-- `timer_thread_.joinable()`. -/
  timerJoinable : Bool := false
  /-- History: `Start` or `Wait` has thrown, and the destructor has called
  `waitpid`. -/
  startThrew : Bool := false
  waitThrew : Bool := false
  reaped : Bool := false

def Wrapper.set (w : Wrapper) (m : Member) (fd : Option ℕ) : Wrapper :=
  { w with members := Function.update w.members m fd }

/-- What the calls are made of. -/
inductive Op
  | createPipe (p : PipeMember)
  | fork
  | closeFd (m : Member)
  /-- `dst = src` and `src = -1`. -/
  | handOver (dst src : Member)
  /-- `timer_thread_` is assigned. -/
  | startTimer
  /-- The checks of `Wait`. -/
  | enterWait
  /-- The loop of `DriveIO`. -/
  | loop
  /-- What it does with an output after the loop. -/
  | drain (m : Member)
  | waitpid
  /-- The timer is cancelled, and its write end closed. -/
  | cancelTimer
  | joinTimer
  /-- The first statement of the destructor. -/
  | reap
  /-- The object is gone. -/
  | free
  /-- A new object is constructed in its place from `src`. -/
  | transfer (src : ℕ)
deriving DecidableEq, Repr

/-- What is only done where it is needed. -/
def onlyIf (need : Bool) (ops : List Op) : List Op :=
  if need then ops else []

/-- `ForkExec`. -/
def forkExec (opts : Options) : List Op :=
  onlyIf opts.needStdin [.createPipe .stdinPipe] ++
  onlyIf opts.needStdout [.createPipe .stdoutPipe] ++
  onlyIf opts.needStderr [.createPipe .stderrPipe] ++
  onlyIf (0 < opts.timeout) [.createPipe .timerPipe] ++
  [Op.fork] ++
  onlyIf opts.needStdin
    [.closeFd (.readEnd .stdinPipe),
      .handOver .parentStdinWrite (.writeEnd .stdinPipe)] ++
  onlyIf opts.needStdout
    [.closeFd (.writeEnd .stdoutPipe),
      .handOver .parentStdoutRead (.readEnd .stdoutPipe)] ++
  onlyIf opts.needStderr
    [.closeFd (.writeEnd .stderrPipe),
      .handOver .parentStderrRead (.readEnd .stderrPipe)]

/-- What `ForkExec` does when `fork` fails. -/
def forkCleanup : List Op :=
  pipeEnds.map .closeFd

/-- `Start`. -/
def start (opts : Options) : List Op :=
  forkExec opts ++ onlyIf (0 < opts.timeout) [.startTimer]

/-- `Run` between `Start` and `Wait`. -/
def runInput (opts : Options) : List Op :=
  if opts.needStdin then
    if opts.stdinData = [] then [.closeFd .parentStdinWrite]
    else if opts.mode = .kWriteOnly then [.closeFd .parentStdinWrite]
    else []
  else []

/-- `Wait`. -/
def wait : List Op :=
  [.enterWait, .loop, .drain .parentStdoutRead, .drain .parentStderrRead,
    .closeFd .parentStdinWrite, .waitpid, .cancelTimer, .joinTimer,
    .closeFd (.readEnd .timerPipe)]

/-- The destructor. -/
def destructor : List Op :=
  [.reap, .joinTimer] ++ Member.all.map .closeFd

/-- An object, and what is left of the call on it. -/
structure Place where
  wrapper : Wrapper
  ops : List Op := []

/-- Why nobody waits for a child any more. -/
inductive Reason
  | waitpidFailed
  | waitThrew
  | forgotten
deriving DecidableEq, Repr

/-- The program; `foreign` are the descriptors that the rest of it has open. -/
structure State where
  table : Finset ℕ := ∅
  foreign : Finset ℕ := ∅
  /-- The children that no `waitpid` has returned. -/
  children : Finset ℕ := ∅
  objects : List (Option Place) := []
  /-- History: the children whose pid is lost; a descriptor that was not open
  was closed; a joinable thread was destroyed or assigned to. -/
  abandoned : List (ℕ × Reason) := []
  badClose : Bool := false
  terminated : Bool := false

namespace State

def put (s : State) (o : ℕ) (w : Wrapper) (ops : List Op) : State :=
  { s with objects := s.objects.set o (some ⟨w, ops⟩) }

/-- `close`. -/
def close (s : State) : Option ℕ → State
  | none => s
  | some fd =>
      if fd ∈ s.table then { s with table := s.table.erase fd }
      else { s with badClose := true }

/-- The end of an object. -/
def bury (s : State) (w : Wrapper) : State :=
  { s with
    abandoned :=
      if w.reaped then s.abandoned
      else
        w.childPid.toList.map
          (fun pid => (pid, if w.waitThrew then .waitThrew else .forgotten)) ++
            s.abandoned
    terminated := s.terminated || w.timerJoinable }

end State

/-- What the environment chooses: whether the operation fails, the numbers that
`pipe` and `fork` return, and what the loop closes next. -/
structure Choice where
  fails : Bool := false
  readEnd : ℕ := 0
  writeEnd : ℕ := 0
  pid : ℕ := 0
  closes : Option Member := none
deriving DecidableEq, Repr

/-- What comes after an operation: the rest of the call, the operation once
more, or the way out of an exception. -/
inductive Flow
  | next
  | again
  | throws (cleanup : List Op)
deriving DecidableEq, Repr

def Flow.ops (op : Op) (rest : List Op) : Flow → List Op
  | .next => rest
  | .again => op :: rest
  | .throws cleanup => cleanup

/-- One operation on an object that stays. -/
def exec (s : State) (w : Wrapper) (ch : Choice) :
    Op → Option (State × Wrapper × Flow)
  | .createPipe p =>
      if ch.fails then some (s, { w with startThrew := true }, .throws [])
      else if ch.readEnd ≠ ch.writeEnd ∧ ch.readEnd ∉ s.table ∧
          ch.writeEnd ∉ s.table then
        some ({ s with
            table := insert ch.readEnd (insert ch.writeEnd s.table) },
          (w.set (.readEnd p) (some ch.readEnd)).set (.writeEnd p)
            (some ch.writeEnd), .next)
      else none
  | .fork =>
      if ch.fails then
        some (s, { w with childPid := none, startThrew := true },
          .throws forkCleanup)
      else if 0 < ch.pid ∧ ch.pid ∉ s.children then
        some ({ s with children := insert ch.pid s.children },
          { w with childPid := some ch.pid }, .next)
      else none
  | .closeFd m => some (s.close (w.members m), w.set m none, .next)
  | .handOver dst src =>
      some (s, (w.set dst (w.members src)).set src none, .next)
  | .startTimer =>
      if (w.members (.readEnd .timerPipe)).isSome &&
          (w.members (.writeEnd .timerPipe)).isSome then
        if ch.fails then some (s, { w with startThrew := true }, .throws [])
        else
          some ({ s with terminated := s.terminated || w.timerJoinable },
            { w with timerJoinable := true }, .next)
      else some (s, w, .next)
  | .enterWait =>
      if !w.started || w.waited then some (s, w, .throws [])
      else some (s, { w with waited := true }, .next)
  | .loop =>
      if ch.fails then some (s, { w with waitThrew := true }, .throws [])
      else
        match ch.closes with
        | none => some (s, w, .next)
        | some m =>
            if m.parent then
              some (s.close (w.members m), w.set m none, .again)
            else none
  | .drain m =>
      if (w.members m).isSome then
        if ch.fails then some (s, { w with waitThrew := true }, .throws [])
        else some (s.close (w.members m), w.set m none, .next)
      else some (s, w, .next)
  | .waitpid =>
      match w.childPid with
      | none => some (s, w, .next)
      | some pid =>
          if ch.fails then
            some ({ s with abandoned := (pid, .waitpidFailed) :: s.abandoned },
              { w with childPid := none }, .next)
          else
            some ({ s with children := s.children.erase pid },
              { w with childPid := none }, .next)
  | .cancelTimer =>
      if w.timerJoinable then
        some (s.close (w.members (.writeEnd .timerPipe)),
          w.set (.writeEnd .timerPipe) none, .next)
      else some (s, w, .next)
  | .joinTimer => some (s, { w with timerJoinable := false }, .next)
  | .reap =>
      match w.childPid with
      | none => some (s, w, .next)
      | some pid =>
          if w.waited then some (s, w, .next)
          else if ch.fails then
            some ({ s with abandoned := (pid, .waitpidFailed) :: s.abandoned },
              { w with reaped := true }, .next)
          else
            some ({ s with children := s.children.erase pid },
              { w with reaped := true }, .next)
  | .free | .transfer _ => none

/-- What is left where an object was moved from; the input and the callbacks
have gone with it. -/
def Wrapper.movedFrom (w : Wrapper) : Wrapper where
  opts := { w.opts with
    stdinData := []
    stdoutCallback := false
    stderrCallback := false }

inductive Call
  | Start
  | Run
  | Wait
  | CloseStdin
  | destroy
deriving DecidableEq, Repr

/-- A call begins; a `Start` that throws `logic_error` changes nothing. -/
def begin (w : Wrapper) : Call → Place
  | .Start =>
      if w.started then ⟨w, []⟩
      else ⟨{ w with started := true }, start w.opts⟩
  | .Run =>
      if w.started then ⟨w, []⟩
      else
        ⟨{ w with started := true }, start w.opts ++ runInput w.opts ++ wait⟩
  | .Wait => ⟨w, wait⟩
  | .CloseStdin => ⟨w, [.closeFd .parentStdinWrite]⟩
  | .destroy => ⟨w, destructor ++ [.free]⟩

inductive Action
  | construct (opts : Options)
  | moveConstruct (src : ℕ)
  | moveAssign (dst src : ℕ)
  | begin (o : ℕ) (c : Call)
  /-- The next operation of the call on an object. -/
  | op (o : ℕ) (ch : Choice)
  /-- The rest of the program opens or closes a descriptor. -/
  | openOther (fd : ℕ)
  | closeOther (fd : ℕ)
deriving DecidableEq, Repr

namespace State

/-- The object at `o`, if no call on it is under way. -/
def idle? (s : State) (o : ℕ) : Option Wrapper :=
  match s.objects[o]? with
  | some (some ⟨w, []⟩) => some w
  | _ => none

end State

/-- The next operation of the call on the object at `o`.  The object that is
moved from is not used by another call meanwhile. -/
def opStep (s : State) (o : ℕ) (ch : Choice) : Option State :=
  match s.objects[o]? with
  | some (some ⟨w, op :: rest⟩) =>
      match op with
      | .free => some { s.bury w with objects := s.objects.set o none }
      | .transfer src =>
          (s.idle? src).map fun other =>
            ((s.bury w).put o other []).put src other.movedFrom []
      | op =>
          (exec s w ch op).map fun r =>
            r.1.put o r.2.1 (r.2.2.ops op rest)
  | _ => none

/-- One step of the program.  A wrapper is not used by two calls at a time. -/
def step (s : State) : Action → Option State
  | .construct opts =>
      some { s with objects := s.objects ++ [some ⟨{ opts := opts }, []⟩] }
  | .moveConstruct src =>
      (s.idle? src).map fun other =>
        let s' := s.put src other.movedFrom []
        { s' with objects := s'.objects ++ [some ⟨other, []⟩] }
  | .moveAssign dst src =>
      if dst = src then some s
      else
        (s.idle? dst).map fun w => s.put dst w (destructor ++ [.transfer src])
  | .begin o c =>
      (s.idle? o).map fun w =>
        { s with objects := s.objects.set o (some (begin w c)) }
  | .op o ch => opStep s o ch
  | .openOther fd =>
      if fd ∈ s.table then none
      else some { s with
        table := insert fd s.table
        foreign := insert fd s.foreign }
  | .closeOther fd =>
      if fd ∈ s.foreign then
        some { s with
          table := s.table.erase fd
          foreign := s.foreign.erase fd }
      else none

/-- A program that has no wrappers yet. -/
def init : Set State :=
  { s | s.table = s.foreign ∧ s.children = ∅ ∧ s.objects = [] ∧
    s.abandoned = [] ∧ s.badClose = false ∧ s.terminated = false }

/-! ## What is held -/

/-- The descriptors that the members hold. -/
def Wrapper.held (w : Wrapper) : Multiset ℕ :=
  Roster.tally (fun m => Multiset.ofList (w.members m).toList) Member.all

/-- The child that the object has to reap. -/
def Wrapper.child (w : Wrapper) : Multiset ℕ :=
  if w.reaped then 0 else Multiset.ofList w.childPid.toList

/-- What an object that may be gone contributes. -/
def Place.tally (f : Wrapper → Multiset ℕ) : Option Place → Multiset ℕ
  | none => 0
  | some p => f p.wrapper

def State.held (s : State) : Multiset ℕ :=
  Roster.tally (Place.tally Wrapper.held) s.objects

/-- The children that nobody waits for any more. -/
def State.given (s : State) : Multiset ℕ :=
  Multiset.ofList (s.abandoned.map Prod.fst)

def State.childrenHeld (s : State) : Multiset ℕ :=
  Roster.tally (Place.tally Wrapper.child) s.objects

/-! ## What a call needs -/

/-- No descriptor, no child, no timer. -/
structure Wrapper.Blank (w : Wrapper) : Prop where
  members : ∀ m, w.members m = none
  childPid : w.childPid = none
  timerJoinable : w.timerJoinable = false
  waited : w.waited = false

/-- After `Start` only the parent's ends and the pipe of the timer are open. -/
structure Wrapper.Running (w : Wrapper) : Prop where
  pipes : ∀ p, p ≠ .timerPipe →
    w.members (.readEnd p) = none ∧ w.members (.writeEnd p) = none
  timer : w.timerJoinable = true ∨ w.members (.readEnd .timerPipe) = none ∧
    w.members (.writeEnd .timerPipe) = none

/-- An object between two calls. -/
structure Wrapper.Idle (w : Wrapper) : Prop where
  fresh : w.started = false → w.Blank
  running : w.started = true → w.waited = false → w.startThrew = false →
    w.Running
  waited : w.waited = true → w.startThrew = false → w.waitThrew = false →
    ∀ m, w.members m = none
  child : w.waited = true → w.waitThrew = false → w.childPid = none
  reaped : w.reaped = false

/-- What an object must be like for its end: nothing is left behind. -/
structure Wrapper.Spent (w : Wrapper) : Prop where
  members : ∀ m, w.members m = none
  timerJoinable : w.timerJoinable = false
  child : w.childPid.isSome = true → w.reaped = false → w.waitThrew = true

def Wrapper.withMembers (w : Wrapper) (members : Member → Option ℕ) :
    Wrapper :=
  { w with members := members }

/-- The object may get into states that the loop of `DriveIO` leads to. -/
def LoopSafe (w : Wrapper) (k : Wrapper → Prop) : Prop :=
  ∀ members : Member → Option ℕ,
    (∀ m, m.parent = false → members m = w.members m) →
      k (w.withMembers members)

/-- The weakest precondition: the operation runs on `w`, leads to `k`, and an
exception leaves an idle object. -/
def Op.Safe (w : Wrapper) (k : Wrapper → Prop) : Op → Prop
  | .createPipe p =>
      w.members (.readEnd p) = none ∧ w.members (.writeEnd p) = none ∧
        (∀ r e, k ((w.set (.readEnd p) (some r)).set (.writeEnd p) (some e))) ∧
          Wrapper.Idle { w with startThrew := true }
  | .fork =>
      w.childPid = none ∧ w.reaped = false ∧
        (∀ pid, k { w with childPid := some pid }) ∧
          ∀ members, Wrapper.Idle
            { w with
              members := members
              childPid := none
              startThrew := true }
  | .closeFd m => k (w.set m none)
  | .handOver dst src =>
      dst ≠ src ∧ w.members dst = none ∧
        k ((w.set dst (w.members src)).set src none)
  | .startTimer =>
      (w.members (.readEnd .timerPipe)).isSome = true ∧
        (w.members (.writeEnd .timerPipe)).isSome = true ∧
          w.timerJoinable = false ∧ k { w with timerJoinable := true } ∧
            Wrapper.Idle { w with startThrew := true }
  | .enterWait =>
      (w.started = true → w.waited = false → k { w with waited := true }) ∧
        (w.started = false ∨ w.waited = true → w.Idle)
  | .loop =>
      LoopSafe w k ∧
        LoopSafe w fun w' => Wrapper.Idle { w' with waitThrew := true }
  | .drain m =>
      k (w.set m none) ∧ Wrapper.Idle { w with waitThrew := true }
  | .waitpid => w.reaped = false ∧ k { w with childPid := none }
  | .cancelTimer =>
      if w.timerJoinable then k (w.set (.writeEnd .timerPipe) none) else k w
  | .joinTimer => k { w with timerJoinable := false }
  | .reap =>
      w.reaped = false ∧
        if w.childPid.isSome && !w.waited then k { w with reaped := true }
        else k w
  | .free | .transfer _ => w.Spent

/-- What is left of a call is safe. -/
def Ready (w : Wrapper) : List Op → Prop
  | [] => w.Idle
  | op :: rest => op.Safe w fun w' => Ready w' rest

section

variable {w : Wrapper} {ops : List Op}

@[simp] theorem set_members_self (w : Wrapper) (m : Member)
    (fd : Option ℕ) : (w.set m fd).members m = fd :=
  Function.update_self ..

theorem set_members_of_ne {m m' : Member} (h : m' ≠ m) (fd : Option ℕ) :
    (w.set m fd).members m' = w.members m' :=
  Function.update_of_ne h ..

theorem idle_movedFrom (w : Wrapper) : w.movedFrom.Idle where
  fresh _ := ⟨fun _ => rfl, rfl, rfl, rfl⟩
  running h := nomatch h
  waited h := nomatch h
  child h := nomatch h
  reaped := rfl

end

/-! ## The calls are safe -/

section

variable {w : Wrapper} {ops : List Op}

/-- The members after the listed ones have been closed. -/
def Wrapper.closeAll (w : Wrapper) (ms : List Member) : Wrapper :=
  ms.foldl (fun w m => w.set m none) w

theorem ready_closes {ms : List Member} (h : Ready (w.closeAll ms) ops) :
    Ready w (ms.map Op.closeFd ++ ops) := by
  induction ms generalizing w with
  | nil => exact h
  | cons m ms ih => exact ih h

/-- Closing changes only the members. -/
theorem closeAll_eq (w : Wrapper) (ms : List Member) :
    ∃ members, w.closeAll ms = w.withMembers members ∧
      ∀ m, m ∈ ms ∨ w.members m = none → members m = none := by
  induction ms generalizing w with
  | nil =>
      exact ⟨w.members, rfl, fun m hm => hm.resolve_left List.not_mem_nil⟩
  | cons m ms ih =>
      obtain ⟨members, heq, hnone⟩ := ih (w.set m none)
      refine ⟨members, heq, fun m' hm' => hnone m' ?_⟩
      by_cases hm : m' = m
      · exact .inr (hm ▸ set_members_self w m none)
      · rw [set_members_of_ne hm]
        exact hm'.imp (fun hmem => (List.mem_cons.mp hmem).resolve_left hm) id

/-- Inside `Wait`. -/
structure Wrapper.Waiting (w : Wrapper) : Prop where
  started : w.started = true
  waited : w.waited = true
  reaped : w.reaped = false
  running : w.startThrew = false → w.Running

theorem Wrapper.Waiting.idle_threw (h : w.Waiting) :
    Wrapper.Idle { w with waitThrew := true } where
  fresh hnot := absurd (h.started.symm.trans hnot) (by decide)
  running _ hnot := absurd (h.waited.symm.trans hnot) (by decide)
  waited _ _ hnot := nomatch hnot
  child _ hnot := nomatch hnot
  reaped := h.reaped

theorem Wrapper.Waiting.withMembers (h : w.Waiting)
    {members : Member → Option ℕ}
    (hsame : ∀ m, m.parent = false → members m = w.members m) :
    (w.withMembers members).Waiting where
  started := h.started
  waited := h.waited
  reaped := h.reaped
  running hthrew := by
    obtain ⟨hpipes, htimer⟩ := h.running hthrew
    refine ⟨fun p hp => ?_, htimer.imp id fun htimer => ?_⟩
    · exact ⟨(hsame _ rfl).trans (hpipes p hp).1,
        (hsame _ rfl).trans (hpipes p hp).2⟩
    · exact ⟨(hsame _ rfl).trans htimer.1, (hsame _ rfl).trans htimer.2⟩

theorem Wrapper.Waiting.set (h : w.Waiting) {m : Member}
    (hm : m.parent = true) : (w.set m none).Waiting := by
  refine h.withMembers fun m' hm' => set_members_of_ne (fun heq => ?_) none
  rw [heq, hm] at hm'
  cases hm'

/-- The end of `Wait`, when all that the parent had is closed. -/
theorem ready_afterLoop (h : w.Waiting)
    (hparent : ∀ m, m.parent = true → w.members m = none) :
    Ready w [.waitpid, .cancelTimer, .joinTimer,
      .closeFd (.readEnd .timerPipe)] := by
  refine ⟨h.reaped, ?_⟩
  have hend : ∀ members : Member → Option ℕ,
      (w.startThrew = false → ∀ m, members m = none) →
        Wrapper.Idle { w with
          members := members
          childPid := none
          timerJoinable := false } := by
    intro members hnone
    constructor
    · exact fun hnot => absurd (h.started.symm.trans hnot) (by decide)
    · exact fun _ hnot => absurd (h.waited.symm.trans hnot) (by decide)
    · exact fun _ hthrew _ => hnone hthrew
    · exact fun _ _ => rfl
    · exact h.reaped
  simp only [Ready, Op.Safe]
  split
  · next hjoinable =>
      refine hend _ fun hthrew m => ?_
      obtain ⟨hpipes, -⟩ := h.running hthrew
      cases m with
      | readEnd p =>
          cases p with
          | timerPipe => rfl
          | stdinPipe => exact (hpipes .stdinPipe (by decide)).1
          | stdoutPipe => exact (hpipes .stdoutPipe (by decide)).1
          | stderrPipe => exact (hpipes .stderrPipe (by decide)).1
      | writeEnd p =>
          cases p with
          | timerPipe => rfl
          | stdinPipe => exact (hpipes .stdinPipe (by decide)).2
          | stdoutPipe => exact (hpipes .stdoutPipe (by decide)).2
          | stderrPipe => exact (hpipes .stderrPipe (by decide)).2
      | _ => exact hparent _ rfl
  · next hjoinable =>
      refine hend _ fun hthrew m => ?_
      obtain ⟨hpipes, htimer⟩ := h.running hthrew
      obtain ⟨-, hwrite⟩ := htimer.resolve_left hjoinable
      cases m with
      | readEnd p =>
          cases p with
          | timerPipe => rfl
          | stdinPipe => exact (hpipes .stdinPipe (by decide)).1
          | stdoutPipe => exact (hpipes .stdoutPipe (by decide)).1
          | stderrPipe => exact (hpipes .stderrPipe (by decide)).1
      | writeEnd p =>
          cases p with
          | timerPipe => exact hwrite
          | stdinPipe => exact (hpipes .stdinPipe (by decide)).2
          | stdoutPipe => exact (hpipes .stdoutPipe (by decide)).2
          | stderrPipe => exact (hpipes .stderrPipe (by decide)).2
      | _ => exact hparent _ rfl

theorem ready_wait (h : w.Idle) : Ready w wait := by
  refine ⟨fun hstarted hwaited => ?_, fun _ => h⟩
  have hwaiting : Wrapper.Waiting { w with waited := true } :=
    ⟨hstarted, rfl, h.reaped, fun hthrew =>
      ⟨(h.running hstarted hwaited hthrew).pipes,
        (h.running hstarted hwaited hthrew).timer⟩⟩
  refine ⟨fun members hsame => ?_, fun members hsame =>
    (hwaiting.withMembers hsame).idle_threw⟩
  have hloop := hwaiting.withMembers hsame
  have hout := hloop.set (m := .parentStdoutRead) rfl
  have herr := hout.set (m := .parentStderrRead) rfl
  have hin := herr.set (m := .parentStdinWrite) rfl
  refine ⟨⟨ready_afterLoop hin fun m hm => ?_, hout.idle_threw⟩,
    hloop.idle_threw⟩
  cases m with
  | readEnd | writeEnd => cases hm
  | _ => rfl

theorem ready_reap (hreaped : w.reaped = false)
    (h : (w.childPid.isSome && !w.waited) = true →
      Ready { w with reaped := true } ops)
    (hkept : (w.childPid.isSome && !w.waited) = false → Ready w ops) :
    Ready w (.reap :: ops) := by
  refine ⟨hreaped, ?_⟩
  split
  · next hchild => exact h hchild
  · next hchild => exact hkept (Bool.eq_false_of_not_eq_true hchild)

theorem Member.mem_all (m : Member) : m ∈ Member.all := by
  cases m with
  | readEnd p | writeEnd p => cases p <;> decide
  | _ => decide

theorem ready_destructor (h : w.Idle) {op : Op}
    (hop : op = .free ∨ ∃ src, op = .transfer src) :
    Ready w (destructor ++ [op]) := by
  have hspent : ∀ w' : Wrapper, w'.Spent → Ready w' [op] := by
    obtain rfl | ⟨src, rfl⟩ := hop <;> exact fun w' hw' => hw'
  have hcloses : ∀ w' : Wrapper, (w'.childPid.isSome = true →
      w'.reaped = false → w'.waitThrew = true) →
        Ready w' (.joinTimer :: (Member.all.map Op.closeFd ++ [op])) := by
    intro w' hchild
    show Ready { w' with timerJoinable := false } _
    apply ready_closes
    apply hspent
    obtain ⟨members, heq, hnone⟩ :=
      closeAll_eq { w' with timerJoinable := false } Member.all
    rw [heq]
    exact ⟨fun m => hnone m (.inl (Member.mem_all m)), rfl, hchild⟩
  show Ready w (.reap :: .joinTimer :: (Member.all.map Op.closeFd ++ [op]))
  refine ready_reap h.reaped (fun _ => ?_) fun hkept => ?_
  · exact hcloses _ fun _ hnot => nomatch hnot
  · refine hcloses w fun hchild _ => ?_
    by_contra hthrew
    have hwaited : w.waited = true := by
      simpa [hchild] using hkept
    rw [h.child hwaited (Bool.eq_false_of_not_eq_true hthrew)] at hchild
    cases hchild

end

/-! ## Start -/

section

variable {w : Wrapper} {ops : List Op}

/-- Started, and not yet waited for. -/
structure Wrapper.Launched (w : Wrapper) : Prop where
  started : w.started = true
  waited : w.waited = false
  reaped : w.reaped = false
  running : w.Running

theorem Wrapper.Launched.idle (h : w.Launched) : w.Idle where
  fresh hnot := absurd (h.started.symm.trans hnot) (by decide)
  running _ _ _ := h.running
  waited hwaited := absurd (h.waited.symm.trans hwaited) (by decide)
  child hwaited := absurd (h.waited.symm.trans hwaited) (by decide)
  reaped := h.reaped

theorem Wrapper.Launched.set (h : w.Launched) {m : Member}
    (hm : m.parent = true) : (w.set m none).Launched where
  started := h.started
  waited := h.waited
  reaped := h.reaped
  running := by
    have hne : ∀ m', m'.parent = false →
        (w.set m none).members m' = w.members m' :=
      fun m' hm' => set_members_of_ne
        (fun heq => absurd (hm.symm.trans (heq ▸ hm')) (by decide)) none
    obtain ⟨hpipes, htimer⟩ := h.running
    refine ⟨fun p hp => ?_, htimer.imp id fun htimer => ?_⟩
    · exact ⟨(hne _ rfl).trans (hpipes p hp).1,
        (hne _ rfl).trans (hpipes p hp).2⟩
    · exact ⟨(hne _ rfl).trans htimer.1, (hne _ rfl).trans htimer.2⟩

theorem Member.ne_ends {m : Member} (hm : m.parent = true)
    (p : PipeMember) : m ≠ .readEnd p ∧ m ≠ .writeEnd p := by
  constructor <;> rintro rfl <;> cases hm

/-- Inside `Start`: the pipes that are there, and the ends of the parent that
are not set yet. -/
structure Opening (made : PipeMember → Bool) (unset : List Member)
    (w : Wrapper) : Prop where
  started : w.started = true
  waited : w.waited = false
  reaped : w.reaped = false
  timerJoinable : w.timerJoinable = false
  opened : ∀ p, made p = true →
    (w.members (.readEnd p)).isSome = true ∧
      (w.members (.writeEnd p)).isSome = true
  closed : ∀ p, made p = false →
    w.members (.readEnd p) = none ∧ w.members (.writeEnd p) = none
  blank : ∀ m ∈ unset, w.members m = none

/-- A `Start` that throws leaves an object that only the destructor clears. -/
theorem idle_startThrew (hstarted : w.started = true)
    (hwaited : w.waited = false) (hreaped : w.reaped = false) :
    Wrapper.Idle { w with startThrew := true } where
  fresh hnot := absurd (hstarted.symm.trans hnot) (by decide)
  running _ _ hnot := nomatch hnot
  waited _ hnot := nomatch hnot
  child h := absurd (hwaited.symm.trans h) (by decide)
  reaped := hreaped

variable {made : PipeMember → Bool} {unset : List Member}

theorem Opening.createPipe (h : Opening made unset w) {p : PipeMember}
    (hparent : ∀ m ∈ unset, m.parent = true) (r e : ℕ) :
    Opening (Function.update made p true) unset
      ((w.set (.readEnd p) (some r)).set (.writeEnd p) (some e)) where
  started := h.started
  waited := h.waited
  reaped := h.reaped
  timerJoinable := h.timerJoinable
  opened q hq := by
    by_cases hqp : q = p
    · subst hqp
      rw [set_members_self, set_members_of_ne (by simp), set_members_self]
      exact ⟨rfl, rfl⟩
    · rw [Function.update_of_ne hqp] at hq
      simpa [set_members_of_ne, hqp] using h.opened q hq
  closed q hq := by
    have hqp : q ≠ p := by
      rintro rfl
      rw [Function.update_self] at hq
      cases hq
    rw [Function.update_of_ne hqp] at hq
    simpa [set_members_of_ne, hqp] using h.closed q hq
  blank m hm := by
    obtain ⟨hread, hwrite⟩ := Member.ne_ends (hparent m hm) p
    rw [set_members_of_ne hwrite, set_members_of_ne hread]
    exact h.blank m hm

theorem ready_createPipe (h : Opening made unset w) {p : PipeMember}
    (hmade : made p = false) (hparent : ∀ m ∈ unset, m.parent = true)
    (need : Bool)
    (k : ∀ w', Opening (Function.update made p need) unset w' →
      w'.childPid = w.childPid → Ready w' ops) :
    Ready w (onlyIf need [Op.createPipe p] ++ ops) := by
  cases need with
  | false =>
      refine k w ?_ rfl
      rwa [← hmade, Function.update_eq_self]
  | true =>
      obtain ⟨hread, hwrite⟩ := h.closed p hmade
      exact ⟨hread, hwrite, fun r e => k _ (h.createPipe hparent r e) rfl,
        idle_startThrew h.started h.waited h.reaped⟩

/-- The child's end is closed, and the parent's end handed over. -/
theorem Opening.handOver {p : PipeMember} {m : Member}
    (h : Opening made (m :: unset) w) (hm : m.parent = true)
    (hunset : m ∉ unset) (hparent : ∀ m ∈ unset, m.parent = true)
    {w' : Wrapper} (hends : w'.members (.readEnd p) = none ∧
      w'.members (.writeEnd p) = none)
    (hsame : ∀ m', m' ≠ m → m' ≠ .readEnd p → m' ≠ .writeEnd p →
      w'.members m' = w.members m')
    (hrest : w'.withMembers w.members = w) :
    Opening (Function.update made p false) unset w' := by
  have hold : ∀ q, q ≠ p →
      w'.members (.readEnd q) = w.members (.readEnd q) ∧
        w'.members (.writeEnd q) = w.members (.writeEnd q) := by
    intro q hq
    obtain ⟨hread, hwrite⟩ := Member.ne_ends hm q
    exact ⟨hsame _ hread.symm (by simp [hq]) (by simp),
      hsame _ hwrite.symm (by simp) (by simp [hq])⟩
  constructor
  · exact (congrArg Wrapper.started hrest).trans h.started
  · exact (congrArg Wrapper.waited hrest).trans h.waited
  · exact (congrArg Wrapper.reaped hrest).trans h.reaped
  · exact (congrArg Wrapper.timerJoinable hrest).trans h.timerJoinable
  · intro q hq
    have hqp : q ≠ p := by
      rintro rfl
      rw [Function.update_self] at hq
      cases hq
    rw [Function.update_of_ne hqp] at hq
    rw [(hold q hqp).1, (hold q hqp).2]
    exact h.opened q hq
  · intro q hq
    by_cases hqp : q = p
    · exact hqp ▸ hends
    · rw [Function.update_of_ne hqp] at hq
      rw [(hold q hqp).1, (hold q hqp).2]
      exact h.closed q hq
  · intro m' hm'
    obtain ⟨hread, hwrite⟩ := Member.ne_ends (hparent m' hm') p
    rw [hsame m' (fun heq => hunset (heq ▸ hm')) hread hwrite]
    exact h.blank m' (List.mem_cons_of_mem m hm')

theorem ready_handOver {p : PipeMember} {m a b : Member}
    (h : Opening made (m :: unset) w) (hm : m.parent = true)
    (hunset : m ∉ unset) (hparent : ∀ m ∈ unset, m.parent = true)
    (hends : a = .readEnd p ∧ b = .writeEnd p ∨
      a = .writeEnd p ∧ b = .readEnd p) {need : Bool} (hneed : made p = need)
    (k : ∀ w', Opening (Function.update made p false) unset w' →
      Ready w' ops) :
    Ready w (onlyIf need [Op.closeFd a, .handOver m b] ++ ops) := by
  cases need with
  | false =>
      refine k w (h.handOver hm hunset hparent (h.closed p hneed) ?_ rfl)
      exact fun _ _ _ _ => rfl
  | true =>
      obtain ⟨hread, hwrite⟩ := Member.ne_ends hm p
      have hma : m ≠ a ∧ m ≠ b ∧ a ≠ b := by
        obtain ⟨rfl, rfl⟩ | ⟨rfl, rfl⟩ := hends
        · exact ⟨hread, hwrite, by simp⟩
        · exact ⟨hwrite, hread, by simp⟩
      obtain ⟨hneA, hneB, hneAB⟩ := hma
      refine ⟨hneB, ?_, k _ (h.handOver hm hunset hparent ?_ ?_ rfl)⟩
      · rw [set_members_of_ne hneA]
        exact h.blank m List.mem_cons_self
      · have hclosed : ∀ m', m' = a ∨ m' = b →
            ((((w.set a none).set m ((w.set a none).members b)).set b
              none).members m') = none := by
          rintro m' (rfl | rfl)
          · rw [set_members_of_ne hneAB, set_members_of_ne hneA.symm,
              set_members_self]
          · exact set_members_self ..
        obtain ⟨rfl, rfl⟩ | ⟨rfl, rfl⟩ := hends
        · exact ⟨hclosed _ (.inl rfl), hclosed _ (.inr rfl)⟩
        · exact ⟨hclosed _ (.inr rfl), hclosed _ (.inl rfl)⟩
      · intro m' hne hneR hneW
        have hneAB' : m' ≠ a ∧ m' ≠ b := by
          obtain ⟨rfl, rfl⟩ | ⟨rfl, rfl⟩ := hends
          · exact ⟨hneR, hneW⟩
          · exact ⟨hneW, hneR⟩
        rw [set_members_of_ne hneAB'.2, set_members_of_ne hne,
          set_members_of_ne hneAB'.1]

theorem Opening.launched (h : Opening made unset w)
    (hmade : ∀ p, p ≠ .timerPipe → made p = false)
    (htimer : w.timerJoinable = true ∨ made .timerPipe = false) :
    w.Launched where
  started := h.started
  waited := h.waited
  reaped := h.reaped
  running := ⟨fun p hp => h.closed p (hmade p hp),
    htimer.imp id (h.closed .timerPipe)⟩

theorem ready_startTimer (h : Opening made unset w)
    (hmade : ∀ p, p ≠ .timerPipe → made p = false) {need : Bool}
    (hneed : made .timerPipe = need)
    (k : ∀ w', w'.Launched → Ready w' ops) :
    Ready w (onlyIf need [Op.startTimer] ++ ops) := by
  cases need with
  | false => exact k w (h.launched hmade (.inr hneed))
  | true =>
      obtain ⟨hread, hwrite⟩ := h.opened .timerPipe hneed
      refine ⟨hread, hwrite, h.timerJoinable, k _ ?_,
        idle_startThrew h.started h.waited h.reaped⟩
      exact ⟨h.started, h.waited, h.reaped,
        fun p hp => h.closed p (hmade p hp), .inl rfl⟩

theorem ready_fork (h : Opening made unset w) (hpid : w.childPid = none)
    (k : ∀ w', Opening made unset w' → Ready w' ops) :
    Ready w (.fork :: ops) := by
  refine ⟨hpid, h.reaped, fun _ => k _ ?_, fun members => ?_⟩
  · exact ⟨h.started, h.waited, h.reaped, h.timerJoinable, h.opened, h.closed,
      h.blank⟩
  · exact idle_startThrew (w := { w with members := members, childPid := none })
      h.started h.waited h.reaped

theorem ready_start (h : w.Idle) (hnot : w.started = false)
    (k : ∀ w', w'.Launched → Ready w' ops) :
    Ready { w with started := true } (start w.opts ++ ops) := by
  obtain ⟨hmembers, hpid, htimer, hwaited⟩ := h.fresh hnot
  have hopening : Opening (fun _ => false)
      [.parentStdinWrite, .parentStdoutRead, .parentStderrRead]
      { w with started := true } := by
    refine ⟨rfl, hwaited, h.reaped, htimer, fun p hmade => ?_, fun p _ => ?_,
      fun m _ => hmembers m⟩
    · cases hmade
    · exact ⟨hmembers _, hmembers _⟩
  have hparent : ∀ m ∈ [Member.parentStdinWrite, .parentStdoutRead,
      .parentStderrRead], m.parent = true := by decide
  simp only [start, forkExec, List.append_assoc]
  refine ready_createPipe hopening rfl hparent _ fun w₁ h₁ hpid₁ => ?_
  refine ready_createPipe h₁ rfl hparent _ fun w₂ h₂ hpid₂ => ?_
  refine ready_createPipe h₂ rfl hparent _ fun w₃ h₃ hpid₃ => ?_
  have hpid₃ := ((hpid₃.trans hpid₂).trans hpid₁).trans hpid
  refine ready_createPipe h₃ rfl hparent _ fun w₄ h₄ hpid₄ => ?_
  refine ready_fork h₄ (hpid₄.trans hpid₃) fun w₅ h₅ => ?_
  refine ready_handOver h₅ rfl (by decide) (by decide) (.inl ⟨rfl, rfl⟩) rfl
    fun w₆ h₆ => ?_
  refine ready_handOver h₆ rfl (by decide) (by decide) (.inr ⟨rfl, rfl⟩) rfl
    fun w₇ h₇ => ?_
  refine ready_handOver h₇ rfl (by decide) (by decide) (.inr ⟨rfl, rfl⟩) rfl
    fun w₈ h₈ => ?_
  refine ready_startTimer h₈ (fun p hp => ?_) rfl k
  cases p with
  | timerPipe => exact absurd rfl hp
  | _ => rfl

end

/-! ## Every call is safe -/

section

variable {w : Wrapper} {ops : List Op}

theorem Wrapper.Idle.set (h : w.Idle) {m : Member} (hm : m.parent = true) :
    (w.set m none).Idle where
  fresh hnot := by
    obtain ⟨hmembers, hpid, htimer, hwaited⟩ := h.fresh hnot
    refine ⟨fun m' => ?_, hpid, htimer, hwaited⟩
    by_cases hne : m' = m
    · exact hne ▸ set_members_self w m none
    · exact (set_members_of_ne hne none).trans (hmembers m')
  running hstarted hwaited hthrew :=
    Launched.running (Launched.set (w := w) ⟨hstarted, hwaited, h.reaped,
      h.running hstarted hwaited hthrew⟩ hm)
  waited hwaited hthrew hthrew' m' := by
    by_cases hne : m' = m
    · exact hne ▸ set_members_self w m none
    · exact (set_members_of_ne hne none).trans
        (h.waited hwaited hthrew hthrew' m')
  child := h.child
  reaped := h.reaped

theorem ready_runInput (h : w.Launched) (opts : Options)
    (k : ∀ w', w'.Launched → Ready w' ops) :
    Ready w (runInput opts ++ ops) := by
  unfold runInput
  split
  · split
    · exact k _ (h.set rfl)
    · split
      · exact k _ (h.set rfl)
      · exact k w h
  · exact k w h

/-- A call that begins is safe. -/
theorem ready_begin (h : w.Idle) (c : Call) :
    Ready (begin w c).wrapper (begin w c).ops := by
  cases c with
  | Start =>
      simp only [begin]
      split
      · exact h
      · next hnot =>
          have hready : Ready { w with started := true }
              (start w.opts ++ []) :=
            ready_start h (Bool.eq_false_of_not_eq_true hnot)
              fun w' hw' => hw'.idle
          rwa [List.append_nil] at hready
  | Run =>
      simp only [begin]
      split
      · exact h
      · next hnot =>
          rw [List.append_assoc]
          refine ready_start h (Bool.eq_false_of_not_eq_true hnot)
            fun w₁ h₁ => ?_
          exact ready_runInput h₁ _ fun w₂ h₂ => ready_wait h₂.idle
  | Wait => exact ready_wait h
  | CloseStdin => exact h.set rfl
  | destroy => exact ready_destructor h (.inl rfl)

end

end Descriptors
end PopenWrapper
end Yacul
