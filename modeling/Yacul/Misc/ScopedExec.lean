import Yacul.Support.Roster
import Yacul.Support.Transition
import Mathlib.Data.Multiset.Range

/-!
# The scoped executor

`ScopedExec<ThreadSafePolicy>` holds a functor that is executed when the
object is destroyed.  Every method takes what it needs under the mutex of the
object (move assignment takes both mutexes together) and executes the old
functor afterwards, outside the mutex; so a critical section is one step, and
the execution is another.  A functor may itself call the methods of executors:
a thread is a stack of calls.

Functors are numbered in the order in which they are installed.
-/

namespace Yacul
namespace ScopedExec

/-! ## The object -/

/-- Where an object is in its lifetime: `dying` while its destructor runs. -/
inductive Life
  | alive
  | dying
  | dead
deriving DecidableEq, Repr

/-- The members of a `ScopedExec`; `none` is the empty `std::function`, which
is also what a move leaves behind. -/
structure Executor where
  fn : Option ℕ
  armed : Bool
  life : Life
deriving DecidableEq, Repr

namespace Executor

/-- The constructor from a callable, which may be empty; without a callable it
is the default constructor. -/
def construct (fn : Option ℕ) : Executor where
  fn := fn
  armed := fn.isSome
  life := .alive

/-- `ExtractIfArmed`: the object and the returned functor. -/
def extractIfArmed (x : Executor) : Executor × Option ℕ :=
  if x.armed then ({ x with armed := false, fn := none }, x.fn)
  else (x, none)

/-- `MoveConstruct`: the new object and the source. -/
def moveConstruct (other : Executor) : Executor × Executor :=
  ({ fn := other.fn, armed := other.armed, life := .alive },
    { other with fn := none, armed := false })

/-- The critical section of `operator=`: the object, the source, and the old
functor. -/
def moveAssign (x other : Executor) : Executor × Executor × Option ℕ :=
  let (x, old_fn) :=
    if x.armed then ({ x with armed := false, fn := none }, x.fn)
    else (x, none)
  ({ x with fn := other.fn, armed := other.armed },
    { other with fn := none, armed := false }, old_fn)

/-- `release`. -/
def release (x : Executor) : Executor × Option ℕ :=
  ({ x with armed := false, fn := none }, x.fn)

/-- The critical section of `reset(fn)`: the object and the old functor. -/
def resetTo (x : Executor) (fn : Option ℕ) : Executor × Option ℕ :=
  let (x, old_fn) :=
    if x.armed then ({ x with armed := false, fn := none }, x.fn)
    else (x, none)
  ({ x with fn := fn, armed := fn.isSome }, old_fn)

/-- The critical section of `reset()`. -/
def reset (x : Executor) : Executor × Option ℕ :=
  let (x, old_fn) :=
    if x.armed then ({ x with armed := false, fn := none }, x.fn)
    else (x, none)
  ({ x with fn := none }, old_fn)

/-- The end of the lifetime: the members are destroyed. -/
def destroyed : Executor where
  fn := none
  armed := false
  life := .dead

end Executor

/-! ## Threads -/

/-- A call that has left its critical section: the functor it took is in a
local variable, or is executing.  A destructor remembers its object. -/
inductive Frame
  | holding (old_fn : Option ℕ) (dtor : Option ℕ)
  | executing (dtor : Option ℕ)
deriving DecidableEq, Repr

/-- All executors ever constructed, the call stacks of the threads, the number
of functors installed, and the functors executed and returned by `release`. -/
structure State where
  executors : List Executor
  threads : List (List Frame)
  installed : ℕ
  executed : List ℕ
  released : List ℕ
deriving DecidableEq, Repr

/-- The public methods.  The flag says whether the given callable is
non-empty. -/
inductive Call
  | construct (given : Bool)
  | moveConstruct (other : ℕ)
  | moveAssign (this other : ℕ)
  | destruct (this : ℕ)
  | release (this : ℕ)
  | resetTo (this : ℕ) (given : Bool)
  | reset (this : ℕ)
  | invoke (this : ℕ)
  | test (this : ℕ)
deriving DecidableEq, Repr

/-- What a thread does next: it enters a method and passes its critical
section, it executes the functor it took, or it returns from a call. -/
inductive Move
  | enter (call : Call)
  | execute
  | finish
deriving DecidableEq, Repr

/-- A move of a thread. -/
structure Action where
  thread : ℕ
  move : Move
deriving DecidableEq, Repr

namespace State

/-- The object, if its storage is still there. -/
def executor? (s : State) (e : ℕ) : Option Executor :=
  s.executors[e]?.filter fun x => x.life != .dead

/-- The number a given callable gets. -/
def fresh (s : State) (given : Bool) : Option ℕ :=
  if given then some s.installed else none

/-- The critical section of a method, and the call that goes on after it. -/
def enter (s : State) : Call → Option (State × Option Frame)
  | .construct given =>
      some
        ({ s with
            executors := s.executors ++ [Executor.construct (s.fresh given)]
            installed := s.installed + given.toNat }, none)
  | .moveConstruct other => do
      let x ← s.executor? other
      let (new, x) := x.moveConstruct
      some ({ s with executors := s.executors.set other x ++ [new] }, none)
  | .moveAssign this other => do
      let x ← s.executor? this
      let y ← s.executor? other
      if this = other then some (s, none)
      else
        let (x, y, old_fn) := x.moveAssign y
        some
          ({ s with executors := (s.executors.set this x).set other y },
            some (.holding old_fn none))
  | .destruct this => do
      let x ← s.executor? this
      -- The owner destroys an object once.
      if x.life = .alive then
        let (x, fn) := x.extractIfArmed
        let x := { x with life := .dying }
        some ({ s with executors := s.executors.set this x },
          some (.holding fn (some this)))
      else none
  | .release this => do
      let x ← s.executor? this
      let (x, fn) := x.release
      some
        ({ s with
            executors := s.executors.set this x
            released := fn.toList ++ s.released }, none)
  | .resetTo this given => do
      let x ← s.executor? this
      let (x, old_fn) := x.resetTo (s.fresh given)
      some
        ({ s with
            executors := s.executors.set this x
            installed := s.installed + given.toNat },
          some (.holding old_fn none))
  | .reset this => do
      let x ← s.executor? this
      let (x, old_fn) := x.reset
      some ({ s with executors := s.executors.set this x },
        some (.holding old_fn none))
  | .invoke this => do
      let x ← s.executor? this
      let (x, fn) := x.extractIfArmed
      some ({ s with executors := s.executors.set this x },
        some (.holding fn none))
  | .test this => do
      let _ ← s.executor? this
      some (s, none)

/-- A call returns; a destructor ends the lifetime of its object. -/
def leave (s : State) : Option ℕ → State
  | none => s
  | some e => { s with executors := s.executors.set e Executor.destroyed }

end State

/-- A thread may call a method from its own code or from the functor it is
executing. -/
def ready : List Frame → Bool
  | [] => true
  | .executing _ :: _ => true
  | .holding _ _ :: _ => false

/-- One move of a thread with the given stack. -/
def advance (s : State) (stack : List Frame) :
    Move → Option (State × List Frame)
  | .enter call =>
      if ready stack then
        (s.enter call).map fun r => (r.1, r.2.toList ++ stack)
      else none
  | .execute =>
      match stack with
      | .holding (some fn) dtor :: rest =>
          some ({ s with executed := fn :: s.executed },
            .executing dtor :: rest)
      | _ => none
  | .finish =>
      match stack with
      | .holding none dtor :: rest | .executing dtor :: rest =>
          some (s.leave dtor, rest)
      | _ => none

def step (s : State) (a : Action) : Option State := do
  let stack ← s.threads[a.thread]?
  let (s', stack') ← advance s stack a.move
  some { s' with threads := s'.threads.set a.thread stack' }

/-- Before the first call. -/
def init (clients : ℕ) : State where
  executors := []
  threads := List.replicate clients []
  installed := 0
  executed := []
  released := []

/-- A reachable state. -/
def Reachable (s : State) : Prop :=
  ∃ clients, Transition.Reachable step {init clients} s

/-! ## Where the functors are -/

/-- The functor, as a collection. -/
def functors (fn : Option ℕ) : Multiset ℕ := fn.toList

@[simp] theorem functors_none : functors none = 0 := rfl

@[simp] theorem functors_some (fn : ℕ) : functors (some fn) = {fn} := rfl

/-- What is stored in an executor; only what is armed counts. -/
def Executor.stored (x : Executor) : Multiset ℕ :=
  if x.armed then functors x.fn else 0

/-- What a call is about to execute. -/
def Frame.held : Frame → Multiset ℕ
  | .holding old_fn _ => functors old_fn
  | .executing _ => 0

/-- The functors in all places: armed executors, threads about to execute
them, executed, and returned by `release`. -/
def places (s : State) : Multiset ℕ :=
  Roster.tally Executor.stored s.executors +
    Roster.tally (Roster.tally Frame.held) s.threads +
    (s.executed : Multiset ℕ) + (s.released : Multiset ℕ)

/-- Every functor installed so far is in exactly one place and is executed at
most once, and an armed executor holds a functor. -/
structure Accounted (s : State) : Prop where
  places : places s = Multiset.range s.installed
  executed : s.executed.Nodup
  armed : ∀ x ∈ s.executors, x.armed = true → x.fn.isSome = true

instance (s : State) : Decidable (Accounted s) :=
  decidable_of_iff
    (ScopedExec.places s = Multiset.range s.installed ∧
      s.executed.Nodup ∧
      ∀ x ∈ s.executors, x.armed = true → x.fn.isSome = true)
    ⟨fun ⟨hplaces, hexecuted, harmed⟩ => ⟨hplaces, hexecuted, harmed⟩,
      fun h => ⟨h.places, h.executed, h.armed⟩⟩

/-- The object whose lifetime a move ends. -/
def State.ending (s : State) (a : Action) : Option Executor :=
  match a.move, s.threads[a.thread]? with
  | .finish, some (.holding none (some e) :: _)
  | .finish, some (.executing (some e) :: _) => s.executors[e]?
  | _, _ => none

/-- A destructor that returns leaves its object disarmed: nothing was
installed in it since the destructor took the functor, or it was taken out
again. -/
def DestroysDisarmed (s : State) (a : Action) : Prop :=
  ∀ x ∈ s.ending a, x.armed = false

end ScopedExec
end Yacul
