import Yacul.Support.Transition
import Mathlib.Algebra.GroupWithZero.Nat
import Mathlib.Data.List.AList
import Mathlib.Logic.Function.Basic

/-!
# The per-identifier lock as a step function

`LockId` maps each identifier in use to a reference-counted entry that holds a
`shared_timed_mutex`.  The maps are split over shards, each behind its own
mutex.  A step is one section under a shard mutex, one operation on the mutex
of an entry, or one move of a guard object; any number of threads interleave.
-/

namespace Yacul
namespace LockId

/-! ## Entries -/

/-- `std::shared_timed_mutex` as the standard describes it: held by one writer
or by any number of readers. -/
structure SharedTimedMutex where
  writer : Bool := false
  readers : ℕ := 0
deriving DecidableEq, Repr

namespace SharedTimedMutex

/-- The mutex can be acquired now. -/
def free (m : SharedTimedMutex) (exclusive : Bool) : Bool :=
  !m.writer && (!exclusive || m.readers = 0)

/-- `lock` and `lock_shared`, once the mutex is free. -/
def lock (m : SharedTimedMutex) (exclusive : Bool) : SharedTimedMutex :=
  if exclusive then { m with writer := true }
  else { m with readers := m.readers + 1 }

/-- `unlock` and `unlock_shared`. -/
def unlock (m : SharedTimedMutex) (exclusive : Bool) : SharedTimedMutex :=
  if exclusive then { m with writer := false }
  else { m with readers := m.readers - 1 }

end SharedTimedMutex

/-- `lock_id_internal::LockEntry`. -/
structure LockEntry where
  mutex : SharedTimedMutex := {}
  refCount : ℕ := 0
deriving DecidableEq, Repr

/-- The address of a `LockEntry`. -/
abbrev Ptr := ℕ

/-! ## Guards and threads -/

/-- A `LockIdGuard` (`exclusive`) or `LockIdSharedGuard` object: `owner_`,
`id_`, and the mutex pointer and ownership flag of `lock_`.  `busy` is set
while a thread is inside `Release` or `operator=` on the object; no other call
may use the object meanwhile. -/
structure Guard (ι : Type*) where
  exclusive : Bool
  owner : Bool
  id : ι
  mutex : Option Ptr
  ownsLock : Bool
  busy : Bool
deriving DecidableEq, Repr

/-- The acquisition calls; each exists in an exclusive and a shared form. -/
inductive Call
  | lock
  | tryLock
  | tryLockFor
deriving DecidableEq, Repr

/-- Where a thread is. -/
inductive Frame (ι : Type*)
  | idle
  /-- `AcquireEntry` has returned `entry`; the mutex comes next. -/
  | attempt (call : Call) (exclusive : Bool) (id : ι) (entry : Ptr)
  /-- The try failed or timed out; `ReleaseEntry` comes next. -/
  | failed (exclusive : Bool) (id : ι)
  /-- `Release` of guard `g` has unlocked the mutex; `ReleaseEntry` comes
  next, then the transfer from `source` when a move assignment asked for it. -/
  | releasing (g : ℕ) (id : ι) (source : Option ℕ)
deriving DecidableEq, Repr

/-- What the constructor fixes. -/
structure Params (ι : Type*) where
  hasher : ι → UInt64
  numShards : UInt64

/-- `LockId::kDefaultShards`. -/
def kDefaultShards : UInt64 := 64

/-- The constructor of `LockId`. -/
def Params.construct {ι : Type*} (hasher : ι → UInt64) (numShards : UInt64) :
    Params ι :=
  { hasher := hasher
    numShards := if 0 < numShards then numShards else kDefaultShards }

/-- The map of a shard. -/
abbrev EntryMap (ι : Type*) := AList fun _ : ι => Ptr

structure State (ι : Type*) where
  shards : ℕ → EntryMap ι
  heap : Ptr → Option LockEntry
  guards : List (Guard ι)
  threads : List (Frame ι)

section Sections

variable {ι : Type*} [DecidableEq ι] (p : Params ι)

/-- `LockId::ShardIndex`. -/
def shardIndex (id : ι) : ℕ :=
  (p.hasher id &&& (p.numShards - 1)).toNat

/-- The entry the map holds for `id`. -/
def entryOf (s : State ι) (id : ι) : Option Ptr :=
  (s.shards (shardIndex p id)).lookup id

/-- `LockId::AcquireEntry`, a section under the shard mutex.  A new entry goes
to the unallocated address `fresh`. -/
def acquireEntry (s : State ι) (id : ι) (fresh : Ptr) :
    Option (Ptr × State ι) :=
  match entryOf p s id with
  | some entry =>
      (s.heap entry).map fun e =>
        (entry, { s with
          heap := Function.update s.heap entry
            (some { e with refCount := e.refCount + 1 }) })
  | none =>
      if s.heap fresh = none then
        let k := shardIndex p id
        some (fresh, { s with
          shards := Function.update s.shards k ((s.shards k).insert id fresh)
          heap := Function.update s.heap fresh (some { refCount := 1 }) })
      else none

/-- `LockId::ReleaseEntry`, a section under the shard mutex. -/
def releaseEntry (s : State ι) (id : ι) : State ι :=
  match entryOf p s id with
  | none => s
  | some entry =>
      match s.heap entry with
      | none => s
      | some e =>
          if e.refCount - 1 = 0 then
            let k := shardIndex p id
            { s with
              shards := Function.update s.shards k ((s.shards k).erase id)
              heap := Function.update s.heap entry none }
          else
            { s with
              heap := Function.update s.heap entry
                (some { e with refCount := e.refCount - 1 }) }

/-- `LockId::ActiveEntryCount`. -/
def activeEntryCount (s : State ι) : ℕ :=
  ((List.range p.numShards.toNat).map fun k => (s.shards k).entries.length).sum

/-! ## Guard operations -/

/-- The guard object a successful acquisition returns. -/
def acquiredGuard (exclusive : Bool) (id : ι) (entry : Ptr) : Guard ι :=
  { exclusive := exclusive, owner := true, id := id, mutex := some entry
    ownsLock := true, busy := false }

/-- The empty guard object a failed try returns. -/
def emptyGuard [Inhabited ι] (exclusive : Bool) : Guard ι :=
  { exclusive := exclusive, owner := false, id := default, mutex := none
    ownsLock := false, busy := false }

/-- What a move leaves behind in its source. -/
def Guard.movedFrom (g : Guard ι) : Guard ι :=
  { g with owner := false, mutex := none, ownsLock := false }

/-- `Release` has something to do. -/
def Guard.releases (g : Guard ι) : Bool :=
  g.owner && g.ownsLock

/-- The object `g`, when no other call is using it. -/
def guardAt (s : State ι) (g : ℕ) : Option (Guard ι) :=
  s.guards[g]?.filter fun guard => !guard.busy

/-- The first half of `Release`: unlock the mutex.  The entry stays referenced
until `ReleaseEntry`. -/
def unlockGuard (s : State ι) (t g : ℕ) (guard : Guard ι)
    (source : Option ℕ) : Option (State ι) :=
  guard.mutex.bind fun entry =>
    (s.heap entry).map fun e =>
      { s with
        heap := Function.update s.heap entry
          (some { e with mutex := e.mutex.unlock guard.exclusive })
        guards := s.guards.set g { guard with ownsLock := false, busy := true }
        threads := s.threads.set t (.releasing g guard.id source) }

/-- The part of `operator=(Guard &&)` after `Release`. -/
def transferGuard (s : State ι) (dst src : ℕ) : Option (State ι) :=
  (guardAt s dst).bind fun dstGuard =>
    (guardAt s src).bind fun srcGuard =>
      if dst = src || dstGuard.exclusive != srcGuard.exclusive then none
      else
        some { s with
          guards := (s.guards.set dst srcGuard).set src srcGuard.movedFrom }

/-- One step of the lock. -/
inductive Action (ι : Type*)
  /-- Any acquisition call, up to the return of `AcquireEntry`. -/
  | acquireEntry (t : ℕ) (call : Call) (exclusive : Bool) (id : ι)
      (fresh : Ptr)
  /-- The mutex is acquired and the guard object returned. -/
  | lockMutex (t : ℕ)
  /-- `try_lock` fails or `try_lock_until` times out. -/
  | tryFails (t : ℕ)
  /-- `ReleaseEntry`, after a failed try or inside `Release`. -/
  | releaseEntry (t : ℕ)
  /-- `Release` or the destructor of a guard, up to the unlock. -/
  | release (t g : ℕ)
  /-- The move constructor of a guard. -/
  | moveConstruct (t g : ℕ)
  /-- `operator=(Guard &&)`, up to the unlock of the old lock. -/
  | moveAssign (t dst src : ℕ)
deriving DecidableEq, Repr

/-- One step; `none` when the action is not enabled. -/
def step [Inhabited ι] (s : State ι) : Action ι → Option (State ι)
  | .acquireEntry t call exclusive id fresh =>
      if s.threads[t]? = some .idle then
        (acquireEntry p s id fresh).map fun (entry, s) =>
          { s with threads := s.threads.set t (.attempt call exclusive id entry) }
      else none
  | .lockMutex t =>
      match s.threads[t]? with
      | some (.attempt _ exclusive id entry) =>
          (s.heap entry).bind fun e =>
            if e.mutex.free exclusive then
              some { s with
                heap := Function.update s.heap entry
                  (some { e with mutex := e.mutex.lock exclusive })
                guards := s.guards ++ [acquiredGuard exclusive id entry]
                threads := s.threads.set t .idle }
            else none
      | _ => none
  | .tryFails t =>
      match s.threads[t]? with
      | some (.attempt call exclusive id _) =>
          if call = .lock then none
          else some { s with threads := s.threads.set t (.failed exclusive id) }
      | _ => none
  | .releaseEntry t =>
      match s.threads[t]? with
      | some (.failed exclusive id) =>
          let s := releaseEntry p s id
          some { s with
            guards := s.guards ++ [emptyGuard exclusive]
            threads := s.threads.set t .idle }
      | some (.releasing g id source) =>
          (s.guards[g]?).bind fun guard =>
            let s := releaseEntry p s id
            let s := { s with
              guards := s.guards.set g { guard with owner := false, busy := false }
              threads := s.threads.set t .idle }
            match source with
            | none => some s
            | some src => transferGuard s g src
      | _ => none
  | .release t g =>
      if s.threads[t]? = some .idle then
        (guardAt s g).bind fun guard =>
          if guard.releases then unlockGuard s t g guard none else some s
      else none
  | .moveConstruct t g =>
      if s.threads[t]? = some .idle then
        (guardAt s g).map fun guard =>
          { s with guards := s.guards.set g guard.movedFrom ++ [guard] }
      else none
  | .moveAssign t dst src =>
      if s.threads[t]? = some .idle then
        if dst = src then some s
        else
          (guardAt s dst).bind fun guard =>
            if guard.releases then unlockGuard s t dst guard (some src)
            else transferGuard s dst src
      else none

/-- A fresh lock used by `n` threads. -/
def init (n : ℕ) : State ι :=
  { shards := fun _ => ∅
    heap := fun _ => none
    guards := []
    threads := List.replicate n .idle }

/-- The reachable states of one `LockId` object, for any number of threads. -/
abbrev Reachable [Inhabited ι] : State ι → Prop :=
  Transition.Reachable (step p) (Set.range init)

end Sections

end LockId
end Yacul
