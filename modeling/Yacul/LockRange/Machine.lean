import Yacul.Support.Transition
import Mathlib.Algebra.Group.Int.Defs
import Mathlib.Logic.Function.Basic

/-!
# The range lock as a step function

`LockRange` keeps a map of granted entries sorted by offset and a list of the
waiting requests, both guarded by one mutex.  The functions below follow the
source section by section; `step` interleaves the sections of any number of
threads.  A section ends where the source releases the mutex: at the return of
the call, or inside `WaitLoop` when the thread goes to sleep on the condition
variable.
-/

namespace Yacul
namespace LockRange

/-- `LockRange::Mode`. -/
inductive Mode
  | kShared
  | kExclusive
deriving DecidableEq, Repr

/-- `LockRange::Status`. -/
inductive Status
  | kAcquired
  | kTimeout
  | kCancelled
  | kInvalid
deriving DecidableEq, Repr

/-- `steady_clock::time_point`, in nanoseconds. -/
abbrev TimePoint := Int

/-- `time_point::max()`, the deadline of the blocking calls. -/
def kForever : TimePoint := 2 ^ 63 - 1

/-- `CHECK`s made by `ValidateRange`. -/
def validateRange (offset length : UInt64) : Bool :=
  length ≠ 0 && offset ≤ 0xFFFFFFFFFFFFFFFF - length

/-! ## State guarded by the mutex -/

/-- Key of the entry map.  `next_id_` is never reused, so ids are naturals. -/
structure EntryKey where
  offset : UInt64
  id : ℕ
deriving DecidableEq, Repr

/-- `EntryKey::operator<`. -/
def EntryKey.lt (k o : EntryKey) : Bool :=
  if k.offset ≠ o.offset then k.offset < o.offset else k.id < o.id

/-- A granted range `[offset, endOff)`. -/
structure LockEntry where
  offset : UInt64
  endOff : UInt64
  mode : Mode
  shareCount : UInt32
deriving DecidableEq, Repr

/-- The sorted map `entries_`, in iteration order. -/
abbrev EntryMap := List (EntryKey × LockEntry)

/-- A waiter descriptor.  It lives on the stack of the waiting thread, so the
thread stands for its address. -/
structure Waiter where
  thread : ℕ
  offset : UInt64
  endOff : UInt64
  mode : Mode
deriving DecidableEq, Repr

/-- The members guarded by `mu_`; `next_id_` has 64 bits and would start again
after `2 ^ 64` insertions. -/
structure Core where
  nextId : ℕ := 0
  entries : EntryMap := []
  waiters : List Waiter := []
deriving Repr

/-- `LockRange::Overlaps`. -/
def overlaps (aOff aEnd bOff bEnd : UInt64) : Bool :=
  aOff < bEnd && bOff < aEnd

/-- `LockRange::HasConflict`: the scan stops at the first key at or past the
end of the request. -/
def hasConflict (offset endOff : UInt64) (mode : Mode)
    (excludeKey : Option EntryKey) : EntryMap → Bool
  | [] => false
  | (key, entry) :: rest =>
      if endOff ≤ key.offset then false
      else if excludeKey = some key then
        hasConflict offset endOff mode excludeKey rest
      else if !overlaps entry.offset entry.endOff offset endOff then
        hasConflict offset endOff mode excludeKey rest
      else if mode = .kExclusive || entry.mode = .kExclusive then true
      else hasConflict offset endOff mode excludeKey rest

/-- `LockRange::ExclusiveWaiterExists`. -/
def exclusiveWaiterExists (waiters : List Waiter) (offset endOff : UInt64) :
    Bool :=
  waiters.any fun w =>
    w.mode = .kExclusive && overlaps w.offset w.endOff offset endOff

/-- `LockRange::CanGrant`: a shared request yields to an overlapping exclusive
waiter. -/
def canGrant (c : Core) (offset endOff : UInt64) (mode : Mode)
    (excludeKey : Option EntryKey) : Bool :=
  if mode = .kShared && exclusiveWaiterExists c.waiters offset endOff then
    false
  else !hasConflict offset endOff mode excludeKey c.entries

/-- `entries_[key] = e` on the sorted map. -/
def mapAssign (key : EntryKey) (e : LockEntry) : EntryMap → EntryMap
  | [] => [(key, e)]
  | (k, e') :: rest =>
      if key.lt k then (key, e) :: (k, e') :: rest
      else if k.lt key then (k, e') :: mapAssign key e rest
      else (k, e) :: rest

/-- `LockRange::InsertEntry`. -/
def insertEntry (c : Core) (offset endOff : UInt64) (mode : Mode) : Core :=
  { c with
    nextId := c.nextId + 1
    entries := mapAssign ⟨offset, c.nextId⟩ ⟨offset, endOff, mode, 1⟩ c.entries }

/-- The scan shared by `DoRelease` (`bound` is the end of the range) and
`UpgradeUntil` (`bound` is its offset): stop past `bound`, otherwise give up
one holder of the first matching entry.  The flag says whether the entry was
erased, in which case the source calls `notify_all`. -/
def dropHolder (bound offset endOff : UInt64) (mode : Mode) :
    EntryMap → Option (Bool × EntryMap)
  | [] => none
  | (key, e) :: rest =>
      if bound < key.offset then none
      else if e.offset ≠ offset || e.endOff ≠ endOff || e.mode ≠ mode then
        (dropHolder bound offset endOff mode rest).map fun (erased, rest') =>
          (erased, (key, e) :: rest')
      else if mode = .kShared && e.shareCount > 1 then
        some (false, (key, { e with shareCount := e.shareCount - 1 }) :: rest)
      else some (true, rest)

/-! ## The wait loop, cut where the thread sleeps -/

/-- The end of `WaitLoop`: unregister, then test once more. -/
def waitLoopLeave (c : Core) (t : ℕ) (offset endOff : UInt64) (mode : Mode) :
    Status × Core :=
  let c := { c with waiters := c.waiters.eraseP fun w => w.thread = t }
  if canGrant c offset endOff mode none then
    (.kAcquired, insertEntry c offset endOff mode)
  else (.kTimeout, c)

/-- The loop condition of `WaitLoop`; `none` means that the thread sleeps. -/
def waitLoopTest (c : Core) (t : ℕ) (offset endOff : UInt64) (mode : Mode) :
    Option Status × Core :=
  if canGrant c offset endOff mode none then
    let (status, c) := waitLoopLeave c t offset endOff mode
    (some status, c)
  else (none, c)

/-- `WaitLoop` from its entry to the first sleep. -/
def waitLoopEnter (c : Core) (t : ℕ) (offset endOff : UInt64) (mode : Mode)
    (noWait : Bool) : Option Status × Core :=
  if canGrant c offset endOff mode none then
    (some .kAcquired, insertEntry c offset endOff mode)
  else if noWait then (some .kTimeout, c)
  else
    waitLoopTest { c with waiters := c.waiters ++ [⟨t, offset, endOff, mode⟩] }
      t offset endOff mode

/-- `WaitLoop` from the return of `wait` or `wait_until` to the next sleep. -/
def waitLoopResume (c : Core) (t : ℕ) (offset endOff : UInt64) (mode : Mode)
    (timedOut : Bool) : Option Status × Core :=
  if timedOut && !canGrant c offset endOff mode none then
    let (status, c) := waitLoopLeave c t offset endOff mode
    (some status, c)
  else waitLoopTest c t offset endOff mode

/-! ## Guards and threads -/

/-- A guard object.  `owner` says whether `owner_` is set.  `upgrading` is set
while a thread is inside `UpgradeUntil` on the object; no other call may use
the object meanwhile. -/
structure Guard where
  owner : Bool := false
  offset : UInt64 := 0
  length : UInt64 := 0
  mode : Mode := .kShared
  upgrading : Bool := false
deriving DecidableEq, Repr

/-- The calls that go through `WaitLoop`. -/
inductive Call
  | lock
  | tryLockUntil (deadline : TimePoint)
  | tryLock
  | upgradeUntil (guard : ℕ) (deadline : TimePoint)
deriving DecidableEq, Repr

/-- The deadline each call passes to `WaitLoop`. -/
def Call.deadline : Call → TimePoint
  | .lock => kForever
  | .tryLockUntil deadline => deadline
  | .tryLock => 0
  | .upgradeUntil _ deadline => deadline

/-- The `no_wait` argument each call passes to `WaitLoop`. -/
def Call.noWait : Call → Bool
  | .tryLock => true
  | _ => false

/-- A request a thread makes to `WaitLoop`. -/
structure Request where
  call : Call
  offset : UInt64
  length : UInt64
  mode : Mode
deriving DecidableEq, Repr

/-- The end `offset + length` handed to `WaitLoop`. -/
def Request.endOff (r : Request) : UInt64 := r.offset + r.length

/-- Where a thread is: outside, asleep in `WaitLoop` (with a flag saying
whether it was notified since its last test), or back from a call. -/
inductive Frame
  | idle
  | blocked (req : Request) (notified : Bool)
  | returned (req : Request) (status : Status)
deriving DecidableEq, Repr

/-- A thread may start a call unless it is asleep in one. -/
def Frame.canCall : Frame → Bool
  | .blocked _ _ => false
  | _ => true

structure State where
  core : Core := {}
  guards : List Guard := []
  threads : ℕ → Frame := fun _ => .idle

/-- `cv_.notify_all()`. -/
def notifyAll (threads : ℕ → Frame) : ℕ → Frame := fun t =>
  match threads t with
  | .blocked req _ => .blocked req true
  | frame => frame

/-- The guard object that `Lock`, `TryLock` and `TryLockUntil` return. -/
def Request.guard (req : Request) (status : Status) : Guard :=
  if status = .kAcquired then
    { owner := true, offset := req.offset, length := req.length,
      mode := req.mode }
  else {}

/-- What `UpgradeUntil` makes of its own object. -/
def Guard.upgraded (guard : Guard) (status : Status) : Guard :=
  if status = .kAcquired then
    { guard with mode := .kExclusive, upgrading := false }
  else { guard with owner := false, upgrading := false }

/-- What the caller of `WaitLoop` does with the status. -/
def concludeCall (guards : List Guard) (req : Request) (status : Status) :
    List Guard :=
  match req.call with
  | .upgradeUntil g _ => guards.modify g fun guard => guard.upgraded status
  | _ => guards ++ [req.guard status]

/-- Store the outcome of a section of `WaitLoop` run by thread `t`. -/
def settle (s : State) (t : ℕ) (req : Request) (out : Option Status × Core) :
    State :=
  match out with
  | (some status, core) =>
      { core := core
        guards := concludeCall s.guards req status
        threads := Function.update s.threads t (.returned req status) }
  | (none, core) =>
      { s with
        core := core
        threads := Function.update s.threads t (.blocked req false) }

/-- `LockRange::DoRelease`. -/
def doRelease (s : State) (offset length : UInt64) (mode : Mode) : State :=
  let endOff := offset + length
  match dropHolder endOff offset endOff mode s.core.entries with
  | none => s
  | some (erased, entries) =>
      { s with
        core := { s.core with entries := entries }
        threads := if erased then notifyAll s.threads else s.threads }

/-- `Guard::Release`. -/
def releaseGuard (s : State) (g : ℕ) (guard : Guard) : State :=
  if guard.owner then
    doRelease { s with guards := s.guards.set g { guard with owner := false } }
      guard.offset guard.length guard.mode
  else s

/-- One mutex-protected section, or one guard move.  An action names the
thread that runs it where that thread can sleep. -/
inductive Action
  /-- `Lock`, `TryLockUntil` or `TryLock`, up to the first sleep. -/
  | acquire (t : ℕ) (req : Request)
  /-- `Guard::UpgradeUntil`, up to the first sleep. -/
  | upgradeUntil (t g : ℕ) (deadline : TimePoint)
  /-- `wait` returns, notified or spuriously, or `wait_until` returns
  `no_timeout`. -/
  | wake (t : ℕ)
  /-- `wait_until` returns `timeout`. -/
  | timeout (t : ℕ)
  /-- `Guard::Release` or `~Guard`. -/
  | release (g : ℕ)
  /-- `Guard(Guard &&)`. -/
  | moveConstruct (g : ℕ)
  /-- `Guard::operator=(Guard &&)`. -/
  | moveAssign (dst src : ℕ)
deriving DecidableEq, Repr

/-- The object `g`, when no upgrade is using it. -/
def guardAt (s : State) (g : ℕ) : Option Guard :=
  s.guards[g]?.filter fun guard => !guard.upgrading

/-- `Guard::UpgradeUntil` on the object `g`. -/
def upgradeSection (s : State) (t g : ℕ) (guard : Guard)
    (deadline : TimePoint) : Option State :=
  let req : Request :=
    ⟨.upgradeUntil g deadline, guard.offset, guard.length, .kExclusive⟩
  if !guard.owner then none
  else if guard.mode = .kExclusive then
    some { s with
      threads := Function.update s.threads t (.returned req .kInvalid) }
  else
    (dropHolder guard.offset guard.offset (guard.offset + guard.length)
        .kShared s.core.entries).map fun (erased, entries) =>
      let s :=
        { core := { s.core with entries := entries }
          guards := s.guards.set g { guard with upgrading := true }
          threads := if erased then notifyAll s.threads else s.threads }
      settle s t req
        (waitLoopEnter s.core t req.offset req.endOff .kExclusive false)

/-- One step.  A call whose `CHECK` fails aborts the process, so it is not a
step. -/
def step (s : State) : Action → Option State
  | .acquire t req =>
      match req.call with
      | .upgradeUntil _ _ => none
      | call =>
          if (s.threads t).canCall && validateRange req.offset req.length then
            some (settle s t req
              (waitLoopEnter s.core t req.offset req.endOff req.mode
                call.noWait))
          else none
  | .upgradeUntil t g deadline =>
      if (s.threads t).canCall then
        (guardAt s g).bind fun guard => upgradeSection s t g guard deadline
      else none
  | .wake t =>
      match s.threads t with
      | .blocked req _ =>
          some (settle s t req
            (waitLoopResume s.core t req.offset req.endOff req.mode false))
      | _ => none
  | .timeout t =>
      match s.threads t with
      | .blocked req _ =>
          if req.call.deadline = kForever then none
          else
            some (settle s t req
              (waitLoopResume s.core t req.offset req.endOff req.mode true))
      | _ => none
  | .release g =>
      (guardAt s g).map fun guard => releaseGuard s g guard
  | .moveConstruct g =>
      (guardAt s g).map fun guard =>
        { s with
          guards := s.guards.set g { guard with owner := false } ++ [guard] }
  | .moveAssign dst src =>
      (guardAt s dst).bind fun dstGuard =>
        (guardAt s src).map fun srcGuard =>
          if dst = src then s
          else
            let s := releaseGuard s dst dstGuard
            { s with
              guards := (s.guards.set dst srcGuard).set src
                { srcGuard with owner := false } }

/-! ## What each step is -/

theorem guardAt_eq_some {s : State} {g : ℕ} {guard : Guard}
    (h : guardAt s g = some guard) :
    s.guards[g]? = some guard ∧ guard.upgrading = false := by
  simpa [guardAt, Option.filter_eq_some_iff] using h

theorem step_acquire {s s' : State} {t : ℕ} {req : Request}
    (h : step s (.acquire t req) = some s') :
    (∀ g d, req.call ≠ .upgradeUntil g d) ∧ (s.threads t).canCall = true ∧
      validateRange req.offset req.length = true ∧
      s' = settle s t req (waitLoopEnter s.core t req.offset req.endOff
        req.mode req.call.noWait) := by
  cases hcall : req.call with
  | upgradeUntil g d => simp [step, hcall] at h
  | lock | tryLockUntil d | tryLock =>
      simp only [step, hcall, Option.ite_none_right_eq_some,
        Option.some.injEq, Bool.and_eq_true] at h
      obtain ⟨⟨hcan, hrange⟩, rfl⟩ := h
      exact ⟨by simp, hcan, hrange, rfl⟩

theorem step_upgradeUntil {s s' : State} {t g : ℕ} {deadline : TimePoint}
    (h : step s (.upgradeUntil t g deadline) = some s') :
    (s.threads t).canCall = true ∧
      ∃ guard, s.guards[g]? = some guard ∧ guard.upgrading = false ∧
        upgradeSection s t g guard deadline = some s' := by
  simp only [step, Option.ite_none_right_eq_some,
    Option.bind_eq_some_iff] at h
  obtain ⟨hcan, guard, hat, hup⟩ := h
  obtain ⟨hguard, hfree⟩ := guardAt_eq_some hat
  exact ⟨hcan, guard, hguard, hfree, hup⟩

theorem step_wakeUp {s s' : State} {t : ℕ}
    (h : step s (.wake t) = some s') :
    ∃ req notified, s.threads t = .blocked req notified ∧
      s' = settle s t req
        (waitLoopResume s.core t req.offset req.endOff req.mode false) := by
  simp only [step] at h
  split at h
  · next req notified ht =>
    exact ⟨req, notified, ht, (Option.some.inj h).symm⟩
  · cases h

theorem step_timeout {s s' : State} {t : ℕ}
    (h : step s (.timeout t) = some s') :
    ∃ req notified, s.threads t = .blocked req notified ∧
      req.call.deadline ≠ kForever ∧
      s' = settle s t req
        (waitLoopResume s.core t req.offset req.endOff req.mode true) := by
  simp only [step] at h
  split at h
  · next req notified ht =>
    simp only [Option.ite_none_left_eq_some, Option.some.injEq] at h
    obtain ⟨hdeadline, rfl⟩ := h
    exact ⟨req, notified, ht, hdeadline, rfl⟩
  · cases h

theorem step_release {s s' : State} {g : ℕ}
    (h : step s (.release g) = some s') :
    ∃ guard, s.guards[g]? = some guard ∧ guard.upgrading = false ∧
      s' = releaseGuard s g guard := by
  simp only [step, Option.map_eq_some_iff] at h
  obtain ⟨guard, hat, rfl⟩ := h
  obtain ⟨hguard, hfree⟩ := guardAt_eq_some hat
  exact ⟨guard, hguard, hfree, rfl⟩

theorem step_moveConstruct {s s' : State} {g : ℕ}
    (h : step s (.moveConstruct g) = some s') :
    ∃ guard, s.guards[g]? = some guard ∧ guard.upgrading = false ∧
      s' = { s with
        guards := s.guards.set g { guard with owner := false } ++
          [guard] } := by
  simp only [step, Option.map_eq_some_iff] at h
  obtain ⟨guard, hat, rfl⟩ := h
  obtain ⟨hguard, hfree⟩ := guardAt_eq_some hat
  exact ⟨guard, hguard, hfree, rfl⟩

/-- A move assignment to itself does nothing; another one releases what the
destination holds first. -/
theorem step_moveAssign {s s' : State} {dst src : ℕ}
    (h : step s (.moveAssign dst src) = some s') :
    s' = s ∨
      ∃ dstGuard srcGuard, dst ≠ src ∧
        s.guards[dst]? = some dstGuard ∧ dstGuard.upgrading = false ∧
        s.guards[src]? = some srcGuard ∧ srcGuard.upgrading = false ∧
        s' = { releaseGuard s dst dstGuard with
          guards := ((releaseGuard s dst dstGuard).guards.set dst
            srcGuard).set src { srcGuard with owner := false } } := by
  simp only [step, Option.bind_eq_some_iff, Option.map_eq_some_iff] at h
  obtain ⟨dstGuard, hdst, srcGuard, hsrc, h⟩ := h
  obtain ⟨hdst, hdstFree⟩ := guardAt_eq_some hdst
  obtain ⟨hsrc, hsrcFree⟩ := guardAt_eq_some hsrc
  split at h
  · exact .inl h.symm
  · next hne =>
    exact .inr ⟨dstGuard, srcGuard, hne, hdst, hdstFree, hsrc, hsrcFree,
      h.symm⟩

/-! ## Runs -/

/-- A fresh lock, no guards, every thread outside. -/
def init : State := {}

/-- The reachable states of one `LockRange` object. -/
abbrev Reachable : State → Prop := Transition.Reachable step {init}

end LockRange
end Yacul
