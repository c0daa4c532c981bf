import Mathlib.Algebra.Ring.Nat
import Mathlib.Logic.Function.Basic
import Yacul.Support.Transition

/-!
# The background refresh

`StartBackgroundRefresh` starts a thread that runs `RefreshLoop` on `this`;
`StopBackgroundRefresh`, the moves and the destructor join it.  Objects, their
threads and the calls on them are one system here: any number of calls may be
under way, each a sequence of atomic operations, and the threads run between
them.
-/

namespace Yacul
namespace SystemInfo
namespace Refresh

/-! ## Model -/

/-- The members of `SystemInfo::Impl` for the refresh; `refresh_thread` is the
thread that is joinable. -/
structure Impl where
  refresh_running : Bool := false
  refresh_thread : Option ℕ := none
deriving DecidableEq, Repr

/-- A place for a `SystemInfo`: no object is there, one without `impl_`, or one
with it. -/
inductive Object
  | vacant
  | movedFrom
  | owner (impl : Impl)
deriving DecidableEq, Repr

/-- Where a thread is in `RefreshLoop`. -/
inductive LoopPc
  /-- `while (impl_->refresh_running.load())`. -/
  | load
  | sleep
  /-- `if (!impl_->refresh_running.load())`. -/
  | reload
  | fetch
  | done
deriving DecidableEq, Repr

structure Thread where
  this : ℕ
  pc : LoopPc := .load
deriving DecidableEq, Repr

/-- What ends the program. -/
inductive Fault
  /-- `std::terminate`: a joinable `std::thread` is assigned to or destroyed. -/
  | terminate
  /-- `join` of a thread that is not joinable. -/
  | notJoinable
  /-- A null `impl_`, or an object that is not there, is used. -/
  | badAccess
deriving DecidableEq, Repr

/-- The atomic operations of the calls. -/
inductive Op
  | create (o : ℕ)
  | compareExchange (o : ℕ)
  | spawn (o : ℕ)
  /-- The test of `impl_` and the store in `StopBackgroundRefresh`. -/
  | stop (o : ℕ)
  | joinable (o : ℕ)
  | join (o : ℕ)
  /-- `impl_ = move(other.impl_)`. -/
  | transfer (dst src : ℕ)
  /-- The destructor of `impl_`. -/
  | free (o : ℕ)
deriving DecidableEq, Repr

/-- The public calls; the flag is `enable_background_refresh`. -/
inductive Call
  | construct (o : ℕ) (enable : Bool)
  | StartBackgroundRefresh (o : ℕ)
  | StopBackgroundRefresh (o : ℕ)
  | moveConstruct (dst src : ℕ)
  | moveAssign (dst src : ℕ)
  | destroy (o : ℕ)
deriving DecidableEq, Repr

namespace Call

/-- The operations of a call, as far as they are known at its start. -/
def ops : Call → List Op
  | construct o enable =>
      .create o :: if enable then [Op.compareExchange o] else []
  | StartBackgroundRefresh o => [.compareExchange o]
  | StopBackgroundRefresh o => [.stop o]
  | moveConstruct dst src => [.stop src, .transfer dst src]
  | moveAssign dst src =>
      if dst = src then [] else [.stop dst, .stop src, .transfer dst src]
  | destroy o => [.stop o, .free o]

/-- The objects of a call. -/
def objects : Call → List ℕ
  | construct o _ => [o]
  | StartBackgroundRefresh o => [o]
  | StopBackgroundRefresh o => [o]
  | moveConstruct dst src => [dst, src]
  | moveAssign dst src => [dst, src]
  | destroy o => [o]

end Call

/-- The objects and the threads. -/
structure World where
  objects : ℕ → Object := fun _ => .vacant
  threads : List Thread := []
  fault : Option Fault := none

namespace World

def setObject (w : World) (o : ℕ) (object : Object) : World :=
  { w with objects := Function.update w.objects o object }

def fail (w : World) (fault : Fault) : World :=
  { w with fault := some fault }

end World

/-- The joinable thread of an object. -/
def Object.thread : Object → Option ℕ
  | .owner impl => impl.refresh_thread
  | .vacant | .movedFrom => none

/-- One operation, with the operations that it leads to; a `join` waits until
the thread is done, and the system can always create one more thread. -/
def exec (w : World) : Op → Option (World × List Op)
  | .create o => some (w.setObject o (.owner {}), [])
  | .compareExchange o =>
      match w.objects o with
      | .owner impl =>
          if impl.refresh_running then some (w, [])
          else
            some (w.setObject o (.owner { impl with refresh_running := true }),
              [.spawn o])
      | .vacant | .movedFrom => some (w.fail .badAccess, [])
  | .spawn o =>
      match w.objects o with
      | .owner impl =>
          let started : World := { w with threads := w.threads ++ [{ this := o }] }
          if impl.refresh_thread.isSome then some (started.fail .terminate, [])
          else
            some (started.setObject o
              (.owner { impl with refresh_thread := some w.threads.length }),
              [])
      | .vacant | .movedFrom => some (w.fail .badAccess, [])
  | .stop o =>
      match w.objects o with
      | .owner impl =>
          some (w.setObject o (.owner { impl with refresh_running := false }),
            [.joinable o])
      | .movedFrom => some (w, [])
      | .vacant => some (w.fail .badAccess, [])
  | .joinable o =>
      match w.objects o with
      | .owner impl =>
          some (w, if impl.refresh_thread.isSome then [.join o] else [])
      | .vacant | .movedFrom => some (w.fail .badAccess, [])
  | .join o =>
      match w.objects o with
      | .owner impl =>
          match impl.refresh_thread with
          | none => some (w.fail .notJoinable, [])
          | some t =>
              if (w.threads[t]?).map Thread.pc = some .done then
                some (w.setObject o (.owner { impl with refresh_thread := none }),
                  [])
              else none
      | .vacant | .movedFrom => some (w.fail .badAccess, [])
  | .transfer dst src =>
      if (w.objects dst).thread.isSome then some (w.fail .terminate, [])
      else some ((w.setObject dst (w.objects src)).setObject src .movedFrom, [])
  | .free o =>
      if (w.objects o).thread.isSome then some (w.fail .terminate, [])
      else some (w.setObject o .vacant, [])

/-- One step of `RefreshLoop`; what it fetches is left out. -/
def LoopPc.next (refresh_running : Bool) : LoopPc → Option LoopPc
  | .load => some (if refresh_running then .sleep else .done)
  | .sleep => some .reload
  | .reload => some (if refresh_running then .fetch else .done)
  | .fetch => some .load
  | .done => none

/-- One step of a thread, which uses `this->impl_`. -/
def loopStep (w : World) (t : ℕ) : Option World :=
  (w.threads[t]?).bind fun thread =>
    match w.objects thread.this with
    | .owner impl =>
        (thread.pc.next impl.refresh_running).map fun pc =>
          { w with threads := w.threads.set t { thread with pc := pc } }
    | .vacant | .movedFrom =>
        if thread.pc = .done then none else some (w.fail .badAccess)

/-- A call under way, with the operations that are left. -/
structure InFlight where
  call : Call
  ops : List Op
deriving DecidableEq, Repr

structure State where
  world : World := {}
  calls : List InFlight := []

inductive Action
  | begin (call : Call)
  /-- The next operation of a call. -/
  | op (i : ℕ)
  | loop (t : ℕ)
deriving DecidableEq, Repr

/-- One step of the system; after a fault there is none. -/
def step (s : State) (a : Action) : Option State :=
  if s.world.fault.isSome then none
  else
    match a with
    | .begin call => some { s with calls := s.calls ++ [⟨call, call.ops⟩] }
    | .op i =>
        (s.calls[i]?).bind fun c =>
          match c.ops with
          | [] => none
          | op :: rest =>
              (exec s.world op).map fun r =>
                { world := r.1
                  calls := s.calls.set i { c with ops := r.2 ++ rest } }
    | .loop t => (loopStep s.world t).map fun w => { s with world := w }

/-! ## One call at a time on an object -/

/-- A call on the object is under way. -/
def Busy (s : State) (o : ℕ) : Prop :=
  ∃ c ∈ s.calls, c.ops ≠ [] ∧ o ∈ c.call.objects

/-- What a call needs of its objects: a new object goes where none is, the
others are there, and a refresh is not started without `impl_`. -/
def Call.Applies (objects : ℕ → Object) : Call → Prop
  | .construct o _ => objects o = .vacant
  | .StartBackgroundRefresh o => ∃ impl, objects o = .owner impl
  | .StopBackgroundRefresh o => objects o ≠ .vacant
  | .moveConstruct dst src => objects dst = .vacant ∧ objects src ≠ .vacant
  | .moveAssign dst src => objects dst ≠ .vacant ∧ objects src ≠ .vacant
  | .destroy o => objects o ≠ .vacant

/-- A call begins only where it applies and no other call is under way on its
objects. -/
def Serial (s : State) : Action → Prop
  | .begin call =>
      call.Applies s.world.objects ∧ ∀ o ∈ call.objects, ¬ Busy s o
  | .op _ | .loop _ => True

/-- No object, no thread, no call. -/
def init : Set State := {{}}

/-! ## Threads and their objects -/

/-- A thread that is not done is the joinable thread of its object, which has
its `impl_`; joinable threads have been started on the object that holds them,
and are not done while the refresh runs. -/
structure World.Sound (w : World) : Prop where
  fault : w.fault = none
  live : ∀ t thread, w.threads[t]? = some thread → thread.pc ≠ .done →
    (w.objects thread.this).thread = some t
  held : ∀ o t, (w.objects o).thread = some t →
    ∃ thread, w.threads[t]? = some thread ∧ thread.this = o
  awake : ∀ o t thread, w.objects o = .owner ⟨true, some t⟩ →
    w.threads[t]? = some thread → thread.pc ≠ .done

/-- Where no call is under way, a refresh runs exactly if there is a thread to
be joined. -/
def Object.Balanced : Object → Prop
  | .owner impl => impl.refresh_running = impl.refresh_thread.isSome
  | .vacant | .movedFrom => True

/-- There is an object, without a refresh. -/
def Object.Quiet (object : Object) : Prop :=
  object = .movedFrom ∨ object = .owner {}

/-- The calls that stop the refresh of their objects. -/
def Call.stops : Call → Bool
  | .construct .. | .StartBackgroundRefresh _ => false
  | .StopBackgroundRefresh _ | .moveConstruct .. | .destroy _ => true
  | .moveAssign dst src => dst ≠ src

/-- What a call leaves behind. -/
def Call.Leaves (call : Call) (object : Object) : Prop :=
  object.Balanced ∧ (call.stops = true → object.thread = none)

theorem Object.Quiet.balanced {object : Object} (h : object.Quiet) :
    object.Balanced := by
  obtain rfl | rfl := h
  · trivial
  · rfl

theorem Object.Quiet.thread {object : Object} (h : object.Quiet) :
    object.thread = none := by
  obtain rfl | rfl := h <;> rfl

theorem Object.Quiet.leaves {object : Object} (h : object.Quiet)
    (call : Call) : call.Leaves object :=
  ⟨h.balanced, fun _ => h.thread⟩

theorem Object.Quiet.ne_vacant {object : Object} (h : object.Quiet) :
    object ≠ .vacant := by
  obtain rfl | rfl := h <;> exact nofun

section

variable {w : World} {o : ℕ} {object : Object}

@[simp]
theorem World.setObject_self : (w.setObject o object).objects o = object :=
  Function.update_self ..

theorem World.setObject_of_ne {o' : ℕ} (h : o' ≠ o) :
    (w.setObject o object).objects o' = w.objects o' :=
  Function.update_of_ne h ..

theorem World.Sound.setObject (hw : w.Sound)
    (h : object.thread = (w.objects o).thread)
    (hawake : ∀ t, object ≠ .owner ⟨true, some t⟩) :
    (w.setObject o object).Sound := by
  have hsame : ∀ o', ((w.setObject o object).objects o').thread =
      (w.objects o').thread := by
    intro o'
    by_cases ho : o' = o
    · rw [ho, World.setObject_self, h]
    · rw [World.setObject_of_ne ho]
  refine ⟨hw.fault, fun t thread ht hpc => ?_, fun o' t ht => ?_,
    fun o' t thread himpl ht => ?_⟩
  · rw [hsame]
    exact hw.live t thread ht hpc
  · rw [hsame] at ht
    exact hw.held o' t ht
  · by_cases ho : o' = o
    · rw [ho, World.setObject_self] at himpl
      exact absurd himpl (hawake t)
    · rw [World.setObject_of_ne ho] at himpl
      exact hw.awake o' t thread himpl ht

/-- The thread of an object is joined. -/
theorem World.Sound.joined (hw : w.Sound) {t : ℕ}
    (hthread : (w.objects o).thread = some t)
    (hdone : (w.threads[t]?).map Thread.pc = some .done)
    (h : object.thread = none) : (w.setObject o object).Sound := by
  refine ⟨hw.fault, fun u thread hu hpc => ?_, fun o' u hu => ?_,
    fun o' u thread himpl hu => ?_⟩
  · have hlive := hw.live u thread hu hpc
    by_cases ho : thread.this = o
    · -- The only live thread of the object would be the one that is done.
      rw [ho, hthread] at hlive
      obtain rfl : t = u := Option.some.inj hlive
      have hu' : w.threads[t]? = some thread := hu
      rw [hu', Option.map_some] at hdone
      exact absurd (Option.some.inj hdone) hpc
    · rw [World.setObject_of_ne ho]
      exact hlive
  · by_cases ho : o' = o
    · rw [ho, World.setObject_self, h] at hu
      cases hu
    · rw [World.setObject_of_ne ho] at hu
      exact hw.held o' u hu
  · by_cases ho : o' = o
    · rw [ho, World.setObject_self] at himpl
      rw [himpl] at h
      cases h
    · rw [World.setObject_of_ne ho] at himpl
      exact hw.awake o' u thread himpl hu

/-- A thread is started for an object that has none. -/
theorem World.Sound.spawned (hw : w.Sound)
    (hthread : (w.objects o).thread = none)
    (h : object.thread = some w.threads.length) :
    (({ w with threads := w.threads ++ [{ this := o }] } : World).setObject o
      object).Sound := by
  refine ⟨hw.fault, fun t thread ht hpc => ?_, fun o' t ht => ?_,
    fun o' t thread himpl ht => ?_⟩
  · change (w.threads ++ [{ this := o }])[t]? = some thread at ht
    rcases lt_trichotomy t w.threads.length with hlt | rfl | hlt
    · rw [List.getElem?_append_left hlt] at ht
      have hlive := hw.live t thread ht hpc
      have hne : thread.this ≠ o := by
        intro hthis
        rw [hthis, hthread] at hlive
        cases hlive
      rw [World.setObject_of_ne hne]
      exact hlive
    · rw [List.getElem?_concat_length] at ht
      obtain rfl := Option.some.inj ht
      rw [World.setObject_self, h]
    · have hlength : (w.threads ++ [({ this := o } : Thread)]).length ≤ t := by
        simpa using Nat.succ_le_of_lt hlt
      rw [List.getElem?_eq_none hlength] at ht
      cases ht
  · by_cases ho : o' = o
    · rw [ho, World.setObject_self, h] at ht
      obtain rfl := Option.some.inj ht
      exact ⟨{ this := o }, List.getElem?_concat_length .., ho.symm⟩
    · rw [World.setObject_of_ne ho] at ht
      obtain ⟨thread, hget, hthis⟩ := hw.held o' t ht
      refine ⟨thread, ?_, hthis⟩
      change (w.threads ++ [{ this := o }])[t]? = some thread
      have hlt := (List.getElem?_eq_some_iff.mp hget).1
      rw [List.getElem?_append_left hlt]
      exact hget
  · change (w.threads ++ [{ this := o }])[t]? = some thread at ht
    by_cases ho : o' = o
    · rw [ho, World.setObject_self] at himpl
      rw [himpl] at h
      obtain rfl : t = w.threads.length := Option.some.inj h
      rw [List.getElem?_concat_length] at ht
      obtain rfl := Option.some.inj ht
      exact nofun
    · rw [World.setObject_of_ne ho] at himpl
      obtain ⟨thread', hget, -⟩ := hw.held o' t (by rw [himpl]; rfl)
      have hlt := (List.getElem?_eq_some_iff.mp hget).1
      rw [List.getElem?_append_left hlt] at ht
      exact hw.awake o' t thread himpl ht

end

/-! ## The stages of a call -/

/-- The end of `StartBackgroundRefresh`. -/
inductive Starting (objects : ℕ → Object) (o : ℕ) : List Op → Prop
  | compareExchange {impl : Impl} (himpl : objects o = .owner impl)
      (hbalanced : (objects o).Balanced) :
      Starting objects o [.compareExchange o]
  | spawn (himpl : objects o = .owner ⟨true, none⟩) :
      Starting objects o [.spawn o]

/-- `StopBackgroundRefresh`, with the operations that follow it. -/
inductive Stopping (objects : ℕ → Object) (o : ℕ) (rest : List Op) :
    List Op → Prop
  | stop (hthere : objects o ≠ .vacant) :
      Stopping objects o rest (.stop o :: rest)
  | joinable {thread : Option ℕ} (himpl : objects o = .owner ⟨false, thread⟩) :
      Stopping objects o rest (.joinable o :: rest)
  | join {t : ℕ} (himpl : objects o = .owner ⟨false, some t⟩) :
      Stopping objects o rest (.join o :: rest)

/-- What is left of a call, with what holds of its objects then. -/
inductive Stage (objects : ℕ → Object) : Call → List Op → Prop
  | create {o : ℕ} {enable : Bool} (hvacant : objects o = .vacant) :
      Stage objects (.construct o enable) (Call.construct o enable).ops
  | construct {o : ℕ} {enable : Bool} {ops : List Op}
      (h : Starting objects o ops) : Stage objects (.construct o enable) ops
  | start {o : ℕ} {ops : List Op} (h : Starting objects o ops) :
      Stage objects (.StartBackgroundRefresh o) ops
  | stop {o : ℕ} {ops : List Op} (h : Stopping objects o [] ops) :
      Stage objects (.StopBackgroundRefresh o) ops
  | moveStop {dst src : ℕ} {ops : List Op} (hvacant : objects dst = .vacant)
      (h : Stopping objects src [.transfer dst src] ops) :
      Stage objects (.moveConstruct dst src) ops
  | moveTransfer {dst src : ℕ} (hvacant : objects dst = .vacant)
      (hquiet : (objects src).Quiet) :
      Stage objects (.moveConstruct dst src) [.transfer dst src]
  | assignStop {dst src : ℕ} {ops : List Op} (hne : dst ≠ src)
      (hthere : objects src ≠ .vacant)
      (h : Stopping objects dst [.stop src, .transfer dst src] ops) :
      Stage objects (.moveAssign dst src) ops
  | assignStopOther {dst src : ℕ} {ops : List Op} (hne : dst ≠ src)
      (hdst : (objects dst).Quiet)
      (h : Stopping objects src [.transfer dst src] ops) :
      Stage objects (.moveAssign dst src) ops
  | assignTransfer {dst src : ℕ} (hdst : (objects dst).Quiet)
      (hsrc : (objects src).Quiet) :
      Stage objects (.moveAssign dst src) [.transfer dst src]
  | destroyStop {o : ℕ} {ops : List Op} (h : Stopping objects o [.free o] ops) :
      Stage objects (.destroy o) ops
  | destroyFree {o : ℕ} (hquiet : (objects o).Quiet) :
      Stage objects (.destroy o) [.free o]

/-- What an operation of a call on `objects` does: the world stays sound, and
the other objects stay as they are. -/
structure Kept (w w' : World) (objects : List ℕ) : Prop where
  sound : w'.Sound
  others : ∀ o, o ∉ objects → w'.objects o = w.objects o

section

variable {w w' : World} {o : ℕ} {op : Op} {rest tail more : List Op}

theorem Kept.setObject {object : Object} {objects : List ℕ}
    (hsound : (w.setObject o object).Sound) (ho : o ∈ objects) :
    Kept w (w.setObject o object) objects :=
  ⟨hsound, fun _ hother =>
    World.setObject_of_ne fun heq => hother (heq ▸ ho)⟩

theorem Starting.step (hw : w.Sound) (h : Starting w.objects o (op :: tail))
    (hexec : exec w op = some (w', more)) :
    Kept w w' [o] ∧
      (Starting w'.objects o (more ++ tail) ∨
        more ++ tail = [] ∧ (w'.objects o).Balanced) := by
  cases h with
  | @compareExchange impl himpl hbalanced =>
      obtain ⟨running, thread⟩ := impl
      rw [himpl] at hbalanced
      obtain rfl : running = thread.isSome := hbalanced
      cases thread with
      | some t =>
          simp only [exec, himpl, Option.isSome_some, if_true,
            Option.some.injEq, Prod.mk.injEq] at hexec
          obtain ⟨rfl, rfl⟩ := hexec
          refine ⟨⟨hw, fun _ _ => rfl⟩, .inr ⟨rfl, ?_⟩⟩
          rw [himpl]
          rfl
      | none =>
          simp only [exec, himpl, Option.isSome_none, Bool.false_eq_true,
            if_false, Option.some.injEq, Prod.mk.injEq] at hexec
          obtain ⟨rfl, rfl⟩ := hexec
          refine ⟨.setObject (hw.setObject ?_ nofun) List.mem_cons_self,
            .inl (.spawn World.setObject_self)⟩
          rw [himpl]
          rfl
  | spawn himpl =>
      simp only [exec, himpl, Option.isSome_none, Bool.false_eq_true, if_false,
        Option.some.injEq, Prod.mk.injEq] at hexec
      obtain ⟨rfl, rfl⟩ := hexec
      have hthread : (w.objects o).thread = none := by rw [himpl]; rfl
      refine ⟨⟨hw.spawned hthread rfl, fun o' ho' => ?_⟩, .inr ⟨rfl, ?_⟩⟩
      · exact World.setObject_of_ne fun heq => ho' (by simp [heq])
      · rw [World.setObject_self]
        rfl

theorem Stopping.step (hw : w.Sound)
    (h : Stopping w.objects o rest (op :: tail))
    (hexec : exec w op = some (w', more)) :
    Kept w w' [o] ∧
      (Stopping w'.objects o rest (more ++ tail) ∨
        more ++ tail = rest ∧ (w'.objects o).Quiet) := by
  cases h with
  | stop hthere =>
      cases hobject : w.objects o with
      | vacant => exact absurd hobject hthere
      | movedFrom =>
          simp only [exec, hobject, Option.some.injEq, Prod.mk.injEq] at hexec
          obtain ⟨rfl, rfl⟩ := hexec
          exact ⟨⟨hw, fun _ _ => rfl⟩, .inr ⟨rfl, .inl hobject⟩⟩
      | owner impl =>
          simp only [exec, hobject, Option.some.injEq, Prod.mk.injEq] at hexec
          obtain ⟨rfl, rfl⟩ := hexec
          refine ⟨.setObject (hw.setObject ?_ nofun) List.mem_cons_self,
            .inl (.joinable World.setObject_self)⟩
          rw [hobject]
          rfl
  | @joinable thread himpl =>
      simp only [exec, himpl, Option.some.injEq, Prod.mk.injEq] at hexec
      obtain ⟨rfl, rfl⟩ := hexec
      refine ⟨⟨hw, fun _ _ => rfl⟩, ?_⟩
      cases thread with
      | none => exact .inr ⟨rfl, .inr himpl⟩
      | some t => exact .inl (.join himpl)
  | @join t himpl =>
      simp only [exec, himpl] at hexec
      split at hexec
      · next hdone =>
          simp only [Option.some.injEq, Prod.mk.injEq] at hexec
          obtain ⟨rfl, rfl⟩ := hexec
          have hthread : (w.objects o).thread = some t := by rw [himpl]; rfl
          exact ⟨.setObject (hw.joined hthread hdone rfl) List.mem_cons_self,
            .inr ⟨rfl, .inr World.setObject_self⟩⟩
      · cases hexec

theorem Starting.ops_ne_nil {objects : ℕ → Object} {ops : List Op}
    (h : Starting objects o ops) : ops ≠ [] := by
  cases h <;> exact List.cons_ne_nil _ _

theorem Stopping.ops_ne_nil {objects : ℕ → Object} {ops : List Op}
    (h : Stopping objects o rest ops) : ops ≠ [] := by
  cases h <;> exact List.cons_ne_nil _ _

theorem Stage.ops_ne_nil {objects : ℕ → Object} {call : Call} {ops : List Op}
    (h : Stage objects call ops) : ops ≠ [] := by
  cases h with
  | create | moveTransfer | assignTransfer | destroyFree =>
      exact List.cons_ne_nil _ _
  | construct h | start h => exact h.ops_ne_nil
  | stop h | moveStop _ h | assignStop _ _ h | assignStopOther _ _ h
  | destroyStop h => exact h.ops_ne_nil

/-- An object that is stopped is there. -/
theorem Stopping.ne_vacant {objects : ℕ → Object} {ops : List Op}
    (h : Stopping objects o rest ops) : objects o ≠ .vacant := by
  cases h with
  | stop hthere => exact hthere
  | joinable himpl | join himpl => rw [himpl]; exact nofun

/-- What is moved without a refresh. -/
theorem transfer_step {dst src : ℕ} (hw : w.Sound)
    (hdst : (w.objects dst).thread = none)
    (hsrc : (w.objects src).Quiet)
    (hexec : exec w (.transfer dst src) = some (w', more)) :
    Kept w w' [dst, src] ∧ more = [] ∧
      ∀ o ∈ [dst, src], (w'.objects o).Quiet := by
  simp only [exec, hdst, Option.isSome_none, Bool.false_eq_true, if_false,
    Option.some.injEq, Prod.mk.injEq] at hexec
  obtain ⟨rfl, rfl⟩ := hexec
  have hasleep : ∀ t, w.objects src ≠ .owner ⟨true, some t⟩ := by
    intro t himpl
    have hthread := hsrc.thread
    rw [himpl] at hthread
    cases hthread
  have hmid : (w.setObject dst (w.objects src)).Sound :=
    hw.setObject (hsrc.thread.trans hdst.symm) hasleep
  have hsource : ((w.setObject dst (w.objects src)).objects src).thread =
      none := by
    by_cases hne : src = dst
    · rw [hne, World.setObject_self, ← hne, hsrc.thread]
    · rw [World.setObject_of_ne hne, hsrc.thread]
  refine ⟨⟨hmid.setObject hsource.symm nofun, fun o ho => ?_⟩, rfl, fun o ho => ?_⟩
  · simp only [List.mem_cons, List.not_mem_nil, or_false, not_or] at ho
    rw [World.setObject_of_ne ho.2, World.setObject_of_ne ho.1]
  · by_cases hne : o = src
    · rw [hne, World.setObject_self]
      exact .inl rfl
    · simp only [List.mem_cons, List.not_mem_nil, or_false, hne] at ho
      rw [World.setObject_of_ne hne, ho, World.setObject_self]
      exact hsrc

theorem Kept.mono {objects objects' : List ℕ} (h : Kept w w' objects)
    (hsub : ∀ o ∈ objects, o ∈ objects') : Kept w w' objects' :=
  ⟨h.sound, fun o ho => h.others o fun hmem => ho (hsub o hmem)⟩

/-- One operation of a call: it goes on to its next stage, or it is over. -/
theorem Stage.step {call : Call} (hw : w.Sound)
    (h : Stage w.objects call (op :: tail))
    (hexec : exec w op = some (w', more)) :
    Kept w w' call.objects ∧
      (Stage w'.objects call (more ++ tail) ∨
        more ++ tail = [] ∧
          ∀ o ∈ call.objects, call.Leaves (w'.objects o)) := by
  generalize hops : op :: tail = ops at h
  cases h with
  | @create o enable hvacant =>
      obtain ⟨rfl, rfl⟩ := List.cons.inj hops
      simp only [exec, Option.some.injEq, Prod.mk.injEq] at hexec
      obtain ⟨rfl, rfl⟩ := hexec
      have hthread : Object.thread (.owner {}) = (w.objects o).thread := by
        rw [hvacant]
        rfl
      refine ⟨.setObject (hw.setObject hthread nofun) List.mem_cons_self, ?_⟩
      cases enable with
      | false =>
          refine .inr ⟨rfl, fun o' ho' => ?_⟩
          obtain rfl := List.mem_singleton.mp ho'
          rw [World.setObject_self]
          exact ⟨rfl, nofun⟩
      | true =>
          refine .inl (.construct (.compareExchange World.setObject_self ?_))
          rw [World.setObject_self]
          rfl
  | construct h =>
      subst hops
      obtain ⟨hkept, hnext | ⟨hnil, hbalanced⟩⟩ := h.step hw hexec
      · exact ⟨hkept, .inl (.construct hnext)⟩
      · refine ⟨hkept, .inr ⟨hnil, fun o ho => ?_⟩⟩
        obtain rfl := List.mem_singleton.mp ho
        exact ⟨hbalanced, nofun⟩
  | start h =>
      subst hops
      obtain ⟨hkept, hnext | ⟨hnil, hbalanced⟩⟩ := h.step hw hexec
      · exact ⟨hkept, .inl (.start hnext)⟩
      · refine ⟨hkept, .inr ⟨hnil, fun o ho => ?_⟩⟩
        obtain rfl := List.mem_singleton.mp ho
        exact ⟨hbalanced, nofun⟩
  | stop h =>
      subst hops
      obtain ⟨hkept, hnext | ⟨hnil, hquiet⟩⟩ := h.step hw hexec
      · exact ⟨hkept, .inl (.stop hnext)⟩
      · refine ⟨hkept, .inr ⟨hnil, fun o ho => ?_⟩⟩
        obtain rfl := List.mem_singleton.mp ho
        exact hquiet.leaves _
  | @moveStop dst src ops hvacant h =>
      subst hops
      have hne : dst ≠ src := fun heq => h.ne_vacant (heq ▸ hvacant)
      obtain ⟨hkept, hnext⟩ := h.step hw hexec
      have hdst := hkept.others dst (by simpa using hne)
      refine ⟨hkept.mono fun o ho => List.mem_cons_of_mem dst ho, .inl ?_⟩
      rw [hvacant] at hdst
      obtain hnext | ⟨htransfer, hquiet⟩ := hnext
      · exact .moveStop hdst hnext
      · rw [htransfer]
        exact .moveTransfer hdst hquiet
  | @moveTransfer dst src hvacant hquiet =>
      obtain ⟨rfl, rfl⟩ := List.cons.inj hops
      have hthread : (w.objects dst).thread = none := by rw [hvacant]; rfl
      obtain ⟨hkept, rfl, hleft⟩ := transfer_step hw hthread hquiet hexec
      exact ⟨hkept, .inr ⟨rfl, fun o ho => (hleft o ho).leaves _⟩⟩
  | @assignStop dst src ops hne hthere h =>
      subst hops
      obtain ⟨hkept, hnext⟩ := h.step hw hexec
      have hsrc := hkept.others src (by simpa using hne.symm)
      refine ⟨hkept.mono fun o ho => ?_, .inl ?_⟩
      · rw [List.mem_singleton.mp ho]
        exact List.mem_cons_self
      rw [← hsrc] at hthere
      obtain hnext | ⟨hstop, hquiet⟩ := hnext
      · exact .assignStop hne hthere hnext
      · rw [hstop]
        exact .assignStopOther hne hquiet (.stop hthere)
  | @assignStopOther dst src ops hne hdst h =>
      subst hops
      obtain ⟨hkept, hnext⟩ := h.step hw hexec
      have hsame := hkept.others dst (by simpa using hne)
      refine ⟨hkept.mono fun o ho => List.mem_cons_of_mem dst ho, .inl ?_⟩
      rw [← hsame] at hdst
      obtain hnext | ⟨htransfer, hquiet⟩ := hnext
      · exact .assignStopOther hne hdst hnext
      · rw [htransfer]
        exact .assignTransfer hdst hquiet
  | @assignTransfer dst src hdst hsrc =>
      obtain ⟨rfl, rfl⟩ := List.cons.inj hops
      obtain ⟨hkept, rfl, hleft⟩ := transfer_step hw hdst.thread hsrc hexec
      exact ⟨hkept, .inr ⟨rfl, fun o ho => (hleft o ho).leaves _⟩⟩
  | @destroyStop o ops h =>
      subst hops
      obtain ⟨hkept, hnext | ⟨hfree, hquiet⟩⟩ := h.step hw hexec
      · exact ⟨hkept, .inl (.destroyStop hnext)⟩
      · rw [hfree]
        exact ⟨hkept, .inl (.destroyFree hquiet)⟩
  | @destroyFree o hquiet =>
      obtain ⟨rfl, rfl⟩ := List.cons.inj hops
      simp only [exec, hquiet.thread, Option.isSome_none, Bool.false_eq_true,
        if_false, Option.some.injEq, Prod.mk.injEq] at hexec
      obtain ⟨rfl, rfl⟩ := hexec
      refine ⟨.setObject (hw.setObject hquiet.thread.symm nofun) List.mem_cons_self,
        .inr ⟨rfl, fun o' ho' => ?_⟩⟩
      obtain rfl := List.mem_singleton.mp ho'
      rw [World.setObject_self]
      exact ⟨trivial, fun _ => rfl⟩

end

/-! ## The whole system -/

/-- What one call at a time on an object keeps. -/
structure Inv (s : State) : Prop where
  sound : s.world.Sound
  stage : ∀ c ∈ s.calls, c.ops ≠ [] → Stage s.world.objects c.call c.ops
  /-- No two calls share an object. -/
  apart : ∀ (i j : ℕ) (c d : InFlight), s.calls[i]? = some c →
    s.calls[j]? = some d → c.ops ≠ [] → d.ops ≠ [] →
    ∀ o ∈ c.call.objects, o ∈ d.call.objects → i = j
  idle : ∀ o, ¬ Busy s o → (s.world.objects o).Balanced

theorem inv_init : ∀ s ∈ init, Inv s := by
  rintro s rfl
  exact ⟨⟨rfl, nofun, nofun, nofun⟩, nofun, nofun, fun _ _ => trivial⟩

/-- A stage looks at the objects of its call only. -/
theorem Stage.congr {objects objects' : ℕ → Object} {call : Call}
    {ops : List Op} (h : Stage objects call ops)
    (hsame : ∀ o ∈ call.objects, objects' o = objects o) :
    Stage objects' call ops := by
  have hstart : ∀ {o : ℕ} {ops : List Op}, objects' o = objects o →
      Starting objects o ops → Starting objects' o ops := by
    intro o ops ho h
    cases h with
    | compareExchange himpl hbalanced =>
        exact .compareExchange (ho.trans himpl) (ho ▸ hbalanced)
    | spawn himpl => exact .spawn (ho.trans himpl)
  have hstop : ∀ {o : ℕ} {rest ops : List Op}, objects' o = objects o →
      Stopping objects o rest ops → Stopping objects' o rest ops := by
    intro o rest ops ho h
    cases h with
    | stop hthere => exact .stop (ho ▸ hthere)
    | joinable himpl => exact .joinable (ho.trans himpl)
    | join himpl => exact .join (ho.trans himpl)
  cases h with
  | create hvacant => exact .create ((hsame _ (.head _)).trans hvacant)
  | construct h => exact .construct (hstart (hsame _ (.head _)) h)
  | start h => exact .start (hstart (hsame _ (.head _)) h)
  | stop h => exact .stop (hstop (hsame _ (.head _)) h)
  | moveStop hvacant h =>
      exact .moveStop ((hsame _ (.head _)).trans hvacant)
        (hstop (hsame _ (.tail _ (.head _))) h)
  | moveTransfer hvacant hquiet =>
      rw [← hsame _ (.head _)] at hvacant
      rw [← hsame _ (.tail _ (.head _))] at hquiet
      exact .moveTransfer hvacant hquiet
  | assignStop hne hthere h =>
      rw [← hsame _ (.tail _ (.head _))] at hthere
      exact .assignStop hne hthere (hstop (hsame _ (.head _)) h)
  | assignStopOther hne hdst h =>
      rw [← hsame _ (.head _)] at hdst
      exact .assignStopOther hne hdst (hstop (hsame _ (.tail _ (.head _))) h)
  | assignTransfer hdst hsrc =>
      rw [← hsame _ (.head _)] at hdst
      rw [← hsame _ (.tail _ (.head _))] at hsrc
      exact .assignTransfer hdst hsrc
  | destroyStop h => exact .destroyStop (hstop (hsame _ (.head _)) h)
  | destroyFree hquiet =>
      rw [← hsame _ (.head _)] at hquiet
      exact .destroyFree hquiet

/-- A call that may begin is at its first stage. -/
theorem Call.Applies.stage {objects : ℕ → Object} {call : Call}
    (h : call.Applies objects)
    (hbalanced : ∀ o ∈ call.objects, (objects o).Balanced)
    (hops : call.ops ≠ []) : Stage objects call call.ops := by
  cases call with
  | construct o enable => exact .create h
  | StartBackgroundRefresh o =>
      obtain ⟨impl, himpl⟩ := h
      exact .start (.compareExchange himpl (hbalanced o (.head _)))
  | StopBackgroundRefresh o => exact .stop (.stop h)
  | moveConstruct dst src => exact .moveStop h.1 (.stop h.2)
  | moveAssign dst src =>
      by_cases hne : dst = src
      · exact absurd (if_pos hne) hops
      · have hall : (Call.moveAssign dst src).ops =
            [.stop dst, .stop src, .transfer dst src] := if_neg hne
        rw [hall]
        exact .assignStop hne h.2 (.stop h.1)
  | destroy o => exact .destroyStop (.stop h)

section

variable {s s' : State}

theorem Inv.begin (h : Inv s) {call : Call}
    (hserial : Serial s (.begin call)) :
    Inv { s with calls := s.calls ++ [⟨call, call.ops⟩] } := by
  obtain ⟨happlies, hfree⟩ := hserial
  have hbalanced : ∀ o ∈ call.objects, (s.world.objects o).Balanced :=
    fun o ho => h.idle o (hfree o ho)
  refine ⟨h.sound, fun c hc hops => ?_, ?_, fun o hbusy => h.idle o ?_⟩
  · rcases List.mem_append.mp hc with hmem | hlast
    · exact h.stage c hmem hops
    · obtain rfl := List.mem_singleton.mp hlast
      exact happlies.stage hbalanced hops
  · have hold : ∀ (i : ℕ) (c : InFlight),
        (s.calls ++ [⟨call, call.ops⟩])[i]? = some c →
        s.calls[i]? = some c ∨ i = s.calls.length ∧ c = ⟨call, call.ops⟩ := by
      intro i c hi
      rw [List.getElem?_append] at hi
      split at hi
      · exact .inl hi
      · obtain ⟨hlt, rfl⟩ := List.getElem?_eq_some_iff.mp hi
        rw [List.length_singleton] at hlt
        exact .inr ⟨by omega, List.getElem_singleton ..⟩
    intro i j c d hi hj hc hd o hoc hod
    obtain hi | ⟨rfl, rfl⟩ := hold i c hi
    · obtain hj | ⟨rfl, rfl⟩ := hold j d hj
      · exact h.apart i j c d hi hj hc hd o hoc hod
      · exact absurd ⟨c, List.mem_of_getElem? hi, hc, hoc⟩ (hfree o hod)
    · obtain hj | ⟨rfl, -⟩ := hold j d hj
      · exact absurd ⟨d, List.mem_of_getElem? hj, hd, hod⟩ (hfree o hoc)
      · rfl
  · rintro ⟨c, hc, hops, ho⟩
    exact hbusy ⟨c, List.mem_append_left _ hc, hops, ho⟩

/-- A thread steps: only where it is in the loop changes. -/
theorem loopStep_eq_some {w w' : World} {t : ℕ} (hw : w.Sound)
    (hstep : loopStep w t = some w') :
    ∃ thread impl pc, w.threads[t]? = some thread ∧
      w.objects thread.this = .owner impl ∧
      thread.pc.next impl.refresh_running = some pc ∧
      w' = { w with threads := w.threads.set t { thread with pc := pc } } := by
  obtain ⟨thread, hthread, hnext⟩ := Option.bind_eq_some_iff.mp hstep
  have hnone : (w.objects thread.this).thread = none →
      thread.pc = .done := by
    intro hnone
    by_contra hpc
    rw [hw.live t thread hthread hpc] at hnone
    cases hnone
  split at hnext
  · next impl himpl =>
      obtain ⟨pc, hpc, rfl⟩ := Option.map_eq_some_iff.mp hnext
      exact ⟨thread, impl, pc, hthread, himpl, hpc, rfl⟩
  · next hvacant =>
      rw [if_pos (hnone (by rw [hvacant]; rfl))] at hnext
      cases hnext
  · next hmoved =>
      rw [if_pos (hnone (by rw [hmoved]; rfl))] at hnext
      cases hnext

/-- The loop does not end while the refresh runs. -/
theorem LoopPc.next_running {pc pc' : LoopPc} (h : pc.next true = some pc') :
    pc' ≠ .done := by
  rintro rfl
  cases pc <;> simp [LoopPc.next] at h

theorem World.Sound.loop {w w' : World} {t : ℕ} (hw : w.Sound)
    (hstep : loopStep w t = some w') :
    w'.Sound ∧ w'.objects = w.objects := by
  obtain ⟨thread, impl, pc, hthread, himpl, hnext, rfl⟩ :=
    loopStep_eq_some hw hstep
  have hlt := (List.getElem?_eq_some_iff.mp hthread).1
  have hlive : thread.pc ≠ .done := by
    intro hdone
    rw [hdone] at hnext
    cases hnext
  refine ⟨⟨hw.fault, fun u thread' hu hpc => ?_, fun o u hu => ?_,
    fun o u thread' howner hu => ?_⟩, rfl⟩
  · change (w.threads.set t _)[u]? = some thread' at hu
    by_cases hut : t = u
    · rw [hut, List.getElem?_set_self (hut ▸ hlt)] at hu
      obtain rfl := Option.some.inj hu
      exact hut ▸ hw.live t thread hthread hlive
    · rw [List.getElem?_set_ne hut] at hu
      exact hw.live u thread' hu hpc
  · obtain ⟨thread', hget, hthis⟩ := hw.held o u hu
    by_cases hut : t = u
    · subst hut
      obtain rfl := Option.some.inj (hthread.symm.trans hget)
      exact ⟨_, List.getElem?_set_self hlt, hthis⟩
    · exact ⟨thread', (List.getElem?_set_ne hut).trans hget, hthis⟩
  · change (w.threads.set t _)[u]? = some thread' at hu
    by_cases hut : t = u
    · subst hut
      rw [List.getElem?_set_self hlt] at hu
      obtain rfl := Option.some.inj hu
      obtain ⟨thread', hget, hthis⟩ := hw.held o t (by rw [howner]; rfl)
      obtain rfl := Option.some.inj (hthread.symm.trans hget)
      rw [hthis, howner] at himpl
      obtain rfl := Object.owner.inj himpl
      exact LoopPc.next_running hnext
    · rw [List.getElem?_set_ne hut] at hu
      exact hw.awake o u thread' howner hu

/-- A step of a call is an operation of it. -/
theorem step_op_eq_some {i : ℕ} (hstep : step s (.op i) = some s') :
    ∃ c op tail w' more, s.calls[i]? = some c ∧ c.ops = op :: tail ∧
      exec s.world op = some (w', more) ∧
      s' =
        { world := w'
          calls := s.calls.set i { c with ops := more ++ tail } } := by
  unfold step at hstep
  split at hstep
  · cases hstep
  · obtain ⟨c, hc, hrest⟩ := Option.bind_eq_some_iff.mp hstep
    split at hrest
    · cases hrest
    · next op tail hops =>
        obtain ⟨⟨w', more⟩, hexec, rfl⟩ := Option.map_eq_some_iff.mp hrest
        exact ⟨c, op, tail, w', more, hc, hops, hexec, rfl⟩

theorem Inv.op (h : Inv s) {i : ℕ} (hstep : step s (.op i) = some s') :
    Inv s' := by
  obtain ⟨c, op, tail, w', more, hc, hops, hexec, rfl⟩ := step_op_eq_some hstep
  have hmem := List.mem_of_getElem? hc
  have hbusy : c.ops ≠ [] := by rw [hops]; exact List.cons_ne_nil _ _
  have hstage := h.stage c hmem hbusy
  rw [hops] at hstage
  obtain ⟨hkept, hnext⟩ := hstage.step h.sound hexec
  have hlt := (List.getElem?_eq_some_iff.mp hc).1
  have hset : ∀ (j : ℕ) (d : InFlight),
      (s.calls.set i { c with ops := more ++ tail })[j]? = some d →
      j = i ∧ d = { c with ops := more ++ tail } ∨
        j ≠ i ∧ s.calls[j]? = some d := by
    intro j d hj
    by_cases hij : i = j
    · subst hij
      rw [List.getElem?_set_self hlt] at hj
      exact .inl ⟨rfl, (Option.some.inj hj).symm⟩
    · rw [List.getElem?_set_ne hij] at hj
      exact .inr ⟨Ne.symm hij, hj⟩
  -- Another call has none of the objects.
  have hother : ∀ (j : ℕ) (d : InFlight), s.calls[j]? = some d → j ≠ i →
      d.ops ≠ [] → ∀ o ∈ d.call.objects, o ∉ c.call.objects :=
    fun j d hj hne hd o hod hoc => hne (h.apart j i d c hj hc hd hbusy o hod hoc)
  refine ⟨hkept.sound, fun d hd hdops => ?_, ?_, fun o ho => ?_⟩
  · obtain ⟨j, hj⟩ := List.mem_iff_getElem?.mp hd
    obtain ⟨rfl, rfl⟩ | ⟨hne, hj⟩ := hset j d hj
    · obtain hnext | ⟨hnil, -⟩ := hnext
      · exact hnext
      · exact absurd hnil hdops
    · exact (h.stage d (List.mem_of_getElem? hj) hdops).congr fun o ho =>
        hkept.others o (hother j d hj hne hdops o ho)
  · intro j k d e hj hk hd he o hod hoe
    obtain ⟨rfl, rfl⟩ | ⟨hji, hj'⟩ := hset j d hj
    · obtain ⟨rfl, rfl⟩ | ⟨hki, hk'⟩ := hset k e hk
      · rfl
      · exact absurd hod (hother k e hk' hki he o hoe)
    · obtain ⟨rfl, rfl⟩ | ⟨hki, hk'⟩ := hset k e hk
      · exact absurd hoe (hother j d hj' hji hd o hod)
      · exact h.apart j k d e hj' hk' hd he o hod hoe
  · by_cases hoc : o ∈ c.call.objects
    · obtain hnext | ⟨-, hleft⟩ := hnext
      · refine absurd ⟨_, List.mem_iff_getElem?.mpr
          ⟨i, List.getElem?_set_self hlt⟩, hnext.ops_ne_nil, hoc⟩ ho
      · exact (hleft o hoc).1
    · rw [hkept.others o hoc]
      refine h.idle o ?_
      rintro ⟨d, hd, hdops, hod⟩
      obtain ⟨j, hj⟩ := List.mem_iff_getElem?.mp hd
      have hne : i ≠ j := by
        rintro rfl
        obtain rfl := Option.some.inj (hc.symm.trans hj)
        exact hoc hod
      exact ho ⟨d, List.mem_iff_getElem?.mpr
        ⟨j, (List.getElem?_set_ne hne).trans hj⟩, hdops, hod⟩

theorem Inv.kept (h : Inv s) {a : Action} (ha : Serial s a)
    (hstep : step s a = some s') : Inv s' := by
  cases a with
  | op i => exact h.op hstep
  | begin call =>
      rw [step, h.sound.fault, Option.isSome_none] at hstep
      obtain rfl := Option.some.inj hstep
      exact h.begin ha
  | loop t =>
      rw [step, h.sound.fault, Option.isSome_none] at hstep
      obtain ⟨w, hw, rfl⟩ := Option.map_eq_some_iff.mp hstep
      obtain ⟨hsound, hobjects⟩ := h.sound.loop hw
      refine ⟨hsound, fun c hc hops => ?_, h.apart, fun o ho => ?_⟩
      · rw [hobjects]
        exact h.stage c hc hops
      · rw [hobjects]
        exact h.idle o ho

/-- When a call that stops is over, no thread is left on its objects. -/
theorem Inv.stopped (h : Inv s) {i : ℕ}
    (hstep : step s (.op i) = some s')
    {c : InFlight} (hc : s'.calls[i]? = some c) (hops : c.ops = [])
    (hstops : c.call.stops = true) {o : ℕ} (ho : o ∈ c.call.objects)
    {t : ℕ} {thread : Thread} (hthread : s'.world.threads[t]? = some thread)
    (hthis : thread.this = o) : thread.pc = .done := by
  have hsound := (h.op hstep).sound
  obtain ⟨d, op, tail, w', more, hd, hdops, hexec, rfl⟩ :=
    step_op_eq_some hstep
  have hlt := (List.getElem?_eq_some_iff.mp hd).1
  rw [List.getElem?_set_self hlt] at hc
  obtain rfl := Option.some.inj hc
  have hbusy : d.ops ≠ [] := by rw [hdops]; exact List.cons_ne_nil _ _
  have hstage := h.stage d (List.mem_of_getElem? hd) hbusy
  rw [hdops] at hstage
  obtain ⟨-, hnext | ⟨-, hleft⟩⟩ := hstage.step h.sound hexec
  · exact absurd hops hnext.ops_ne_nil
  · by_contra hpc
    have hlive := hsound.live t thread hthread hpc
    have hnone := (hleft o ho).2 hstops
    rw [hthis] at hlive
    cases hnone.symm.trans hlive

theorem reachable_inv (hs : Transition.ReachableVia step Serial init s) :
    Inv s :=
  hs.invariant inv_init fun _ _ _ h ha hstep => h.kept ha hstep

end

/-! ## Calls come to an end -/

/-- The operations an operation leads to, itself included. -/
def Op.weight : Op → ℕ
  | .stop _ => 3
  | .compareExchange _ | .joinable _ => 2
  | .create _ | .spawn _ | .join _ | .transfer .. | .free _ => 1

/-- The steps to the end of the loop when the refresh is stopped. -/
def LoopPc.left : LoopPc → ℕ
  | .sleep | .fetch => 2
  | .load | .reload => 1
  | .done => 0

/-- The steps that the first operation may wait for. -/
def waitsFor (w : World) : List Op → ℕ
  | .join o :: _ =>
      (((w.objects o).thread.bind fun t => w.threads[t]?).map
        fun thread => thread.pc.left).getD 0
  | _ => 0

def Op.total (ops : List Op) : ℕ := (ops.map Op.weight).sum

/-- What is left of a call, the joined thread included. -/
def leftOf (w : World) (ops : List Op) : ℕ := 3 * Op.total ops + waitsFor w ops

theorem LoopPc.left_le (pc : LoopPc) : pc.left ≤ 2 := by
  cases pc <;> decide

theorem waitsFor_le (w : World) (ops : List Op) : waitsFor w ops ≤ 2 := by
  unfold waitsFor
  split
  · cases (w.objects _).thread.bind fun t => w.threads[t]? with
    | none => exact Nat.zero_le _
    | some thread => exact thread.pc.left_le
  · exact Nat.zero_le _

/-- Only `join` waits. -/
theorem exec_isSome (w : World) {op : Op} (hop : ∀ o, op ≠ .join o) :
    (exec w op).isSome = true := by
  cases op with
  | join o => exact absurd rfl (hop o)
  | create o => rfl
  | compareExchange o | spawn o | stop o | joinable o | transfer dst src
  | free o =>
      simp only [exec]
      repeat' split
      all_goals rfl

theorem exec_total_lt {w w' : World} {op : Op} {more : List Op}
    (hexec : exec w op = some (w', more)) : Op.total more < op.weight := by
  have hsome : ∀ {v : World} {ops : List Op}, some (v, ops) = some (w', more) →
      Op.total ops < op.weight → Op.total more < op.weight := by
    intro v ops heq hlt
    rw [← (Prod.mk.inj (Option.some.inj heq)).2]
    exact hlt
  cases op <;> simp only [exec] at hexec
  all_goals repeat' split at hexec
  all_goals first
    | cases hexec; done
    | exact hsome hexec (by simp [Op.total, Op.weight])

/-- A call that joins has stopped the refresh and found the thread. -/
theorem Stage.of_join {objects : ℕ → Object} {call : Call} {o : ℕ}
    {tail : List Op} (h : Stage objects call (.join o :: tail)) :
    ∃ t, objects o = .owner ⟨false, some t⟩ := by
  generalize hops : Op.join o :: tail = ops at h
  have hstopping : ∀ {o' : ℕ} {rest : List Op},
      Stopping objects o' rest ops → ∃ t, objects o = .owner ⟨false, some t⟩ := by
    intro o' rest h
    rw [← hops] at h
    cases h with
    | join himpl => exact ⟨_, himpl⟩
  cases h with
  | create | moveTransfer | assignTransfer | destroyFree => cases hops
  | construct h | start h =>
      rw [← hops] at h
      cases h
  | stop h | moveStop _ h | assignStop _ _ h | assignStopOther _ _ h
  | destroyStop h => exact hstopping h

/-- A thread that is joined can go on. -/
theorem loopStep_joined {w : World} (hw : w.Sound) {o t : ℕ}
    (himpl : w.objects o = .owner ⟨false, some t⟩)
    (hdone : (w.threads[t]?).map Thread.pc ≠ some .done) (tail : List Op) :
    ∃ w', loopStep w t = some w' ∧
      waitsFor w' (.join o :: tail) < waitsFor w (.join o :: tail) := by
  obtain ⟨thread, hthread, hthis⟩ := hw.held o t (by rw [himpl]; rfl)
  have hlt := (List.getElem?_eq_some_iff.mp hthread).1
  have hobject : w.objects thread.this = .owner ⟨false, some t⟩ :=
    hthis ▸ himpl
  rw [hthread, Option.map_some] at hdone
  obtain ⟨pc, hnext, hleft⟩ : ∃ pc, thread.pc.next false = some pc ∧
      pc.left < thread.pc.left := by
    cases hpc : thread.pc with
    | load => exact ⟨.done, rfl, by decide⟩
    | sleep => exact ⟨.reload, rfl, by decide⟩
    | reload => exact ⟨.done, rfl, by decide⟩
    | fetch => exact ⟨.load, rfl, by decide⟩
    | done => exact absurd (congrArg some hpc) hdone
  refine ⟨{ w with threads := w.threads.set t { thread with pc := pc } }, ?_, ?_⟩
  · simp only [loopStep, hthread, Option.bind_some, hobject, hnext,
      Option.map_some]
  · simp only [waitsFor, himpl, Object.thread, Option.bind_some, hthread,
      List.getElem?_set_self hlt, Option.map_some, Option.getD_some]
    exact hleft

section

variable {s : State} {i : ℕ} {c : InFlight}

/-- What is left of the call `i`. -/
def State.left (s : State) (i : ℕ) : ℕ :=
  ((s.calls[i]?).map fun c => leftOf s.world c.ops).getD 0

/-- The next step towards the end of a call. -/
theorem Inv.progress (h : Inv s) (hc : s.calls[i]? = some c)
    (hops : c.ops ≠ []) :
    ∃ a s', (a = .op i ∨ ∃ t, a = .loop t) ∧ step s a = some s' ∧
      (∃ ops, s'.calls[i]? = some { c with ops := ops }) ∧
      s'.left i < s.left i := by
  have hstage := h.stage c (List.mem_of_getElem? hc) hops
  have hlt := (List.getElem?_eq_some_iff.mp hc).1
  have hleft : s.left i = leftOf s.world c.ops := by
    rw [State.left, hc, Option.map_some, Option.getD_some]
  obtain ⟨op, tail, hcons⟩ := List.exists_cons_of_ne_nil hops
  have hexec : ∀ w' more, exec s.world op = some (w', more) →
      ∃ a s', (a = .op i ∨ ∃ t, a = .loop t) ∧ step s a = some s' ∧
        (∃ ops, s'.calls[i]? = some { c with ops := ops }) ∧
        s'.left i < s.left i := by
    intro w' more hexec
    refine ⟨.op i,
      { world := w', calls := s.calls.set i { c with ops := more ++ tail } },
      .inl rfl, ?_, ⟨more ++ tail, List.getElem?_set_self hlt⟩, ?_⟩
    · simp only [step, h.sound.fault, Option.isSome_none, Bool.false_eq_true,
        if_false, hc, Option.bind_some, hcons, hexec, Option.map_some]
    · have hweight := exec_total_lt hexec
      have hwait := waitsFor_le w' (more ++ tail)
      have hmore : Op.total (more ++ tail) = Op.total more + Op.total tail := by
        simp [Op.total]
      have hall : Op.total (op :: tail) = op.weight + Op.total tail := by
        simp [Op.total]
      rw [hleft, hcons, State.left, List.getElem?_set_self hlt,
        Option.map_some, Option.getD_some, leftOf, leftOf]
      dsimp only
      omega
  by_cases hjoin : ∃ o, op = .join o
  · obtain ⟨o, rfl⟩ := hjoin
    rw [hcons] at hstage
    obtain ⟨t, himpl⟩ := hstage.of_join
    by_cases hdone : (s.world.threads[t]?).map Thread.pc = some .done
    · have hsome : (exec s.world (.join o)).isSome = true := by
        simp only [exec, himpl, if_pos hdone, Option.isSome_some]
      obtain ⟨⟨w', more⟩, hexec'⟩ := Option.isSome_iff_exists.mp hsome
      exact hexec w' more hexec'
    · obtain ⟨w', hloop, hwait⟩ := loopStep_joined h.sound himpl hdone tail
      refine ⟨.loop t, { s with world := w' }, .inr ⟨t, rfl⟩, ?_,
        ⟨c.ops, hc⟩, ?_⟩
      · simp only [step, h.sound.fault, Option.isSome_none,
          Bool.false_eq_true, if_false, hloop, Option.map_some]
      · have hleft' : State.left { s with world := w' } i = leftOf w' c.ops := by
          rw [State.left, hc, Option.map_some, Option.getD_some]
        rw [hleft, hleft', hcons, leftOf, leftOf]
        omega
  · have hsome := exec_isSome s.world fun o heq => hjoin ⟨o, heq⟩
    obtain ⟨⟨w', more⟩, hexec'⟩ := Option.isSome_iff_exists.mp hsome
    exact hexec w' more hexec'

/-- A call under way is completed by its own operations and the steps of
threads. -/
theorem Inv.exists_completed (h : Inv s) (hc : s.calls[i]? = some c) :
    ∃ s', Transition.ReachableVia step
        (fun _ a => a = .op i ∨ ∃ t, a = .loop t) {s} s' ∧
      s'.calls[i]? = some { c with ops := [] } := by
  have hprogress : ∀ s₁, (Inv s₁ ∧
        ∃ ops, s₁.calls[i]? = some { c with ops := ops }) →
      ¬ s₁.calls[i]? = some { c with ops := [] } →
      ∃ a s₂, (a = .op i ∨ ∃ t, a = .loop t) ∧ step s₁ a = some s₂ ∧
        (Inv s₂ ∧ ∃ ops, s₂.calls[i]? = some { c with ops := ops }) ∧
        s₂.left i < s₁.left i := by
    rintro s₁ ⟨hinv, ops, hget⟩ hnot
    have hne : ops ≠ [] := by
      rintro rfl
      exact hnot hget
    obtain ⟨a, s₂, ha, hstep, hget', hlt⟩ := hinv.progress hget hne
    have hserial : Serial s₁ a := by
      obtain rfl | ⟨t, rfl⟩ := ha <;> trivial
    exact ⟨a, s₂, ha, hstep, ⟨hinv.kept hserial hstep, hget'⟩, hlt⟩
  exact Transition.ReachableVia.exists_final hprogress (.start rfl)
    ⟨h, c.ops, hc⟩

end

/-! ## Calls that overlap -/

section

variable {s : State} {o : ℕ}

/-- The operation of the call that began last. -/
theorem step_op_last {w : World} {calls : List InFlight} {call : Call}
    {op : Op} {tail : List Op} (hfault : w.fault = none) :
    step { world := w, calls := calls ++ [⟨call, op :: tail⟩] }
        (.op calls.length) =
      (exec w op).map fun r =>
        { world := r.1, calls := calls ++ [⟨call, r.2 ++ tail⟩] } := by
  simp only [step, hfault, Option.isSome_none, Bool.false_eq_true, if_false,
    List.getElem?_concat_length, Option.bind_some]
  congr 1
  funext r
  rw [List.set_append_right _ _ (le_refl _), Nat.sub_self]
  rfl

theorem step_begin {w : World} {calls : List InFlight} (call : Call)
    (hfault : w.fault = none) :
    step { world := w, calls := calls } (.begin call) =
      some { world := w, calls := calls ++ [⟨call, call.ops⟩] } := by
  simp only [step, hfault, Option.isSome_none, Bool.false_eq_true, if_false]

/-- The calls of two threads, the second while the first stops. -/
def overlap (n o : ℕ) : List Action :=
  [.begin (.StopBackgroundRefresh o), .op n, .begin (.StartBackgroundRefresh o),
    .op (n + 1), .op (n + 1)]

/-- While a refresh runs, a start that comes between the store and the join of
a stop assigns to a joinable thread. -/
theorem run_overlap {w : World} {calls : List InFlight} {t : ℕ}
    (hfault : w.fault = none) (himpl : w.objects o = .owner ⟨true, some t⟩) :
    ∃ s', Transition.run step { world := w, calls := calls }
        (overlap calls.length o) = some s' ∧
      s'.world.fault = some .terminate := by
  let stopped := w.setObject o (.owner ⟨false, some t⟩)
  let restarted := stopped.setObject o (.owner ⟨true, some t⟩)
  have hstop : exec w (.stop o) = some (stopped, [.joinable o]) := by
    simp only [exec, himpl]
    rfl
  have hstart : exec stopped (.compareExchange o) =
      some (restarted, [.spawn o]) := by
    simp only [exec, stopped, World.setObject_self, Bool.false_eq_true,
      if_false]
    rfl
  have hspawn : ∃ w', exec restarted (.spawn o) = some (w', []) ∧
      w'.fault = some .terminate := by
    simp only [exec, restarted, World.setObject_self, Option.isSome_some,
      if_true]
    exact ⟨_, rfl, rfl⟩
  obtain ⟨w', hspawn, hterminate⟩ := hspawn
  have hstopped : stopped.fault = none := hfault
  have hrestarted : restarted.fault = none := hfault
  let stopping : List InFlight :=
    calls ++ [⟨.StopBackgroundRefresh o, [.joinable o]⟩]
  have hlength : calls.length + 1 = stopping.length := by simp [stopping]
  have hfirst : step
      { world := w, calls := calls ++ [⟨.StopBackgroundRefresh o, [.stop o]⟩] }
      (.op calls.length) = some { world := stopped, calls := stopping } := by
    rw [step_op_last hfault, hstop]
    rfl
  have hsecond : step
      { world := stopped
        calls := stopping ++
          [⟨.StartBackgroundRefresh o, [.compareExchange o]⟩] }
      (.op stopping.length) =
        some
          { world := restarted
            calls := stopping ++ [⟨.StartBackgroundRefresh o, [.spawn o]⟩] } := by
    rw [step_op_last hstopped, hstart]
    rfl
  have hthird : step
      { world := restarted
        calls := stopping ++ [⟨.StartBackgroundRefresh o, [.spawn o]⟩] }
      (.op stopping.length) =
        some
          { world := w'
            calls := stopping ++ [⟨.StartBackgroundRefresh o, []⟩] } := by
    rw [step_op_last hrestarted, hspawn]
    rfl
  refine ⟨{ world := w'
            calls := stopping ++ [⟨.StartBackgroundRefresh o, []⟩] }, ?_,
    hterminate⟩
  simp only [overlap, hlength, Transition.run, step_begin _ hfault,
    step_begin _ hstopped, Option.bind_some, Call.ops, hfirst, hsecond, hthird]

/-- On an object without a thread the refresh is started first. -/
theorem run_start {w : World} {calls : List InFlight}
    (hfault : w.fault = none) (himpl : w.objects o = .owner ⟨false, none⟩) :
    ∃ w' calls', Transition.run step { world := w, calls := calls }
        [.begin (.StartBackgroundRefresh o), .op calls.length,
          .op calls.length] = some { world := w', calls := calls' } ∧
      w'.fault = none ∧ ∃ t, w'.objects o = .owner ⟨true, some t⟩ := by
  let claimed := w.setObject o (.owner ⟨true, none⟩)
  let started : World :=
    ({ claimed with threads := w.threads ++ [{ this := o }] } : World).setObject
      o (.owner ⟨true, some w.threads.length⟩)
  have hclaimed : claimed.fault = none := hfault
  have hclaim : exec w (.compareExchange o) = some (claimed, [.spawn o]) := by
    simp only [exec, himpl, Bool.false_eq_true, if_false]
    rfl
  have hspawn : exec claimed (.spawn o) = some (started, []) := by
    simp only [exec, claimed, World.setObject_self, Option.isSome_none,
      Bool.false_eq_true, if_false]
    rfl
  have hfirst : step
      { world := w
        calls := calls ++ [⟨.StartBackgroundRefresh o, [.compareExchange o]⟩] }
      (.op calls.length) =
        some
          { world := claimed
            calls := calls ++ [⟨.StartBackgroundRefresh o, [.spawn o]⟩] } := by
    rw [step_op_last hfault, hclaim]
    rfl
  have hsecond : step
      { world := claimed
        calls := calls ++ [⟨.StartBackgroundRefresh o, [.spawn o]⟩] }
      (.op calls.length) =
        some
          { world := started
            calls := calls ++ [⟨.StartBackgroundRefresh o, []⟩] } := by
    rw [step_op_last hclaimed, hspawn]
    rfl
  refine ⟨started, calls ++ [⟨.StartBackgroundRefresh o, []⟩], ?_, hfault,
    w.threads.length, World.setObject_self⟩
  simp only [Transition.run, step_begin _ hfault, Option.bind_some, Call.ops,
    hfirst, hsecond]

/-- An action of a start or a stop of the object. -/
def StartsOrStops (o : ℕ) : Action → Prop
  | .begin call =>
      call = .StartBackgroundRefresh o ∨ call = .StopBackgroundRefresh o
  | .op _ => True
  | .loop _ => False

/-- From wherever an object has its `impl_` and no call is under way on it,
starts and stops alone can end the program. -/
theorem Inv.exists_terminate (h : Inv s) (hidle : ¬ Busy s o) {impl : Impl}
    (himpl : s.world.objects o = .owner impl) :
    ∃ acts s', (∀ a ∈ acts, StartsOrStops o a) ∧
      Transition.run step s acts = some s' ∧
      s'.world.fault = some .terminate := by
  obtain ⟨w, calls⟩ := s
  have hbalanced := h.idle o hidle
  obtain ⟨running, thread⟩ := impl
  rw [himpl] at hbalanced
  obtain rfl : running = thread.isSome := hbalanced
  have hoverlap : ∀ n, ∀ a ∈ overlap n o, StartsOrStops o a := by
    intro n a ha
    simp only [overlap, List.mem_cons, List.not_mem_nil, or_false] at ha
    rcases ha with rfl | rfl | rfl | rfl | rfl
    · exact .inr rfl
    · trivial
    · exact .inl rfl
    · trivial
    · trivial
  cases thread with
  | some t =>
      obtain ⟨s', hrun, hterminate⟩ := run_overlap h.sound.fault himpl
      exact ⟨_, s', hoverlap _, hrun, hterminate⟩
  | none =>
      obtain ⟨w', calls', hstart, hfault, t, himpl'⟩ :=
        @run_start o w calls h.sound.fault himpl
      obtain ⟨s', hrun, hterminate⟩ := @run_overlap o w' calls' t hfault himpl'
      refine ⟨_ ++ overlap calls'.length o, s', fun a ha => ?_,
        Transition.run_append hstart hrun, hterminate⟩
      rcases List.mem_append.mp ha with hstart | hoverlaps
      · simp only [List.mem_cons, List.not_mem_nil, or_false] at hstart
        rcases hstart with rfl | rfl | rfl
        · exact .inl rfl
        · trivial
        · trivial
      · exact hoverlap _ a hoverlaps

/-! ## What holds in every run -/

/-- What a client of the refresh can rely on. -/
structure Guarantees (s : State) : Prop where
  /-- Nothing has ended the program. -/
  fault : s.world.fault = none
  /-- A thread in the loop is the joinable thread of its object, which has its
  `impl_`; so an object has at most one, and none is left where an object has
  been moved from or destroyed. -/
  live : ∀ (t : ℕ) (thread : Thread), s.world.threads[t]? = some thread →
    thread.pc ≠ .done →
    ∃ impl, s.world.objects thread.this = .owner impl ∧
      impl.refresh_thread = some t
  /-- `IsBackgroundRefreshRunning`, while no call is under way. -/
  running : ∀ (o : ℕ) (impl : Impl), ¬ Busy s o →
    s.world.objects o = .owner impl →
    (impl.refresh_running = true ↔
      ∃ (t : ℕ) (thread : Thread), s.world.threads[t]? = some thread ∧
        thread.this = o ∧ thread.pc ≠ .done)
  /-- A stop, a move or a destructor returns when the thread is done. -/
  stopped : ∀ (i : ℕ) (s' : State) (c : InFlight),
    step s (.op i) = some s' → s'.calls[i]? = some c → c.ops = [] →
    c.call.stops = true →
    ∀ (t : ℕ) (thread : Thread), s'.world.threads[t]? = some thread →
      thread.this ∈ c.call.objects → thread.pc = .done
  /-- Every call can return without another call. -/
  returns : ∀ (i : ℕ) (c : InFlight), s.calls[i]? = some c →
    ∃ s', Transition.ReachableVia step
        (fun _ a => a = .op i ∨ ∃ t, a = .loop t) {s} s' ∧
      s'.calls[i]? = some { c with ops := [] }

theorem Inv.guarantees (h : Inv s) : Guarantees s where
  fault := h.sound.fault
  live t thread ht hpc := by
    have hlive := h.sound.live t thread ht hpc
    cases hobject : s.world.objects thread.this with
    | vacant | movedFrom =>
        rw [hobject] at hlive
        cases hlive
    | owner impl =>
        rw [hobject] at hlive
        exact ⟨impl, rfl, hlive⟩
  running o impl hidle himpl := by
    have hbalanced := h.idle o hidle
    obtain ⟨running, thread⟩ := impl
    rw [himpl] at hbalanced
    obtain rfl : running = thread.isSome := hbalanced
    constructor
    · intro hrunning
      obtain ⟨t, rfl⟩ := Option.isSome_iff_exists.mp hrunning
      obtain ⟨thread, ht, hthis⟩ := h.sound.held o t (by rw [himpl]; rfl)
      exact ⟨t, thread, ht, hthis, h.sound.awake o t thread himpl ht⟩
    · rintro ⟨t, thread', ht, hthis, hpc⟩
      have hlive := h.sound.live t thread' ht hpc
      rw [hthis, himpl] at hlive
      exact Option.isSome_iff_exists.mpr ⟨t, hlive⟩
  stopped i s' c hstep hc hops hstops t thread ht hthis :=
    h.stopped hstep hc hops hstops hthis ht rfl
  returns i c hc := h.exists_completed hc

/-- With one call at a time on each object, whatever the threads do, the
guarantees hold in every state; but from every such state two calls that
overlap on an object, a stop and a start, can end the program. -/
theorem reachable_guarantees
    (hs : Transition.ReachableVia step Serial init s) :
    Guarantees s ∧
      ∀ o impl, ¬ Busy s o → s.world.objects o = .owner impl →
        ∃ acts s', (∀ a ∈ acts, StartsOrStops o a) ∧
          Transition.run step s acts = some s' ∧
          s'.world.fault = some .terminate :=
  ⟨(reachable_inv hs).guarantees,
    fun _ _ hidle himpl => (reachable_inv hs).exists_terminate hidle himpl⟩

/-- An object that was constructed with the refresh enabled. -/
theorem reachable_guarantees_constructed :
    ∃ s, Transition.run step {}
        [.begin (.construct 0 true), .op 0, .op 0, .op 0] = some s ∧
      Guarantees s ∧ s.world.threads = [{ this := 0 }] := by
  have hfirst : Serial {} (.begin (.construct 0 true)) := by
    refine ⟨rfl, fun o _ => ?_⟩
    rintro ⟨c, hc, -⟩
    cases hc
  have hall : Transition.AllSteps step Serial {}
      [.begin (.construct 0 true), .op 0, .op 0, .op 0] :=
    fun _ _ => ⟨hfirst, fun _ _ => ⟨trivial, fun _ _ => ⟨trivial,
      fun _ _ => ⟨trivial, trivial⟩⟩⟩⟩
  have hinit : ({} : State) ∈ init := rfl
  have hreach := (Transition.ReachableVia.start hinit).run hall rfl
  exact ⟨_, rfl, (reachable_guarantees hreach).1, rfl⟩

end

end Refresh
end SystemInfo
end Yacul
