import Yacul.Misc.ScopedExec
import Mathlib.Tactic.Abel

/-!
# The ledger of the functors

Each critical section moves functors between executors and the local variable
of the call; executing a functor and releasing one move it to its last place.
Only the end of an object's lifetime can lose a functor.
-/

namespace Yacul
namespace ScopedExec

/-! ## The critical sections -/

namespace Executor

variable {x y : Executor}

/-- An object is armed exactly when it holds a functor. -/
def WellFormed (x : Executor) : Prop := x.armed = x.fn.isSome

theorem stored_construct (fn : Option ℕ) :
    (construct fn).stored = functors fn := by
  cases fn <;> rfl

theorem stored_extractIfArmed (x : Executor) :
    x.extractIfArmed.1.stored + functors x.extractIfArmed.2 =
      x.stored := by
  cases harmed : x.armed <;> simp [extractIfArmed, stored, harmed]

theorem stored_moveConstruct (x : Executor) :
    x.moveConstruct.2.stored + x.moveConstruct.1.stored = x.stored := by
  cases harmed : x.armed <;> simp [moveConstruct, stored, harmed]

theorem stored_moveAssign (x y : Executor) :
    (x.moveAssign y).1.stored + functors (x.moveAssign y).2.2 =
      x.stored + y.stored := by
  cases harmed : x.armed
  · simp [moveAssign, stored, harmed]
  · simp [moveAssign, stored, harmed, add_comm]

theorem stored_moveAssign_source (x y : Executor) :
    (x.moveAssign y).2.1.stored = 0 := rfl

theorem stored_release (hx : x.WellFormed) :
    x.release.1.stored + functors x.release.2 = x.stored := by
  cases hfn : x.fn <;>
    simp [release, stored, WellFormed, hfn] at hx ⊢
  simp [hx]

theorem stored_resetTo (x : Executor) (fn : Option ℕ) :
    (x.resetTo fn).1.stored + functors (x.resetTo fn).2 =
      x.stored + functors fn := by
  have hnew : (x.resetTo fn).1.stored = functors fn := by
    cases harmed : x.armed <;> cases fn <;>
      simp [resetTo, stored, harmed]
  have hold : functors (x.resetTo fn).2 = x.stored := by
    cases harmed : x.armed <;> simp [resetTo, stored, harmed]
  rw [hnew, hold, add_comm]

theorem stored_reset (x : Executor) :
    x.reset.1.stored + functors x.reset.2 = x.stored := by
  cases harmed : x.armed <;> simp [reset, stored, harmed]

theorem wellFormed_construct (fn : Option ℕ) :
    (construct fn).WellFormed := rfl

theorem WellFormed.extractIfArmed (hx : x.WellFormed) :
    x.extractIfArmed.1.WellFormed := by
  cases harmed : x.armed <;>
    simp_all [Executor.extractIfArmed, WellFormed]

theorem WellFormed.moveConstruct (hx : x.WellFormed) :
    x.moveConstruct.1.WellFormed ∧ x.moveConstruct.2.WellFormed :=
  ⟨hx, rfl⟩

theorem WellFormed.moveAssign (x : Executor) (hy : y.WellFormed) :
    (x.moveAssign y).1.WellFormed ∧ (x.moveAssign y).2.1.WellFormed := by
  cases harmed : x.armed <;>
    exact ⟨by simp [Executor.moveAssign, harmed]; exact hy, rfl⟩

theorem wellFormed_release (x : Executor) : x.release.1.WellFormed := rfl

theorem wellFormed_resetTo (x : Executor) (fn : Option ℕ) :
    (x.resetTo fn).1.WellFormed := rfl

theorem wellFormed_reset (x : Executor) : x.reset.1.WellFormed := by
  cases harmed : x.armed <;> simp [reset, WellFormed, harmed]

end Executor

theorem executor?_eq {s : State} {e : ℕ} {x : Executor}
    (h : s.executor? e = some x) : s.executors[e]? = some x :=
  (Option.filter_eq_some_iff.mp h).1

/-- What the critical section of a call can do. -/
inductive Enters (s : State) : Call → State → Option Frame → Prop
  | construct (given : Bool) :
      Enters s (.construct given)
        { s with
          executors := s.executors ++ [Executor.construct (s.fresh given)]
          installed := s.installed + given.toNat } none
  | moveConstruct {other : ℕ} {x : Executor}
      (hx : s.executors[other]? = some x) :
      Enters s (.moveConstruct other)
        { s with
          executors :=
            s.executors.set other x.moveConstruct.2 ++ [x.moveConstruct.1] }
        none
  | moveAssign {this other : ℕ} {x y : Executor}
      (hx : s.executors[this]? = some x) (hy : s.executors[other]? = some y)
      (hne : this ≠ other) :
      Enters s (.moveAssign this other)
        { s with
          executors := (s.executors.set this (x.moveAssign y).1).set other
            (x.moveAssign y).2.1 }
        (some (.holding (x.moveAssign y).2.2 none))
  | release {this : ℕ} {x : Executor}
      (hx : s.executors[this]? = some x) :
      Enters s (.release this)
        { s with
          executors := s.executors.set this x.release.1
          released := x.release.2.toList ++ s.released } none
  | resetTo {this : ℕ} {x : Executor} (given : Bool)
      (hx : s.executors[this]? = some x) :
      Enters s (.resetTo this given)
        { s with
          executors := s.executors.set this (x.resetTo (s.fresh given)).1
          installed := s.installed + given.toNat }
        (some (.holding (x.resetTo (s.fresh given)).2 none))
  | reset {this : ℕ} {x : Executor} (hx : s.executors[this]? = some x) :
      Enters s (.reset this)
        { s with executors := s.executors.set this x.reset.1 }
        (some (.holding x.reset.2 none))
  | invoke {this : ℕ} {x : Executor} (hx : s.executors[this]? = some x) :
      Enters s (.invoke this)
        { s with executors := s.executors.set this x.extractIfArmed.1 }
        (some (.holding x.extractIfArmed.2 none))
  | destruct {this : ℕ} {x : Executor} (hx : s.executors[this]? = some x) :
      Enters s (.destruct this)
        { s with
          executors := s.executors.set this
            { x.extractIfArmed.1 with life := .dying } }
        (some (.holding x.extractIfArmed.2 (some this)))
  | idle (call : Call) : Enters s call s none

theorem enter_cases {s s' : State} {call : Call} {frame : Option Frame}
    (h : s.enter call = some (s', frame)) : Enters s call s' frame := by
  cases call with
  | construct given =>
      obtain ⟨rfl, rfl⟩ := Prod.mk.inj (Option.some.inj h)
      exact .construct given
  | moveAssign this other =>
      simp only [State.enter, Option.bind_eq_bind,
        Option.bind_eq_some_iff] at h
      obtain ⟨x, hx, y, hy, h⟩ := h
      split at h
      · obtain ⟨rfl, rfl⟩ := Prod.mk.inj (Option.some.inj h)
        exact .idle _
      · next hne =>
        obtain ⟨rfl, rfl⟩ := Prod.mk.inj (Option.some.inj h)
        exact .moveAssign (executor?_eq hx) (executor?_eq hy) hne
  | destruct this =>
      simp only [State.enter, Option.bind_eq_bind,
        Option.bind_eq_some_iff] at h
      obtain ⟨x, hx, h⟩ := h
      split at h
      · obtain ⟨rfl, rfl⟩ := Prod.mk.inj (Option.some.inj h)
        exact .destruct (executor?_eq hx)
      · cases h
  | moveConstruct other | release this | resetTo this given | reset this
  | invoke this | test this =>
      simp only [State.enter, Option.bind_eq_bind,
        Option.bind_eq_some_iff] at h
      obtain ⟨x, hx, h⟩ := h
      obtain ⟨rfl, rfl⟩ := Prod.mk.inj (Option.some.inj h)
      first
        | exact .moveConstruct (executor?_eq hx)
        | exact .release (executor?_eq hx)
        | exact .resetTo given (executor?_eq hx)
        | exact .reset (executor?_eq hx)
        | exact .invoke (executor?_eq hx)
        | exact .idle _

/-! ## The ledger of the functors -/

/-- What a call that goes on is about to execute. -/
def heldBy (frame : Option Frame) : Multiset ℕ :=
  Roster.tally Frame.held frame.toList

/-- Every object is well formed. -/
def WellFormed (s : State) : Prop :=
  ∀ x ∈ s.executors, x.WellFormed

section Ledger

variable {s s' : State} {a : Action} {frame : Option Frame} {e : ℕ}
  {x y : Executor}

theorem range_fresh (s : State) (given : Bool) :
    Multiset.range (s.installed + given.toNat) =
      Multiset.range s.installed + functors (s.fresh given) := by
  cases given with
  | false => exact (add_zero _).symm
  | true =>
      rw [Bool.toNat_true, Multiset.range_succ, State.fresh, if_pos rfl,
        functors_some, ← Multiset.singleton_add, add_comm]

/-- Rewriting one object whose functors, with what the call takes, are those
it had, with what is new. -/
theorem stored_set (hx : s.executors[e]? = some x) {old : Option ℕ}
    {new : Multiset ℕ} (hxy : y.stored + functors old = x.stored + new)
    (dtor : Option ℕ) :
    Roster.tally Executor.stored (s.executors.set e y) +
        heldBy (some (.holding old dtor)) =
      Roster.tally Executor.stored s.executors + new := by
  have hheld : heldBy (some (.holding old dtor)) = functors old :=
    add_zero _
  rw [hheld]
  exact Roster.tally_set_add hx hxy

/-- A section keeps the balance when the objects, with what the call takes and
what is released, have what they had, with what is new. -/
theorem balance_of_stored {new : Multiset ℕ}
    (hthreads : s'.threads = s.threads) (hexecuted : s'.executed = s.executed)
    (hinstalled : Multiset.range s'.installed =
      Multiset.range s.installed + new)
    (hstored : Roster.tally Executor.stored s'.executors + heldBy frame +
      (s'.released : Multiset ℕ) =
        Roster.tally Executor.stored s.executors + new + s.released) :
    places s' + heldBy frame + Multiset.range s.installed =
      places s + Multiset.range s'.installed := by
  have hleft : places s' + heldBy frame + Multiset.range s.installed =
      Roster.tally Executor.stored s'.executors + heldBy frame +
        (s'.released : Multiset ℕ) +
        (Roster.tally (Roster.tally Frame.held) s.threads +
          (s.executed : Multiset ℕ) + Multiset.range s.installed) := by
    rw [places, hthreads, hexecuted]
    abel
  rw [hleft, hstored, hinstalled, places]
  abel

/-- A critical section moves functors between places, and adds those it
installs. -/
theorem Enters.balance (hs : WellFormed s) {call : Call}
    (h : Enters s call s' frame) :
    places s' + heldBy frame + Multiset.range s.installed =
      places s + Multiset.range s'.installed := by
  cases h with
  | construct given =>
      refine balance_of_stored rfl rfl (range_fresh s given) ?_
      rw [Roster.tally_append, Roster.tally_cons, Roster.tally_nil,
        Executor.stored_construct, add_zero]
      exact congrArg (· + _) (add_zero _)
  | @moveConstruct other x hx =>
      have hset := Roster.tally_set_add hx
        ((Executor.stored_moveConstruct x).trans (add_zero _).symm)
      refine balance_of_stored rfl rfl (add_zero _).symm ?_
      rw [Roster.tally_append, Roster.tally_cons, Roster.tally_nil,
        add_zero, hset]
      exact congrArg (· + _) (add_zero _)
  | @moveAssign this other x y hx hy hne =>
      have hthis := stored_set hx (Executor.stored_moveAssign x y) none
      have hother : (s.executors.set this (x.moveAssign y).1)[other]? =
          some y := by
        rw [List.getElem?_set_ne hne]
        exact hy
      have hset := Roster.tally_set (f := Executor.stored) hother
        (x.moveAssign y).2.1
      rw [Executor.stored_moveAssign_source, zero_add] at hset
      -- The source has lost what the first object has gained.
      have hcancel :
          Roster.tally Executor.stored
              ((s.executors.set this (x.moveAssign y).1).set other
                (x.moveAssign y).2.1) +
            heldBy (some (.holding (x.moveAssign y).2.2 none)) =
          Roster.tally Executor.stored s.executors := by
        apply add_left_cancel (a := y.stored)
        rw [← add_assoc, hset, hthis, add_comm]
      refine balance_of_stored rfl rfl (add_zero _).symm ?_
      exact congrArg (· + _) (hcancel.trans (add_zero _).symm)
  | @release this x hx =>
      have hset := Roster.tally_set_add hx
        ((Executor.stored_release (hs x (List.mem_of_getElem? hx))).trans
          (add_zero _).symm)
      refine balance_of_stored rfl rfl (add_zero _).symm ?_
      rw [← hset, ← Multiset.coe_add, ← add_assoc]
      exact congrArg (· + _ + _) (add_zero _)
  | @resetTo this x given hx =>
      have hstored := Executor.stored_resetTo x (s.fresh given)
      refine balance_of_stored rfl rfl (range_fresh s given) ?_
      exact congrArg (· + _) (stored_set hx hstored none)
  | @reset this x hx =>
      have hstored := (Executor.stored_reset x).trans (add_zero _).symm
      refine balance_of_stored rfl rfl (add_zero _).symm ?_
      exact congrArg (· + _) (stored_set hx hstored none)
  | @invoke this x hx =>
      have hstored :=
        (Executor.stored_extractIfArmed x).trans (add_zero _).symm
      refine balance_of_stored rfl rfl (add_zero _).symm ?_
      exact congrArg (· + _) (stored_set hx hstored none)
  | @destruct this x hx =>
      have hstored :=
        (Executor.stored_extractIfArmed x).trans (add_zero _).symm
      refine balance_of_stored rfl rfl (add_zero _).symm ?_
      exact congrArg (· + _)
        (stored_set (y := { x.extractIfArmed.1 with life := .dying }) hx
          hstored (some this))
  | idle call => exact congrArg (· + _) (add_zero _)

/-- A rewritten object that is well formed keeps the others so. -/
theorem WellFormed.set (hs : WellFormed s) (hy : y.WellFormed) :
    ∀ z ∈ s.executors.set e y, z.WellFormed := by
  intro z hz
  rcases List.mem_or_eq_of_mem_set hz with hold | rfl
  · exact hs z hold
  · exact hy

theorem Enters.wellFormed (hs : WellFormed s) {call : Call}
    (h : Enters s call s' frame) : WellFormed s' := by
  cases h with
  | construct given =>
      intro z hz
      rcases List.mem_append.mp hz with hold | hnew
      · exact hs z hold
      · obtain rfl := List.mem_singleton.mp hnew
        exact Executor.wellFormed_construct _
  | moveConstruct hx =>
      obtain ⟨hnew, hold⟩ := Executor.WellFormed.moveConstruct
        (hs _ (List.mem_of_getElem? hx))
      intro z hz
      rcases List.mem_append.mp hz with hz | hz
      · exact hs.set hold z hz
      · obtain rfl := List.mem_singleton.mp hz
        exact hnew
  | @moveAssign this other x y hx hy hne =>
      obtain ⟨hthis, hother⟩ := Executor.WellFormed.moveAssign x
        (hs y (List.mem_of_getElem? hy))
      intro z hz
      rcases List.mem_or_eq_of_mem_set hz with hz | rfl
      · exact hs.set hthis z hz
      · exact hother
  | release hx => exact hs.set (Executor.wellFormed_release _)
  | resetTo given hx => exact hs.set (Executor.wellFormed_resetTo _ _)
  | reset hx => exact hs.set (Executor.wellFormed_reset _)
  | invoke hx | destruct hx =>
      have hwf := Executor.WellFormed.extractIfArmed
        (hs _ (List.mem_of_getElem? hx))
      exact hs.set hwf
  | idle call => exact hs

/-- Critical sections do not touch the stacks of the threads. -/
theorem Enters.threads_eq {call : Call} (h : Enters s call s' frame) :
    s'.threads = s.threads := by
  cases h <;> rfl

/-- What is lost with an object whose lifetime ends. -/
def lost : Option Executor → Multiset ℕ
  | none => 0
  | some x => x.stored

/-- What one move of a thread can do. -/
inductive Moves (s : State) (a : Action) (stack : List Frame) :
    State → List Frame → Prop
  | enter {call : Call} {s' : State} {frame : Option Frame}
      (hmove : a.move = .enter call)
      (h : Enters s call s' frame) :
      Moves s a stack s' (frame.toList ++ stack)
  | execute {fn : ℕ} {dtor : Option ℕ} {rest : List Frame}
      (hmove : a.move = .execute)
      (hstack : stack = .holding (some fn) dtor :: rest) :
      Moves s a stack { s with executed := fn :: s.executed }
        (.executing dtor :: rest)
  | finish {top : Frame} {dtor : Option ℕ} {rest : List Frame}
      (hmove : a.move = .finish) (hstack : stack = top :: rest)
      (htop : top = .holding none dtor ∨ top = .executing dtor) :
      Moves s a stack (s.leave dtor) rest

theorem step_moves (h : step s a = some s') :
    ∃ stack mid stack', s.threads[a.thread]? = some stack ∧
      Moves s a stack mid stack' ∧
      s' = { mid with threads := mid.threads.set a.thread stack' } := by
  simp only [step, Option.bind_eq_bind, Option.bind_eq_some_iff] at h
  obtain ⟨stack, hstack, ⟨mid, stack'⟩, hmid, h⟩ := h
  refine ⟨stack, mid, stack', hstack, ?_, (Option.some.inj h).symm⟩
  cases hmove : a.move with
  | enter call =>
      rw [hmove] at hmid
      simp only [advance] at hmid
      split at hmid
      · obtain ⟨⟨mid', frame⟩, henter, hr⟩ := Option.map_eq_some_iff.mp hmid
        obtain ⟨rfl, rfl⟩ := Prod.mk.inj hr
        exact .enter hmove (enter_cases henter)
      · cases hmid
  | execute =>
      rw [hmove] at hmid
      simp only [advance] at hmid
      split at hmid
      · obtain ⟨rfl, rfl⟩ := Prod.mk.inj (Option.some.inj hmid)
        exact .execute hmove rfl
      · cases hmid
  | finish =>
      rw [hmove] at hmid
      simp only [advance] at hmid
      split at hmid
      · obtain ⟨rfl, rfl⟩ := Prod.mk.inj (Option.some.inj hmid)
        exact .finish hmove rfl (.inl rfl)
      · obtain ⟨rfl, rfl⟩ := Prod.mk.inj (Option.some.inj hmid)
        exact .finish hmove rfl (.inr rfl)
      · cases hmid

/-- Rewriting a stack trades what its calls hold. -/
theorem places_setThread {t : ℕ} {stack : List Frame}
    (hstack : s.threads[t]? = some stack) (stack' : List Frame) :
    places { s with threads := s.threads.set t stack' } +
        Roster.tally Frame.held stack =
      places s + Roster.tally Frame.held stack' := by
  have hset := Roster.tally_set_add
    (f := Roster.tally Frame.held) (y := stack') hstack
    (add_comm _ (Roster.tally Frame.held stack))
  have hleft : places { s with threads := s.threads.set t stack' } +
      Roster.tally Frame.held stack =
      Roster.tally (Roster.tally Frame.held) (s.threads.set t stack') +
        Roster.tally Frame.held stack +
        (Roster.tally Executor.stored s.executors +
          (s.executed : Multiset ℕ) + (s.released : Multiset ℕ)) := by
    rw [places]
    abel
  rw [hleft, hset, places]
  abel

/-- The members of an object are lost when its lifetime ends. -/
theorem places_leave (s : State) (dtor : Option ℕ) :
    places (s.leave dtor) + lost (dtor.bind fun e => s.executors[e]?) =
      places s := by
  cases dtor with
  | none => exact add_zero _
  | some e =>
      cases hx : s.executors[e]? with
      | none =>
          have hset : s.executors.set e Executor.destroyed = s.executors :=
            List.set_eq_of_length_le (List.getElem?_eq_none_iff.mp hx)
          simp only [State.leave, hset, Option.bind_some, hx, lost,
            add_zero]
      | some x =>
          have hset := Roster.tally_set (f := Executor.stored) hx
            Executor.destroyed
          have hzero : Executor.destroyed.stored = 0 := rfl
          rw [hzero, zero_add] at hset
          simp only [Option.bind_some, hx, lost]
          rw [add_comm]
          simp only [places, State.leave, ← add_assoc, hset]

theorem ending_finish {top : Frame} {dtor : Option ℕ} {rest : List Frame}
    (hmove : a.move = .finish)
    (hstack : s.threads[a.thread]? = some (top :: rest))
    (htop : top = .holding none dtor ∨ top = .executing dtor) :
    s.ending a = dtor.bind fun e => s.executors[e]? := by
  unfold State.ending
  rw [hmove, hstack]
  rcases htop with rfl | rfl <;> cases dtor <;> rfl

/-- The balance of one step: functors are installed, and those are lost that
the object holds whose lifetime the step ends. -/
theorem step_balance (hs : WellFormed s) (h : step s a = some s') :
    places s' + lost (s.ending a) + Multiset.range s.installed =
      places s + Multiset.range s'.installed := by
  obtain ⟨stack, mid, stack', hstack, hmoves, rfl⟩ := step_moves h
  cases hmoves with
  | @enter call _ frame hmove henter =>
      have hending : s.ending a = none := by
        unfold State.ending
        rw [hmove]
      have hthread : mid.threads[a.thread]? = some stack := by
        rw [henter.threads_eq]
        exact hstack
      have hplaces := places_setThread hthread (frame.toList ++ stack)
      rw [Roster.tally_append, ← add_assoc] at hplaces
      rw [hending, add_right_cancel hplaces]
      exact (congrArg (· + _) (add_zero _)).trans (henter.balance hs)
  | @execute fn dtor rest hmove hstack' =>
      subst hstack'
      have hending : s.ending a = none := by
        unfold State.ending
        rw [hmove]
      have hplaces := places_setThread
        (s := { s with executed := fn :: s.executed }) hstack
        (.executing dtor :: rest)
      have hexecuted : places { s with executed := fn :: s.executed } =
          places s + {fn} := by
        simp only [places, ← Multiset.cons_coe,
          ← Multiset.singleton_add]
        abel
      have hkept : places
          { s with
            executed := fn :: s.executed
            threads := s.threads.set a.thread (.executing dtor :: rest) } =
          places s := by
        rw [Roster.tally_cons, Roster.tally_cons, hexecuted] at hplaces
        have hheld : (Frame.holding (some fn) dtor).held = {fn} := rfl
        have hexecuting : (Frame.executing dtor).held = 0 := rfl
        rw [hheld, hexecuting, zero_add, add_assoc (places s)] at hplaces
        exact add_right_cancel hplaces
      rw [hending, hkept]
      exact congrArg (· + _) (add_zero _)
  | @finish top dtor rest hmove hstack' htop =>
      subst hstack'
      have hthread : (s.leave dtor).threads[a.thread]? =
          some (top :: stack') := by
        cases dtor <;> exact hstack
      have hplaces := places_setThread hthread stack'
      have hheld : top.held = 0 := by
        rcases htop with rfl | rfl <;> rfl
      rw [Roster.tally_cons, hheld, zero_add] at hplaces
      have hinstalled : (s.leave dtor).installed = s.installed := by
        cases dtor <;> rfl
      rw [ending_finish hmove hstack htop, add_right_cancel hplaces,
        places_leave]
      exact congrArg (fun n => places s + Multiset.range n) hinstalled.symm

theorem step_wellFormed (hs : WellFormed s) (h : step s a = some s') :
    WellFormed s' := by
  obtain ⟨stack, mid, stack', -, hmoves, rfl⟩ := step_moves h
  cases hmoves with
  | enter _ henter =>
      intro x hx
      exact henter.wellFormed hs x hx
  | execute => exact hs
  | @finish _ dtor =>
      cases dtor with
      | none => exact hs
      | some e => exact hs.set (y := Executor.destroyed) rfl

/-- Nothing is lost with a well-formed object exactly when it is disarmed. -/
theorem lost_ending_eq_zero_iff (hs : WellFormed s) :
    lost (s.ending a) = 0 ↔ DestroysDisarmed s a := by
  unfold DestroysDisarmed
  cases hending : s.ending a with
  | none => simp [lost]
  | some x =>
      have hwf : x.WellFormed := by
        unfold State.ending at hending
        split at hending
        · exact hs x (List.mem_of_getElem? hending)
        · exact hs x (List.mem_of_getElem? hending)
        · cases hending
      unfold Executor.WellFormed at hwf
      cases hfn : x.fn <;>
        simp [lost, Executor.stored, hwf, hfn]

/-- One step keeps the account exactly when it destroys no armed object. -/
theorem step_accounted_iff (hs : WellFormed s) (hP : Accounted s)
    (h : step s a = some s') :
    Accounted s' ↔ DestroysDisarmed s a := by
  have hbalance := step_balance hs h
  rw [hP.places, add_comm (Multiset.range s.installed)] at hbalance
  have hsum := add_right_cancel hbalance
  rw [← lost_ending_eq_zero_iff hs]
  constructor
  · intro hP'
    rw [hP'.places] at hsum
    exact add_eq_left.mp hsum
  · intro hlost
    rw [hlost, add_zero] at hsum
    refine ⟨hsum, ?_, ?_⟩
    · -- The executed functors are among those in all places.
      have hle : (s'.executed : Multiset ℕ) ≤ Multiset.range s'.installed := by
        rw [← hsum, places, add_right_comm]
        exact Multiset.le_add_left _ _
      exact Multiset.coe_nodup.mp
        (Multiset.nodup_of_le hle (Multiset.nodup_range _))
    · intro x hx harmed
      exact (step_wellFormed hs h x hx).symm.trans harmed

end Ledger

theorem accounted_init (clients : ℕ) : Accounted (init clients) where
  places := by
    have hthreads : Roster.tally (Roster.tally Frame.held)
        (List.replicate clients []) = 0 := by
      simp [Roster.tally]
    simp [places, init, hthreads]
  executed := List.nodup_nil
  armed x hx := by cases hx

/-- In any run of any number of threads the functors are accounted for in all
states exactly when every destructor that returns leaves its object
disarmed. -/
theorem allAccounted_iff (clients : ℕ) (acts : List Action) :
    Transition.AllStates step Accounted (init clients) acts ↔
      Transition.AllSteps step DestroysDisarmed (init clients) acts := by
  refine Transition.allStates_iff_allSteps (I := WellFormed) ?_ ?_
    (accounted_init clients) acts
  · intro s a s' hs hP h
    exact ⟨step_wellFormed hs h, step_accounted_iff hs hP h⟩
  · intro x hx
    cases hx

/-- The functor that a destructor executes installs another one in the same
object. -/
def rearms : List Action :=
  [⟨0, .enter (.construct true)⟩, ⟨0, .enter (.destruct 0)⟩,
    ⟨0, .execute⟩, ⟨0, .enter (.resetTo 0 true)⟩, ⟨0, .finish⟩,
    ⟨0, .finish⟩]

theorem rearms_isSome :
    (Transition.run step (init 1) rearms).isSome = true := by
  decide

/-- The functor installed during the destruction is in no place. -/
theorem exists_lostFunctor : ¬ ∀ s, Reachable s → Accounted s := by
  intro hall
  have hreach : Transition.Reachable step {init 1} _ :=
    Transition.reachable_get_run (Set.mem_singleton (init 1)) rearms_isSome
  exact absurd (hall _ ⟨1, hreach⟩) (by decide)

end ScopedExec
end Yacul
