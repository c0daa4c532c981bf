import Yacul.Misc.MonitorMoves

/-!
# The state of the monitor

The state is active exactly when a loop is live or a `Start` is about to
create one.  A caller of `Start` that has passed the checks holds the mutex
and knows that the state is not active, as long as the other calls store in
turn.
-/

namespace Yacul
namespace MonitorProcess

/-- The caller has stored `kRunning`, and the loop that goes with it does not
exist yet. -/
def Role.starting : Role → Bool
  | .creating | .failing => true
  | _ => false

/-- What a caller that has passed checks of `Start` knows of the state. -/
def Role.Knows : Role → MonitorState → Prop
  | .notRunning, state => state ≠ .kRunning
  | .inactive, state => state.active = false
  | _, _ => True

/-- The invariant of the state. -/
structure StateInv (s : State) : Prop where
  mutex : MutexInv s
  balance : s.live + s.clients.countP (fun pc => pc.role.starting) =
    s.shared.state.active.toNat
  knows : ∀ pc ∈ s.clients, pc.role.Knows s.shared.state

section

variable {s s' : State} {a : Action}

theorem stateInv_init (clients : ℕ) : StateInv (init clients) where
  mutex := mutexInv_init clients
  balance := by
    have hzero : (init clients).clients.countP
        (fun pc => pc.role.starting) = 0 := by
      apply List.countP_eq_zero.mpr
      intro pc hpc
      obtain rfl := List.eq_of_mem_replicate hpc
      exact Bool.false_ne_true
    rw [hzero]
    rfl
  knows pc hpc := by
    obtain rfl := List.eq_of_mem_replicate hpc
    trivial

/-- The state says what it promises in every state of the invariant. -/
theorem StateInv.agrees (hs : StateInv s) : Agrees s where
  live := by
    have hbalance := hs.balance
    have hle := Bool.toNat_le s.shared.state.active
    omega
  state hidle := by
    have hzero : s.clients.countP (fun pc => pc.role.starting) = 0 := by
      apply List.countP_eq_zero.mpr
      intro pc hpc
      rw [hidle pc hpc]
      exact Bool.false_ne_true
    have hbalance := hs.balance
    rw [hzero, Nat.add_zero] at hbalance
    rw [hbalance]
    cases s.shared.state.active <;> simp

/-- A caller moves.  Its share in the balance and what it knows are accounted
for; the others keep what they know, and none of them holds the mutex if the
caller does. -/
theorem StateInv.client (hs : StateInv s) {t : ℕ} {pc pc' : Pc}
    (hpc : s.clients[t]? = some pc) {sh : Shared} {monitors : List Monitor}
    (hmutex : MutexInv
      { shared := sh, monitors := monitors, clients := s.clients.set t pc' })
    (hbalance : monitors.countP Monitor.live + pc'.role.starting.toNat +
        s.shared.state.active.toNat =
      s.live + pc.role.starting.toNat + sh.state.active.toNat)
    (hknows : pc'.role.Knows sh.state)
    (hothers : ∀ r : Role, r.Knows s.shared.state →
      (pc.role.locks = true → r.locks = false) → r.Knows sh.state) :
    StateInv
      { shared := sh, monitors := monitors, clients := s.clients.set t pc' }
    where
  mutex := hmutex
  balance := by
    have hcount := Roster.countP_set_add
      (p := fun pc : Pc => pc.role.starting) hpc pc'
    have hold := hs.balance
    simp only [State.live] at hcount hold hbalance ⊢
    omega
  knows := by
    intro other hother
    obtain ⟨i, hi⟩ := List.mem_iff_getElem?.mp hother
    by_cases hit : t = i
    · subst hit
      obtain ⟨hlt, -⟩ := List.getElem?_eq_some_iff.mp hpc
      rw [List.getElem?_set_self hlt] at hi
      obtain rfl := Option.some.inj hi
      exact hknows
    · rw [List.getElem?_set_ne hit] at hi
      refine hothers other.role (hs.knows other (List.mem_of_getElem? hi)) ?_
      intro hlocks
      exact hs.mutex.alone hpc hlocks hi hit

/-- What a role without the mutex knows is nothing. -/
theorem Role.knows_of_not_locks {r : Role} (h : r.locks = false)
    (state : MonitorState) : r.Knows state := by
  cases r with
  | outside | joining | invalidating => trivial
  | entered | notRunning | inactive | creating | failing | validating =>
      cases h

/-- A state that is not active, stored over any state, keeps what the callers
know. -/
theorem Role.Knows.inactive {r : Role} {state : MonitorState}
    (hstate : state.active = false) : r.Knows state := by
  cases r with
  | notRunning => exact fun h => by rw [h] at hstate; cases hstate
  | inactive => exact hstate
  | outside | entered | creating | failing | validating | joining
  | invalidating => trivial

/-- A `Start` that has stored `kRunning` finds the state active. -/
theorem StateInv.active_of_starting (hs : StateInv s) {t : ℕ} {pc : Pc}
    (hpc : s.clients[t]? = some pc) (hstarting : pc.role.starting = true) :
    s.shared.state.active = true := by
  have hpos : 0 < s.clients.countP (fun pc => pc.role.starting) :=
    List.countP_pos_iff.mpr ⟨pc, List.mem_of_getElem? hpc, hstarting⟩
  have hbalance := hs.balance
  cases hactive : s.shared.state.active with
  | true => rfl
  | false =>
      rw [hactive, Bool.toNat_false] at hbalance
      omega

/-- A live loop finds the state active. -/
theorem StateInv.active_of_live (hs : StateInv s) {i : ℕ} {m : Monitor}
    (hm : s.monitors[i]? = some m) (hlive : m.live = true) :
    s.shared.state.active = true := by
  have hpos : 0 < s.monitors.countP Monitor.live :=
    List.countP_pos_iff.mpr ⟨m, List.mem_of_getElem? hm, hlive⟩
  have hbalance := hs.balance
  unfold State.live at hbalance
  cases hactive : s.shared.state.active with
  | true => rfl
  | false =>
      rw [hactive, Bool.toNat_false] at hbalance
      omega

theorem StateInv.clientMoves (hs : StateInv s) {t : ℕ} {created : Bool}
    {pc pc' : Pc} (hpc : s.clients[t]? = some pc)
    (hturn : StoresInTurn s (.client t created))
    {sh : Shared} {monitors : List Monitor}
    (h : ClientMoves s.shared s.monitors pc sh monitors pc')
    (hmutex : MutexInv
      { shared := sh, monitors := monitors,
        clients := s.clients.set t pc' }) :
    StateInv
      { shared := sh, monitors := monitors,
        clients := s.clients.set t pc' } := by
  have hown := hs.knows pc (List.mem_of_getElem? hpc)
  have hturn : pc.StoresInTurn s.shared := hturn pc hpc
  cases h with
  | quiet hsame hrole =>
      refine hs.client hpc hmutex ?_ ?_ ?_
      · rw [hrole, hsame.state]
        rfl
      · rw [hrole, hsame.state]
        exact hown
      · intro r hr _
        rw [hsame.state]
        exact hr
  | lock | refuse | unlock | createFails | validate | read | invalidate =>
      exact hs.client hpc hmutex rfl trivial fun r hr _ => hr
  | notRunning hstate =>
      exact hs.client hpc hmutex rfl hstate fun r hr _ => hr
  | notStopping hstate =>
      refine hs.client hpc hmutex rfl ?_ fun r hr _ => hr
      have hrunning : s.shared.state ≠ .kRunning := hown
      change s.shared.state.active = false
      cases hcase : s.shared.state with
      | kIdle | kStopped => rfl
      | kRunning => exact absurd hcase hrunning
      | kStopping => exact absurd hcase hstate
  | storeRunning =>
      refine hs.client hpc hmutex ?_ trivial ?_
      · have hinactive : s.shared.state.active = false := hown
        rw [hinactive]
        rfl
      · intro r _ hlocks
        exact Role.knows_of_not_locks (hlocks rfl) _
  | create =>
      refine hs.client hpc hmutex ?_ trivial fun r hr _ => hr
      rw [List.countP_append]
      rfl
  | fail =>
      refine hs.client hpc hmutex ?_ trivial ?_
      · rw [hs.active_of_starting hpc rfl]
        rfl
      · intro r _ _
        exact Role.Knows.inactive rfl
  | storeStopping =>
      have hactive : s.shared.state.active = true := hturn
      refine hs.client hpc hmutex ?_ trivial ?_
      · rw [hactive]
        rfl
      · intro r hr _
        cases r with
        | notRunning => exact MonitorState.noConfusion
        | inactive =>
            rw [Role.Knows, hactive] at hr
            cases hr
        | outside | entered | creating | failing | validating | joining
        | invalidating => trivial
  | @join tid m hm =>
      refine hs.client hpc hmutex ?_ trivial fun r hr _ => hr
      have hcount := Roster.countP_set_add (p := Monitor.live) hm
        { m with joined := m.joined + 1 }
      have hlive : Monitor.live { m with joined := m.joined + 1 } = m.live :=
        rfl
      rw [hlive] at hcount
      rw [Nat.add_left_cancel hcount]
      rfl
  | storeIdle =>
      have hinactive : s.shared.state.active = false := hturn
      refine hs.client hpc hmutex ?_ trivial ?_
      · rw [hinactive]
        rfl
      · intro r _ _
        exact Role.Knows.inactive rfl

/-- A monitor loop moves. -/
theorem StateInv.loopMoves (hs : StateInv s) {i : ℕ} {m : Monitor}
    (hm : s.monitors[i]? = some m) {sh : Shared} {pc : LoopPc}
    (h : LoopMoves s.shared m.pc sh pc)
    (hmutex : MutexInv
      { s with
        shared := sh
        monitors := s.monitors.set i { m with pc := pc } }) :
    StateInv
      { s with
        shared := sh
        monitors := s.monitors.set i { m with pc := pc } } := by
  have hcount := Roster.countP_set_add (p := Monitor.live) hm
    { m with pc := pc }
  have hbalance := hs.balance
  unfold State.live at hbalance
  generalize hpc : m.pc = old at h
  cases h with
  | quiet hsame hlive =>
      have hkeep : ({ m with pc := pc } : Monitor).live = m.live := by
        rw [hlive, ← hpc]
      rw [hkeep] at hcount
      refine ⟨hmutex, ?_, ?_⟩
      · simp only [State.live, hsame.state]
        omega
      · intro other hother
        rw [hsame.state]
        exact hs.knows other hother
  | store =>
      have hlive : m.live = true := by
        unfold Monitor.live
        rw [hpc]
      have hactive := hs.active_of_live hm hlive
      rw [hlive, Bool.toNat_true] at hcount
      rw [hactive, Bool.toNat_true] at hbalance
      refine ⟨hmutex, ?_, ?_⟩
      · change _ + _ = 0
        simp only [State.live]
        change 1 + _ = 0 + _ at hcount
        omega
      · intro other _
        exact Role.Knows.inactive rfl

theorem step_stateInv (hs : StateInv s) (hturn : StoresInTurn s a)
    (h : step s a = some s') : StateInv s' := by
  have hmutex := step_mutexInv hs.mutex h
  cases step_moves h with
  | @call t c hpc =>
      refine hs.client hpc hmutex ?_ ?_ fun r hr _ => hr
      · rw [role_begin]
        rfl
      · rw [role_begin]
        trivial
  | client hpc hmoves => exact hs.clientMoves hpc hturn hmoves hmutex
  | monitor hm hmoves => exact hs.loopMoves hm hmoves hmutex

/-- As long as the calls store in turn, the state agrees with the monitor
threads. -/
theorem reachable_agrees (clients : ℕ)
    (hs : Transition.ReachableVia step StoresInTurn {init clients} s) :
    Agrees s := by
  have hinv : StateInv s := by
    refine hs.invariant ?_ fun s a s' hs hturn h => step_stateInv hs hturn h
    intro s hinit
    obtain rfl := Set.mem_singleton_iff.mp hinit
    exact stateInv_init clients
  exact hinv.agrees

end

/-! ## Runs of one caller -/

/-- Accesses of caller 0; every thread is created. -/
def accesses (n : ℕ) : List Action := List.replicate n (.client 0 true)

/-- Accesses of the first monitor loop. -/
def iterations (n : ℕ) : List Action := List.replicate n (.monitor 0 {})

/-- A whole `Start`. -/
def starts : List Action :=
  .call 0 (.Start { argv := ["child"] }) :: accesses 11

/-- `RequestStop` returns, the loop ends, and `WaitForStop` joins it. -/
def stopsInTurn : List Action :=
  starts ++ Action.call 0 .RequestStop :: accesses 6 ++ iterations 4 ++
    Action.call 0 .WaitForStop :: accesses 4

theorem stopsInTurn_isSome :
    (Transition.run step (init 1) stopsInTurn).isSome = true := by
  decide

theorem reachable_agrees_stopsInTurn :
    Agrees ((Transition.run step (init 1) stopsInTurn).get
      stopsInTurn_isSome) := by
  have hstart : Transition.ReachableVia step StoresInTurn {init 1} (init 1) :=
    .start rfl
  have hall : Transition.AllSteps step StoresInTurn (init 1) stopsInTurn := by
    decide
  exact reachable_agrees 1
    (hstart.run hall (Option.some_get stopsInTurn_isSome).symm)

/-- The loop sees the request and ends before `RequestStop` stores
`kStopping`. -/
def stopsLate : List Action :=
  starts ++ Action.call 0 .RequestStop :: accesses 4 ++ iterations 4 ++ accesses 2

theorem stopsLate_isSome :
    (Transition.run step (init 1) stopsLate).isSome = true := by
  decide

/-- The monitor is left in `kStopping` without a loop. -/
theorem exists_stuckStopping : ¬ ∀ s, Reachable s → Agrees s := by
  intro hall
  have hreach : Transition.Reachable step {init 1} _ :=
    Transition.reachable_get_run (Set.mem_singleton (init 1)) stopsLate_isSome
  have hagrees := hall _ ⟨1, hreach⟩
  have hiff := hagrees.state (by decide)
  have hlive := hiff.mp (by decide)
  exact absurd hlive (by decide)

end MonitorProcess
end Yacul
