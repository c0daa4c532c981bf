import Yacul.Misc.MonitorProcess

/-!
# What the callers and the monitor loops can do

A caller has a role, which is all that the invariants know of where it is.
One inversion lemma for a caller and one for a loop list what a step can do
to the members and to the role.
-/

namespace Yacul
namespace MonitorProcess

/-- What a caller has established: in `Start`, from the lock on, what it knows
of the state; in `WaitForStop`, the handle it joins. -/
inductive Role
  | outside
  | entered
  | notRunning
  | inactive
  | creating
  | failing
  | validating
  | joining (tid : ℕ)
  | invalidating
deriving DecidableEq, Repr

/-- The role of a caller. -/
def Pc.role : Pc → Role
  | .startLoadRunning _ | .startRefuse => .entered
  | .startLoadStopping _ => .notRunning
  | .startStoreConfig _ | .startClearStop | .startClearRestarts
  | .startClearConsecutive | .startClearChild | .startStoreState => .inactive
  | .startCreate => .creating
  | .startFail => .failing
  | .startValidate => .validating
  | .waitJoin tid => .joining tid
  | .waitInvalidate => .invalidating
  | _ => .outside

/-- The members that the invariants speak of are the same. -/
structure Shared.Same (sh sh' : Shared) : Prop where
  state : sh'.state = sh.state
  handle : sh'.monitor_thread = sh.monitor_thread
  valid : sh'.monitor_thread_valid = sh.monitor_thread_valid
  mutex : sh'.state_mutex = sh.state_mutex

theorem Shared.Same.refl (sh : Shared) : sh.Same sh := ⟨rfl, rfl, rfl, rfl⟩

/-- What one access of a caller can do. -/
inductive ClientMoves (sh : Shared) (monitors : List Monitor) :
    Pc → Shared → List Monitor → Pc → Prop
  | quiet {pc pc' : Pc} {sh' : Shared} (hsame : sh.Same sh')
      (hrole : pc'.role = pc.role) :
      ClientMoves sh monitors pc sh' monitors pc'
  | lock {cfg : Config} (hmutex : sh.state_mutex = false) :
      ClientMoves sh monitors (.startLock cfg)
        { sh with state_mutex := true } monitors (.startLoadRunning cfg)
  | notRunning {cfg : Config} (hstate : sh.state ≠ .kRunning) :
      ClientMoves sh monitors (.startLoadRunning cfg) sh monitors
        (.startLoadStopping cfg)
  | refuse {cfg : Config} :
      ClientMoves sh monitors (.startLoadStopping cfg) sh monitors
        .startRefuse
  | notStopping {cfg : Config} (hstate : sh.state ≠ .kStopping) :
      ClientMoves sh monitors (.startLoadStopping cfg) sh monitors
        (.startStoreConfig cfg)
  | unlock :
      ClientMoves sh monitors .startRefuse { sh with state_mutex := false }
        monitors .idle
  | storeRunning :
      ClientMoves sh monitors .startStoreState
        { sh with state := .kRunning } monitors .startCreate
  | create :
      ClientMoves sh monitors .startCreate
        { sh with monitor_thread := monitors.length }
        (monitors ++ [{ pc := .test, joined := 0 }]) .startValidate
  | createFails :
      ClientMoves sh monitors .startCreate sh monitors .startFail
  | fail :
      ClientMoves sh monitors .startFail
        { sh with state := .kIdle, state_mutex := false } monitors .idle
  | validate :
      ClientMoves sh monitors .startValidate
        { sh with monitor_thread_valid := true, state_mutex := false }
        monitors .idle
  | storeStopping :
      ClientMoves sh monitors .stopStoreState
        { sh with state := .kStopping } monitors .stopLoadChild
  | read (hmutex : sh.state_mutex = false)
      (hvalid : sh.monitor_thread_valid = true) :
      ClientMoves sh monitors .waitRead sh monitors
        (.waitJoin sh.monitor_thread)
  | join {tid : ℕ} {m : Monitor} (hm : monitors[tid]? = some m) :
      ClientMoves sh monitors (.waitJoin tid) sh
        (monitors.set tid { m with joined := m.joined + 1 }) .waitInvalidate
  | invalidate (hmutex : sh.state_mutex = false) :
      ClientMoves sh monitors .waitInvalidate
        { sh with monitor_thread_valid := false } monitors .waitStoreState
  | storeIdle :
      ClientMoves sh monitors .waitStoreState { sh with state := .kIdle }
        monitors .idle

theorem clientStep_moves {sh sh' : Shared} {monitors monitors' : List Monitor}
    {created : Bool} {pc pc' : Pc}
    (h : clientStep sh monitors created pc = some (sh', monitors', pc')) :
    ClientMoves sh monitors pc sh' monitors' pc' := by
  cases pc <;> simp only [clientStep] at h
  case idle => cases h
  case startLock cfg =>
    split at h
    · cases h
    · next hmutex =>
      cases h
      exact .lock (Bool.eq_false_iff.mpr hmutex)
  case startLoadRunning cfg =>
    split at h <;> cases h
    · exact .quiet (.refl sh) rfl
    · next hstate => exact .notRunning hstate
  case startLoadStopping cfg =>
    split at h <;> cases h
    · exact .refuse
    · next hstate => exact .notStopping hstate
  case startCreate =>
    split at h <;> cases h
    · exact .create
    · exact .createFails
  case stopLoadStopping | stopLoadStopped | stopLoadIdle | stopLoadChild =>
    split at h <;> cases h <;> exact .quiet (.refl sh) rfl
  case waitRead =>
    split at h
    · cases h
    · next hmutex =>
      split at h <;> cases h
      · next hvalid =>
        exact .read (Bool.eq_false_iff.mpr hmutex) hvalid
      · exact .quiet (.refl sh) rfl
  case waitJoin tid =>
    split at h
    · next m hm =>
      split at h <;> cases h
      exact .join hm
    · cases h
  case waitInvalidate =>
    split at h
    · cases h
    · next hmutex =>
      cases h
      exact .invalidate (Bool.eq_false_iff.mpr hmutex)
  case startRefuse => cases h; exact .unlock
  case startStoreState => cases h; exact .storeRunning
  case startFail => cases h; exact .fail
  case startValidate => cases h; exact .validate
  case stopStoreState => cases h; exact .storeStopping
  case waitStoreState => cases h; exact .storeIdle
  all_goals
    cases h
    exact .quiet ⟨rfl, rfl, rfl, rfl⟩ rfl

/-- What one access of a monitor loop can do. -/
inductive LoopMoves (sh : Shared) : LoopPc → Shared → LoopPc → Prop
  | quiet {pc pc' : LoopPc} {sh' : Shared} (hsame : sh.Same sh')
      (hlive : ∀ joined, Monitor.live ⟨pc', joined⟩ =
        Monitor.live ⟨pc, joined⟩) :
      LoopMoves sh pc sh' pc'
  | store :
      LoopMoves sh .store { sh with state := .kStopped } .returned

theorem accountRestart_same (sh : Shared) (run_duration : ℤ) :
    sh.Same (accountRestart sh run_duration).1 := by
  cases hpolicy : sh.config.max_restart_policy <;>
    simp only [accountRestart, hpolicy] <;> split_ifs <;>
    exact ⟨rfl, rfl, rfl, rfl⟩

theorem loopStep_moves {sh sh' : Shared} {ch : Choice} {pc pc' : LoopPc}
    (h : loopStep sh ch pc = some (sh', pc')) : LoopMoves sh pc sh' pc' := by
  cases pc <;> simp only [loopStep] at h
  case exited => cases h
  case store => cases h; exact .store
  case account =>
    cases h
    exact .quiet (accountRestart_same sh _) fun _ => by split <;> rfl
  case stamp pid =>
    split at h <;> cases h
    exact .quiet (.refl sh) fun _ => rfl
  case test | spawn | poll | await | testStop | backoff =>
    cases h
    exact .quiet (.refl sh) fun _ => by split <;> rfl
  all_goals
    cases h
    exact .quiet ⟨rfl, rfl, rfl, rfl⟩ fun _ => rfl

/-- What a step can do. -/
inductive Moves (s : State) : Action → State → Prop
  | call {t : ℕ} {c : Call} (hpc : s.clients[t]? = some .idle) :
      Moves s (.call t c) { s with clients := s.clients.set t (begin c) }
  | client {t : ℕ} {created : Bool} {pc pc' : Pc} {sh : Shared}
      {monitors : List Monitor} (hpc : s.clients[t]? = some pc)
      (h : ClientMoves s.shared s.monitors pc sh monitors pc') :
      Moves s (.client t created)
        { shared := sh, monitors := monitors,
          clients := s.clients.set t pc' }
  | monitor {i : ℕ} {ch : Choice} {m : Monitor} {sh : Shared} {pc : LoopPc}
      (hm : s.monitors[i]? = some m) (h : LoopMoves s.shared m.pc sh pc) :
      Moves s (.monitor i ch)
        { s with
          shared := sh
          monitors := s.monitors.set i { m with pc := pc } }

theorem step_moves {s s' : State} {a : Action} (h : step s a = some s') :
    Moves s a s' := by
  cases a with
  | call t c =>
      simp only [step] at h
      split at h
      · next hpc =>
        obtain rfl := Option.some.inj h
        exact .call hpc
      · cases h
  | client t created =>
      simp only [step, Option.bind_eq_bind, Option.bind_eq_some_iff] at h
      obtain ⟨pc, hpc, ⟨sh, monitors, pc'⟩, hmoves, h⟩ := h
      obtain rfl := Option.some.inj h
      exact .client hpc (clientStep_moves hmoves)
  | monitor i ch =>
      simp only [step, Option.bind_eq_bind, Option.bind_eq_some_iff] at h
      obtain ⟨m, hm, ⟨sh, pc⟩, hmoves, h⟩ := h
      obtain rfl := Option.some.inj h
      exact .monitor hm (loopStep_moves hmoves)

theorem role_begin (c : Call) : (begin c).role = .outside := by
  cases c with
  | Start cfg => simp only [begin]; split <;> rfl
  | RequestStop | WaitForStop => rfl

/-! ## The mutex -/

/-- The caller holds the mutex. -/
def Role.locks : Role → Bool
  | .entered | .notRunning | .inactive | .creating | .failing
  | .validating => true
  | .outside | .joining _ | .invalidating => false

/-- The mutex is locked exactly by one caller. -/
def MutexInv (s : State) : Prop :=
  s.clients.countP (fun pc => pc.role.locks) = s.shared.state_mutex.toNat

section Mutex

variable {s s' : State} {a : Action} {t i : ℕ} {pc pc' : Pc}

theorem mutexInv_init (clients : ℕ) : MutexInv (init clients) := by
  apply List.countP_eq_zero.mpr
  intro pc hpc
  obtain rfl := List.eq_of_mem_replicate hpc
  exact Bool.false_ne_true

theorem MutexInv.locked (hs : MutexInv s) (hpc : s.clients[t]? = some pc)
    (hlocks : pc.role.locks = true) : s.shared.state_mutex = true := by
  have hpos : 0 < s.clients.countP (fun pc => pc.role.locks) :=
    List.countP_pos_iff.mpr ⟨pc, List.mem_of_getElem? hpc, hlocks⟩
  rw [hs] at hpos
  cases hmutex : s.shared.state_mutex with
  | true => rfl
  | false =>
      rw [hmutex] at hpos
      cases hpos

/-- No other caller holds the mutex. -/
theorem MutexInv.alone (hs : MutexInv s) (hpc : s.clients[t]? = some pc)
    (hlocks : pc.role.locks = true) (hpc' : s.clients[i]? = some pc')
    (hne : t ≠ i) : pc'.role.locks = false := by
  apply Bool.eq_false_iff.mpr
  intro hlocks'
  have hone : s.clients.countP (fun pc => pc.role.locks) ≤ 1 := by
    rw [hs]
    exact Bool.toNat_le _
  exact hne (Roster.eq_of_countP_le_one hone hpc hlocks hpc' hlocks')

/-- A caller takes the mutex when it is free and gives back what it has. -/
theorem ClientMoves.locks_eq {sh sh' : Shared}
    {monitors monitors' : List Monitor}
    (h : ClientMoves sh monitors pc sh' monitors' pc')
    (hlocked : pc.role.locks = true → sh.state_mutex = true) :
    pc.role.locks.toNat + sh'.state_mutex.toNat =
      pc'.role.locks.toNat + sh.state_mutex.toNat := by
  cases h with
  | quiet hsame hrole => rw [hrole, hsame.mutex]
  | lock hmutex =>
      rw [hmutex]
      rfl
  | unlock | fail | validate =>
      rw [hlocked rfl]
      rfl
  | notRunning | refuse | notStopping | storeRunning | create | createFails
  | storeStopping | read | join | invalidate | storeIdle => rfl

theorem LoopMoves.mutex_eq {sh sh' : Shared} {pc pc' : LoopPc}
    (h : LoopMoves sh pc sh' pc') : sh'.state_mutex = sh.state_mutex := by
  cases h with
  | quiet hsame => exact hsame.mutex
  | store => rfl

theorem step_mutexInv (hs : MutexInv s) (h : step s a = some s') :
    MutexInv s' := by
  unfold MutexInv at hs
  cases step_moves h with
  | @call t c hpc =>
      have hcount := Roster.countP_set_add
        (p := fun pc : Pc => pc.role.locks) hpc (begin c)
      rw [role_begin] at hcount
      exact (Nat.add_left_cancel hcount).trans hs
  | @client t created pc pc' sh monitors hpc hmoves =>
      have hcount := Roster.countP_set_add
        (p := fun pc : Pc => pc.role.locks) hpc pc'
      have hlocks := hmoves.locks_eq (MutexInv.locked hs hpc)
      unfold MutexInv
      simp only at hcount ⊢
      omega
  | monitor hm hmoves =>
      unfold MutexInv
      rw [hmoves.mutex_eq]
      exact hs

end Mutex

end MonitorProcess
end Yacul
