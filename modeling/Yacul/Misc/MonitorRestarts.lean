import Yacul.Misc.MonitorRun
import Mathlib.Data.Int.Basic

/-!
# The account of the restarts

An exit is counted before the maximum of restarts is compared and before the
child is spawned again.  So `restart_count` is one too large when the loop
ends between the account and the next spawn.
-/

namespace Yacul
namespace MonitorProcess
namespace MonitorLoop

/-- Where the loop is between two children: `between` before a spawn,
`alive` until the exit is counted, `counting` after `restart_count` has been
incremented, `counted` after both counters have been. -/
inductive Stage
  | between
  | alive
  | counting
  | counted
  | ended
deriving DecidableEq, Repr

def Pc.stage : Pc → Stage
  | .test | .preStart | .spawn | .backoff => .between
  | .countConsecutive => .counting
  | .maxRestarts | .resetCounter => .counted
  | .clear | .store | .returned | .exited => .ended
  | _ => .alive

/-- Where a stop request ends the loop or the counters change. -/
def Pc.decides : Pc → Bool
  | .test | .testStop | .stable | .countRestart | .countConsecutive
  | .maxRestarts | .resetCounter => true
  | _ => false

/-- The number of children that have been spawned. -/
def Memory.spawns (m : Memory) : ℕ :=
  m.children.length

/-- The child has run for the threshold of a stable run. -/
def Memory.stableRun (m : Memory) (now : ℤ) : Bool :=
  0 < m.shared.config.stable_run_threshold &&
    m.shared.config.stable_run_threshold ≤
      (now - m.last_start_time).tdiv 1000000000

/-- The maximum of restarts has been exceeded. -/
def Memory.exceeds (m : Memory) : Bool :=
  0 < m.shared.config.max_restarts &&
    m.shared.config.max_restarts < m.shared.consecutive_restart_count

/-- The members that the account of the restarts depends on. -/
structure SameAccount (m m' : Memory) : Prop where
  config : m'.shared.config = m.shared.config
  restarts : m'.shared.restart_count = m.shared.restart_count
  consecutive : m'.shared.consecutive_restart_count =
    m.shared.consecutive_restart_count
  spawns : m'.spawns = m.spawns

theorem SameAccount.refl (m : Memory) : SameAccount m m := ⟨rfl, rfl, rfl, rfl⟩

/-! ## What an access of the loop does to the account -/

/-- The accesses of the loop by what they do to the counters. -/
inductive AccountEffect (m : Memory) (ans : Answer) :
    Pc → Memory → Pc → Prop
  | stay {pc m' pc'} (hsame : SameAccount m m')
      (hstage : pc'.stage = pc.stage)
      (hdecides : pc.decides = true →
        (pc = .test ∨ pc = .testStop) ∧ m.shared.stop_requested = false)
      (htarget : pc' = pc ∨ pc' ≠ .resetCounter ∧ pc' ≠ .backoff) :
      AccountEffect m ans pc m' pc'
  | stopTest (hstop : m.shared.stop_requested = true) :
      AccountEffect m ans .test m .clear
  | stopExited (hstop : m.shared.stop_requested = true) :
      AccountEffect m ans .testStop m .clear
  | spawn {m'} (pid : ℤ) (hconfig : m'.shared = m.shared)
      (hspawns : m'.spawns = m.spawns + 1) :
      AccountEffect m ans .spawn m' (.publish pid)
  | stable (hstable : m.stableRun ans.now = true) :
      AccountEffect m ans .stable
        { m with shared := { m.shared with consecutive_restart_count := 0 } }
        .countRestart
  | unstable (hstable : m.stableRun ans.now = false) :
      AccountEffect m ans .stable m .countRestart
  | countRestart :
      AccountEffect m ans .countRestart
        { m with
          shared :=
            { m.shared with restart_count := m.shared.restart_count + 1 } }
        .countConsecutive
  | countConsecutive :
      AccountEffect m ans .countConsecutive
        { m with
          shared :=
            { m.shared with
              consecutive_restart_count :=
                m.shared.consecutive_restart_count + 1 } }
        .maxRestarts
  | giveUp (hmax : m.exceeds = true)
      (hpolicy : m.shared.config.max_restart_policy = .kStopMonitoring) :
      AccountEffect m ans .maxRestarts m .clear
  | reset (hmax : m.exceeds = true)
      (hpolicy : m.shared.config.max_restart_policy = .kResetCounter) :
      AccountEffect m ans .maxRestarts m .resetCounter
  | goOn (hmax : m.exceeds = false) :
      AccountEffect m ans .maxRestarts m .backoff
  | resetCounter :
      AccountEffect m ans .resetCounter
        { m with shared := { m.shared with consecutive_restart_count := 0 } }
        .backoff

section

variable {m m' : Memory} {ans : Answer} {pc pc' : Pc}

theorem length_reap (pid : ℤ) (children : List Child) :
    (reap pid children).length = children.length :=
  List.length_map ..

theorem length_waitRound (m : Memory) (ans : Answer) :
    (waitRound m ans).2.length = m.children.length := by
  obtain ⟨hround, -⟩ | ⟨hround, -⟩ | hround | hround := waitRound_cases m ans
  · rw [hround]
    exact length_reap ..
  · rw [hround]
  · rw [hround]
  · rw [hround]

theorem length_waitpidBlocking {children children' : List Child} {pid : ℤ}
    (h : waitpidBlocking children pid ans = some children') :
    children'.length = children.length := by
  obtain ⟨rfl, -⟩ := waitpidBlocking_eq_some h
  obtain ⟨hwait, -⟩ | hwait | ⟨hwait, -⟩ | ⟨hwait, -⟩ :=
    waitpid_cases children pid ans
  · rw [hwait]
    exact length_reap ..
  · rw [hwait]
  · rw [hwait]
  · rw [hwait]

/-- An access that decides nothing and goes on with another. -/
theorem AccountEffect.goes (hsame : SameAccount m m')
    (hstage : pc'.stage = pc.stage) (hdecides : pc.decides = false)
    (hreset : pc' ≠ .resetCounter) (hbackoff : pc' ≠ .backoff) :
    AccountEffect m ans pc m' pc' := by
  refine .stay hsame hstage (fun h => ?_) (.inr ⟨hreset, hbackoff⟩)
  rw [hdecides] at h
  exact Bool.noConfusion h

/-- Every access of the loop. -/
theorem loopStep_account (hstep : loopStep m ans pc = some (m', pc')) :
    AccountEffect m ans pc m' pc' := by
  cases pc with
  | test =>
      obtain ⟨rfl, rfl⟩ := Prod.mk.inj (Option.some.inj hstep)
      cases hstop : m.shared.stop_requested with
      | true => exact .stopTest hstop
      | false =>
          exact .stay (.refl m) rfl (fun _ => ⟨.inl rfl, hstop⟩)
            (.inr ⟨Pc.noConfusion, Pc.noConfusion⟩)
  | testStop =>
      obtain ⟨rfl, rfl⟩ := Prod.mk.inj (Option.some.inj hstep)
      cases hstop : m.shared.stop_requested with
      | true => exact .stopExited hstop
      | false =>
          exact .stay (.refl m) rfl (fun _ => ⟨.inr rfl, hstop⟩)
            (.inr ⟨Pc.noConfusion, Pc.noConfusion⟩)
  | spawn =>
      simp only [loopStep] at hstep
      split at hstep
      · obtain ⟨rfl, rfl⟩ := Prod.mk.inj (Option.some.inj hstep)
        exact .goes (.refl m) rfl rfl
          Pc.noConfusion Pc.noConfusion
      · split at hstep
        · cases hstep
        · obtain ⟨rfl, rfl⟩ := Prod.mk.inj (Option.some.inj hstep)
          exact .spawn ans.pid rfl (List.length_append ..)
  | stable =>
      obtain ⟨hm', rfl⟩ := Prod.mk.inj (Option.some.inj hstep)
      split at hm'
      · next hstable =>
          rw [← hm']
          exact .stable (by simpa [Memory.stableRun] using hstable)
      · next hstable =>
          have hunstable : m.stableRun ans.now = false := by
            rw [← Bool.not_eq_true]
            simpa [Memory.stableRun] using hstable
          rw [← hm']
          exact .unstable hunstable
  | countRestart =>
      obtain ⟨rfl, rfl⟩ := Prod.mk.inj (Option.some.inj hstep)
      exact .countRestart
  | countConsecutive =>
      obtain ⟨rfl, rfl⟩ := Prod.mk.inj (Option.some.inj hstep)
      exact .countConsecutive
  | maxRestarts =>
      obtain ⟨rfl, hpc'⟩ := Prod.mk.inj (Option.some.inj hstep)
      split at hpc'
      · next hmax =>
          have hexceeds : m.exceeds = true := by
            simpa [Memory.exceeds] using hmax
          cases hpolicy : m.shared.config.max_restart_policy with
          | kStopMonitoring =>
              rw [hpolicy] at hpc'
              exact hpc' ▸ .giveUp hexceeds hpolicy
          | kResetCounter =>
              rw [hpolicy] at hpc'
              exact hpc' ▸ .reset hexceeds hpolicy
      · next hmax =>
          have hexceeds : m.exceeds = false := by
            rw [← Bool.not_eq_true]
            simpa [Memory.exceeds] using hmax
          exact hpc' ▸ .goOn hexceeds
  | resetCounter =>
      obtain ⟨rfl, rfl⟩ := Prod.mk.inj (Option.some.inj hstep)
      exact .resetCounter
  | stamp pid =>
      simp only [loopStep] at hstep
      split at hstep
      · cases hstep
      · obtain ⟨rfl, rfl⟩ := Prod.mk.inj (Option.some.inj hstep)
        exact .goes ⟨rfl, rfl, rfl, rfl⟩ rfl rfl
          Pc.noConfusion Pc.noConfusion
  | stopWait pid =>
      obtain ⟨rfl, hpc'⟩ := Prod.mk.inj (Option.some.inj hstep)
      have hsame : SameAccount m
          { m with children := (waitRound m ans).2 } :=
        ⟨rfl, rfl, rfl, length_waitRound m ans⟩
      split at hpc' <;>
        exact hpc' ▸ .goes hsame rfl rfl
          Pc.noConfusion Pc.noConfusion
  | await pid =>
      obtain ⟨rfl, hpc'⟩ := Prod.mk.inj (Option.some.inj hstep)
      have hsame : SameAccount m
          { m with children := (waitRound m ans).2 } :=
        ⟨rfl, rfl, rfl, length_waitRound m ans⟩
      split at hpc'
      · exact hpc' ▸ .goes hsame rfl rfl
          Pc.noConfusion Pc.noConfusion
      · split at hpc' <;>
          exact hpc' ▸ .goes hsame rfl rfl
            Pc.noConfusion Pc.noConfusion
      · exact hpc' ▸ .goes hsame rfl rfl
          Pc.noConfusion Pc.noConfusion
  | stopReap pid =>
      obtain ⟨children, hwait, hnext⟩ := Option.bind_eq_some_iff.mp hstep
      obtain ⟨rfl, rfl⟩ := Prod.mk.inj (Option.some.inj hnext)
      exact .goes ⟨rfl, rfl, rfl, length_waitpidBlocking hwait⟩ rfl rfl
        Pc.noConfusion Pc.noConfusion
  | healthReap pid =>
      obtain ⟨children, hwait, hnext⟩ := Option.bind_eq_some_iff.mp hstep
      obtain ⟨rfl, rfl⟩ := Prod.mk.inj (Option.some.inj hnext)
      exact .goes ⟨rfl, rfl, rfl, length_waitpidBlocking hwait⟩ rfl rfl
        Pc.noConfusion Pc.noConfusion
  | poll pid =>
      obtain ⟨rfl, rfl⟩ := Prod.mk.inj (Option.some.inj hstep)
      cases m.shared.stop_requested <;>
        exact .goes (.refl m) rfl rfl
          Pc.noConfusion Pc.noConfusion
  | health pid =>
      obtain ⟨rfl, rfl⟩ := Prod.mk.inj (Option.some.inj hstep)
      cases ans.healthy <;>
        exact .goes (.refl m) rfl rfl
          Pc.noConfusion Pc.noConfusion
  | backoff =>
      obtain ⟨rfl, rfl⟩ := Prod.mk.inj (Option.some.inj hstep)
      cases ans.rested || m.shared.stop_requested with
      | true =>
          exact .goes (.refl m) rfl rfl
            Pc.noConfusion Pc.noConfusion
      | false => exact .stay (.refl m) rfl Bool.noConfusion (.inl rfl)
  | exited => cases hstep
  | _ =>
      obtain ⟨rfl, rfl⟩ := Prod.mk.inj (Option.some.inj hstep)
      exact .goes ⟨rfl, rfl, rfl, rfl⟩ rfl rfl
        Pc.noConfusion Pc.noConfusion

end

/-! ## What the callers do to the account -/

section

variable {sh sh' : Shared} {c c' : Caller} {s s' : State} {a : Action}

/-- `RequestStop` and `SendSignalToChild` leave the counters alone. -/
theorem callerStep_account (hstops : c.Stops)
    (hstep : callerStep sh c = some (sh', c')) :
    sh'.config = sh.config ∧ sh'.restart_count = sh.restart_count ∧
      sh'.consecutive_restart_count = sh.consecutive_restart_count := by
  cases c with
  | signalLoad signum =>
      obtain ⟨rfl, -⟩ := Prod.mk.inj (Option.some.inj hstep)
      exact ⟨rfl, rfl, rfl⟩
  | signalKill pid signum =>
      obtain ⟨rfl, -⟩ := Prod.mk.inj (Option.some.inj hstep)
      exact ⟨rfl, rfl, rfl⟩
  | call pc =>
      obtain ⟨⟨sh₁, monitors, pc'⟩, hclient, hnext⟩ :=
        Option.bind_eq_some_iff.mp hstep
      obtain ⟨rfl, -⟩ := Prod.mk.inj (Option.some.inj hnext)
      cases pc with
      | idle => cases hclient
      | stopLoadStopping | stopLoadStopped | stopLoadIdle | stopRequest
      | stopStoreState | stopLoadChild | stopKill =>
          obtain ⟨rfl, -⟩ := Prod.mk.inj (Option.some.inj hclient)
          exact ⟨rfl, rfl, rfl⟩
      | _ => exact Bool.noConfusion hstops

/-- A step is one of the loop, or leaves the loop and the account alone. -/
theorem step_account (hs : Published s) (hstep : step s a = some s') :
    (∃ ans, a = .loop ans ∧
        AccountEffect s.memory ans s.pc s'.memory s'.pc) ∨
      (∀ ans, a ≠ .loop ans) ∧ SameAccount s.memory s'.memory ∧
        s'.pc = s.pc := by
  cases a with
  | requestStop t =>
      simp only [step] at hstep
      split at hstep
      · obtain rfl := Option.some.inj hstep
        exact .inr ⟨fun _ => Action.noConfusion, .refl _, rfl⟩
      · cases hstep
  | sendSignalToChild t signum =>
      simp only [step] at hstep
      split at hstep
      · obtain rfl := Option.some.inj hstep
        exact .inr ⟨fun _ => Action.noConfusion, .refl _, rfl⟩
      · cases hstep
  | caller t =>
      obtain ⟨c, hc, hrest⟩ := Option.bind_eq_some_iff.mp hstep
      obtain ⟨⟨sh, c'⟩, hcaller, hnext⟩ := Option.bind_eq_some_iff.mp hrest
      obtain rfl := Option.some.inj hnext
      obtain ⟨hconfig, hrestarts, hconsecutive⟩ :=
        callerStep_account (hs.callers c (List.mem_of_getElem? hc)) hcaller
      exact .inr ⟨fun _ => Action.noConfusion,
        ⟨hconfig, hrestarts, hconsecutive, rfl⟩, rfl⟩
  | loop ans =>
      obtain ⟨⟨m, pc⟩, hloop, hnext⟩ := Option.bind_eq_some_iff.mp hstep
      obtain rfl := Option.some.inj hnext
      exact .inl ⟨ans, rfl, loopStep_account hloop⟩

end

/-! ## The number of restarts -/

/-- When the loop has ended, `restart_count` is the number of spawns after the
first one. -/
def Accounted (m : Memory) (pc : Pc) : Prop :=
  pc.stage = .ended →
    m.shared.restart_count.toInt = (m.spawns - 1 : ℕ)

/-- If the loop ends here, it ends before the first spawn, or when a child has
exited that is not counted, and the count has not wrapped.  It does not end
between the account of an exit and the next spawn. -/
def EndsAccounted (m : Memory) : Pc → Prop
  | .test => m.shared.stop_requested = true → m.spawns = 0
  | .testStop => m.shared.stop_requested = true → m.spawns ≤ 2 ^ 31
  | .maxRestarts =>
      m.exceeds = true →
        m.shared.config.max_restart_policy ≠ .kStopMonitoring
  | _ => True

/-- `max_restarts` restarts have been performed when the loop ends, and as long
as the loop goes on to spawn a child there have been fewer. -/
structure Limited (m : Memory) (pc : Pc) : Prop where
  between : pc.stage = .between →
    (m.spawns : ℤ) - 1 < m.shared.config.max_restarts.toInt
  ended : pc.stage = .ended →
    (m.spawns : ℤ) - 1 = m.shared.config.max_restarts.toInt

/-- The loop sees no stop request and no stable run. -/
def Undisturbed (s : State) : Action → Prop
  | .loop ans =>
      s.memory.shared.stop_requested = false ∧
        (s.pc = .stable → s.memory.stableRun ans.now = false)
  | .requestStop _ | .sendSignalToChild _ _ | .caller _ => True

instance (s : State) : (a : Action) → Decidable (Undisturbed s a)
  | .loop ans =>
      inferInstanceAs
        (Decidable (s.memory.shared.stop_requested = false ∧
          (s.pc = .stable → s.memory.stableRun ans.now = false)))
  | .requestStop _ | .sendSignalToChild _ _ | .caller _ => .isTrue trivial

/-- The counter does not pass the maximum of `int` where it is compared with
that number. -/
def ComparesInRange (m : Memory) (pc : Pc) : Prop :=
  pc = .maxRestarts →
    m.shared.config.max_restarts.toInt = 2 ^ 31 - 1 → m.spawns < 2 ^ 31

/-- The access, if it is one of the loop, meets the condition. -/
def OnLoop (C : Memory → Pc → Prop) (s : State) : Action → Prop
  | .loop _ => C s.memory s.pc
  | .requestStop _ | .sendSignalToChild _ _ | .caller _ => True

/-- `restart_count` after `n` spawns. -/
def Stage.Counts (n : ℕ) (count : Int32) : Stage → Prop
  | .between => count = Int32.ofNat n
  | .alive => ∃ k, n = k + 1 ∧ count = Int32.ofNat k
  | .counting | .counted => 0 < n ∧ count = Int32.ofNat n
  | .ended => True

/-- `consecutive_restart_count` after `n` spawns, none of them stable. -/
def Stage.CountsConsecutive (n : ℕ) (count : Int32) : Stage → Prop
  | .between => count = Int32.ofNat n
  | .alive | .counting => ∃ k, n = k + 1 ∧ count = Int32.ofNat k
  | .counted => 0 < n ∧ count = Int32.ofNat n
  | .ended => True

/-- Under `kStopMonitoring` both counters are the same. -/
structure Consecutive (m : Memory) (pc : Pc) : Prop where
  policy : m.shared.config.max_restart_policy = .kStopMonitoring
  positive : 0 < m.shared.config.max_restarts
  count : pc.stage.CountsConsecutive m.spawns
    m.shared.consecutive_restart_count
  spawns : pc.stage ≠ .between →
    (m.spawns : ℤ) - 1 ≤ m.shared.config.max_restarts.toInt
  keeps : pc ≠ .resetCounter

section

variable {s s' : State} {a : Action} {cfg : Config} {callers : ℕ}

theorem Accounted.same {m m' : Memory} {pc pc' : Pc} (h : Accounted m pc)
    (hsame : SameAccount m m') (hstage : pc'.stage = pc.stage) :
    Accounted m' pc' := by
  rw [Accounted, hstage, hsame.spawns, hsame.restarts]
  exact h

theorem Limited.same {m m' : Memory} {pc pc' : Pc} (h : Limited m pc)
    (hsame : SameAccount m m') (hstage : pc'.stage = pc.stage) :
    Limited m' pc' := by
  refine ⟨?_, ?_⟩
  · rw [hstage, hsame.spawns, hsame.config]
    exact h.between
  · rw [hstage, hsame.spawns, hsame.config]
    exact h.ended

theorem Consecutive.same {m m' : Memory} {pc pc' : Pc}
    (h : Consecutive m pc) (hsame : SameAccount m m')
    (hstage : pc'.stage = pc.stage) (hkeeps : pc' ≠ .resetCounter) :
    Consecutive m' pc' := by
  refine ⟨?_, ?_, ?_, ?_, hkeeps⟩
  · rw [hsame.config]
    exact h.policy
  · rw [hsame.config]
    exact h.positive
  · rw [hstage, hsame.spawns, hsame.consecutive]
    exact h.count
  · rw [hstage, hsame.spawns, hsame.config]
    exact h.spawns

theorem toInt_ofNat_emod (n : ℕ) :
    (Int32.ofNat n).toInt % 2 ^ 32 = (n : ℤ) % 2 ^ 32 := by
  rw [Int32.toInt_ofNat']
  exact Int.bmod_emod

/-- A count that has not passed the maximum of `int`. -/
theorem toInt_ofNat_eq_iff {n : ℕ} :
    (Int32.ofNat n).toInt = n ↔ n < 2 ^ 31 := by
  constructor
  · intro h
    have hlt := Int32.toInt_lt (Int32.ofNat n)
    omega
  · exact Int32.toInt_ofNat_of_lt

/-- The count is not that of one exit less. -/
theorem toInt_ofNat_ne {n : ℕ} (hn : 0 < n) :
    (Int32.ofNat n).toInt ≠ (n - 1 : ℕ) := by
  intro h
  have hmod := toInt_ofNat_emod n
  omega

/-- An access of the loop keeps the count, and ends the loop with the right one
exactly if it does not end it between the account of an exit and a spawn. -/
theorem AccountEffect.restarts {m m' : Memory} {ans : Answer} {pc pc' : Pc}
    (h : AccountEffect m ans pc m' pc')
    (hcount : pc.stage.Counts m.spawns m.shared.restart_count) :
    pc'.stage.Counts m'.spawns m'.shared.restart_count ∧
      (Accounted m pc → (Accounted m' pc' ↔ EndsAccounted m pc)) := by
  have hgoes : ∀ {P : Prop}, pc'.stage ≠ .ended → P →
      (Accounted m pc → (Accounted m' pc' ↔ P)) := fun hne hP _ =>
    iff_of_true (fun hended => absurd hended hne) hP
  cases h with
  | stay hsame hstage hdecides htarget =>
      rw [hstage, hsame.spawns, hsame.restarts]
      refine ⟨hcount, fun hP => iff_of_true (hP.same hsame hstage) ?_⟩
      cases pc with
      | test | testStop =>
          intro hstop
          rw [(hdecides rfl).2] at hstop
          exact Bool.noConfusion hstop
      | maxRestarts =>
          obtain ⟨hpc | hpc, -⟩ := hdecides rfl
          · cases hpc
          · cases hpc
      | _ => exact trivial
  | stopTest hstop =>
      refine ⟨trivial, fun _ => ?_⟩
      change (_ → _) ↔ (_ → m.spawns = 0)
      rw [hcount]
      constructor
      · intro hP _
        by_contra hne
        exact toInt_ofNat_ne (Nat.pos_of_ne_zero hne) (hP rfl)
      · intro hzero _
        rw [hzero hstop]
        rfl
  | stopExited hstop =>
      obtain ⟨k, hk, hrestarts⟩ := hcount
      refine ⟨trivial, fun _ => ?_⟩
      change (_ → _) ↔ (_ → m.spawns ≤ 2 ^ 31)
      rw [hk, hrestarts, Nat.add_sub_cancel]
      have hlt := @toInt_ofNat_eq_iff k
      constructor
      · intro hP _
        exact hlt.mp (hP rfl)
      · intro hle _
        exact hlt.mpr (hle hstop)
  | spawn pid hshared hspawns =>
      refine ⟨⟨m.spawns, hspawns, ?_⟩, hgoes Stage.noConfusion trivial⟩
      rw [hshared]
      exact hcount
  | stable hstable => exact ⟨hcount, hgoes (by decide) trivial⟩
  | unstable hstable => exact ⟨hcount, hgoes (by decide) trivial⟩
  | countRestart =>
      obtain ⟨k, hk, hrestarts⟩ := hcount
      refine ⟨⟨?_, ?_⟩, hgoes (by decide) trivial⟩
      · change 0 < m.spawns
        omega
      · change m.shared.restart_count + 1 = Int32.ofNat m.spawns
        rw [hk, hrestarts, Int32.ofNat_add]
        rfl
  | countConsecutive => exact ⟨hcount, hgoes (by decide) trivial⟩
  | giveUp hmax hpolicy =>
      refine ⟨trivial, fun _ => iff_of_false ?_ fun hends =>
        hends hmax hpolicy⟩
      intro hP
      have hrestarts := hP rfl
      rw [hcount.2] at hrestarts
      exact toInt_ofNat_ne hcount.1 hrestarts
  | reset hmax hpolicy =>
      refine ⟨hcount, hgoes (by decide) fun _ => ?_⟩
      rw [hpolicy]
      exact MaxRestartPolicy.noConfusion
  | goOn hmax =>
      refine ⟨hcount.2, hgoes (by decide) fun hexceeds => ?_⟩
      rw [hmax] at hexceeds
      exact Bool.noConfusion hexceeds
  | resetCounter => exact ⟨hcount.2, hgoes (by decide) trivial⟩

/-- The comparison with the maximum, after `n` exits. -/
theorem exceeds_iff {m : Memory} {n : ℕ}
    (hpositive : 0 < m.shared.config.max_restarts)
    (hcount : m.shared.consecutive_restart_count = Int32.ofNat n) :
    m.exceeds = true ↔
      m.shared.config.max_restarts.toInt < (Int32.ofNat n).toInt := by
  rw [Memory.exceeds, hcount, Bool.and_eq_true, decide_eq_true_iff,
    decide_eq_true_iff, Int32.lt_iff_toInt_lt (y := Int32.ofNat n)]
  exact and_iff_right hpositive

/-- The loop ends when it has performed the maximum of restarts, unless the
counter has wrapped. -/
theorem AccountEffect.consecutive {m m' : Memory} {ans : Answer} {pc pc' : Pc}
    (h : AccountEffect m ans pc m' pc') (hs : Consecutive m pc)
    (hP : Limited m pc) (hstop : m.shared.stop_requested = false)
    (hstable : pc = .stable → m.stableRun ans.now = false) :
    Consecutive m' pc' ∧ (Limited m' pc' ↔ ComparesInRange m pc) := by
  have hstopped : ∀ {P : Prop}, m.shared.stop_requested = true → P := by
    intro P h
    rw [hstop] at h
    exact Bool.noConfusion h
  have ⟨hpolicy, hpositive, hcount, hspawns, hkeeps⟩ := hs
  cases h with
  | stay hsame hstage hdecides htarget =>
      have hkeeps' : pc' ≠ .resetCounter := by
        rcases htarget with rfl | ⟨hne, -⟩
        · exact hkeeps
        · exact hne
      refine ⟨hs.same hsame hstage hkeeps',
        iff_of_true (hP.same hsame hstage) ?_⟩
      rintro rfl
      obtain ⟨hpc | hpc, -⟩ := hdecides rfl
      · cases hpc
      · cases hpc
  | stopTest hstop' => exact hstopped hstop'
  | stopExited hstop' => exact hstopped hstop'
  | spawn pid hshared hspawned =>
      have hlt := hP.between rfl
      constructor
      · refine ⟨?_, ?_, ⟨m.spawns, hspawned, ?_⟩, fun _ => ?_, Pc.noConfusion⟩
        · rwa [hshared]
        · rwa [hshared]
        · rw [hshared]
          exact hcount
        · rw [hshared, hspawned]
          omega
      · exact iff_of_true ⟨Stage.noConfusion, Stage.noConfusion⟩
          Pc.noConfusion
  | stable hstable' =>
      rw [hstable rfl] at hstable'
      exact Bool.noConfusion hstable'
  | unstable hstable' =>
      refine ⟨⟨hpolicy, hpositive, hcount, fun _ => hspawns Stage.noConfusion,
        Pc.noConfusion⟩, ?_⟩
      exact iff_of_true ⟨Stage.noConfusion, Stage.noConfusion⟩ Pc.noConfusion
  | countRestart =>
      refine ⟨⟨hpolicy, hpositive, hcount, fun _ => hspawns Stage.noConfusion,
        Pc.noConfusion⟩, ?_⟩
      exact iff_of_true ⟨Stage.noConfusion, Stage.noConfusion⟩ Pc.noConfusion
  | countConsecutive =>
      obtain ⟨k, hk, hconsecutive⟩ := hcount
      refine ⟨⟨hpolicy, hpositive, ⟨?_, ?_⟩,
        fun _ => hspawns Stage.noConfusion, Pc.noConfusion⟩, ?_⟩
      · change 0 < m.spawns
        omega
      · change m.shared.consecutive_restart_count + 1 = Int32.ofNat m.spawns
        rw [hk, hconsecutive, Int32.ofNat_add]
        rfl
      · exact iff_of_true ⟨Stage.noConfusion, Stage.noConfusion⟩
          Pc.noConfusion
  | giveUp hmax hpolicy' =>
      have hle := hspawns Stage.noConfusion
      have hlt := (exceeds_iff hpositive hcount.2).mp hmax
      have hrange := Int32.toInt_lt (Int32.ofNat m.spawns)
      -- A count is not above the number of exits, wrapped or not.
      have hcounted : (Int32.ofNat m.spawns).toInt ≤ m.spawns := by
        by_cases hsmall : m.spawns < 2 ^ 31
        · exact le_of_eq (Int32.toInt_ofNat_of_lt hsmall)
        · omega
      refine ⟨⟨hpolicy, hpositive, trivial, fun _ => hle, Pc.noConfusion⟩, ?_⟩
      refine iff_of_true ⟨Stage.noConfusion, fun _ => ?_⟩ fun _ hmaximum => ?_
      · omega
      · omega
  | reset hmax hpolicy' =>
      rw [hpolicy] at hpolicy'
      exact MaxRestartPolicy.noConfusion hpolicy'
  | goOn hmax =>
      have hle := hspawns Stage.noConfusion
      have hnot := (exceeds_iff hpositive hcount.2).not.mp
        (Bool.eq_false_iff.mp hmax)
      have hmaximum := Int32.toInt_lt m.shared.config.max_restarts
      refine ⟨⟨hpolicy, hpositive, hcount.2, fun hne => absurd rfl hne,
        Pc.noConfusion⟩, ?_⟩
      constructor
      · intro hP' _ heq
        have hlt := hP'.between rfl
        omega
      · intro hrange
        have hsmall : m.spawns < 2 ^ 31 := by
          by_cases heq : m.shared.config.max_restarts.toInt = 2 ^ 31 - 1
          · exact hrange rfl heq
          · omega
        rw [Int32.toInt_ofNat_of_lt hsmall] at hnot
        exact ⟨fun _ => by omega, Stage.noConfusion⟩
  | resetCounter => exact absurd rfl hkeeps

/-- From one access of the loop to a whole step. -/
theorem step_onLoop {I P C : Memory → Pc → Prop} (hs : Published s)
    (hI : I s.memory s.pc) (hP : P s.memory s.pc)
    (hsame : ∀ m m' pc, SameAccount m m' → I m pc → P m pc →
      I m' pc ∧ P m' pc)
    (hloop : ∀ ans m' pc', a = .loop ans →
      AccountEffect s.memory ans s.pc m' pc' →
        I m' pc' ∧ (P m' pc' ↔ C s.memory s.pc))
    (hstep : step s a = some s') :
    (Published s' ∧ I s'.memory s'.pc) ∧
      (P s'.memory s'.pc ↔ OnLoop C s a) := by
  have hs' := hs.step hstep
  obtain ⟨ans, rfl, heffect⟩ | ⟨hother, haccount, hpc⟩ := step_account hs hstep
  · obtain ⟨hI', hiff⟩ := hloop ans _ _ rfl heffect
    exact ⟨⟨hs', hI'⟩, hiff⟩
  · rw [hpc]
    obtain ⟨hI', hP'⟩ := hsame _ _ s.pc haccount hI hP
    refine ⟨⟨hs', hI'⟩, iff_of_true hP' ?_⟩
    cases a with
    | loop ans => exact absurd rfl (hother ans)
    | _ => trivial

/-- `restart_count` is the number of restarts at the end of the loop exactly
if the loop does not end between the account of an exit and the next spawn.
Under `kStopMonitoring`, without a stop request and without a stable run, the
loop ends after exactly `max_restarts` restarts, exactly if the counter does
not wrap before. -/
theorem restarts_iff (cfg : Config) (callers : ℕ) (acts : List Action) :
    (Transition.AllStates step (fun s => Accounted s.memory s.pc)
        (init cfg callers) acts ↔
      Transition.AllSteps step (OnLoop EndsAccounted) (init cfg callers)
        acts) ∧
    (cfg.max_restart_policy = .kStopMonitoring → 0 < cfg.max_restarts →
      Transition.AllSteps step Undisturbed (init cfg callers) acts →
        (Transition.AllStates step (fun s => Limited s.memory s.pc)
            (init cfg callers) acts ↔
          Transition.AllSteps step (OnLoop ComparesInRange)
            (init cfg callers) acts)) := by
  constructor
  · refine Transition.allStates_iff_allSteps
      (I := fun s => Published s ∧
        s.pc.stage.Counts s.memory.spawns s.memory.shared.restart_count)
      ?_ ⟨published_init, rfl⟩ (fun h => Stage.noConfusion h) acts
    intro s a s' hI hP hstep
    refine step_onLoop (I := fun m pc =>
      pc.stage.Counts m.spawns m.shared.restart_count) hI.1 hI.2 hP ?_ ?_ hstep
    · intro m m' pc hsame hcount hP
      rw [hsame.spawns, hsame.restarts]
      exact ⟨hcount, hP.same hsame rfl⟩
    · intro ans m' pc' _ heffect
      obtain ⟨hcount', hiff⟩ := heffect.restarts hI.2
      exact ⟨hcount', hiff hP⟩
  · intro hpolicy hpositive hundisturbed
    have hcount : Consecutive (init cfg callers).memory
        (init cfg callers).pc :=
      ⟨hpolicy, hpositive, rfl, fun hne => absurd rfl hne, Pc.noConfusion⟩
    have hmaximum : 0 < cfg.max_restarts.toInt :=
      Int32.lt_iff_toInt_lt.mp hpositive
    have hlimited : Limited (init cfg callers).memory
        (init cfg callers).pc := by
      refine ⟨fun _ => ?_, Stage.noConfusion⟩
      change ((0 : ℕ) : ℤ) - 1 < cfg.max_restarts.toInt
      omega
    refine Transition.allStates_iff_allSteps_of_allSteps
      (I := fun s => Published s ∧ Consecutive s.memory s.pc)
      ?_ ⟨published_init, hcount⟩ hlimited hundisturbed
    intro s a s' hI hP hquiet hstep
    refine step_onLoop hI.1 hI.2 hP ?_ ?_ hstep
    · intro m m' pc hsame h hP
      exact ⟨h.same hsame rfl h.keeps, hP.same hsame rfl⟩
    · rintro ans m' pc' rfl heffect
      exact heffect.consecutive hI.2 hP hquiet.1 hquiet.2

end

/-! ## A run that gives up -/

/-- A command that is restarted once. -/
def restartsOnce : Config where
  argv := ["child"]
  max_restarts := 1

/-- The child exits at once, is restarted, and exits again. -/
def givesUp : List Action :=
  List.replicate 31 (.loop { pid := 7 })

theorem givesUp_isSome :
    (Transition.run step (init restartsOnce 0) givesUp).isSome = true := by
  decide

theorem restarts_iff_givesUp :
    Transition.AllStates step (fun s => Limited s.memory s.pc)
        (init restartsOnce 0) givesUp ↔
      Transition.AllSteps step (OnLoop ComparesInRange)
        (init restartsOnce 0) givesUp :=
  (restarts_iff restartsOnce 0 givesUp).2 rfl (by decide) (by decide)

/-- Two children have been spawned, and two restarts are reported. -/
theorem exists_overcounted :
    ∃ cfg callers s, Transition.Reachable step {init cfg callers} s ∧
      s.pc = .returned ∧ s.memory.spawns = 2 ∧
      s.memory.shared.restart_count = 2 ∧ ¬ Accounted s.memory s.pc := by
  refine ⟨restartsOnce, 0,
    (Transition.run step (init restartsOnce 0) givesUp).get givesUp_isSome,
    Transition.reachable_get_run (Set.mem_singleton _) givesUp_isSome,
    by decide, by decide, by decide, fun hcount => ?_⟩
  exact absurd (hcount (by decide)) (by decide)

end MonitorLoop
end MonitorProcess
end Yacul
