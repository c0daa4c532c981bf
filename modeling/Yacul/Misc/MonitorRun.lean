import Yacul.Misc.MonitorLoop

/-!
# One run of the monitor thread

The monitor thread from the moment `Start` has created it, with callers of
`RequestStop` and `SendSignalToChild`.  A note is kept of a `kill` with the
pid of a child that has been reaped.
-/

namespace Yacul
namespace MonitorProcess
namespace MonitorLoop

/-- Where a caller is: in a call of the coarser model, or in
`SendSignalToChild`. -/
inductive Caller
  | call (pc : MonitorProcess.Pc)
  | signalLoad (signum : ℤ)
  | signalKill (pid signum : ℤ)
deriving DecidableEq, Repr

structure State where
  memory : Memory
  pc : Pc
  callers : List Caller
  lateKill : Bool
deriving DecidableEq, Repr

/-- A caller begins a call or moves; the monitor thread moves. -/
inductive Action
  | requestStop (t : ℕ)
  | sendSignalToChild (t : ℕ) (signum : ℤ)
  | caller (t : ℕ)
  | loop (ans : Answer)
deriving DecidableEq, Repr

/-- The children with this pid have all been reaped, so the pid may be that of
any process. -/
def gone (children : List Child) (pid : ℤ) : Bool :=
  children.any (fun c => c.pid = pid) && !children.any (Child.holds pid)

/-- The pid that the next access of a caller signals. -/
def Caller.kills : Caller → Option ℤ
  | .call (.stopKill pid) => some pid
  | .signalKill pid _ => some pid
  | _ => none

/-- The pid that the next access of the loop signals. -/
def Pc.kills : Pc → Option ℤ
  | .stopKill pid | .stopSigkill pid | .healthSigkill pid => some pid
  | _ => none

/-- One access of a caller. -/
def callerStep (sh : Shared) : Caller → Option (Shared × Caller)
  | .call pc => do
      let (sh, _, pc) ← clientStep sh [] true pc
      some (sh, .call pc)
  | .signalLoad signum =>
      some (sh,
        if sh.child_pid ≤ 0 then .call .idle
        else .signalKill sh.child_pid signum)
  | .signalKill _ _ => some (sh, .call .idle)

/-- A `kill` with the pid of a reaped child. -/
def late (s : State) (pid : Option ℤ) : Bool :=
  s.lateKill || pid.any (gone s.memory.children)

def step (s : State) : Action → Option State
  | .requestStop t =>
      match s.callers[t]? with
      | some (.call .idle) =>
          some
            { s with callers := s.callers.set t (.call (begin .RequestStop)) }
      | _ => none
  | .sendSignalToChild t signum =>
      match s.callers[t]? with
      | some (.call .idle) =>
          some { s with callers := s.callers.set t (.signalLoad signum) }
      | _ => none
  | .caller t => do
      let c ← s.callers[t]?
      let (sh, c') ← callerStep s.memory.shared c
      some
        { s with
          memory := { s.memory with shared := sh }
          callers := s.callers.set t c'
          lateKill := late s c.kills }
  | .loop ans => do
      let (memory, pc) ← loopStep s.memory ans s.pc
      some
        { s with
          memory := memory
          pc := pc
          lateKill := late s s.pc.kills }

/-- The monitor thread as `Start` has created it. -/
def init (cfg : Config) (callers : ℕ) : State where
  memory :=
    { shared := { Shared.init with config := cfg, state := .kRunning }
      last_start_time := 0
      children := [] }
  pc := .test
  callers := List.replicate callers (.call .idle)
  lateKill := false

/-- The child that the loop looks after. -/
def Pc.child : Pc → Option ℤ
  | .publish pid | .stamp pid | .poll pid | .stopKill pid | .stopWait pid
  | .stopSigkill pid | .stopReap pid | .await pid | .health pid
  | .healthSigkill pid | .healthReap pid => some pid
  | _ => none

/-- The loop has published the pid of the child and not cleared it. -/
def Pc.published : Pc → Bool
  | .stamp _ | .poll _ | .stopKill _ | .stopWait _ | .stopSigkill _
  | .stopReap _ | .await _ | .health _ | .healthSigkill _ | .healthReap _
  | .childExited => true
  | _ => false

/-- The loop is in a `waitpid` that blocks. -/
def Pc.blocks : Pc → Bool
  | .stopReap _ | .healthReap _ => true
  | _ => false

/-- The access of the loop is a `waitpid` that returns a child. -/
def reaps (ans : Answer) : Pc → Bool
  | .stopWait _ | .await _ => !ans.expired && !ans.interrupted && ans.exited
  | .stopReap _ | .healthReap _ => !ans.interrupted && ans.exited
  | _ => false

/-! ## What an access of the loop does to the children -/

/-- The accesses of the loop by what they do to the children, the published
pid and the child that the loop looks after. -/
inductive LoopEffect (m : Memory) (ans : Answer) (pc : Pc) :
    Memory → Pc → Prop
  | stay {m' pc'} (hchildren : m'.children = m.children)
      (hpid : m'.shared.child_pid = m.shared.child_pid)
      (hchild : pc'.child = pc.child)
      (hpublished : pc'.published = pc.published) :
      LoopEffect m ans pc m' pc'
  | fork {m' pid} (hpc : pc = .spawn)
      (hfresh : m.children.any (Child.holds pid) = false)
      (hchildren : m'.children = m.children ++ [{ pid := pid }])
      (hpid : m'.shared.child_pid = m.shared.child_pid) :
      LoopEffect m ans pc m' (.publish pid)
  | publish {m' pid} (hpc : pc = .publish pid)
      (hchildren : m'.children = m.children)
      (hpid : m'.shared.child_pid = pid) : LoopEffect m ans pc m' (.stamp pid)
  | reap {m' pid} (hchild : pc.child = some pid)
      (hpublished : pc.published = true) (hreaps : reaps ans pc = true)
      (hchildren : m'.children = reap pid m.children)
      (hpid : m'.shared.child_pid = m.shared.child_pid) :
      LoopEffect m ans pc m' .childExited
  | lose {m' pid} (hchild : pc.child = some pid)
      (hpublished : pc.published = true)
      (hlost : m.children.any (Child.holds pid) = true →
        pc.blocks = true ∧ ans.interrupted = true)
      (hchildren : m'.children = m.children)
      (hpid : m'.shared.child_pid = m.shared.child_pid) :
      LoopEffect m ans pc m' .childExited
  | forget {m' pc'} (hchild : pc.child = none) (hchild' : pc'.child = none)
      (hpublished : pc'.published = false)
      (hchildren : m'.children = m.children)
      (hpid : m'.shared.child_pid = 0) : LoopEffect m ans pc m' pc'

section

variable {m m' : Memory} {ans : Answer} {pc pc' : Pc} {pid : ℤ}
  {children : List Child}

/-- What `waitpid` answers, and what it does to the children. -/
theorem waitpid_cases (children : List Child) (pid : ℤ) (ans : Answer) :
    (waitpid children pid ans = (.reaped, MonitorLoop.reap pid children) ∧
        ans.interrupted = false ∧ ans.exited = true) ∨
      waitpid children pid ans = (.running, children) ∨
      (waitpid children pid ans = (.eintr, children) ∧
        ans.interrupted = true) ∨
      (waitpid children pid ans = (.echild, children) ∧
        children.any (Child.holds pid) = false) := by
  unfold waitpid
  cases hinterrupted : ans.interrupted with
  | true => exact Or.inr (Or.inr (Or.inl ⟨rfl, rfl⟩))
  | false =>
      cases hheld : children.any (Child.holds pid) with
      | false => exact Or.inr (Or.inr (Or.inr ⟨rfl, rfl⟩))
      | true =>
          cases hexited : ans.exited with
          | true => exact Or.inl ⟨rfl, rfl, rfl⟩
          | false => exact Or.inr (Or.inl rfl)

/-- What a round of `WaitForChildWithTimeout` answers. -/
theorem waitRound_cases (m : Memory) (ans : Answer) :
    (waitRound m ans =
          (some true, MonitorLoop.reap m.shared.child_pid m.children) ∧
        (!ans.expired && !ans.interrupted && ans.exited) = true) ∨
      (waitRound m ans = (some true, m.children) ∧
        m.children.any (Child.holds m.shared.child_pid) = false) ∨
      waitRound m ans = (some false, m.children) ∨
      waitRound m ans = (none, m.children) := by
  unfold waitRound
  cases hexpired : ans.expired with
  | true => exact Or.inr (Or.inr (Or.inl rfl))
  | false =>
      obtain ⟨hwait, hinterrupted, hexited⟩ | hwait | ⟨hwait, -⟩ |
          ⟨hwait, hheld⟩ :=
        waitpid_cases m.children m.shared.child_pid ans
      · rw [hwait, hinterrupted, hexited]
        exact Or.inl ⟨rfl, rfl⟩
      · rw [hwait]
        exact Or.inr (Or.inr (Or.inr rfl))
      · rw [hwait]
        exact Or.inr (Or.inr (Or.inr rfl))
      · rw [hwait]
        exact Or.inr (Or.inl ⟨rfl, hheld⟩)

/-- A round of the wait for the published child, in a loop that goes on at
`late` when the deadline is over. -/
theorem LoopEffect.wait (late : Pc) (hchild : pc.child = some pid)
    (hpublished : pc.published = true) (hpid : m.shared.child_pid = pid)
    (hreaps : reaps ans pc =
      (!ans.expired && !ans.interrupted && ans.exited))
    (hlate : late.child = some pid) (hlate' : late.published = true) :
    LoopEffect m ans pc { m with children := (waitRound m ans).2 }
      (match (waitRound m ans).1 with
        | some true => .childExited
        | some false => late
        | none => pc) := by
  obtain ⟨hround, hreaped⟩ | ⟨hround, hheld⟩ | hround | hround :=
    waitRound_cases m ans
  · rw [hround]
    exact .reap hchild hpublished (hreaps.trans hreaped)
      (congrArg (MonitorLoop.reap · m.children) hpid) rfl
  · rw [hround]
    refine .lose hchild hpublished (fun hheld' => ?_) rfl rfl
    rw [hpid, hheld'] at hheld
    exact Bool.noConfusion hheld
  · rw [hround]
    exact .stay rfl rfl (hlate.trans hchild.symm)
      (hlate'.trans hpublished.symm)
  · rw [hround]
    exact .stay rfl rfl rfl rfl

/-- A `waitpid` that blocks. -/
theorem LoopEffect.waitBlocking (hchild : pc.child = some pid)
    (hpublished : pc.published = true) (hblocks : pc.blocks = true)
    (hreaps : reaps ans pc = (!ans.interrupted && ans.exited))
    (hwait : waitpidBlocking m.children pid ans = some children) :
    LoopEffect m ans pc { m with children := children } .childExited := by
  obtain ⟨rfl, hrunning⟩ := waitpidBlocking_eq_some hwait
  obtain ⟨hwait, hinterrupted, hexited⟩ | hwait | ⟨hwait, hinterrupted⟩ |
      ⟨hwait, hheld⟩ := waitpid_cases m.children pid ans
  · rw [hinterrupted, hexited] at hreaps
    exact .reap hchild hpublished hreaps (congrArg Prod.snd hwait) rfl
  · exact absurd (congrArg Prod.fst hwait) hrunning
  · exact .lose hchild hpublished (fun _ => ⟨hblocks, hinterrupted⟩)
      (congrArg Prod.snd hwait) rfl
  · refine .lose hchild hpublished (fun hheld' => ?_)
      (congrArg Prod.snd hwait) rfl
    rw [hheld'] at hheld
    exact Bool.noConfusion hheld

/-- Every access of the loop, when the child it looks after is the published
one. -/
theorem loopStep_effect (hstep : loopStep m ans pc = some (m', pc'))
    (hpid : pc.published = true → ∀ pid, pc.child = some pid →
      m.shared.child_pid = pid) : LoopEffect m ans pc m' pc' := by
  cases pc with
  | spawn =>
      simp only [loopStep] at hstep
      split at hstep
      · obtain ⟨rfl, rfl⟩ := Prod.mk.inj (Option.some.inj hstep)
        exact .stay rfl rfl rfl rfl
      · split at hstep
        · cases hstep
        · next hfresh =>
            obtain ⟨rfl, rfl⟩ := Prod.mk.inj (Option.some.inj hstep)
            exact .fork rfl (Bool.eq_false_of_not_eq_true hfresh) rfl rfl
  | publish pid =>
      obtain ⟨rfl, rfl⟩ := Prod.mk.inj (Option.some.inj hstep)
      exact .publish rfl rfl rfl
  | stamp pid =>
      simp only [loopStep] at hstep
      split at hstep
      · cases hstep
      · obtain ⟨rfl, rfl⟩ := Prod.mk.inj (Option.some.inj hstep)
        exact .stay rfl rfl rfl rfl
  | stopWait pid =>
      obtain ⟨hm', hpc'⟩ := Prod.mk.inj (Option.some.inj hstep)
      have hwait : LoopEffect m ans (.stopWait pid) _ _ :=
        .wait (.stopSigkill pid) rfl rfl (hpid rfl pid rfl) rfl rfl rfl
      exact hm' ▸ hpc' ▸ hwait
  | await pid =>
      obtain ⟨hm', hpc'⟩ := Prod.mk.inj (Option.some.inj hstep)
      let late : Pc :=
        if m.shared.config.health_check then .health pid else .poll pid
      have hlate : late.child = some pid ∧ late.published = true := by
        simp only [late]
        cases m.shared.config.health_check <;> exact ⟨rfl, rfl⟩
      have hwait : LoopEffect m ans (.await pid) _ _ :=
        .wait late rfl rfl (hpid rfl pid rfl) rfl hlate.1 hlate.2
      exact hm' ▸ hpc' ▸ hwait
  | stopReap pid =>
      obtain ⟨children, hwait, hnext⟩ := Option.bind_eq_some_iff.mp hstep
      obtain ⟨rfl, rfl⟩ := Prod.mk.inj (Option.some.inj hnext)
      exact .waitBlocking rfl rfl rfl rfl hwait
  | healthReap pid =>
      obtain ⟨children, hwait, hnext⟩ := Option.bind_eq_some_iff.mp hstep
      obtain ⟨rfl, rfl⟩ := Prod.mk.inj (Option.some.inj hnext)
      exact .waitBlocking rfl rfl rfl rfl hwait
  | childExited | clear =>
      obtain ⟨rfl, rfl⟩ := Prod.mk.inj (Option.some.inj hstep)
      exact .forget rfl rfl rfl rfl rfl
  | test | poll | testStop =>
      obtain ⟨rfl, rfl⟩ := Prod.mk.inj (Option.some.inj hstep)
      cases m.shared.stop_requested <;> exact .stay rfl rfl rfl rfl
  | health =>
      obtain ⟨rfl, rfl⟩ := Prod.mk.inj (Option.some.inj hstep)
      cases ans.healthy <;> exact .stay rfl rfl rfl rfl
  | maxRestarts =>
      obtain ⟨rfl, hpc'⟩ := Prod.mk.inj (Option.some.inj hstep)
      split at hpc'
      · split at hpc' <;> exact hpc' ▸ .stay rfl rfl rfl rfl
      · exact hpc' ▸ .stay rfl rfl rfl rfl
  | stable =>
      obtain ⟨hm', rfl⟩ := Prod.mk.inj (Option.some.inj hstep)
      split at hm' <;> exact hm' ▸ .stay rfl rfl rfl rfl
  | backoff =>
      obtain ⟨rfl, rfl⟩ := Prod.mk.inj (Option.some.inj hstep)
      cases ans.rested || m.shared.stop_requested <;>
        exact .stay rfl rfl rfl rfl
  | exited => cases hstep
  | _ =>
      obtain ⟨rfl, rfl⟩ := Prod.mk.inj (Option.some.inj hstep)
      exact .stay rfl rfl rfl rfl

end

/-! ## What the callers do -/

/-- Where `RequestStop` can be. -/
def stopping : MonitorProcess.Pc → Bool
  | .idle | .stopLoadStopping | .stopLoadStopped | .stopLoadIdle
  | .stopRequest | .stopStoreState | .stopLoadChild | .stopKill _ => true
  | _ => false

/-- A caller is idle or in `RequestStop` or `SendSignalToChild`. -/
def Caller.Stops : Caller → Prop
  | .call pc => stopping pc = true
  | .signalLoad _ | .signalKill _ _ => True

/-- A caller is about to load `child_pid_`. -/
def Caller.loads : Caller → Bool
  | .call .stopLoadChild | .signalLoad _ => true
  | _ => false

section

variable {sh sh' : Shared} {c c' : Caller}

/-- `RequestStop` leaves the published pid, and signals what it has loaded. -/
theorem clientStep_stopping {monitors monitors' : List Monitor}
    {created : Bool} {pc pc' : MonitorProcess.Pc} (hstops : stopping pc = true)
    (hstep : clientStep sh monitors created pc = some (sh', monitors', pc')) :
    sh'.child_pid = sh.child_pid ∧ stopping pc' = true ∧
      ∀ pid, pc' = .stopKill pid →
        pc = .stopLoadChild ∧ pid = sh.child_pid := by
  cases pc with
  | idle => cases hstep
  | stopLoadStopping | stopLoadStopped | stopLoadIdle =>
      obtain ⟨rfl, hrest⟩ := Prod.mk.inj (Option.some.inj hstep)
      obtain ⟨rfl, rfl⟩ := Prod.mk.inj hrest
      refine ⟨rfl, ?_, fun pid hpid => ?_⟩
      · split <;> rfl
      · split at hpid <;> cases hpid
  | stopRequest | stopStoreState | stopKill =>
      obtain ⟨rfl, hrest⟩ := Prod.mk.inj (Option.some.inj hstep)
      obtain ⟨rfl, rfl⟩ := Prod.mk.inj hrest
      exact ⟨rfl, rfl, fun pid hpid => by cases hpid⟩
  | stopLoadChild =>
      obtain ⟨rfl, hrest⟩ := Prod.mk.inj (Option.some.inj hstep)
      obtain ⟨rfl, rfl⟩ := Prod.mk.inj hrest
      refine ⟨rfl, ?_, fun pid hpid => ⟨rfl, ?_⟩⟩
      · split <;> rfl
      · split at hpid
        · exact (MonitorProcess.Pc.stopKill.inj hpid).symm
        · cases hpid
  | _ => exact Bool.noConfusion hstops

/-- A caller leaves the published pid, and goes on to signal only the pid it
has loaded. -/
theorem callerStep_effect (hstops : c.Stops)
    (hstep : callerStep sh c = some (sh', c')) :
    sh'.child_pid = sh.child_pid ∧ c'.Stops ∧
      ∀ pid, c'.kills = some pid → c.loads = true ∧ pid = sh.child_pid := by
  cases c with
  | signalKill pid signum =>
      obtain ⟨rfl, rfl⟩ := Prod.mk.inj (Option.some.inj hstep)
      exact ⟨rfl, rfl, fun pid hpid => by cases hpid⟩
  | signalLoad signum =>
      obtain ⟨rfl, rfl⟩ := Prod.mk.inj (Option.some.inj hstep)
      split
      · exact ⟨rfl, rfl, fun pid hpid => by cases hpid⟩
      · exact ⟨rfl, trivial,
          fun pid hpid => ⟨rfl, (Option.some.inj hpid).symm⟩⟩
  | call pc =>
      obtain ⟨⟨sh₁, monitors, pc'⟩, hclient, hnext⟩ :=
        Option.bind_eq_some_iff.mp hstep
      obtain ⟨rfl, rfl⟩ := Prod.mk.inj (Option.some.inj hnext)
      obtain ⟨hpid, hstops', hloaded⟩ := clientStep_stopping hstops hclient
      refine ⟨hpid, hstops', fun pid hkills => ?_⟩
      have hkill : pc' = .stopKill pid := by
        cases pc' with
        | stopKill pid' => rw [Option.some.inj hkills]
        | _ => cases hkills
      obtain ⟨rfl, hpid'⟩ := hloaded pid hkill
      exact ⟨rfl, hpid'⟩

end

/-! ## The published pid -/

/-- While the loop looks after a published child, its pid is the published
one; the callers are in `RequestStop` and `SendSignalToChild`. -/
structure Published (s : State) : Prop where
  pid : s.pc.published = true → ∀ pid, s.pc.child = some pid →
    s.memory.shared.child_pid = pid
  callers : ∀ c ∈ s.callers, c.Stops

section

variable {s s' : State} {a : Action} {cfg : Config} {callers : ℕ}

theorem published_init : Published (init cfg callers) where
  pid := fun h => Bool.noConfusion h
  callers := fun c hc => by
    rw [List.eq_of_mem_replicate hc]
    rfl

theorem Published.step (hs : Published s) (hstep : step s a = some s') :
    Published s' := by
  cases a with
  | requestStop t =>
      simp only [MonitorLoop.step] at hstep
      split at hstep
      · obtain rfl := Option.some.inj hstep
        refine { hs with callers := fun c hc => ?_ }
        rcases List.mem_or_eq_of_mem_set hc with hold | rfl
        · exact hs.callers c hold
        · rfl
      · cases hstep
  | sendSignalToChild t signum =>
      simp only [MonitorLoop.step] at hstep
      split at hstep
      · obtain rfl := Option.some.inj hstep
        refine { hs with callers := fun c hc => ?_ }
        rcases List.mem_or_eq_of_mem_set hc with hold | rfl
        · exact hs.callers c hold
        · trivial
      · cases hstep
  | caller t =>
      obtain ⟨c, hc, hrest⟩ := Option.bind_eq_some_iff.mp hstep
      obtain ⟨⟨sh, c'⟩, hcaller, hnext⟩ := Option.bind_eq_some_iff.mp hrest
      obtain rfl := Option.some.inj hnext
      obtain ⟨hpid, hstops, -⟩ :=
        callerStep_effect (hs.callers c (List.mem_of_getElem? hc)) hcaller
      constructor
      · intro hpublished pid hchild
        exact hpid.trans (hs.pid hpublished pid hchild)
      · intro d hd
        rcases List.mem_or_eq_of_mem_set hd with hold | rfl
        · exact hs.callers d hold
        · exact hstops
  | loop ans =>
      obtain ⟨⟨m, pc⟩, hloop, hnext⟩ := Option.bind_eq_some_iff.mp hstep
      obtain rfl := Option.some.inj hnext
      refine { hs with pid := fun hpublished pid hchild => ?_ }
      cases loopStep_effect hloop hs.pid with
      | stay _ hpid hchild' hpublished' =>
          exact hpid.trans
            (hs.pid (hpublished'.symm.trans hpublished) pid
              (hchild'.symm.trans hchild))
      | fork => exact Bool.noConfusion hpublished
      | publish _ _ hpid => exact hpid.trans (Option.some.inj hchild)
      | reap => cases hchild
      | lose => cases hchild
      | forget _ hchild' => cases hchild'.symm.trans hchild

theorem reachable_published
    (hs : Transition.Reachable step {init cfg callers} s) : Published s :=
  hs.invariant (fun _ h => h ▸ published_init)
    (fun _ _ _ h _ hstep => h.step hstep)

end

end MonitorLoop
end MonitorProcess
end Yacul
