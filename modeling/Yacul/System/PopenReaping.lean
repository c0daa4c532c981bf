import Yacul.System.PopenLifecycle

/-!
# Signalling a child that has been reaped

The timer thread decides to signal when one of its two polls times out, and
signals in a later step.  The owner forgets the pid when it has reaped the
child, so it never signals late; the timer thread keeps its copy.
-/

namespace Yacul
namespace PopenWrapper

/-- The timer thread has timed out and is going to signal the child. -/
def TimerPc.signals : TimerPc → Bool
  | .store | .terminate | .kill => true
  | _ => false

namespace Lifecycle

/-- No `kill` has been issued with the pid of a reaped child. -/
def NoLateKill (s : State) : Prop :=
  s.lateKill = false

instance (s : State) : Decidable (NoLateKill s) := by
  unfold NoLateKill
  exact inferInstance

/-- The step reaps the child. -/
def reaps (s : State) : Bool :=
  (s.main = .waitpid && s.childPid || s.main = .destroyReap) && s.run.exited

/-- The child is not reaped while the timer thread is about to signal it, and
after that no poll of the timer thread times out. -/
def SignalsInTime (s : State) : Action → Prop
  | .main _ => reaps s = true → s.run.timer.signals = false
  | .timer interrupted =>
      s.reaped = true → s.run.timer = .poll ∨ s.run.timer = .grace →
        s.run.timerByte = true ∨ interrupted = true
  | .call _ | .throws | .child _ => True

instance (s : State) (a : Action) : Decidable (SignalsInTime s a) := by
  cases a <;> unfold SignalsInTime <;> exact inferInstance

/-- The destructor, past its own `kill`. -/
def MainPc.destroying : MainPc → Bool
  | .destroyCancel | .destroyJoin | .destroyClose | .destroyed => true
  | _ => false

/-- Once the child is reaped nobody is going to signal it. -/
structure Reaping (s : State) : Prop where
  started : s.childPid = true ∨ s.main = .destroyReap ∨ s.reaped = true →
    s.started = true
  childPid : s.reaped = true → s.childPid = true → s.main.destroying = true
  signals : s.reaped = true → s.run.timer.signals = false
  lateKill : s.lateKill = false

section

variable {opts : Options} {s s' : State}

theorem Reaping.kill (hs : Reaping s) (hpid : s.childPid = true)
    (hmain : s.main.destroying = false) : kill s = s := by
  have hreaped : s.reaped = false := by
    by_contra h
    have hdestroying := hs.childPid (Bool.eq_true_of_not_eq_false h) hpid
    rw [hmain] at hdestroying
    exact Bool.noConfusion hdestroying
  have hlate : (s.lateKill || s.reaped) = s.lateKill := by
    rw [hreaped, Bool.or_false]
  simp only [Lifecycle.kill, hlate]

/-- A step that reaps nobody and signals nobody. -/
theorem Reaping.advance (hs : Reaping s)
    (htimer : s'.run.timer = s.run.timer)
    (hreaped : s'.reaped = s.reaped) (hstarted : s'.started = s.started)
    (hpid : s'.childPid = s.childPid) (hlate : s'.lateKill = s.lateKill)
    (hmain : s.main.destroying = false ∨ s'.main.destroying = true)
    (hreap : s'.main = .destroyReap → s.childPid = true) :
    Reaping s' where
  started h := by
    rw [hstarted]
    rcases h with h | h | h
    · exact hs.started (.inl (hpid ▸ h))
    · exact hs.started (.inl (hreap h))
    · exact hs.started (.inr (.inr (hreaped ▸ h)))
  childPid h h' := by
    rcases hmain with hmain | hmain
    · have hdestroying := hs.childPid (hreaped ▸ h) (hpid ▸ h')
      rw [hmain] at hdestroying
      exact Bool.noConfusion hdestroying
    · exact hmain
  signals h := by
    rw [htimer]
    exact hs.signals (hreaped ▸ h)
  lateKill := hlate.trans hs.lateKill

theorem begin_reaping (hs : Reaping s) (hmain : s.main = .idle) (c : Call) :
    Reaping (begin opts s c) := by
  have hidle : s.main.destroying = false := by rw [hmain]; rfl
  have hfork : ∀ run, s.started = false → Reaping (forkExec opts s run) := by
    intro run hstarted
    have hreaped : s.reaped = false := by
      by_contra h
      have hforked := hs.started (.inr (.inr (Bool.eq_true_of_not_eq_false h)))
      rw [hstarted] at hforked
      exact Bool.noConfusion hforked
    have habsurd : ∀ {P : Prop}, s.reaped = true → P := by
      intro P h
      rw [hreaped] at h
      exact Bool.noConfusion h
    exact ⟨fun _ => rfl, habsurd, hs.signals, hs.lateKill⟩
  cases c with
  | Start =>
      simp only [begin]
      split_ifs with hstarted
      · exact hs
      · exact hfork false (Bool.eq_false_of_not_eq_true hstarted)
  | Run =>
      simp only [begin]
      split_ifs with hstarted
      · exact hs
      · exact hfork true (Bool.eq_false_of_not_eq_true hstarted)
  | Wait =>
      simp only [begin]
      split_ifs
      · exact hs
      · exact hs.advance rfl rfl rfl rfl rfl (.inl hidle)
          fun h => MainPc.noConfusion h
  | Terminate | Kill =>
      simp only [begin]
      split_ifs with hpid
      · rwa [hs.kill hpid hidle]
      · exact hs
  | destroy =>
      simp only [begin]
      split_ifs with hpid
      · rw [Bool.and_eq_true] at hpid
        rw [hs.kill hpid.1 hidle]
        exact hs.advance rfl rfl rfl rfl rfl (.inl hidle)
          fun _ => hpid.1
      · exact hs.advance rfl rfl rfl rfl rfl (.inr rfl)
          fun h => MainPc.noConfusion h

/-- `DriveIO` aborts before the child is reaped. -/
theorem Reaping.abortKill (hs : Reaping s) (hmain : s.main = .driveIo) :
    abortKill s = s := by
  unfold Lifecycle.abortKill
  split
  · split_ifs with hpid
    · rw [Bool.and_eq_true] at hpid
      exact hs.kill hpid.2 (by rw [hmain]; rfl)
    · rfl
  · rfl

/-- The owner goes back neither from the destructor nor to its `waitpid`. -/
def Forward (main next : MainPc) : Prop :=
  (main.destroying = false ∨ next.destroying = true) ∧ next ≠ .destroyReap

theorem Goes.forward {next : MainPc} (h : Goes s next) :
    Forward s.main next := by
  cases h with
  | noChild hmain | toCancel hmain | toCloseRead hmain | toJoin hmain =>
      exact ⟨.inl (by rw [hmain]; rfl), MainPc.noConfusion⟩
  | toDestroyJoin | toDestroyClose => exact ⟨.inr rfl, MainPc.noConfusion⟩

theorem Cancels.forward {main next : MainPc} (h : Cancels main next) :
    Forward main next := by
  cases h with
  | wait => exact ⟨.inl rfl, MainPc.noConfusion⟩
  | destroy => exact ⟨.inr rfl, MainPc.noConfusion⟩

theorem Joins.forward {main next : MainPc} (h : Joins main next) :
    Forward main next := by
  cases h with
  | wait => exact ⟨.inl rfl, MainPc.noConfusion⟩
  | destroy => exact ⟨.inr rfl, MainPc.noConfusion⟩

theorem mainStep_reaping (hs : Reaping s) {ch : Choice}
    (htime : reaps s = true → s.run.timer.signals = false)
    (h : mainStep opts s ch = some s') : Reaping s' := by
  cases mainStep_effect h with
  | startsTimer hmain =>
      refine ⟨fun h => hs.started ?_, fun hreaped hpid => ?_, fun _ => ?_,
        hs.lateKill⟩
      · rcases h with h | h | h
        · exact .inl h
        · dsimp only at h
          split_ifs at h
        · exact .inr (.inr h)
      · have hdestroying := hs.childPid hreaped hpid
        rw [hmain] at hdestroying
        exact Bool.noConfusion hdestroying
      · dsimp only
        split_ifs <;> rfl
  | writes hmain hsame | waits hmain hsame =>
      exact hs.advance hsame.timer rfl rfl rfl rfl
        (.inl (by rw [hmain]; rfl)) fun h => MainPc.noConfusion h
  | drives hmain hsame hnext =>
      rw [hs.abortKill hmain]
      refine hs.advance hsame.timer rfl rfl rfl rfl
        (.inl (by rw [hmain]; rfl)) fun h => ?_
      rcases hnext with rfl | rfl <;> exact MainPc.noConfusion h
  | reaps hmain hpid hexited =>
      refine ⟨fun _ => hs.started (.inl hpid),
        fun _ h => Bool.noConfusion h, fun _ => htime ?_, hs.lateKill⟩
      simp [reaps, hmain, hpid, hexited]
  | destroyReaps hmain hexited =>
      refine ⟨fun _ => hs.started (.inr (.inl hmain)), fun _ _ => rfl,
        fun _ => htime ?_, hs.lateKill⟩
      simp [reaps, hmain, hexited]
  | goes hgoes =>
      obtain ⟨hforward, hreap⟩ := hgoes.forward
      exact hs.advance rfl rfl rfl rfl rfl hforward fun h => absurd h hreap
  | cancels hcancels =>
      obtain ⟨hforward, hreap⟩ := hcancels.forward
      exact hs.advance rfl rfl rfl rfl rfl hforward fun h => absurd h hreap
  | closesWrite hmain | closesRead hmain =>
      exact hs.advance rfl rfl rfl rfl rfl (.inl (by rw [hmain]; rfl))
        fun h => MainPc.noConfusion h
  | joins hjoins =>
      obtain ⟨hforward, hreap⟩ := hjoins.forward
      exact hs.advance rfl rfl rfl rfl rfl hforward fun h => absurd h hreap
  | closesBoth =>
      exact hs.advance rfl rfl rfl rfl rfl (.inr rfl)
        fun h => MainPc.noConfusion h

/-- The timer thread signals only a child that has not been reaped. -/
theorem timerStep_reaping (hs : Reaping s) {interrupted : Bool}
    {r : PopenWrapper.State}
    (htime : s.reaped = true →
      s.run.timer = .poll ∨ s.run.timer = .grace →
        s.run.timerByte = true ∨ interrupted = true)
    (h : timerStep opts s.run interrupted = some r) :
    Reaping { timerEffect s with run := r } := by
  have hsame : (timerEffect s).main = s.main ∧
      (timerEffect s).started = s.started ∧
      (timerEffect s).childPid = s.childPid ∧
      (timerEffect s).reaped = s.reaped := by
    unfold timerEffect
    split <;> exact ⟨rfl, rfl, rfl, rfl⟩
  obtain ⟨hmain, hstarted, hpid, hreaped⟩ := hsame
  constructor
  · simpa [hmain, hstarted, hpid, hreaped] using hs.started
  · simpa [hmain, hpid, hreaped] using hs.childPid
  · intro hgone
    dsimp only at hgone ⊢
    rw [hreaped] at hgone
    have hsignals := hs.signals hgone
    cases htimer : s.run.timer with
    | absent | finished => simp [timerStep, htimer] at h
    | store | terminate | kill => simp [htimer, TimerPc.signals] at hsignals
    | poll =>
        simp only [timerStep, htimer, Option.some.injEq] at h
        subst h
        have hwoken := htime hgone (.inl htimer)
        rw [← Bool.or_eq_true] at hwoken
        simp [hwoken, TimerPc.signals]
    | grace =>
        simp only [timerStep, htimer, Option.some.injEq] at h
        subst h
        have hwoken := htime hgone (.inr htimer)
        rw [← Bool.or_eq_true] at hwoken
        simp [hwoken, TimerPc.signals]
    | signal =>
        simp only [timerStep, htimer, Option.some.injEq] at h
        subst h
        rfl
  · have hlate : s.run.timer.signals = true → s.reaped = false := by
      intro hsignals
      by_contra hgone
      have := hs.signals (Bool.eq_true_of_not_eq_false hgone)
      rw [hsignals] at this
      exact Bool.noConfusion this
    dsimp only
    unfold timerEffect
    split
    · rename_i htimer
      simp [kill, hs.lateKill, hlate (by rw [htimer]; rfl)]
    · rename_i htimer
      simp [kill, hs.lateKill, hlate (by rw [htimer]; rfl)]
    all_goals exact hs.lateKill

theorem step_reaping {a : Action} (hs : Reaping s)
    (htime : SignalsInTime s a) (h : step opts s a = some s') :
    Reaping s' := by
  cases a with
  | call c =>
      simp only [step] at h
      split_ifs at h with hmain
      obtain rfl := Option.some.inj h
      exact begin_reaping hs hmain c
  | main ch => exact mainStep_reaping hs htime h
  | throws =>
      simp only [step] at h
      split_ifs at h with hmain
      obtain rfl := Option.some.inj h
      exact hs.advance rfl rfl rfl rfl rfl (.inl (by rw [hmain.1]; rfl))
        fun h => MainPc.noConfusion h
  | timer interrupted =>
      obtain ⟨r, hr, rfl⟩ := Option.map_eq_some_iff.mp h
      exact timerStep_reaping hs htime hr
  | child m =>
      simp only [step] at h
      split_ifs at h
      obtain ⟨r, hr, rfl⟩ := Option.map_eq_some_iff.mp h
      have hsame := childStep_sameTimer hr
      constructor
      · exact hs.started
      · exact hs.childPid
      · intro hgone
        dsimp only
        rw [hsame.timer]
        exact hs.signals hgone
      · exact hs.lateKill

theorem reaping_initial (opts : Options) (caps : Capacities) :
    Reaping (initial opts caps) := by
  constructor
  · rintro (h | h | h)
    · exact Bool.noConfusion h
    · exact MainPc.noConfusion h
    · exact Bool.noConfusion h
  · exact fun h => Bool.noConfusion h
  · exact fun h => Bool.noConfusion h
  · rfl

/-- As long as the child is not reaped between a time-out and the signal it
leads to, and no poll of the timer thread times out after the child is reaped,
a reaped child is never signalled. -/
theorem reachable_noLateKill (opts : Options) (caps : Capacities)
    (hs : Reachable opts caps SignalsInTime s) : NoLateKill s := by
  have hreaping : Reaping s := by
    refine hs.invariant ?_ fun s a s' hI htime h => step_reaping hI htime h
    intro s hinit
    obtain rfl := Set.mem_singleton_iff.mp hinit
    exact reaping_initial opts caps
  exact hreaping.lateKill

end

/-! ## Runs of a command with a timeout -/

/-- A command whose output is read. -/
def reads : Options where
  timeout := 100

/-- Moves of the owner. -/
def moves (n : ℕ) : List Action := List.replicate n (.main {})

/-- `Run` up to `waitpid`; the child closes its stdout and exits. -/
def runsToWait : List Action :=
  Action.call .Run :: moves 2 ++
    [Action.child (.closeOutput .stdout), Action.child .exit] ++ moves 7

/-- The timer is cancelled and joined in time. -/
def reapsInTime : List Action :=
  runsToWait ++ moves 4 ++ [Action.timer false] ++ moves 2

theorem reapsInTime_isSome :
    (Transition.run (step reads) (initial reads usualCapacities)
      reapsInTime).isSome = true := by
  decide

theorem reachable_noLateKill_reapsInTime :
    NoLateKill ((Transition.run (step reads) (initial reads usualCapacities)
      reapsInTime).get reapsInTime_isSome) := by
  have hstart : Reachable reads usualCapacities SignalsInTime
      (initial reads usualCapacities) := .start (Set.mem_singleton _)
  have hall : Transition.AllSteps (step reads) SignalsInTime
      (initial reads usualCapacities) reapsInTime := by
    decide
  exact reachable_noLateKill reads usualCapacities
    (hstart.run hall (Option.some_get reapsInTime_isSome).symm)

/-- The timer expires when the child has exited; the child is reaped before
the thread sends its signal. -/
def reapsBeforeSignal : List Action :=
  runsToWait ++ [Action.timer false, Action.timer false] ++ moves 1 ++
    [Action.timer false]

theorem reapsBeforeSignal_isSome :
    (Transition.run (step reads) (initial reads usualCapacities)
      reapsBeforeSignal).isSome = true := by
  decide

/-- The timer thread signals a pid that has been given back. -/
theorem exists_lateKill :
    ¬ ∀ (opts : Options) (caps : Capacities) (s : State),
      Reachable opts caps (fun _ _ => True) s → NoLateKill s := by
  intro hall
  have hreach : Reachable reads usualCapacities (fun _ _ => True) _ :=
    Transition.reachable_get_run (Set.mem_singleton _)
      reapsBeforeSignal_isSome
  have hlate := hall reads usualCapacities _ hreach
  exact absurd hlate (by decide)

end Lifecycle
end PopenWrapper
end Yacul
