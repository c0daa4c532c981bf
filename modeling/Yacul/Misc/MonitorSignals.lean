import Yacul.Misc.MonitorReaping

/-!
# Signalling a child that the monitor has reaped

The monitor loop signals only the child it looks after.  `RequestStop` and
`SendSignalToChild` load the published pid and signal it in a later step, and
the loop clears the published pid in a step after the reaping.
-/

namespace Yacul
namespace MonitorProcess
namespace MonitorLoop

/-- No `kill` has been issued with the pid of a reaped child. -/
def NoLateKill (s : State) : Prop :=
  s.lateKill = false

instance (s : State) : Decidable (NoLateKill s) := by
  unfold NoLateKill
  exact inferInstance

/-- No caller loads the pid of a child that has been reaped, and no child is
reaped whose pid a caller has loaded and not yet signalled. -/
def SignalsInTime (s : State) : Action → Prop
  | .caller t =>
      ∀ c ∈ s.callers[t]?, c.loads = true →
        gone s.memory.children s.memory.shared.child_pid = false
  | .loop ans =>
      reaps ans s.pc = true → ∀ c ∈ s.callers, c.kills ≠ s.pc.child
  | .requestStop _ | .sendSignalToChild _ _ => True

instance (s : State) (a : Action) : Decidable (SignalsInTime s a) := by
  induction a using Action.casesOn <;> unfold SignalsInTime <;>
    exact inferInstance

/-- The child that the loop looks after has not been reaped, and neither has
any that a caller is about to signal. -/
structure Held (s : State) : Prop where
  child : ∀ pid, s.pc.child = some pid →
    s.memory.children.any (Child.holds pid) = true
  callers : ∀ c ∈ s.callers, ∀ pid, c.kills = some pid →
    gone s.memory.children pid = false
  lateKill : s.lateKill = false

section

variable {s s' : State} {a : Action} {cfg : Config} {callers : ℕ}
  {children : List Child} {pid pid' : ℤ}

theorem gone_of_held (hheld : children.any (Child.holds pid) = true) :
    gone children pid = false := by
  rw [gone, hheld, Bool.not_true, Bool.and_false]

/-- A new child has a pid of its own or takes over one that was given back. -/
theorem gone_fork (hgone : gone children pid = false) :
    gone (children ++ [{ pid := pid' }]) pid = false := by
  by_cases hpid : pid' = pid
  · refine gone_of_held ?_
    simp [hpid, Child.holds]
  · rw [← hgone]
    simp [gone, hpid, Child.holds]

/-- Reaping a child gives back only its own pid. -/
theorem gone_reap (hpid : pid' ≠ pid) :
    gone (reap pid children) pid' = gone children pid' := by
  have hhas : (reap pid children).any (fun c => c.pid = pid') =
      children.any (fun c => c.pid = pid') := by
    rw [reap, List.any_map]
    refine congrArg (List.any children) (funext fun c => ?_)
    dsimp only [Function.comp_apply]
    split <;> rfl
  have hholds : (reap pid children).any (Child.holds pid') =
      children.any (Child.holds pid') := by
    rw [reap, List.any_map]
    refine congrArg (List.any children) (funext fun c => ?_)
    dsimp only [Function.comp_apply]
    split
    · next hheld =>
        have hc : c.pid = pid := by
          simp only [Child.holds, Bool.and_eq_true, decide_eq_true_eq] at hheld
          exact hheld.1
        have hne : ¬ pid = pid' := fun h => hpid h.symm
        simp [Child.holds, hc, hne]
    · rfl
  rw [gone, gone, hhas, hholds]

theorem held_init : Held (init cfg callers) where
  child := fun _ h => by cases h
  callers := fun c hc pid hpid => by
    rw [List.eq_of_mem_replicate hc] at hpid
    cases hpid
  lateKill := rfl

/-- The loop signals only the child it looks after. -/
theorem Pc.child_of_kills {pc : Pc} (hkills : pc.kills = some pid) :
    pc.child = some pid := by
  cases pc with
  | stopKill | stopSigkill | healthSigkill => exact hkills
  | _ => cases hkills

/-- A call that begins is not about to signal. -/
theorem Held.begin (hs : Held s) {t : ℕ} {c : Caller} (hc : c.kills = none) :
    Held { s with callers := s.callers.set t c } := by
  refine { hs with callers := fun d hd pid hpid => ?_ }
  rcases List.mem_or_eq_of_mem_set hd with hold | rfl
  · exact hs.callers d hold pid hpid
  · cases hc.symm.trans hpid

theorem Held.loop (hs : Held s) (hpublished : Published s) {ans : Answer}
    (htime : SignalsInTime s (.loop ans))
    (hstep : MonitorLoop.step s (.loop ans) = some s') : Held s' := by
  obtain ⟨⟨m, pc⟩, hloop, hnext⟩ := Option.bind_eq_some_iff.mp hstep
  obtain rfl := Option.some.inj hnext
  have hlate : late s s.pc.kills = false := by
    rw [late, hs.lateKill, Bool.false_or]
    cases hkills : s.pc.kills with
    | none => rfl
    | some pid =>
        exact gone_of_held (hs.child pid (Pc.child_of_kills hkills))
  cases loopStep_effect hloop hpublished.pid with
  | stay hchildren _ hchild =>
      refine ⟨fun pid hpid => ?_, fun c hc pid hpid => ?_, hlate⟩
      · rw [hchildren]
        exact hs.child pid (hchild.symm.trans hpid)
      · rw [hchildren]
        exact hs.callers c hc pid hpid
  | fork _ _ hchildren =>
      refine ⟨fun pid hpid => ?_, fun c hc pid hpid => ?_, hlate⟩
      · obtain rfl := Option.some.inj hpid
        rw [hchildren]
        simp [Child.holds]
      · rw [hchildren]
        exact gone_fork (hs.callers c hc pid hpid)
  | publish hpc hchildren =>
      refine ⟨fun pid hpid => ?_, fun c hc pid hpid => ?_, hlate⟩
      · rw [hchildren]
        refine hs.child pid ?_
        rw [hpc]
        exact hpid
      · rw [hchildren]
        exact hs.callers c hc pid hpid
  | reap hchild _ hreaps hchildren =>
      refine ⟨fun pid hpid => ?_, fun c hc pid hpid => ?_, hlate⟩
      · cases hpid
      · have hkills := htime hreaps c hc
        rw [hchild, hpid] at hkills
        rw [hchildren, gone_reap fun h => hkills (congrArg some h)]
        exact hs.callers c hc pid hpid
  | lose _ _ _ hchildren =>
      refine ⟨fun pid hpid => ?_, fun c hc pid hpid => ?_, hlate⟩
      · cases hpid
      · rw [hchildren]
        exact hs.callers c hc pid hpid
  | forget _ hchild' _ hchildren =>
      refine ⟨fun pid hpid => ?_, fun c hc pid hpid => ?_, hlate⟩
      · cases hchild'.symm.trans hpid
      · rw [hchildren]
        exact hs.callers c hc pid hpid

theorem Held.step (hs : Held s) (hpublished : Published s)
    (htime : SignalsInTime s a) (hstep : MonitorLoop.step s a = some s') :
    Held s' := by
  cases a with
  | requestStop t =>
      simp only [MonitorLoop.step] at hstep
      split at hstep
      · obtain rfl := Option.some.inj hstep
        exact hs.begin rfl
      · cases hstep
  | sendSignalToChild t signum =>
      simp only [MonitorLoop.step] at hstep
      split at hstep
      · obtain rfl := Option.some.inj hstep
        exact hs.begin rfl
      · cases hstep
  | caller t =>
      obtain ⟨c, hc, hrest⟩ := Option.bind_eq_some_iff.mp hstep
      obtain ⟨⟨sh, c'⟩, hcaller, hnext⟩ := Option.bind_eq_some_iff.mp hrest
      obtain rfl := Option.some.inj hnext
      have hmem : c ∈ s.callers := List.mem_of_getElem? hc
      obtain ⟨-, -, hloaded⟩ :=
        callerStep_effect (hpublished.callers c hmem) hcaller
      refine ⟨hs.child, fun d hd pid hpid => ?_, ?_⟩
      · rcases List.mem_or_eq_of_mem_set hd with hold | rfl
        · exact hs.callers d hold pid hpid
        · obtain ⟨hloads, rfl⟩ := hloaded pid hpid
          exact htime c hc hloads
      · show late s c.kills = false
        rw [late, hs.lateKill, Bool.false_or]
        cases hkills : c.kills with
        | none => rfl
        | some pid => exact hs.callers c hmem pid hkills
  | loop ans => exact hs.loop hpublished htime hstep

/-- As long as no child is reaped while a caller has its pid, and no caller
loads the pid of a child that has been reaped, a reaped child is never
signalled. -/
theorem reachable_neverLate
    (hs : Transition.ReachableVia MonitorLoop.step SignalsInTime
      {init cfg callers} s) : NoLateKill s := by
  have hheld : Published s ∧ Held s := by
    refine hs.invariant (I := fun s => Published s ∧ Held s) ?_ ?_
    · rintro _ rfl
      exact ⟨published_init, held_init⟩
    · intro s a s' h htime hstep
      exact ⟨h.1.step hstep, h.2.step h.1 htime hstep⟩
  exact hheld.2.lateKill

end

/-! ## Runs with a caller that signals -/

/-- A child is spawned, and a caller of `SendSignalToChild` loads its pid. -/
def loadsPid : List Action :=
  loops 6 { pid := 7 } ++ [Action.sendSignalToChild 0 15, .caller 0]

/-- The child is signalled, and then it exits and is reaped. -/
def signalsFirst : List Action :=
  loadsPid ++ [Action.caller 0] ++ loops 2 {}

theorem signalsFirst_isSome :
    (Transition.run MonitorLoop.step (init cfg₁ 1) signalsFirst).isSome =
      true := by
  decide

theorem reachable_neverLate_signalsFirst :
    NoLateKill ((Transition.run MonitorLoop.step (init cfg₁ 1)
      signalsFirst).get signalsFirst_isSome) := by
  have hstart : Transition.ReachableVia MonitorLoop.step SignalsInTime
      {init cfg₁ 1} (init cfg₁ 1) := .start (Set.mem_singleton _)
  have hall : Transition.AllSteps MonitorLoop.step SignalsInTime (init cfg₁ 1)
      signalsFirst := by
    decide
  exact reachable_neverLate
    (hstart.run hall (Option.some_get signalsFirst_isSome).symm)

/-- The child is reaped between the load and the signal. -/
def reapsFirst : List Action :=
  loadsPid ++ loops 1 {} ++ [Action.caller 0]

theorem reapsFirst_isSome :
    (Transition.run MonitorLoop.step (init cfg₁ 1) reapsFirst).isSome =
      true := by
  decide

/-- A caller can signal a child that has been reaped. -/
theorem exists_signalsReaped :
    ∃ cfg callers s, Transition.Reachable MonitorLoop.step {init cfg callers} s ∧
      ¬ NoLateKill s := by
  refine ⟨cfg₁, 1, (Transition.run MonitorLoop.step (init cfg₁ 1)
    reapsFirst).get reapsFirst_isSome, ?_, by decide⟩
  exact Transition.reachable_get_run (Set.mem_singleton _) reapsFirst_isSome

end MonitorLoop
end MonitorProcess
end Yacul
