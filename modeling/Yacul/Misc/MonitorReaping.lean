import Yacul.Misc.MonitorRun

/-!
# Every child of the monitor is reaped

The loop looks after one child at a time and leaves it through a `waitpid`.
Only the `waitpid` after a `SIGKILL` is not repeated when a signal interrupts
it, and then the child is left behind.
-/

namespace Yacul
namespace MonitorProcess
namespace MonitorLoop

/-- The child has not been reaped. -/
def Child.unreaped (c : Child) : Bool :=
  c.reaps = 0

/-- The loop spawns the next child, or has ended. -/
def Pc.between : Pc → Bool
  | .spawn | .returned | .exited => true
  | _ => false

/-- At most one child is not reaped, no child is reaped twice, and every child
has been reaped when the next one is spawned and when the loop has ended. -/
structure ReapsOnce (s : State) : Prop where
  atMostOne : s.memory.children.countP Child.unreaped ≤ 1
  atMostOnce : ∀ c ∈ s.memory.children, c.reaps ≤ 1
  all : s.pc.between = true → ∀ c ∈ s.memory.children, c.reaps = 1

/-- No signal interrupts a `waitpid` that blocks. -/
def WaitsUninterrupted (s : State) : Action → Prop
  | .loop ans => s.pc.blocks = true → ans.interrupted = false
  | .requestStop _ | .sendSignalToChild _ _ | .caller _ => True

instance (s : State) (a : Action) : Decidable (WaitsUninterrupted s a) := by
  cases a <;> unfold WaitsUninterrupted <;> exact inferInstance

/-- The last child is the one that the loop looks after, and the children
before it have been reaped once. -/
structure Care (s : State) : Prop where
  child : ∀ pid, s.pc.child = some pid → ∃ before,
    s.memory.children = before ++ [{ pid := pid }] ∧
      ∀ c ∈ before, c.reaps = 1
  none : s.pc.child = none → ∀ c ∈ s.memory.children, c.reaps = 1

section

variable {s s' : State} {a : Action} {cfg : Config} {callers : ℕ}

/-- Children that have been reaped are not reaped again. -/
theorem reap_of_reaped {pid : ℤ} {children : List Child}
    (hreaped : ∀ c ∈ children, c.reaps = 1) :
    reap pid children = children := by
  unfold reap
  rw [List.map_congr_left (g := id) fun c hc => ?_, List.map_id]
  have hheld : c.holds pid = false := by simp [Child.holds, hreaped c hc]
  simp [hheld]

/-- The child that the loop looks after is the one that `waitpid` returns. -/
theorem reap_last {pid : ℤ} {before : List Child}
    (hbefore : ∀ c ∈ before, c.reaps = 1) :
    reap pid (before ++ [{ pid := pid }]) =
      before ++ [{ pid := pid, reaps := 1 }] := by
  have hlast : reap pid [{ pid := pid }] = [{ pid := pid, reaps := 1 }] := by
    simp [reap, Child.holds]
  calc reap pid (before ++ [{ pid := pid }])
      = reap pid before ++ reap pid [{ pid := pid }] := by
        simp only [reap, List.map_append]
    _ = before ++ [{ pid := pid, reaps := 1 }] := by
        rw [reap_of_reaped hbefore, hlast]

theorem care_init : Care (init cfg callers) where
  child := fun _ h => by cases h
  none := fun _ c hc => absurd hc List.not_mem_nil

/-- The child that the loop looks after is there to be reaped. -/
theorem Care.held (hs : Care s) {pid : ℤ} (hchild : s.pc.child = some pid) :
    s.memory.children.any (Child.holds pid) = true := by
  obtain ⟨before, hchildren, -⟩ := hs.child pid hchild
  rw [hchildren, List.any_append]
  simp [Child.holds]

/-- A step that leaves the loop and the children as they are. -/
theorem Care.same (hs : Care s) (hpc : s'.pc = s.pc)
    (hchildren : s'.memory.children = s.memory.children) : Care s' := by
  constructor
  · rw [hpc, hchildren]
    exact hs.child
  · rw [hpc, hchildren]
    exact hs.none

theorem Care.step (hs : Care s) (hpublished : Published s)
    (hwait : WaitsUninterrupted s a) (hstep : step s a = some s') :
    Care s' := by
  cases a with
  | requestStop t =>
      simp only [MonitorLoop.step] at hstep
      split at hstep
      · obtain rfl := Option.some.inj hstep
        exact hs.same rfl rfl
      · cases hstep
  | sendSignalToChild t signum =>
      simp only [MonitorLoop.step] at hstep
      split at hstep
      · obtain rfl := Option.some.inj hstep
        exact hs.same rfl rfl
      · cases hstep
  | caller t =>
      obtain ⟨c, -, hrest⟩ := Option.bind_eq_some_iff.mp hstep
      obtain ⟨⟨sh, c'⟩, -, hnext⟩ := Option.bind_eq_some_iff.mp hrest
      obtain rfl := Option.some.inj hnext
      exact hs.same rfl rfl
  | loop ans =>
      obtain ⟨⟨m, pc⟩, hloop, hnext⟩ := Option.bind_eq_some_iff.mp hstep
      obtain rfl := Option.some.inj hnext
      cases loopStep_effect hloop hpublished.pid with
      | stay hchildren _ hchild =>
          constructor
          · intro pid hpid
            rw [hchildren]
            exact hs.child pid (hchild.symm.trans hpid)
          · intro hnone
            rw [hchildren]
            exact hs.none (hchild.symm.trans hnone)
      | fork hpc _ hchildren =>
          constructor
          · intro pid hpid
            obtain rfl := Option.some.inj hpid
            refine ⟨s.memory.children, hchildren, hs.none ?_⟩
            rw [hpc]
            rfl
          · intro hnone
            cases hnone
      | publish hpc hchildren =>
          constructor
          · intro pid hpid
            rw [hchildren]
            refine hs.child pid ?_
            rw [hpc]
            exact hpid
          · intro hnone
            cases hnone
      | reap hchild _ _ hchildren =>
          constructor
          · intro pid hpid
            cases hpid
          · intro _ c hc
            obtain ⟨before, hbefore, hreaped⟩ := hs.child _ hchild
            rw [hchildren, hbefore, reap_last hreaped, List.mem_append,
              List.mem_singleton] at hc
            rcases hc with hc | rfl
            · exact hreaped c hc
            · rfl
      | lose hchild _ hlost =>
          obtain ⟨hblocks, hinterrupted⟩ := hlost (hs.held hchild)
          have huninterrupted : ans.interrupted = false := hwait hblocks
          rw [huninterrupted] at hinterrupted
          exact Bool.noConfusion hinterrupted
      | forget hchild hchild' _ hchildren =>
          constructor
          · intro pid hpid
            cases hchild'.symm.trans hpid
          · intro _
            rw [hchildren]
            exact hs.none hchild

theorem Pc.child_of_between {pc : Pc} (hbetween : pc.between = true) :
    pc.child = Option.none := by
  cases pc with
  | spawn | returned | exited => rfl
  | _ => exact Bool.noConfusion hbetween

/-- Children that have all been reaped once. -/
theorem countP_unreaped {children : List Child}
    (hreaped : ∀ c ∈ children, c.reaps = 1) :
    children.countP Child.unreaped = 0 := by
  refine List.countP_eq_zero.mpr fun c hc => ?_
  simp [Child.unreaped, hreaped c hc]

theorem Care.reapsOnce (hs : Care s) : ReapsOnce s := by
  cases hchild : s.pc.child with
  | none =>
      have hreaped := hs.none hchild
      refine ⟨?_, fun c hc => (hreaped c hc).le, fun _ => hreaped⟩
      rw [countP_unreaped hreaped]
      exact Nat.zero_le 1
  | some pid =>
      obtain ⟨before, hchildren, hreaped⟩ := hs.child pid hchild
      constructor
      · rw [hchildren, List.countP_append, countP_unreaped hreaped]
        exact Nat.le_refl 1
      · intro c hc
        rw [hchildren, List.mem_append, List.mem_singleton] at hc
        rcases hc with hc | rfl
        · exact (hreaped c hc).le
        · exact Nat.zero_le 1
      · intro hbetween
        cases (Pc.child_of_between hbetween).symm.trans hchild

/-- When no signal interrupts the `waitpid` after a `SIGKILL`, the monitor
reaps every child once, and before it goes on. -/
theorem reachable_reapsOnce
    (hs : Transition.ReachableVia step WaitsUninterrupted
      {init cfg callers} s) : ReapsOnce s := by
  have hcare : Published s ∧ Care s := by
    refine hs.invariant (I := fun s => Published s ∧ Care s) ?_ ?_
    · rintro _ rfl
      exact ⟨published_init, care_init⟩
    · intro s a s' h hwait hstep
      exact ⟨h.1.step hstep, h.2.step h.1 hwait hstep⟩
  exact hcare.2.reapsOnce

end

/-! ## Runs that end with a stop -/

/-- A monitored command. -/
def cfg₁ : Config where
  argv := ["child"]

/-- The loop moves with the same answer. -/
def loops (n : ℕ) (ans : Answer) : List Action :=
  List.replicate n (.loop ans)

/-- A child is spawned, then the first caller requests a stop. -/
def spawnsAndStops : List Action :=
  loops 6 { pid := 7 } ++ [Action.requestStop 0] ++
    List.replicate 7 (Action.caller 0)

/-- The loop sees the request when the poll is over, and signals the child. -/
def stopsChild : List Action :=
  spawnsAndStops ++ loops 1 { expired := true } ++ loops 2 {}

/-- The child exits within the time-out of the stop. -/
def stopsGracefully : List Action :=
  stopsChild ++ loops 6 {}

theorem stopsGracefully_isSome :
    (Transition.run step (init cfg₁ 1) stopsGracefully).isSome = true := by
  decide

theorem reachable_reapsOnce_stopsGracefully :
    ReapsOnce ((Transition.run step (init cfg₁ 1) stopsGracefully).get
      stopsGracefully_isSome) := by
  have hstart : Transition.ReachableVia step WaitsUninterrupted {init cfg₁ 1}
      (init cfg₁ 1) := .start (Set.mem_singleton _)
  have hall : Transition.AllSteps step WaitsUninterrupted (init cfg₁ 1)
      stopsGracefully := by
    decide
  exact reachable_reapsOnce
    (hstart.run hall (Option.some_get stopsGracefully_isSome).symm)

/-- The child ignores the stop signal, is killed, and a signal interrupts the
`waitpid` that follows. -/
def leavesChild : List Action :=
  stopsChild ++ loops 2 { expired := true } ++ loops 1 { interrupted := true } ++
    loops 5 {}

theorem leavesChild_isSome :
    (Transition.run step (init cfg₁ 1) leavesChild).isSome = true := by
  decide

/-- The loop can end without having reaped its child. -/
theorem exists_unreaped :
    ∃ cfg callers s, Transition.Reachable step {init cfg callers} s ∧
      ¬ ReapsOnce s := by
  refine ⟨cfg₁, 1, (Transition.run step (init cfg₁ 1) leavesChild).get
    leavesChild_isSome, ?_, fun hreaps => ?_⟩
  · exact Transition.reachable_get_run (Set.mem_singleton _) leavesChild_isSome
  · have hchild := hreaps.all (by decide) { pid := 7 } (by decide)
    exact absurd hchild (by decide)

end MonitorLoop
end MonitorProcess
end Yacul
