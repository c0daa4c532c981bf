import Yacul.System.PopenWrapper
import Mathlib.Data.Set.Insert

/-!
# Noticing that the child has finished

When the child side has closed its ends, `poll` reports every descriptor that
the parent still holds open.  So the parent hangs only if it polls nothing but
the timer, and the test that would have ended the loop comes after `poll`.
The module shows in which modes this happens.
-/

namespace Yacul
namespace PopenWrapper

/-- `DriveIO` has not waited for the timer alone. -/
def Prompt (opts : Options) (s : State) : Prop :=
  s.hung opts = false ∧ s.onlyWaited = false

/-- `Run` before the loop of `DriveIO`. -/
def Pc.early : Pc → Bool
  | .start | .writeStdin _ _ => true
  | _ => false

/-- In the loop, about to poll. -/
def Pc.polls : Pc → Bool
  | .rebuild | .poll => true
  | _ => false

/-- The parent holds a stream open until it enters the loop, and polls only
with an end open; an open stdin has bytes to write. -/
structure Attentive (opts : Options) (s : State) : Prop where
  start : s.pc = .start →
    s.stdinOffset = 0 ∧ s.stdin.parent = opts.needStdin
  early : s.pc.early = true →
    s.stdout.pipe.parent = true ∨ s.stderr.pipe.parent = true
  offset : s.pc ≠ .start → s.stdin.parent = true →
    s.stdinOffset < opts.stdinData.length
  polls : s.pc.polls = true → allClosed s = false
  onlyWaited : s.onlyWaited = false

section

variable {opts : Options} {s s' : State}

theorem mem_ready {fd : Fd} (hfd : fd ∈ rebuildPfds opts s)
    (hany : (revents s fd).any = true) :
    (fd, revents s fd) ∈ ready opts s := by
  apply List.mem_filter.mpr
  exact ⟨List.mem_map_of_mem hfd, hany⟩

/-- A parent that polls with an end open sees that the child side has closed
it. -/
theorem Attentive.not_hung (hs : Attentive opts s) : s.hung opts = false := by
  by_contra hhung
  simp only [State.hung, Bool.not_eq_false, Bool.and_eq_true,
    Bool.not_eq_true', decide_eq_true_eq] at hhung
  obtain ⟨⟨⟨⟨⟨⟨⟨⟨-, hin⟩, hout⟩, -⟩, herr⟩, -⟩, -⟩, hpc⟩, hready⟩ := hhung
  have hnone : ∀ fd ∈ rebuildPfds opts s, (revents s fd).any = false := by
    intro fd hfd
    by_contra hany
    have hmem := mem_ready hfd (Bool.eq_true_of_not_eq_false hany)
    rw [hready] at hmem
    exact List.not_mem_nil hmem
  have hopen := hs.polls (by rw [hpc]; rfl)
  have hoffset := hs.offset (by rw [hpc]; exact Pc.noConfusion)
  by_cases hstdout : s.stdout.pipe.parent = true
  · have := hnone (.output .stdout) (by simp [rebuildPfds, hstdout])
    simp [Revents.any, revents, State.output, hout] at this
  by_cases hstderr : s.stderr.pipe.parent = true
  · have := hnone (.output .stderr) (by simp [rebuildPfds, hstderr])
    simp [Revents.any, revents, State.output, herr] at this
  by_cases hstdin : s.stdin.parent = true
  · have := hnone .stdin (by simp [rebuildPfds, hstdin, hoffset hstdin])
    simp [Revents.any, revents, hin] at this
  · simp [allClosed, hstdout, hstderr, hstdin] at hopen

/-- What the parent holds and where it is. -/
structure SameParent (s s' : State) : Prop where
  pc : s'.pc = s.pc
  stdin : s'.stdin.parent = s.stdin.parent
  stdout : s'.stdout.pipe.parent = s.stdout.pipe.parent
  stderr : s'.stderr.pipe.parent = s.stderr.pipe.parent
  stdinOffset : s'.stdinOffset = s.stdinOffset

theorem timerStep_sameParent {interrupted : Bool}
    (h : timerStep opts s interrupted = some s') : SameParent s s' := by
  unfold timerStep at h
  split at h <;> cases h <;> constructor <;> rfl

theorem childStep_sameParent {m : ChildMove}
    (h : childStep s m = some s') : SameParent s s' := by
  cases m with
  | read n =>
      simp only [childStep] at h
      split at h <;> cases h
      constructor <;> rfl
  | write o n =>
      simp only [childStep] at h
      split at h <;> cases h
      cases o <;> constructor <;> rfl
  | closeStdin =>
      cases h
      constructor <;> rfl
  | closeOutput o =>
      cases h
      cases o <;> constructor <;> rfl
  | exit =>
      cases h
      constructor <;> rfl

theorem Attentive.of_sameParent (hs : Attentive opts s)
    (h : SameParent s s') (honly : s'.onlyWaited = false) :
    Attentive opts s' where
  start hpc := by
    rw [h.stdinOffset, h.stdin]
    exact hs.start (h.pc ▸ hpc)
  early hpc := by
    rw [h.stdout, h.stderr]
    exact hs.early (h.pc ▸ hpc)
  offset hpc hparent := by
    rw [h.stdinOffset]
    exact hs.offset (h.pc ▸ hpc) (h.stdin ▸ hparent)
  polls hpc := by
    have hopen := hs.polls (h.pc ▸ hpc)
    rwa [allClosed, h.stdout, h.stderr, h.stdin]
  onlyWaited := honly

/-- Inside the pass over `pfds` and after the loop only stdin matters. -/
theorem Attentive.away (hearly : s.pc.early = false)
    (hpolls : s.pc.polls = false)
    (hoffset : s.stdin.parent = true →
      s.stdinOffset < opts.stdinData.length)
    (honly : s.onlyWaited = false) : Attentive opts s where
  start hpc := by simp [hpc, Pc.early] at hearly
  early hpc := by simp [hpc] at hearly
  offset _ := hoffset
  polls hpc := by simp [hpc] at hpolls
  onlyWaited := honly

theorem Attentive.drain (hs : Attentive opts s) {o : Output} {hup : Bool}
    {p : Pass} (hpc : s.pc = .drain o hup p) (ch : Choice) :
    Attentive opts (drain opts s o hup p ch) := by
  have hoffset := hs.offset (by rw [hpc]; exact Pc.noConfusion)
  unfold PopenWrapper.drain
  dsimp only
  split
  · apply Attentive.away
    · simp [hpc, Pc.early]
    · simp [hpc, Pc.polls]
    · simpa using hoffset
    · simpa using hs.onlyWaited
  · apply Attentive.away rfl rfl
    · split <;> simpa [State.closeOutput] using hoffset
    · split <;> simpa [State.closeOutput] using hs.onlyWaited

theorem Attentive.drainNext (o : Output)
    (hoffset : s.stdin.parent = true →
      s.stdinOffset < opts.stdinData.length)
    (honly : s.onlyWaited = false) : Attentive opts (drainNext s o) := by
  cases o with
  | stdout => exact Attentive.away rfl rfl hoffset honly
  | stderr =>
      exact Attentive.away rfl rfl (fun h => Bool.noConfusion h) honly

theorem Attentive.drainLast (hs : Attentive opts s) {o : Output}
    (hpc : s.pc = .drainLast o) (ch : Choice) :
    Attentive opts (drainLast opts s o ch) := by
  have hoffset := hs.offset (by rw [hpc]; exact Pc.noConfusion)
  unfold PopenWrapper.drainLast
  split
  · dsimp only
    split
    · apply Attentive.away
      · simp [hpc, Pc.early]
      · simp [hpc, Pc.polls]
      · simpa using hoffset
      · simpa using hs.onlyWaited
    · apply Attentive.drainNext
      · simpa [State.closeOutput] using hoffset
      · simpa [State.closeOutput] using hs.onlyWaited
  · exact Attentive.drainNext o hoffset hs.onlyWaited

theorem Attentive.dispatch (hs : Attentive opts s) {p : Pass}
    (hpc : s.pc = .dispatch p) : Attentive opts (dispatch opts s p) := by
  have hoffset := hs.offset (by rw [hpc]; exact Pc.noConfusion)
  unfold PopenWrapper.dispatch
  split
  · split
    · exact Attentive.away rfl rfl hoffset hs.onlyWaited
    · rename_i hstay
      exact
        { start := fun h => Pc.noConfusion h
          early := fun h => Bool.noConfusion h
          offset := fun _ => hoffset
          polls := fun _ => by
            rw [Bool.or_eq_true, not_or] at hstay
            exact Bool.eq_false_of_not_eq_true hstay.2
          onlyWaited := hs.onlyWaited }
  · exact Attentive.away rfl rfl hoffset hs.onlyWaited
  · split
    · exact Attentive.away rfl rfl hoffset hs.onlyWaited
    · exact Attentive.away rfl rfl (fun h => Bool.noConfusion h)
        hs.onlyWaited
  · exact Attentive.away rfl rfl hoffset hs.onlyWaited

/-- A loop that is entered with an end open. -/
theorem Attentive.rebuild (hopen : allClosed s = false)
    (hpc : s.pc = .rebuild)
    (hoffset : s.stdin.parent = true →
      s.stdinOffset < opts.stdinData.length)
    (honly : s.onlyWaited = false) : Attentive opts s where
  start h := by simp [hpc] at h
  early h := by simp [hpc, Pc.early] at h
  offset _ := hoffset
  polls _ := hopen
  onlyWaited := honly

theorem Attentive.runInput (hs : Attentive opts s) (hpc : s.pc = .start) :
    Attentive opts (runInput opts s) := by
  obtain ⟨hzero, hparent⟩ := hs.start hpc
  have hstreams := hs.early (by rw [hpc]; rfl)
  have hopen : allClosed s = false := by
    rcases hstreams with h | h <;> simp [allClosed, h]
  have hopen' : allClosed (closeStdin s) = false := by
    rcases hstreams with h | h <;> simp [allClosed, closeStdin, h]
  unfold PopenWrapper.runInput
  by_cases hneed : opts.needStdin = true
  · rw [if_pos hneed]
    by_cases hempty : opts.stdinData = []
    · rw [if_pos hempty]
      exact Attentive.rebuild hopen' rfl (fun h => Bool.noConfusion h)
        hs.onlyWaited
    have hpos : s.stdinOffset < opts.stdinData.length := by
      rw [hzero]
      exact List.length_pos_iff.mpr hempty
    rw [if_neg hempty]
    split
    · exact
        { start := fun h => Pc.noConfusion h
          early := fun _ => hstreams
          offset := fun _ _ => hpos
          polls := fun h => Bool.noConfusion h
          onlyWaited := hs.onlyWaited }
    · exact Attentive.rebuild hopen rfl (fun _ => hpos) hs.onlyWaited
  · rw [if_neg hneed]
    refine Attentive.rebuild hopen rfl (fun h => ?_) hs.onlyWaited
    rw [hparent] at h
    exact absurd h hneed

theorem blockingWrite_parent {p q : Pipe} {left stored : ℕ} {ch : Choice}
    {move : WriteMove} (h : blockingWrite p left stored ch = some (q, move)) :
    q.parent = p.parent := by
  unfold blockingWrite at h
  split_ifs at h <;> cases h <;> rfl

theorem Attentive.writeReturned {p : Pass} {n : ℤ}
    (honly : s.onlyWaited = false) :
    Attentive opts (writeReturned opts s p n) := by
  unfold PopenWrapper.writeReturned
  dsimp only
  split_ifs with h₁ h₂ h₂
  all_goals try exact Attentive.away rfl rfl (fun h => Bool.noConfusion h) honly
  · apply Attentive.away rfl rfl
    · intro _
      exact Nat.lt_of_not_le fun h => h₂ (.inl h)
    · exact honly
  · apply Attentive.away rfl rfl
    · intro _
      exact Nat.lt_of_not_le fun h => h₂ (.inl h)
    · exact honly

theorem parentStep_attentive {ch : Choice} (hs : Attentive opts s)
    (h : parentStep opts s ch = some s') : Attentive opts s' := by
  cases hpc : s.pc with
  | start =>
      simp only [parentStep, hpc, Option.some.injEq] at h
      subst h
      exact hs.runInput hpc
  | writeStdin left stored =>
      simp only [parentStep, hpc, Option.map_eq_some_iff] at h
      obtain ⟨⟨q, move⟩, hwrite, rfl⟩ := h
      have hstreams := hs.early (by rw [hpc]; rfl)
      have hoffset := hs.offset (by rw [hpc]; exact Pc.noConfusion)
      cases move with
      | storing left stored =>
          exact
            { start := fun h => Pc.noConfusion h
              early := fun _ => hstreams
              offset := fun _ hq =>
                hoffset ((blockingWrite_parent hwrite).symm.trans hq)
              polls := fun h => Bool.noConfusion h
              onlyWaited := hs.onlyWaited }
      | returned n =>
          refine Attentive.rebuild ?_ rfl (fun h => Bool.noConfusion h)
            hs.onlyWaited
          rcases hstreams with h | h <;> simp [allClosed, closeStdin, h]
      | killed =>
          refine Attentive.away rfl rfl (fun hq => ?_) hs.onlyWaited
          exact hoffset ((blockingWrite_parent hwrite).symm.trans hq)
  | rebuild =>
      simp only [parentStep, hpc, Option.some.injEq] at h
      subst h
      have hoffset := hs.offset (by rw [hpc]; exact Pc.noConfusion)
      split
      · exact Attentive.away rfl rfl hoffset hs.onlyWaited
      · exact
          { start := fun h => Pc.noConfusion h
            early := fun h => Bool.noConfusion h
            offset := fun _ => hoffset
            polls := fun _ => hs.polls (by rw [hpc]; rfl)
            onlyWaited := hs.onlyWaited }
  | poll =>
      simp only [parentStep, hpc] at h
      have hoffset := hs.offset (by rw [hpc]; exact Pc.noConfusion)
      split_ifs at h <;> cases h
      · exact Attentive.rebuild (hs.polls (by rw [hpc]; rfl)) rfl hoffset
          hs.onlyWaited
      · exact Attentive.away rfl rfl hoffset hs.onlyWaited
      · exact Attentive.away rfl rfl hoffset hs.onlyWaited
  | dispatch p =>
      simp only [parentStep, hpc, Option.some.injEq] at h
      subst h
      exact hs.dispatch hpc
  | drain o hup p =>
      simp only [parentStep, hpc, Option.some.injEq] at h
      subst h
      exact hs.drain hpc ch
  | write left stored p =>
      simp only [parentStep, hpc, Option.map_eq_some_iff] at h
      obtain ⟨⟨q, move⟩, hwrite, rfl⟩ := h
      have hoffset := hs.offset (by rw [hpc]; exact Pc.noConfusion)
      have hstay : q.parent = true →
          s.stdinOffset < opts.stdinData.length := fun hq =>
        hoffset ((blockingWrite_parent hwrite).symm.trans hq)
      cases move with
      | storing left stored =>
          exact Attentive.away rfl rfl hstay hs.onlyWaited
      | returned n => exact Attentive.writeReturned hs.onlyWaited
      | killed => exact Attentive.away rfl rfl hstay hs.onlyWaited
  | drainLast o =>
      simp only [parentStep, hpc, Option.some.injEq] at h
      subst h
      exact hs.drainLast hpc ch
  | waitpid =>
      simp only [parentStep, hpc] at h
      have hoffset := hs.offset (by rw [hpc]; exact Pc.noConfusion)
      split_ifs at h
      cases h
      exact Attentive.away rfl rfl hoffset hs.onlyWaited
  | done => simp [parentStep, hpc] at h
  | killed => simp [parentStep, hpc] at h

theorem timerStep_onlyWaited {interrupted : Bool}
    (hhung : s.hung opts = false)
    (h : timerStep opts s interrupted = some s') :
    s'.onlyWaited = s.onlyWaited := by
  unfold timerStep at h
  split at h <;> cases h <;> simp [hhung]

theorem childStep_onlyWaited {m : ChildMove} (h : childStep s m = some s') :
    s'.onlyWaited = s.onlyWaited := by
  cases m with
  | read n =>
      simp only [childStep] at h
      split at h <;> cases h
      rfl
  | write o n =>
      simp only [childStep] at h
      split at h <;> cases h
      exact s.setOutput_onlyWaited o _
  | closeStdin =>
      cases h
      rfl
  | closeOutput o =>
      cases h
      exact s.setOutput_onlyWaited o _
  | exit =>
      cases h
      rfl

theorem step_attentive {a : Action} (hs : Attentive opts s)
    (h : step opts s a = some s') : Attentive opts s' := by
  cases a with
  | parent ch => exact parentStep_attentive hs h
  | timer interrupted =>
      apply hs.of_sameParent (timerStep_sameParent h)
      rw [timerStep_onlyWaited hs.not_hung h]
      exact hs.onlyWaited
  | child m =>
      apply hs.of_sameParent (childStep_sameParent h)
      rw [childStep_onlyWaited h]
      exact hs.onlyWaited

/-- A stream is piped, or there is more than the timer to poll. -/
theorem attentive_init (caps : Capacities)
    (hpiped : opts.mode ≠ .kWriteOnly ∨ opts.needStderr = true) :
    Attentive opts (init opts caps) where
  start _ := ⟨rfl, rfl⟩
  early _ := by
    rcases hpiped with hmode | hstderr
    · left
      have hstdout : opts.needStdout = true := by
        cases h : opts.mode <;> simp_all [Options.needStdout]
      exact hstdout
    · right
      exact hstderr
  offset h := absurd rfl h
  polls h := Bool.noConfusion h
  onlyWaited := rfl

end

/-! ## When only the timer is polled -/

/-- The child takes nothing and exits; the parent enters the loop. -/
def finishesUnread (opts : Options) : List Action :=
  if opts.stdinData = [] then
    [.parent {}, .parent {}, .child .closeStdin, .child .exit]
  else
    [.parent {}, .child .closeStdin, .parent {}, .parent {}, .child .exit]

/-- The parent polls the timer. -/
def hungState (opts : Options) (caps : Capacities) : State :=
  { init opts caps with
    pc := .poll
    stdin := { Pipe.create caps.stdin false with parent := false }
    exited := true }

theorem run_finishesUnread {opts : Options} (caps : Capacities)
    (htimeout : 0 < opts.timeout) (hmode : opts.mode = .kWriteOnly)
    (hstderr : opts.needStderr = false) :
    Transition.run (step opts) (init opts caps) (finishesUnread opts) =
      some (hungState opts caps) := by
  have hstdin : opts.needStdin = true := by simp [Options.needStdin, hmode]
  have hstdout : opts.needStdout = false := by
    simp [Options.needStdout, hmode]
  by_cases hempty : opts.stdinData = []
  · simp [finishesUnread, hempty, Transition.run, step, parentStep, init,
      runInput, hstdin, hstdout, hstderr, closeStdin, Pipe.create, childStep,
      rebuildPfds, htimeout, hungState]
  · simp [finishesUnread, hempty, Transition.run, step, parentStep, init,
      runInput, hstdin, hstdout, hstderr, hmode, closeStdin, Pipe.create,
      childStep, blockingWrite, rebuildPfds, htimeout, hungState]

theorem hung_hungState {opts : Options} (caps : Capacities)
    (hmode : opts.mode = .kWriteOnly) (hstderr : opts.needStderr = false) :
    (hungState opts caps).hung opts = true := by
  have hstdout : opts.needStdout = false := by
    simp [Options.needStdout, hmode]
  simp [State.hung, hungState, init, Pipe.create, hstdout, hstderr, ready,
    rebuildPfds, revents, Revents.any]

/-- `Run` never waits for the timer alone after the child has finished if and
only if it has a stream to read. -/
theorem prompt_iff (opts : Options) (caps : Capacities)
    (htimeout : 0 < opts.timeout) :
    (∀ s, Reachable opts caps s → Prompt opts s) ↔
      (opts.mode ≠ .kWriteOnly ∨ opts.needStderr = true) := by
  constructor
  · intro hall
    by_contra hnot
    rw [not_or, not_not] at hnot
    obtain ⟨hmode, hstderr⟩ := hnot
    have hstderr' := Bool.eq_false_of_not_eq_true hstderr
    have hreach : Reachable opts caps (hungState opts caps) :=
      Transition.Reachable.run (.start (Set.mem_singleton _))
        (run_finishesUnread caps htimeout hmode hstderr')
    have hprompt := (hall _ hreach).1
    rw [hung_hungState caps hmode hstderr'] at hprompt
    exact Bool.noConfusion hprompt
  · intro hpiped s hs
    have hattentive : Attentive opts s := by
      refine hs.invariant ?_ fun s a s' hI _ h => step_attentive hI h
      intro s hinit
      obtain rfl := Set.mem_singleton_iff.mp hinit
      exact attentive_init caps hpiped
    exact ⟨hattentive.not_hung, hattentive.onlyWaited⟩

/-- Input for a command, and a timeout. -/
def writesOnly : Options where
  mode := .kWriteOnly
  timeout := 100
  stdinData := [104, 105]

theorem prompt_iff_writesOnly :
    (∀ s, Reachable writesOnly usualCapacities s → Prompt writesOnly s) ↔
      (writesOnly.mode ≠ .kWriteOnly ∨ writesOnly.needStderr = true) :=
  prompt_iff writesOnly usualCapacities (by decide)

/-- With nothing to read, the parent waits for the timer. -/
theorem exists_hang :
    ¬ ∀ (opts : Options) (caps : Capacities), 0 < opts.timeout →
      ∀ s, Reachable opts caps s → Prompt opts s := by
  intro hall
  have hreach : Reachable writesOnly usualCapacities
      (hungState writesOnly usualCapacities) :=
    Transition.Reachable.run (.start (Set.mem_singleton _))
      (run_finishesUnread usualCapacities (by decide) rfl rfl)
  have hprompt := (hall writesOnly usualCapacities (by decide) _ hreach).1
  rw [hung_hungState usualCapacities rfl rfl] at hprompt
  exact Bool.noConfusion hprompt

end PopenWrapper
end Yacul
