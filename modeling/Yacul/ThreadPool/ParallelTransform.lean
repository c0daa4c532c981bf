import Yacul.ThreadPool.ParallelFutures

/-!
# `ParallelTransform`

The futures are collected in the order of the elements, so the results do not
depend on the order in which the tasks run: a broken promise ends the call
with an exception, and a value that is collected is the value of the function
for the element at that position.
-/

namespace Yacul
namespace ThreadPool

variable {α β ε : Type*} {input : List α} {func : α → Except ε β}
  {s s' : Parallel β ε}

/-- The call has returned or thrown. -/
def UtilityPc.over : UtilityPc β ε → Bool
  | .returned _ | .threw _ => true
  | _ => false

/-- What the caller has is the function applied to the elements in front of
it, and a call that throws has a reason to. -/
def Parallel.Collected (input : List α) (func : α → Except ε β)
    (s : Parallel β ε) : Prop :=
  match s.pc with
  | .get results => results.length ≤ input.length ∧
      (input.take results.length).map func = results.map .ok
  | .returned results => input.map func = results.map .ok
  | .threw (some error) => ∃ a ∈ input, func a = .error error
  | .threw none => ¬ s.Unbroken
  | .wait _ => False
  | _ => True

/-- The call can only return the function applied to all the elements in
order; it throws what the function has thrown, or because of a broken promise;
once its futures are ready it goes on to one of these ends. -/
structure Parallel.Transforms (input : List α) (func : α → Except ε β)
    (s : Parallel β ε) : Prop where
  returned : ∀ results, s.pc = .returned results →
    input.map func = results.map .ok
  threw : ∀ error, s.pc = .threw (some error) →
    ∃ a ∈ input, func a = .error error
  broke : s.pc = .threw none → ¬ s.Unbroken
  ends : ∀ results, s.pc = .get results → s.pool.aborted = false →
    (∀ k < s.futures.length, (s.futureAt k).isSome = true) →
      ∃ m s', Transition.run (parallelTransformStep input func) s
        (List.replicate m (.caller {})) = some s' ∧ s'.pc.over = true

/-! ## One step -/

/-- `emplace_back` of the result of the next element. -/
theorem take_length_succ {results : List β} {a : α} {v : β}
    (h : (input.take results.length).map func = results.map .ok)
    (ha : input[results.length]? = some a) (hv : func a = .ok v) :
    (input.take (results ++ [v]).length).map func =
      (results ++ [v]).map .ok := by
  rw [List.length_append, List.length_singleton, List.take_add_one, ha,
    Option.toList_some, List.map_append, h, List.map_append,
    List.map_singleton, List.map_singleton, hv]

theorem Parallel.Collected.get (h : s.Collected input func)
    (hsound : s.Sound ⟨.parallelTransform, input, func⟩) {results : List β}
    {r : Ready β ε} (hpc : s.pc = .get results)
    (hlength : results.length < s.futures.length)
    (hready : s.futureAt results.length = some r) :
    Parallel.Collected input func { s with pc := emplaceBack results r } := by
  simp only [Parallel.Collected, hpc] at h
  obtain ⟨-, hvalues⟩ := h
  have hsubmits := hsound.submits
  simp only [Parallel.Submits, hpc] at hsubmits
  cases r with
  | broken =>
      intro hs
      exact not_unbroken_of_futureAt hready ⟨hs.submitted, hs.kept⟩
  | done value =>
      obtain ⟨a, ha, hvalue⟩ := hsound.value hready
      cases value with
      | error error => exact ⟨a, List.mem_of_getElem? ha, hvalue⟩
      | ok v =>
          refine ⟨?_, take_length_succ hvalues ha hvalue⟩
          rw [List.length_append, List.length_singleton, ← hsubmits]
          exact hlength

theorem Parallel.Collected.caller (h : s.Collected input func)
    (hsound : s.Sound ⟨.parallelTransform, input, func⟩)
    (hmoves : CallerMoves ⟨.parallelTransform, input, func⟩ s s') :
    s'.Collected input func := by
  cases hmoves with
  | submit | submitted => exact trivial
  | collect => exact ⟨Nat.zero_le _, rfl⟩
  | submitting hpc => simp only [Parallel.Collected, hpc]
  | get hpc hlength hready => exact h.get hsound hpc hlength hready
  | @got results hpc hlength =>
      simp only [Parallel.Collected, hpc] at h
      have hsubmits := hsound.submits
      simp only [Parallel.Submits, hpc] at hsubmits
      have hall : results.length = input.length := by omega
      have hvalues := h.2
      rw [hall, List.take_length] at hvalues
      exact hvalues
  | wait hpc | waited hpc => simp only [Parallel.Collected, hpc] at h

theorem Parallel.Collected.step (h : s.Collected input func)
    (hsound : s.Sound ⟨.parallelTransform, input, func⟩)
    {act : ParallelAction}
    (hstep : parallelTransformStep input func s act = some s') :
    s'.Collected input func := by
  cases act with
  | caller ch => exact h.caller hsound (callerStep_moves hstep)
  | other a =>
      have hgrows := parallelStep_grows hstep
      obtain ⟨-, pool, hpool, rfl⟩ := otherStep_eq_some hstep
      unfold Parallel.Collected at h ⊢
      cases hpc : s.pc with
      | threw error =>
          simp only [hpc] at h ⊢
          cases error with
          | none =>
              intro hs
              exact h (hgrows.unbroken ⟨hs.submitted, hs.kept⟩)
          | some error => exact h
      | next | submit n => exact trivial
      | wait k => simp only [hpc] at h
      | get results | returned results => simpa only [hpc] using h

/-! ## The loop over the futures ends -/

theorem callerStep_get {j : Job α β ε} {results : List β} {r : Ready β ε}
    (haborted : s.pool.aborted = false) (hpc : s.pc = .get results)
    (hlength : results.length < s.futures.length)
    (hready : s.futureAt results.length = some r) :
    parallelStep j s (.caller {}) =
      some { s with pc := emplaceBack results r } := by
  simp [parallelStep, callerStep, haborted, hpc, hlength, hready]

theorem exists_over {j : Job α β ε} {results : List β}
    (hpc : s.pc = .get results) (haborted : s.pool.aborted = false)
    (hready : ∀ k < s.futures.length, (s.futureAt k).isSome = true) :
    ∃ m s', Transition.run (parallelStep j) s
      (List.replicate m (.caller {})) = some s' ∧ s'.pc.over = true := by
  -- one future fewer is left after each move
  generalize hleft : s.futures.length - results.length = left
  induction left generalizing s results with
  | zero =>
      have hend : ¬ results.length < s.futures.length := by omega
      refine ⟨1, { s with pc := .returned results }, ?_, rfl⟩
      simp [Transition.run, parallelStep, callerStep, haborted, hpc, hend]
  | succ left ih =>
      have hlength : results.length < s.futures.length := by omega
      obtain ⟨r, hr⟩ := Option.isSome_iff_exists.mp (hready _ hlength)
      have hstep : parallelStep j s (.caller {}) =
          some { s with pc := emplaceBack results r } :=
        callerStep_get haborted hpc hlength hr
      have hover : (emplaceBack results r).over = true →
          ∃ m s', Transition.run (parallelStep j) s
            (List.replicate m (.caller {})) = some s' ∧ s'.pc.over = true := by
        intro hover
        refine ⟨1, { s with pc := emplaceBack results r }, ?_, hover⟩
        simp [Transition.run, hstep]
      cases r with
      | broken => exact hover rfl
      | done value =>
          cases value with
          | error error => exact hover rfl
          | ok v =>
              obtain ⟨m, s', hrun, hend⟩ := ih
                (s := { s with pc := .get (results ++ [v]) }) rfl haborted
                hready (by simp; omega)
              refine ⟨m + 1, s', ?_, hend⟩
              rw [List.replicate_succ, Transition.run, hstep]
              exact hrun

/-! ## Runs -/

theorem reachable_collected
    (hs : Transition.Reachable (parallelTransformStep input func)
      initialParallel s) :
    s.Sound ⟨.parallelTransform, input, func⟩ ∧ s.Collected input func := by
  apply hs.invariant (I := fun s =>
    s.Sound ⟨.parallelTransform, input, func⟩ ∧ s.Collected input func)
    (fun s hs => ?_) fun s a s' h _ hstep => ?_
  · have hsound := sound_initial ⟨.parallelTransform, input, func⟩ hs
    rw [hs.2] at hsound ⊢
    exact ⟨hsound, trivial⟩
  · exact ⟨h.1.step hstep, h.2.step h.1 hstep⟩

/-- `ParallelTransform` throws or returns the function applied to the elements
in order, whatever the schedule and the other users of the pool. -/
theorem parallelTransform_transforms (input : List α)
    (func : α → Except ε β)
    (hs : Transition.Reachable (parallelTransformStep input func)
      initialParallel s) : s.Transforms input func := by
  obtain ⟨-, hcollected⟩ := reachable_collected hs
  constructor
  · intro results hpc
    simpa only [Parallel.Collected, hpc] using hcollected
  · intro error hpc
    simpa only [Parallel.Collected, hpc] using hcollected
  · intro hpc
    simpa only [Parallel.Collected, hpc] using hcollected
  · intro results hpc haborted hready
    exact exists_over hpc haborted hready

/-! ## A run in which the later task returns first -/

/-- A function that does not throw. -/
def square (n : ℕ) : Except Empty ℕ :=
  .ok (n * n)

def stepSquares : Parallel ℕ Empty → ParallelAction →
    Option (Parallel ℕ Empty) :=
  parallelTransformStep [3, 4] square

/-- One worker is in the task of the first element until the other has
returned from the task of the second. -/
def squaresBoth : List ParallelAction :=
  List.replicate 11 (ParallelAction.caller {}) ++
    List.replicate 6 (ParallelAction.other (.worker 1 {})) ++
      List.replicate 7 (ParallelAction.other (.worker 0 {})) ++
        [ParallelAction.other (.worker 1 {})] ++
          List.replicate 3 (ParallelAction.caller {})

theorem squaresBoth_runs :
    (Transition.run stepSquares { pool := construct pairConfig 0 }
      squaresBoth).isSome := by
  decide

theorem transforms_squaresBoth :
    ∃ s, Transition.run stepSquares { pool := construct pairConfig 0 }
      squaresBoth = some s ∧ s.pc = .returned [9, 16] ∧
        s.Transforms [3, 4] square :=
  ⟨_, (Option.some_get squaresBoth_runs).symm, rfl,
    parallelTransform_transforms [3, 4] square (Transition.reachable_get_run
      (construct_mem_initialParallel pairConfig 0) squaresBoth_runs)⟩

end ThreadPool
end Yacul
