import Yacul.Misc.MonitorRestarts
import Yacul.Support.CappedGrowth
import Mathlib.Data.Rat.Floor

/-!
# The back-off before a restart

`ComputeBackoff` multiplies once for every restart that the counter has, so
the first restart waits for the initial back-off times the multiplier already.
When the counter has been reset or has wrapped it is the initial back-off,
without the cap.
-/

namespace Yacul
namespace MonitorProcess
namespace MonitorLoop

open CappedGrowth

/-! ## The delay -/

/-- The back-off fields of `Config`; durations are in milliseconds. -/
structure BackoffConfig where
  backoff_initial : ℤ := 500
  backoff_multiplier : ℚ := 3 / 2
  backoff_max : ℤ := 30000
deriving DecidableEq, Repr

/-- `static_cast<long long>` of a number of milliseconds. -/
def truncate (ms : ℚ) : ℤ :=
  ms.num.tdiv ms.den

/-- The loop of `ComputeBackoff`. -/
def multiply (b : BackoffConfig) : ℕ → ℚ → ℤ
  | 0, ms => truncate ms
  | i + 1, ms =>
      let ms := ms * b.backoff_multiplier
      if b.backoff_max ≤ ms then b.backoff_max else multiply b i ms

/-- `MonitorProcess::ComputeBackoff`. -/
def computeBackoff (b : BackoffConfig) (consecutive : Int32) : ℤ :=
  if consecutive ≤ 0 then b.backoff_initial
  else multiply b consecutive.toNatClampNeg b.backoff_initial

/-- What the loop sleeps before a restart, in slices of 100 ms, when it sees no
stop request. -/
def sleepSlices (remaining : ℤ) : List ℤ :=
  if 0 < remaining then
    min remaining 100 :: sleepSlices (remaining - min remaining 100)
  else []
termination_by remaining.toNat
decreasing_by omega

/-- The configurations of a back-off that does not shrink. -/
structure BackoffConfig.Grows (b : BackoffConfig) : Prop where
  initial : 0 ≤ b.backoff_initial
  multiplier : 1 ≤ b.backoff_multiplier
  max : 0 ≤ b.backoff_max

/-- The schedule: the whole milliseconds of the initial back-off times the
multiplier for every restart before this one, capped. -/
def scheduled (b : BackoffConfig) (k : ℕ) : ℤ :=
  ⌊growth (b.backoff_max : ℚ) b.backoff_initial b.backoff_multiplier (k - 1)⌋

section

variable {b : BackoffConfig}

theorem truncate_eq_floor {ms : ℚ} (hms : 0 ≤ ms) : truncate ms = ⌊ms⌋ := by
  rw [truncate, Rat.floor_def',
    Int.tdiv_eq_ediv_of_nonneg (Rat.num_nonneg.mpr hms)]

theorem sum_sleepSlices (remaining : ℤ) :
    (sleepSlices remaining).sum = max remaining 0 := by
  induction remaining using sleepSlices.induct with
  | case1 remaining hpos ih =>
      rw [sleepSlices, if_pos hpos, List.sum_cons, ih]
      omega
  | case2 remaining hdone =>
      rw [sleepSlices, if_neg hdone, List.sum_nil]
      omega

/-- The loop grows the back-off until the cap is reached. -/
theorem multiply_eq (hm : 1 ≤ b.backoff_multiplier) {n : ℕ} {ms : ℚ}
    (hms : 0 ≤ ms) (hn : 0 < n ∨ ms ≤ b.backoff_max) :
    multiply b n ms =
      ⌊growth (b.backoff_max : ℚ) ms b.backoff_multiplier n⌋ := by
  induction n generalizing ms with
  | zero =>
      have hle : ms ≤ b.backoff_max := hn.resolve_left (lt_irrefl 0)
      rw [growth_zero hle, multiply, truncate_eq_floor hms]
  | succ n ih =>
      have hms' : 0 ≤ ms * b.backoff_multiplier :=
        mul_nonneg hms (zero_le_one.trans hm)
      simp only [multiply]
      split_ifs with hreached
      · rw [growth_succ_of_reached hms hm hreached, Int.floor_intCast]
      · rw [ih hms' (.inr (le_of_not_ge hreached)), growth_succ]

/-- A counter in range gives as many multiplications. -/
theorem computeBackoff_of_pos (hb : b.Grows) {c : Int32} (hc : 0 < c) :
    computeBackoff b c =
      ⌊growth (b.backoff_max : ℚ) b.backoff_initial b.backoff_multiplier
        c.toNatClampNeg⌋ := by
  have hinitial : (0 : ℚ) ≤ b.backoff_initial := Int.cast_nonneg hb.initial
  have hn : 0 < c.toNatClampNeg := c.toNatClampNeg_pos_iff.mpr hc
  have hle : ¬ c ≤ 0 := fun h =>
    absurd (Int32.toNatClampNeg_eq_zero_iff.mpr h) hn.ne'
  rw [computeBackoff, if_neg hle, multiply_eq hb.multiplier hinitial (.inl hn)]

/-- The delay is right exactly if the cap is not missed and the multiplications
make no difference of a whole millisecond. -/
def Agrees (b : BackoffConfig) (c : Int32) (k : ℕ) : Prop :=
  (c ≤ 0 → b.backoff_initial ≤ b.backoff_max) ∧
    SameWhole (b.backoff_max : ℚ) b.backoff_initial b.backoff_multiplier
      c.toNatClampNeg (k - 1)

theorem delay_eq_scheduled_iff (hb : b.Grows) (c : Int32) (k : ℕ) :
    (sleepSlices (computeBackoff b c)).sum = scheduled b k ↔ Agrees b c k := by
  have hinitial : (0 : ℚ) ≤ b.backoff_initial := Int.cast_nonneg hb.initial
  have hmax : (0 : ℚ) ≤ b.backoff_max := Int.cast_nonneg hb.max
  rw [sum_sleepSlices, scheduled, Agrees,
    ← floor_growth_eq_iff hinitial hb.multiplier]
  by_cases hc : c ≤ 0
  · rw [computeBackoff, if_pos hc, max_eq_left hb.initial,
      Int32.toNatClampNeg_eq_zero_iff.mpr hc]
    by_cases hcapped : b.backoff_initial ≤ b.backoff_max
    · rw [growth_zero (Int.cast_le.mpr hcapped), Int.floor_intCast]
      exact (and_iff_right fun _ => hcapped).symm
    · have hlt : ⌊growth (b.backoff_max : ℚ) b.backoff_initial
          b.backoff_multiplier (k - 1)⌋ < b.backoff_initial := by
        refine (Int.floor_le_floor growth_le_cap).trans_lt ?_
        rw [Int.floor_intCast]
        exact not_le.mp hcapped
      exact iff_of_false hlt.ne' fun h => hcapped (h.1 hc)
  · have hpos : 0 < c := by
      rw [← Int32.toNatClampNeg_pos_iff, Nat.pos_iff_ne_zero]
      exact fun h => hc (Int32.toNatClampNeg_eq_zero_iff.mp h)
    rw [computeBackoff_of_pos hb hpos, max_eq_left
      (Int.floor_nonneg.mpr (growth_nonneg hmax hinitial hb.multiplier))]
    exact (and_iff_right fun h => absurd h hc).symm

end

/-! ## Runs -/

/-- The number of exits since the last stable run, that is, which of the
consecutive restarts comes next. -/
def countRestarts (s : State) : Action → ℕ → ℕ
  | .loop ans, k =>
      match s.pc with
      | .stable => if s.memory.stableRun ans.now then 0 else k
      | .countConsecutive => k + 1
      | _ => k
  | _, k => k

/-- When the loop backs off before the `k`th consecutive restart, it sleeps as
scheduled. -/
def SleepsAsScheduled (b : BackoffConfig) (x : State × ℕ) : Prop :=
  x.1.pc = .backoff →
    (sleepSlices
      (computeBackoff b x.1.memory.shared.consecutive_restart_count)).sum =
      scheduled b x.2

/-- Where the loop begins to back off, the counter, or 0 if it is reset, agrees
with the schedule. -/
def BacksOffAsScheduled (b : BackoffConfig) (x : State × ℕ) : Action → Prop
  | .loop _ =>
      match x.1.pc with
      | .maxRestarts =>
          x.1.memory.exceeds = false →
            Agrees b x.1.memory.shared.consecutive_restart_count x.2
      | .resetCounter => Agrees b 0 x.2
      | _ => True
  | _ => True

theorem AccountEffect.counter {m m' : Memory} {ans : Answer} {pc pc' : Pc}
    {callers : List Caller} {late : Bool} {k : ℕ}
    (h : AccountEffect m ans pc m' pc') (hreset : pc ≠ .resetCounter)
    (hk : m.shared.consecutive_restart_count = Int32.ofNat k) :
    m'.shared.consecutive_restart_count =
      Int32.ofNat
        (countRestarts ⟨m, pc, callers, late⟩ (.loop ans) k) := by
  cases h with
  | stay hsame hstage hdecides htarget =>
      rw [hsame.consecutive]
      cases pc with
      | stable | countConsecutive =>
          obtain ⟨hpc | hpc, -⟩ := hdecides rfl
          · cases hpc
          · cases hpc
      | _ => exact hk
  | spawn pid hshared hspawns =>
      rw [hshared]
      exact hk
  | stable hstable =>
      simp only [countRestarts, if_pos hstable]
      rfl
  | unstable hstable => simpa [countRestarts, hstable] using hk
  | countConsecutive =>
      dsimp only [countRestarts]
      rw [hk, Int32.ofNat_add]
      rfl
  | resetCounter => exact absurd rfl hreset
  | _ => exact hk

/-- The counter is the number of exits since the last stable run in the range
of its type, as long as it is not reset. -/
theorem consecutive_eq {cfg : Config} {callers : ℕ} {x : State × ℕ}
    (hx : Transition.ReachableVia (Transition.watch step countRestarts)
      (fun x _ => x.1.pc ≠ .resetCounter) {(init cfg callers, 0)} x) :
    x.1.memory.shared.consecutive_restart_count = Int32.ofNat x.2 := by
  have hcount : Published x.1 ∧
      x.1.memory.shared.consecutive_restart_count = Int32.ofNat x.2 := by
    refine hx.invariant (I := fun x => Published x.1 ∧
      x.1.memory.shared.consecutive_restart_count = Int32.ofNat x.2) ?_ ?_
    · rintro _ rfl
      exact ⟨published_init, rfl⟩
    · rintro ⟨s, k⟩ a ⟨s', k'⟩ ⟨hs, hk⟩ hreset hstep
      obtain ⟨hstep, hk'⟩ := Transition.watch_eq_some.mp hstep
      refine ⟨hs.step hstep, ?_⟩
      obtain ⟨ans, rfl, heffect⟩ | ⟨hother, hsame, -⟩ := step_account hs hstep
      · obtain ⟨m, pc, callers, late⟩ := s
        subst hk'
        exact heffect.counter hreset hk
      · cases a with
        | loop ans => exact absurd rfl (hother ans)
        | _ =>
            obtain rfl : k' = k := hk'
            exact hsame.consecutive.trans hk
  exact hcount.2

/-- What an access of the loop does to the delay. -/
theorem AccountEffect.sleeps {b : BackoffConfig} (hb : b.Grows) {m m' : Memory}
    {ans : Answer} {pc pc' : Pc} {callers callers' : List Caller}
    {late late' : Bool} {k : ℕ} (h : AccountEffect m ans pc m' pc')
    (hP : SleepsAsScheduled b (⟨m, pc, callers, late⟩, k)) :
    SleepsAsScheduled b (⟨m', pc', callers', late'⟩,
        countRestarts ⟨m, pc, callers, late⟩ (.loop ans) k) ↔
      BacksOffAsScheduled b (⟨m, pc, callers, late⟩, k) (.loop ans) := by
  cases h with
  | stay hsame hstage hdecides htarget =>
      refine iff_of_true ?_ ?_
      · rintro rfl
        obtain rfl : pc = .backoff := by
          rcases htarget with hpc | ⟨-, hne⟩
          · exact hpc.symm
          · exact absurd rfl hne
        dsimp only
        rw [hsame.consecutive]
        exact hP rfl
      · cases pc with
        | maxRestarts | resetCounter =>
            obtain ⟨hpc | hpc, -⟩ := hdecides rfl
            · cases hpc
            · cases hpc
        | _ => exact trivial
  | goOn hmax =>
      have hagrees := delay_eq_scheduled_iff hb
        m.shared.consecutive_restart_count k
      exact ⟨fun h _ => hagrees.mp (h rfl), fun h _ => hagrees.mpr (h hmax)⟩
  | resetCounter =>
      have hagrees := delay_eq_scheduled_iff hb 0 k
      exact ⟨fun h => hagrees.mp (h rfl), fun h _ => hagrees.mpr h⟩
  | giveUp hmax _ | reset hmax _ =>
      refine iff_of_true (fun h => by cases h) fun hexceeds => ?_
      rw [hmax] at hexceeds
      exact Bool.noConfusion hexceeds
  | _ => exact iff_of_true (fun h => by cases h) trivial

/-- The loop sleeps as scheduled exactly if the counter agrees with the
schedule whenever it begins to back off. -/
theorem sleeps_iff {b : BackoffConfig} (hb : b.Grows) (cfg : Config)
    (callers : ℕ) (acts : List Action) :
    Transition.AllStates (Transition.watch step countRestarts)
        (SleepsAsScheduled b) (init cfg callers, 0) acts ↔
      Transition.AllSteps (Transition.watch step countRestarts)
        (BacksOffAsScheduled b) (init cfg callers, 0) acts := by
  refine Transition.allStates_iff_allSteps (I := fun x => Published x.1) ?_
    published_init (fun h => Pc.noConfusion h) acts
  rintro ⟨s, k⟩ a ⟨s', k'⟩ hs hP hstep
  obtain ⟨hstep, hk⟩ := Transition.watch_eq_some.mp hstep
  refine ⟨hs.step hstep, ?_⟩
  obtain ⟨ans, rfl, heffect⟩ | ⟨hother, hsame, hpc⟩ := step_account hs hstep
  · obtain ⟨m, pc, callers, late⟩ := s
    obtain ⟨m', pc', callers', late'⟩ := s'
    subst hk
    exact heffect.sleeps hb hP
  · cases a with
    | loop ans => exact absurd rfl (hother ans)
    | _ =>
        obtain rfl : k' = k := hk
        refine iff_of_true (fun hbackoff => ?_) trivial
        dsimp only
        rw [hsame.consecutive]
        exact hP (hpc.symm.trans hbackoff)

/-- A back-off that stays as it is. -/
def constant : BackoffConfig where
  backoff_multiplier := 1

theorem sleeps_iff_constant :
    Transition.AllStates (Transition.watch step countRestarts)
        (SleepsAsScheduled constant) (init restartsOnce 0, 0) givesUp ↔
      Transition.AllSteps (Transition.watch step countRestarts)
        (BacksOffAsScheduled constant) (init restartsOnce 0, 0) givesUp :=
  sleeps_iff ⟨by decide, by decide +kernel, by decide⟩ restartsOnce 0 givesUp

/-- The child has exited for the first time. -/
def exitsOnce : List Action :=
  List.replicate 14 (.loop { pid := 7 })

theorem exitsOnce_isSome :
    (Transition.run (Transition.watch step countRestarts)
      (init restartsOnce 0, 0) exitsOnce).isSome = true := by
  decide

/-- With the default values the first restart waits 750 ms, and not the
initial 500 ms. -/
theorem exists_longBackoff :
    ∃ b : BackoffConfig, b.Grows ∧ ∃ cfg callers x,
      Transition.Reachable (Transition.watch step countRestarts)
        {(init cfg callers, 0)} x ∧
      x.1.pc = .backoff ∧ x.2 = 1 ∧ scheduled b 1 = 500 ∧
      (sleepSlices
        (computeBackoff b x.1.memory.shared.consecutive_restart_count)).sum =
        750 := by
  refine ⟨{}, ⟨by decide, by decide +kernel, by decide⟩, restartsOnce, 0,
    (Transition.run (Transition.watch step countRestarts)
      (init restartsOnce 0, 0) exitsOnce).get exitsOnce_isSome,
    Transition.reachable_get_run (Set.mem_singleton _) exitsOnce_isSome,
    by decide, by decide, by decide +kernel, ?_⟩
  rw [sum_sleepSlices]
  decide +kernel

end MonitorLoop
end MonitorProcess
end Yacul
