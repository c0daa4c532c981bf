import Mathlib.Data.Set.Basic
import Mathlib.Logic.Relation

/-!
# Transition systems given by a partial step function

A concurrent component is modelled by a state type, a type of actions, and a
step function that returns `none` when an action is not enabled.  An action
carries every choice the environment makes (which thread moves, which waiter
is woken), so a run is a list of actions.

The rules of this module are the ones every component uses: an invariant of
the step function holds in every reachable state, and a property that each
step keeps exactly when a condition holds before it, holds along a whole run
exactly when every step of the run meets the condition.
-/

namespace Yacul.Transition

variable {σ α τ : Type*}

/-- Execute a list of actions.  The run fails at the first disabled action. -/
def run (step : σ → α → Option σ) : σ → List α → Option σ
  | s, [] => some s
  | s, a :: acts => (step s a).bind fun s' => run step s' acts

/-- States reached from `init` by steps that are all `allowed` in the state
they start from. -/
inductive ReachableVia
    (step : σ → α → Option σ) (allowed : σ → α → Prop) (init : Set σ) :
    σ → Prop
  | start {s : σ} (hs : s ∈ init) : ReachableVia step allowed init s
  | next {s s' : σ} {a : α} (hs : ReachableVia step allowed init s)
      (ha : allowed s a) (hstep : step s a = some s') :
      ReachableVia step allowed init s'

/-- States reached from `init` by any steps. -/
abbrev Reachable (step : σ → α → Option σ) (init : Set σ) : σ → Prop :=
  ReachableVia step (fun _ _ => True) init

section Invariants

variable {step : σ → α → Option σ} {allowed : σ → α → Prop} {init : Set σ}

theorem ReachableVia.reachable {s : σ}
    (hs : ReachableVia step allowed init s) : Reachable step init s := by
  induction hs with
  | start hs => exact .start hs
  | next _ _ hstep ih => exact .next ih trivial hstep

theorem ReachableVia.mono {allowed' : σ → α → Prop} {s : σ}
    (hs : ReachableVia step allowed init s)
    (h : ∀ s a, allowed s a → allowed' s a) :
    ReachableVia step allowed' init s := by
  induction hs with
  | start hs => exact .start hs
  | next _ ha hstep ih => exact .next ih (h _ _ ha) hstep

/-- The invariant rule: what holds initially and is kept by every allowed
step holds in every state reached by allowed steps. -/
theorem ReachableVia.invariant {I : σ → Prop}
    (hinit : ∀ s ∈ init, I s)
    (hstep : ∀ s a s', I s → allowed s a → step s a = some s' → I s')
    {s : σ} (hs : ReachableVia step allowed init s) : I s := by
  induction hs with
  | start hs => exact hinit _ hs
  | next _ ha hs' ih => exact hstep _ _ _ ih ha hs'

/-- A run that starts in a reachable state ends in one. -/
theorem Reachable.run {s : σ} (hs : Reachable step init s)
    {acts : List α} {s' : σ} (hrun : run step s acts = some s') :
    Reachable step init s' := by
  induction acts generalizing s with
  | nil =>
      obtain rfl : s = s' := Option.some.inj hrun
      exact hs
  | cons a acts ih =>
      obtain ⟨mid, hmid, hrest⟩ := Option.bind_eq_some_iff.mp hrun
      exact ih (.next hs trivial hmid) hrest

/-- One run after another. -/
theorem run_append {s mid s' : σ} {acts acts' : List α}
    (hrun : Transition.run step s acts = some mid)
    (hrest : Transition.run step mid acts' = some s') :
    Transition.run step s (acts ++ acts') = some s' := by
  induction acts generalizing s with
  | nil =>
      obtain rfl : s = mid := Option.some.inj hrun
      exact hrest
  | cons a acts ih =>
      obtain ⟨s₁, hs₁, hrun'⟩ := Option.bind_eq_some_iff.mp hrun
      exact Option.bind_eq_some_iff.mpr ⟨s₁, hs₁, ih hrun'⟩

/-- The end of an executed run from an initial state is reachable. -/
theorem reachable_get_run {s : σ} (hs : s ∈ init) {acts : List α}
    (hrun : (Transition.run step s acts).isSome = true) :
    Reachable step init ((Transition.run step s acts).get hrun) :=
  Reachable.run (.start hs) (Option.some_get hrun).symm

/-- If from every state of an invariant that is not final there is an allowed
step that brings a count down, a final state is reached. -/
theorem ReachableVia.exists_final {I final : σ → Prop} {left : σ → ℕ}
    (hstep : ∀ s, I s → ¬ final s →
      ∃ a s', allowed s a ∧ step s a = some s' ∧ I s' ∧ left s' < left s)
    {s : σ} (hs : ReachableVia step allowed init s) (hI : I s) :
    ∃ s', ReachableVia step allowed init s' ∧ final s' := by
  induction hn : left s using Nat.strong_induction_on generalizing s with
  | _ n ih =>
      by_cases hfinal : final s
      · exact ⟨s, hs, hfinal⟩
      · obtain ⟨a, s', ha, hs', hI', hlt⟩ := hstep s hI hfinal
        exact ih (left s') (hn ▸ hlt) (.next hs ha hs') hI' rfl

end Invariants

/-! ## Properties of whole runs -/

/-- `P` holds in every state that the run of `acts` from `s` passes through,
up to the first disabled action. -/
def AllStates (step : σ → α → Option σ) (P : σ → Prop) : σ → List α → Prop
  | s, [] => P s
  | s, a :: acts =>
      P s ∧ ∀ s', step s a = some s' → AllStates step P s' acts

/-- Every step of the run of `acts` from `s` meets `C` in the state it starts
from. -/
def AllSteps (step : σ → α → Option σ) (C : σ → α → Prop) :
    σ → List α → Prop
  | _, [] => True
  | s, a :: acts =>
      ∀ s', step s a = some s' → C s a ∧ AllSteps step C s' acts

section Runs

variable {step : σ → α → Option σ} {I P : σ → Prop} {C : σ → α → Prop}

/-- What holds along a run holds at its start. -/
theorem AllStates.head {s : σ} {acts : List α}
    (h : AllStates step P s acts) : P s := by
  cases acts with
  | nil => exact h
  | cons a acts => exact h.1

/-- What an invariant implies of every step holds of every step of a run. -/
theorem allSteps_of_invariant
    (hstep : ∀ s a s', I s → step s a = some s' → I s' ∧ C s a)
    {s : σ} (hs : I s) (acts : List α) : AllSteps step C s acts := by
  induction acts generalizing s with
  | nil => trivial
  | cons a acts ih =>
      intro s' hs'
      obtain ⟨hI', hC⟩ := hstep s a s' hs hs'
      exact ⟨hC, ih hI'⟩

/-- The exact-condition rule for runs whose steps are all allowed. -/
theorem allStates_iff_allSteps_of_allSteps {D : σ → α → Prop}
    (hstep : ∀ s a s', I s → P s → D s a → step s a = some s' →
      I s' ∧ (P s' ↔ C s a))
    {s : σ} (hs : I s) (hP : P s) {acts : List α}
    (hD : AllSteps step D s acts) :
    AllStates step P s acts ↔ AllSteps step C s acts := by
  induction acts generalizing s with
  | nil => simpa [AllStates, AllSteps] using hP
  | cons a acts ih =>
      simp only [AllStates, AllSteps]
      constructor
      · rintro ⟨-, hrest⟩ s' hs'
        have hall := hrest s' hs'
        have hP' := hall.head
        obtain ⟨ha, hD'⟩ := hD s' hs'
        obtain ⟨hI', hiff⟩ := hstep s a s' hs hP ha hs'
        exact ⟨hiff.mp hP', (ih hI' hP' hD').mp hall⟩
      · intro hsteps
        refine ⟨hP, fun s' hs' => ?_⟩
        obtain ⟨hC, hrest⟩ := hsteps s' hs'
        obtain ⟨ha, hD'⟩ := hD s' hs'
        obtain ⟨hI', hiff⟩ := hstep s a s' hs hP ha hs'
        exact (ih hI' (hiff.mpr hC) hD').mpr hrest

/-- The exact-condition rule.  If, in states that satisfy the invariant `I`
and the property `P`, a step keeps `I`, and keeps `P` exactly when it meets
`C`, then a run stays inside `P` exactly when all its steps meet `C`. -/
theorem allStates_iff_allSteps
    (hstep : ∀ s a s', I s → P s → step s a = some s' →
      I s' ∧ (P s' ↔ C s a))
    {s : σ} (hs : I s) (hP : P s) (acts : List α) :
    AllStates step P s acts ↔ AllSteps step C s acts := by
  have htrivial : AllSteps step (fun _ _ => True) s acts :=
    allSteps_of_invariant (I := fun _ => True)
      (fun _ _ _ _ _ => ⟨trivial, trivial⟩) trivial acts
  exact allStates_iff_allSteps_of_allSteps
    (fun s a s' hI hP _ h => hstep s a s' hI hP h) hs hP htrivial

theorem AllStates.mono {Q : σ → Prop} (hPQ : ∀ s, P s → Q s) {s : σ}
    {acts : List α} (h : AllStates step P s acts) :
    AllStates step Q s acts := by
  induction acts generalizing s with
  | nil => exact hPQ s h
  | cons a acts ih => exact ⟨hPQ s h.1, fun s' hs' => ih (h.2 s' hs')⟩

/-- What every step keeps whose target satisfies `Q` holds along a run inside
`Q`. -/
theorem AllStates.of_allStates {Q : σ → Prop}
    (hstep : ∀ s a s', P s → step s a = some s' → Q s' → P s')
    {s : σ} (hP : P s) {acts : List α} (h : AllStates step Q s acts) :
    AllStates step P s acts := by
  induction acts generalizing s with
  | nil => exact hP
  | cons a acts ih =>
      refine ⟨hP, fun s' hs' => ?_⟩
      have hrest := h.2 s' hs'
      exact ih (hstep s a s' hP hs' hrest.head) hrest

/-- Two conditions that agree in the states of an invariant agree along whole
runs. -/
theorem allSteps_congr {D : σ → α → Prop}
    (hI : ∀ s a s', I s → step s a = some s' → I s')
    (hiff : ∀ s a, I s → (C s a ↔ D s a)) {s : σ} (hs : I s)
    (acts : List α) :
    AllSteps step C s acts ↔ AllSteps step D s acts := by
  induction acts generalizing s with
  | nil => exact Iff.rfl
  | cons a acts ih =>
      simp only [AllSteps]
      constructor
      · intro hall s' hs'
        have hmid := hI s a s' hs hs'
        exact ⟨(hiff s a hs).mp (hall s' hs').1,
          (ih hmid).mp (hall s' hs').2⟩
      · intro hall s' hs'
        have hmid := hI s a s' hs hs'
        exact ⟨(hiff s a hs).mpr (hall s' hs').1,
          (ih hmid).mpr (hall s' hs').2⟩

/-- What holds along a run holds at its end. -/
theorem AllStates.last {s s' : σ} {acts : List α}
    (h : AllStates step P s acts)
    (hrun : Transition.run step s acts = some s') : P s' := by
  induction acts generalizing s with
  | nil =>
      obtain rfl : s = s' := Option.some.inj hrun
      exact h
  | cons a acts ih =>
      obtain ⟨mid, hmid, hrest⟩ := Option.bind_eq_some_iff.mp hrun
      exact ih (h.2 mid hmid) hrest

/-- What no step can bring about holds along a run when it holds at its
end. -/
theorem AllStates.of_last
    (hback : ∀ s a s', step s a = some s' → P s' → P s)
    {s s' : σ} {acts : List α}
    (hrun : Transition.run step s acts = some s') (h : P s') :
    AllStates step P s acts := by
  induction acts generalizing s with
  | nil =>
      obtain rfl : s = s' := Option.some.inj hrun
      exact h
  | cons a acts ih =>
      obtain ⟨mid, hmid, hrest⟩ := Option.bind_eq_some_iff.mp hrun
      have hall := ih hrest
      refine ⟨hback s a mid hmid hall.head, fun s₁ hs₁ => ?_⟩
      obtain rfl : mid = s₁ := Option.some.inj (hmid.symm.trans hs₁)
      exact hall

/-- `AllStates` can be checked on a given run. -/
instance AllStates.decide [DecidablePred P] (s : σ) (acts : List α) :
    Decidable (AllStates step P s acts) :=
  match acts with
  | [] => inferInstanceAs (Decidable (P s))
  | a :: acts =>
      match hs : step s a with
      | none => decidable_of_iff (P s)
          ⟨fun h => ⟨h, fun s' hs' => by simp [hs] at hs'⟩, fun h => h.1⟩
      | some mid =>
          have := AllStates.decide mid acts
          decidable_of_iff (P s ∧ AllStates step P mid acts)
            ⟨fun h => ⟨h.1, fun s' hs' =>
                Option.some.inj (hs.symm.trans hs') ▸ h.2⟩,
              fun h => ⟨h.1, h.2 mid hs⟩⟩

/-- `AllSteps` can be checked on a given run. -/
instance AllSteps.decide [∀ s a, Decidable (C s a)] (s : σ)
    (acts : List α) : Decidable (AllSteps step C s acts) :=
  match acts with
  | [] => isTrue trivial
  | a :: acts =>
      match hs : step s a with
      | none => isTrue fun s' hs' => by simp [hs] at hs'
      | some mid =>
          have := AllSteps.decide mid acts
          decidable_of_iff (C s a ∧ AllSteps step C mid acts)
            ⟨fun h s' hs' => Option.some.inj (hs.symm.trans hs') ▸ h,
              fun h => h mid hs⟩

/-- A run whose steps are all allowed ends in a state reached by allowed
steps. -/
theorem ReachableVia.run {init : Set σ} {s : σ}
    (hs : ReachableVia step C init s) {acts : List α}
    (hall : AllSteps step C s acts) {s' : σ}
    (hrun : Transition.run step s acts = some s') :
    ReachableVia step C init s' := by
  induction acts generalizing s with
  | nil =>
      obtain rfl : s = s' := Option.some.inj hrun
      exact hs
  | cons a acts ih =>
      obtain ⟨mid, hmid, hrest⟩ := Option.bind_eq_some_iff.mp hrun
      obtain ⟨hC, hall'⟩ := hall mid hmid
      exact ih (.next hs hC hmid) hall' hrest

end Runs

/-! ## Simulation -/

/-- Every concrete step is matched by finitely many abstract steps under the
abstraction function `abs`, in states that satisfy the invariant `I`. -/
def Simulates (step : σ → α → Option σ) (I : σ → Prop) (abs : σ → τ)
    (absStep : τ → τ → Prop) : Prop :=
  ∀ s a s', I s → step s a = some s' →
    Relation.ReflTransGen absStep (abs s) (abs s')

section Simulation

variable {step : σ → α → Option σ} {init : Set σ} {I : σ → Prop}
  {abs : σ → τ} {absStep : τ → τ → Prop}

theorem reflTransGen_invariant {J : τ → Prop}
    (hJ : ∀ t t', J t → absStep t t' → J t') {t t' : τ}
    (ht : Relation.ReflTransGen absStep t t') (h : J t) : J t' := by
  induction ht with
  | refl => exact h
  | tail _ hstep ih => exact hJ _ _ ih hstep

/-- An abstract invariant holds of the abstraction of every reachable
concrete state. -/
theorem Simulates.invariant {J : τ → Prop}
    (hsim : Simulates step I abs absStep)
    (hI : ∀ s, Reachable step init s → I s)
    (hinit : ∀ s ∈ init, J (abs s))
    (hJ : ∀ t t', J t → absStep t t' → J t')
    {s : σ} (hs : Reachable step init s) : J (abs s) := by
  induction hs with
  | start hs => exact hinit _ hs
  | next hs _ hstep ih =>
      exact reflTransGen_invariant hJ (hsim _ _ _ (hI _ hs) hstep) ih

/-- If the steps with a kept action are matched one by one and the others
leave the relation as it is, a run is matched by the run of its kept
actions. -/
theorem exists_run_filter {tstep : τ → α → Option τ} {R : σ → τ → Prop}
    {C : σ → α → Prop} {keep : α → Bool}
    (hkeep : ∀ s t a s', R s t → C s a → keep a = true →
      step s a = some s' → ∃ t', tstep t a = some t' ∧ R s' t')
    (hskip : ∀ s t a s', R s t → keep a = false → step s a = some s' →
      R s' t)
    {s s' : σ} {t : τ} (hR : R s t) {acts : List α}
    (hall : AllSteps step C s acts) (hrun : run step s acts = some s') :
    ∃ t', run tstep t (acts.filter keep) = some t' ∧ R s' t' := by
  induction acts generalizing s t with
  | nil =>
      obtain rfl : s = s' := Option.some.inj hrun
      exact ⟨t, rfl, hR⟩
  | cons a acts ih =>
      obtain ⟨mid, hmid, hrest⟩ := Option.bind_eq_some_iff.mp hrun
      obtain ⟨hC, hall'⟩ := hall mid hmid
      by_cases ha : keep a = true
      · obtain ⟨t₁, ht₁, hR₁⟩ := hkeep s t a mid hR hC ha hmid
        obtain ⟨t', ht', hR'⟩ := ih hR₁ hall' hrest
        refine ⟨t', ?_, hR'⟩
        rw [List.filter_cons_of_pos ha]
        exact Option.bind_eq_some_iff.mpr ⟨t₁, ht₁, ht'⟩
      · rw [List.filter_cons_of_neg ha]
        exact ih (hskip s t a mid hR (Bool.eq_false_of_not_eq_true ha) hmid)
          hall' hrest

end Simulation

/-! ## Observers -/

/-- The system together with an observer, which sees the state and the action
of every step and changes nothing. -/
def watch {ω : Type*} (step : σ → α → Option σ) (observe : σ → α → ω → ω)
    (x : σ × ω) (a : α) : Option (σ × ω) :=
  (step x.1 a).map fun s' => (s', observe x.1 a x.2)

theorem watch_eq_some {ω : Type*} {step : σ → α → Option σ}
    {observe : σ → α → ω → ω} {x x' : σ × ω} {a : α} :
    watch step observe x a = some x' ↔
      step x.1 a = some x'.1 ∧ x'.2 = observe x.1 a x.2 := by
  obtain ⟨s', o'⟩ := x'
  simp only [watch, Option.map_eq_some_iff, Prod.mk.injEq]
  constructor
  · rintro ⟨s₁, hs₁, rfl, rfl⟩
    exact ⟨hs₁, rfl⟩
  · rintro ⟨hs', ho'⟩
    exact ⟨s', hs', rfl, ho'.symm⟩

/-- What is watched runs by the same steps. -/
theorem ReachableVia.of_watch {ω : Type*} {step : σ → α → Option σ}
    {observe : σ → α → ω → ω} {allowed : σ → α → Prop}
    {allowed' : σ × ω → α → Prop} {init : Set σ} {init' : Set (σ × ω)}
    (hinit : ∀ x ∈ init', x.1 ∈ init)
    (hall : ∀ x a, allowed' x a → allowed x.1 a) {x : σ × ω}
    (hx : ReachableVia (watch step observe) allowed' init' x) :
    ReachableVia step allowed init x.1 := by
  induction hx with
  | start hx => exact .start (hinit _ hx)
  | next _ ha hstep ih =>
      exact ih.next (hall _ _ ha) (watch_eq_some.mp hstep).1

end Yacul.Transition
