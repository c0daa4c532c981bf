import Yacul.Support.Transition
import Mathlib.Algebra.BigOperators.Group.List.Basic
import Mathlib.Algebra.Order.Monoid.Defs
import Mathlib.Tactic.Abel

/-!
# Budgets along runs

Every step of a run may spend something and may bring something in.  If no
step spends more than the value of the state drops, up to what it brings in,
then no run does.
-/

namespace Yacul.Transition

variable {σ α M : Type*} {step : σ → α → Option σ}

/-- What the steps of the run of `acts` from `s` spend together. -/
def total [AddMonoid M] (step : σ → α → Option σ) (spent : σ → α → M) :
    σ → List α → M
  | _, [] => 0
  | s, a :: acts =>
      match step s a with
      | none => 0
      | some s' => spent s a + total step spent s' acts

/-- The budget rule, for an invariant `I` and actions that satisfy `Q`. -/
theorem total_add_le [AddCommGroup M] [PartialOrder M] [IsOrderedAddMonoid M]
    {I : σ → Prop} {Q : α → Prop} {value : σ → M} {spent : σ → α → M}
    {income : α → M}
    (hI : ∀ s a s', I s → step s a = some s' → I s')
    (hstep : ∀ s a s', I s → Q a → step s a = some s' →
      spent s a + value s' ≤ value s + income a)
    {s s' : σ} (hs : I s) {acts : List α} (hacts : ∀ a ∈ acts, Q a)
    (hrun : run step s acts = some s') :
    total step spent s acts + value s' ≤
      value s + (acts.map income).sum := by
  induction acts generalizing s with
  | nil =>
      obtain rfl : s = s' := Option.some.inj hrun
      simp [total]
  | cons a acts ih =>
      obtain ⟨mid, hmid, hrest⟩ := Option.bind_eq_some_iff.mp hrun
      have hhead := hstep s a mid hs (hacts a List.mem_cons_self) hmid
      have htail := ih (hI s a mid hs hmid)
        (fun b hb => hacts b (List.mem_cons_of_mem a hb)) hrest
      rw [List.map_cons, List.sum_cons]
      calc total step spent s (a :: acts) + value s'
          = spent s a + (total step spent mid acts + value s') := by
            simp only [total, hmid]
            abel
        _ ≤ spent s a + (value mid + (acts.map income).sum) := by
            gcongr
        _ = spent s a + value mid + (acts.map income).sum := by abel
        _ ≤ value s + income a + (acts.map income).sum := by
            gcongr
        _ = value s + (income a + (acts.map income).sum) := by abel

end Yacul.Transition
