import Mathlib.Data.Multiset.ZeroCons
import Mathlib.Data.Multiset.MapFold
import Mathlib.Logic.Relation

/-!
# Shared and exclusive holds on touching resources

This is what a reader-writer lock is for, over any type of resources and any
relation saying which resources touch: a multiset of holds, a hold added only
when it is compatible with all present ones, and a hold taken away at any
time.  Along every sequence of such steps two holds of touching resources are
both shared.
-/

namespace Yacul.SharedExclusive

/-- One hold: a resource, and whether it is held exclusively. -/
structure Hold (ρ : Type*) where
  resource : ρ
  exclusive : Bool
deriving DecidableEq, Repr

variable {ρ : Type*} {touches : ρ → ρ → Prop}

/-- Two holds may coexist when their resources do not touch or both are
shared. -/
def Compatible (touches : ρ → ρ → Prop) (h k : Hold ρ) : Prop :=
  touches h.resource k.resource → h.exclusive = false ∧ k.exclusive = false

theorem Compatible.symm (htouches : ∀ r q, touches r q → touches q r)
    {h k : Hold ρ} (hc : Compatible touches h k) : Compatible touches k h := by
  intro hkh
  exact (hc (htouches _ _ hkh)).symm

/-- Any two holds of the multiset are compatible. -/
def Exclusion (touches : ρ → ρ → Prop) (held : Multiset (Hold ρ)) : Prop :=
  ∀ h k rest, held = h ::ₘ k ::ₘ rest → Compatible touches h k

/-- The steps of a reader-writer lock. -/
inductive Step (touches : ρ → ρ → Prop) :
    Multiset (Hold ρ) → Multiset (Hold ρ) → Prop
  | acquire {held : Multiset (Hold ρ)} {h : Hold ρ}
      (hfree : ∀ k ∈ held, Compatible touches h k) :
      Step touches held (h ::ₘ held)
  | release {held : Multiset (Hold ρ)} {h : Hold ρ} :
      Step touches (h ::ₘ held) held

theorem exclusion_zero : Exclusion touches (0 : Multiset (Hold ρ)) := by
  intro h k rest heq
  exact absurd heq.symm (Multiset.cons_ne_zero)

theorem Exclusion.of_cons {held : Multiset (Hold ρ)} {h : Hold ρ}
    (hx : Exclusion touches (h ::ₘ held)) : Exclusion touches held := by
  intro a b rest heq
  apply hx a b (h ::ₘ rest)
  rw [heq, Multiset.cons_swap h a, Multiset.cons_swap h b]

theorem Exclusion.cons (htouches : ∀ r q, touches r q → touches q r)
    {held : Multiset (Hold ρ)} {h : Hold ρ}
    (hx : Exclusion touches held)
    (hfree : ∀ k ∈ held, Compatible touches h k) :
    Exclusion touches (h ::ₘ held) := by
  intro a b rest heq
  rcases Multiset.cons_eq_cons.mp heq with ⟨rfl, hheld⟩ | ⟨-, mid, hheld, hmid⟩
  · exact hfree b (by simp [hheld])
  · rcases Multiset.cons_eq_cons.mp hmid with ⟨rfl, hrest⟩ | ⟨-, mid', -, hmid'⟩
    · exact (hfree a (by simp [hheld])).symm htouches
    · exact hx a b mid' (by rw [hheld, hmid'])

theorem Exclusion.step (htouches : ∀ r q, touches r q → touches q r)
    {held held' : Multiset (Hold ρ)} (hx : Exclusion touches held)
    (hstep : Step touches held held') : Exclusion touches held' := by
  cases hstep with
  | acquire hfree => exact hx.cons htouches hfree
  | release => exact hx.of_cons

end Yacul.SharedExclusive
