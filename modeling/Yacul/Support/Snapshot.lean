import Mathlib.Data.Fintype.Basic
import Mathlib.Logic.Function.Basic

/-!
# Collecting variables one after another

A reader collects variables that others change meanwhile.  What it has in the
end is a snapshot when all the variables had the collected values together at
some instant of the collection.  The rule is that this is so when, once a
variable that has been collected has changed, no variable that is still to be
collected changes.
-/

namespace Yacul.Snapshot

variable {ι : Type*} {V : ι → Type*}

/-- At the instant when the variables had the values `v`, those collected so
far had the collected values, and the others the values they have now. -/
structure Witness (todo : List ι) (got now v : ∀ i, V i) : Prop where
  collected : ∀ i, i ∉ todo → v i = got i
  pending : ∀ i ∈ todo, v i = now i

/-- One of the instants seen can still be that of the snapshot. -/
def Consistent (todo : List ι) (got now : ∀ i, V i)
    (seen : List (∀ i, V i)) : Prop :=
  ∃ v ∈ seen, Witness todo got now v

/-- A change from `now` to `next` leaves the variables that have been
collected as they were then, or leaves those still to be collected. -/
def Undisturbed (todo : List ι) (got now next : ∀ i, V i) : Prop :=
  (∀ i, i ∉ todo → next i = got i) ∨ ∀ i ∈ todo, next i = now i

instance [Fintype ι] [DecidableEq ι] [∀ i, DecidableEq (V i)]
    (todo : List ι) (got now next : ∀ i, V i) :
    Decidable (Undisturbed todo got now next) := by
  unfold Undisturbed
  exact inferInstance

section

variable {todo : List ι} {i : ι} {got now next : ∀ i, V i}
  {seen : List (∀ i, V i)}

/-- A collection begins. -/
theorem consistent_start (htodo : ∀ i, i ∈ todo) :
    Consistent todo got now [now] :=
  ⟨now, List.mem_singleton_self now,
    fun i hi => absurd (htodo i) hi, fun _ _ => rfl⟩

/-- The next variable is collected. -/
theorem Consistent.read [DecidableEq ι]
    (h : Consistent (i :: todo) got now seen) :
    Consistent todo (Function.update got i (now i)) now seen := by
  obtain ⟨v, hv, hcollected, hpending⟩ := h
  refine ⟨v, hv, fun j hj => ?_, fun j hj => ?_⟩
  · by_cases hji : j = i
    · subst hji
      rw [Function.update_self]
      exact hpending j List.mem_cons_self
    · rw [Function.update_of_ne hji]
      exact hcollected j (List.not_mem_cons_of_ne_of_not_mem hji hj)
  · exact hpending j (List.mem_cons_of_mem i hj)

/-- The variables change, and the new values are seen. -/
theorem Consistent.change (h : Consistent todo got now seen)
    (hchange : Undisturbed todo got now next) :
    Consistent todo got next (next :: seen) := by
  obtain ⟨v, hv, hcollected, hpending⟩ := h
  rcases hchange with hsame | hsame
  · exact ⟨next, List.mem_cons_self, hsame, fun _ _ => rfl⟩
  · refine ⟨v, List.mem_cons_of_mem next hv, hcollected, fun j hj => ?_⟩
    rw [hpending j hj, hsame j hj]

/-- What has been collected in the end was there at an instant seen. -/
theorem Consistent.mem (h : Consistent [] got now seen) : got ∈ seen := by
  obtain ⟨v, hv, hcollected, -⟩ := h
  have hgot : v = got := funext fun i => hcollected i List.not_mem_nil
  exact hgot ▸ hv

end

end Yacul.Snapshot
