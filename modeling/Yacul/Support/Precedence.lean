import Mathlib.Data.List.Induction

/-!
# What comes before what in a history

A history is a list that grows at its end.
-/

namespace Yacul.Precedence

variable {α : Type*} {a b c : α} {history : List α}

/-- Every `b` of the history stands after an `a`. -/
def Precedes (a b : α) (history : List α) : Prop :=
  ∀ before after, history = before ++ b :: after → a ∈ before

theorem precedes_nil (a b : α) : Precedes a b [] := by
  intro before after h
  simp at h

theorem precedes_of_notMem (hb : b ∉ history) : Precedes a b history := by
  intro before after h
  rw [h] at hb
  exact absurd (List.mem_append_right _ List.mem_cons_self) hb

theorem precedes_cons :
    Precedes a b (c :: history) ↔ c ≠ b ∧ (c = a ∨ Precedes a b history) := by
  constructor
  · intro h
    constructor
    · rintro rfl
      exact absurd (h [] history rfl) List.not_mem_nil
    · by_cases hc : c = a
      · exact .inl hc
      · refine .inr fun before after heq => ?_
        have hmem := h (c :: before) after (by rw [heq, List.cons_append])
        exact (List.mem_cons.mp hmem).resolve_left fun ha => hc ha.symm
  · rintro ⟨hb, h⟩ before after heq
    cases before with
    | nil => exact absurd (List.cons.inj heq).1 hb
    | cons d before =>
        obtain ⟨rfl, hrest⟩ := List.cons.inj heq
        obtain rfl | h := h
        · exact List.mem_cons_self
        · exact List.mem_cons_of_mem c (h before after hrest)

/-- A history that grows keeps the order when the new entry does. -/
theorem precedes_concat :
    Precedes a b (history ++ [c]) ↔
      Precedes a b history ∧ (c = b → a ∈ history) := by
  constructor
  · intro h
    constructor
    · intro before after heq
      exact h before (after ++ [c]) (by simp [heq])
    · rintro rfl
      exact h history [] rfl
  · rintro ⟨h, hlast⟩ before after heq
    obtain rfl | ⟨after, d, rfl⟩ := List.eq_nil_or_concat after
    · obtain ⟨rfl, hc⟩ := List.append_inj' heq rfl
      exact hlast (List.singleton_inj.mp hc)
    · rw [List.concat_eq_append, ← List.cons_append, ← List.append_assoc]
        at heq
      obtain ⟨heq, -⟩ := List.append_inj' heq rfl
      exact h before after heq

/-- The order stays once an `a` is there. -/
theorem Precedes.append (h : Precedes a b history) (ha : a ∈ history)
    (more : List α) : Precedes a b (history ++ more) := by
  induction more using List.reverseRecOn with
  | nil => rwa [List.append_nil]
  | append_singleton more c ih =>
      rw [← List.append_assoc]
      exact precedes_concat.mpr ⟨ih, fun _ => List.mem_append_left _ ha⟩

/-- The first `b` comes after an `a`. -/
theorem precedes_of_append {first : List α} (hb : b ∉ first) (hab : a ≠ b)
    (second : List α) : Precedes a b (first ++ a :: second) := by
  intro before after heq
  obtain ⟨middle, rfl, hsecond⟩ | ⟨middle, rfl, hafter⟩ :=
    List.append_eq_append_iff.mp heq
  · cases middle with
    | nil => exact absurd (List.cons.inj hsecond).1 hab
    | cons c middle =>
        obtain ⟨rfl, -⟩ := List.cons.inj hsecond
        exact List.mem_append_right _ List.mem_cons_self
  · cases middle with
    | nil => exact absurd (List.cons.inj hafter).1 hab.symm
    | cons c middle =>
        obtain ⟨rfl, -⟩ := List.cons.inj hafter
        exact absurd (List.mem_append_right _ List.mem_cons_self) hb

/-- The order holds of what is left of a history without repetitions, as long
as `a` is. -/
theorem Precedes.of_sublist {rest : List α} (h : Precedes a b history)
    (hsub : rest.Sublist history) (hnodup : history.Nodup) (ha : a ∈ rest) :
    Precedes a b rest := by
  induction hsub with
  | slnil => exact h
  | @cons rest history c hsub ih =>
      obtain ⟨hc, hnodup⟩ := List.nodup_cons.mp hnodup
      obtain ⟨-, rfl | h⟩ := precedes_cons.mp h
      · exact absurd (hsub.subset ha) hc
      · exact ih h hnodup ha
  | @cons_cons rest history c hsub ih =>
      obtain ⟨hb, hrest⟩ := precedes_cons.mp h
      refine precedes_cons.mpr ⟨hb, ?_⟩
      by_cases hc : c = a
      · exact .inl hc
      · refine .inr (ih (hrest.resolve_left hc) (List.nodup_cons.mp hnodup).2 ?_)
        exact (List.mem_cons.mp ha).resolve_left (Ne.symm hc)

theorem Precedes.of_append {more : List α}
    (h : Precedes a b (history ++ more)) : Precedes a b history := by
  intro before after heq
  exact h before (after ++ more) (by simp [heq])

theorem Precedes.mem (h : Precedes a b history) (hb : b ∈ history) :
    a ∈ history := by
  obtain ⟨before, after, rfl⟩ := List.append_of_mem hb
  exact List.mem_append_left _ (h before after rfl)

theorem Precedes.trans (hab : Precedes a b history)
    (hbc : Precedes b c history) : Precedes a c history := by
  intro before after heq
  obtain ⟨first, second, rfl⟩ := List.append_of_mem (hbc before after heq)
  have ha := hab first (second ++ c :: after) (by simp [heq])
  exact List.mem_append_left _ ha

instance Precedes.decide [DecidableEq α] (a b : α) :
    (history : List α) → Decidable (Precedes a b history)
  | [] => isTrue (precedes_nil a b)
  | _ :: history =>
      have := Precedes.decide a b history
      decidable_of_iff _ precedes_cons.symm

end Yacul.Precedence
