import Mathlib.Data.Nat.Notation
import Mathlib.Logic.Function.Basic

/-!
# Overriding in a list of entries

A list of entries, each with a key or none, is read from the front: what
stands for a key is the first entry that has it.  An entry is assigned by
putting it in the place of the first entry with its key, or at the end.  The
entries that stand for the keys change as under an update of a function.
-/

namespace Yacul.Overrides

variable {α κ : Type*} [DecidableEq κ] (key : α → Option κ)

/-- The entry that stands for a key. -/
def lookup (l : List α) (k : κ) : Option α :=
  l.find? fun a => key a = some k

/-- The entry takes the place of the first one with its key. -/
def assign (l : List α) (a : α) : List α :=
  match key a with
  | none => l ++ [a]
  | some k =>
      match l.findIdx? fun b => key b = some k with
      | some i => l.set i a
      | none => l ++ [a]

variable {key} {l : List α} {a b : α} {k : κ}

theorem lookup_cons (b : α) (l : List α) (k : κ) :
    lookup key (b :: l) k =
      if key b = some k then some b else lookup key l k := by
  by_cases hb : key b = some k <;> simp [lookup, hb]

/-- An entry without a key stands for nothing. -/
theorem lookup_append_none (ha : key a = none) :
    lookup key (l ++ [a]) = lookup key l := by
  funext k
  simp [lookup, ha]

/-- At the end, an entry stands for its key if no other one does. -/
theorem lookup_append (ha : key a = some k) (hl : lookup key l k = none) :
    lookup key (l ++ [a]) = Function.update (lookup key l) k (some a) := by
  funext k'
  by_cases heq : k' = k
  · subst heq
    rw [Function.update_self, lookup, List.find?_append]
    rw [lookup] at hl
    simp [hl, ha]
  · have hne : ¬ k = k' := fun h => heq h.symm
    rw [Function.update_of_ne heq]
    simp [lookup, ha, hne]

/-- The first entry with a key is replaced by another one with that key. -/
theorem lookup_set {i : ℕ} (ha : key a = some k)
    (hi : l.findIdx? (fun b => key b = some k) = some i) :
    lookup key (l.set i a) = Function.update (lookup key l) k (some a) := by
  induction l generalizing i with
  | nil => cases hi
  | cons b l ih =>
      funext k'
      rw [List.findIdx?_cons] at hi
      by_cases hb : key b = some k
      · simp only [hb, decide_true, if_true] at hi
        obtain rfl := Option.some.inj hi
        rw [List.set_cons_zero, lookup_cons, ha]
        by_cases heq : k' = k
        · rw [heq, if_pos rfl, Function.update_self]
        · have hne : ¬ some k = some k' := fun h => heq (Option.some.inj h).symm
          rw [Function.update_of_ne heq, lookup_cons, hb, if_neg hne,
            if_neg hne]
      · simp only [hb, decide_false, Bool.false_eq_true, if_false] at hi
        obtain ⟨j, hj, rfl⟩ := Option.map_eq_some_iff.mp hi
        rw [List.set_cons_succ, lookup_cons, ih hj]
        by_cases heq : k' = k
        · rw [heq, if_neg hb, Function.update_self, Function.update_self]
        · rw [Function.update_of_ne heq, Function.update_of_ne heq,
            lookup_cons]

theorem lookup_assign_none (ha : key a = none) :
    lookup key (assign key l a) = lookup key l := by
  rw [assign, ha]
  exact lookup_append_none ha

theorem lookup_assign (ha : key a = some k) :
    lookup key (assign key l a) =
      Function.update (lookup key l) k (some a) := by
  rw [assign, ha]
  dsimp only
  split
  · next i hi => exact lookup_set ha hi
  · next hnone =>
    refine lookup_append ha (List.find?_eq_none.mpr fun b hb => ?_)
    exact Bool.eq_false_iff.mp (List.findIdx?_eq_none_iff.mp hnone b hb)

/-- After a list of assignments the last one for a key stands for it, or else
what did before. -/
theorem lookup_foldl_assign (extra l : List α) (k : κ) :
    lookup key (extra.foldl (assign key) l) k =
      (extra.filter fun a => key a = some k).getLast?.or (lookup key l k) := by
  induction extra generalizing l with
  | nil => rfl
  | cons a extra ih =>
      rw [List.foldl_cons, ih]
      cases ha : key a with
      | none => simp [lookup_assign_none ha, ha]
      | some k' =>
          rw [lookup_assign ha]
          by_cases heq : k = k'
          · subst heq
            rw [Function.update_self, List.filter_cons_of_pos (by simp [ha]),
              List.getLast?_cons]
            cases (extra.filter fun a => key a = some k).getLast? <;> rfl
          · have hne : ¬ k' = k := fun h => heq h.symm
            rw [Function.update_of_ne heq,
              List.filter_cons_of_neg (by simp [ha, hne])]

end Yacul.Overrides
