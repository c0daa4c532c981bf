import Mathlib.Algebra.BigOperators.Group.List.Basic
import Mathlib.Algebra.Order.Group.Multiset
import Mathlib.Data.List.Perm.Basic

/-!
# Tallies over a roster of slots

Threads, guards and buffers are kept in lists and named by their index.  A
tally adds up what each slot contributes: a number when slots are counted, a
multiset when they are collected.  A step that rewrites one slot changes the
tally by the difference between the two contributions.
-/

namespace Yacul.Roster

variable {α M : Type*} [AddCommMonoid M]

/-- The sum of the contributions of all slots. -/
def tally (f : α → M) (slots : List α) : M :=
  (slots.map f).sum

@[simp] theorem tally_nil (f : α → M) : tally f [] = 0 := rfl

@[simp] theorem tally_cons (f : α → M) (x : α) (slots : List α) :
    tally f (x :: slots) = f x + tally f slots := by
  simp [tally]

@[simp] theorem tally_append (f : α → M) (xs ys : List α) :
    tally f (xs ++ ys) = tally f xs + tally f ys := by
  simp [tally]

theorem tally_perm {f : α → M} {xs ys : List α} (h : xs.Perm ys) :
    tally f xs = tally f ys :=
  (h.map f).sum_eq

/-- Rewriting slot `i` from `x` to `y` trades the contribution of `x` for the
contribution of `y`. -/
theorem tally_set {f : α → M} {slots : List α} {i : ℕ} {x : α}
    (hx : slots[i]? = some x) (y : α) :
    f x + tally f (slots.set i y) = f y + tally f slots := by
  obtain ⟨hi, rfl⟩ := List.getElem?_eq_some_iff.mp hx
  have hset := tally_perm (f := f) (List.set_perm_cons_eraseIdx hi y)
  have hself := tally_perm (f := f) (List.getElem_cons_eraseIdx_perm hi)
  rw [hset, ← hself, tally_cons, tally_cons, add_left_comm]

/-- Rewriting slot `i` from `x` to `y` where `y` with `m` is worth `x` with
`k`. -/
theorem tally_set_add {M : Type*} [AddCancelCommMonoid M] {f : α → M}
    {slots : List α} {i : ℕ} {x y : α} {m k : M}
    (hx : slots[i]? = some x) (hxy : f y + m = f x + k) :
    tally f (slots.set i y) + m = tally f slots + k := by
  have hset := tally_set (f := f) hx y
  apply add_left_cancel (a := f x)
  calc
    f x + (tally f (slots.set i y) + m) =
        f y + m + tally f slots := by
      rw [← add_assoc, hset, add_right_comm]
    _ = f x + (tally f slots + k) := by
      rw [hxy, add_assoc, add_comm k]

/-- What slot `j` contributed moves to slot `i`. -/
theorem tally_move {M : Type*} [AddCancelCommMonoid M] {f : α → M}
    {slots : List α} {i j : ℕ} {x y : α} (hi : slots[i]? = some x)
    (hj : slots[j]? = some y) (hne : i ≠ j) (z : α) :
    f x + tally f ((slots.set i y).set j z) = f z + tally f slots := by
  have hfirst := tally_set (f := f) hi y
  have hj' : (slots.set i y)[j]? = some y := by
    rw [List.getElem?_set_ne hne, hj]
  have hsecond := tally_set (f := f) hj' z
  apply add_left_cancel (a := f y)
  calc
    f y + (f x + tally f ((slots.set i y).set j z)) =
        f x + (f z + tally f (slots.set i y)) := by
      rw [← hsecond, add_left_comm]
    _ = f z + (f x + tally f (slots.set i y)) := add_left_comm ..
    _ = f y + (f z + tally f slots) := by rw [hfirst, add_left_comm]

/-- Rewriting a slot without changing its contribution keeps the tally. -/
theorem tally_set_of_eq {f : α → M} {slots : List α} {i : ℕ} {x : α}
    (hx : slots[i]? = some x) {y : α} (hxy : f y = f x) :
    tally f (slots.set i y) = tally f slots := by
  obtain ⟨hi, rfl⟩ := List.getElem?_eq_some_iff.mp hx
  have hset := tally_perm (f := f) (List.set_perm_cons_eraseIdx hi y)
  have hself := tally_perm (f := f) (List.getElem_cons_eraseIdx_perm hi)
  rw [hset, ← hself, tally_cons, tally_cons, hxy]

/-- Rewriting slot `i` leaves the contributions of the others. -/
theorem exists_rest (f : α → M) {slots : List α} {i : ℕ} {x : α}
    (hx : slots[i]? = some x) :
    ∃ rest, tally f slots = f x + rest ∧
      ∀ y, tally f (slots.set i y) = f y + rest := by
  obtain ⟨hi, rfl⟩ := List.getElem?_eq_some_iff.mp hx
  refine ⟨tally f (slots.eraseIdx i), ?_, fun y => ?_⟩
  · have hself := tally_perm (f := f) (List.getElem_cons_eraseIdx_perm hi)
    rw [← hself, tally_cons]
  · have hset := tally_perm (f := f) (List.set_perm_cons_eraseIdx hi y)
    rw [hset, tally_cons]

theorem tally_congr {f g : α → M} {slots : List α}
    (h : ∀ x ∈ slots, f x = g x) : tally f slots = tally g slots := by
  rw [tally, tally, List.map_congr_left h]

theorem tally_eq_zero {f : α → M} {slots : List α}
    (h : ∀ x ∈ slots, f x = 0) : tally f slots = 0 := by
  apply List.sum_eq_zero
  intro m hm
  obtain ⟨x, hx, rfl⟩ := List.mem_map.mp hm
  exact h x hx

/-- The tally of a sum is the sum of the tallies. -/
theorem tally_add (f g : α → M) (slots : List α) :
    tally (fun x => f x + g x) slots = tally f slots + tally g slots := by
  induction slots with
  | nil => simp
  | cons x slots ih => simp only [tally_cons, ih, add_add_add_comm]

/-- A tally commutes with an additive map. -/
theorem map_tally {N : Type*} [AddCommMonoid N] (φ : M →+ N) (f : α → M)
    (slots : List α) : φ (tally f slots) = tally (fun x => φ (f x)) slots := by
  induction slots with
  | nil => simp
  | cons x slots ih => simp only [tally_cons, map_add, ih]

/-- Two ways to contribute that differ at one slot only. -/
theorem tally_of_differ [DecidableEq α] {f g : α → M} {slots : List α}
    (hnodup : slots.Nodup) {x : α}
    (hx : x ∈ slots) (h : ∀ y, y ≠ x → f y = g y) :
    tally f slots + g x = tally g slots + f x := by
  have hperm := List.perm_cons_erase hx
  rw [tally_perm hperm, tally_perm (f := g) hperm, tally_cons, tally_cons,
    tally_congr fun y hy => h y (hnodup.mem_erase_iff.mp hy).1,
    add_right_comm, add_comm (f x), add_right_comm]

/-- Debts that are covered slot by slot are covered in total. -/
theorem neg_tally_le {α : Type*} {f : α → ℤ} {g : α → ℕ} {slots : List α}
    (h : ∀ x ∈ slots, -f x ≤ g x) : -tally f slots ≤ (tally g slots : ℕ) := by
  induction slots with
  | nil => simp
  | cons x slots ih =>
      have hx := h x List.mem_cons_self
      have hrest := ih fun y hy => h y (List.mem_cons_of_mem x hy)
      simp only [tally_cons]
      omega

theorem mem_tally {β : Type*} {f : α → Multiset β} {slots : List α} {b : β} :
    b ∈ tally f slots ↔ ∃ x ∈ slots, b ∈ f x := by
  induction slots with
  | nil => simp
  | cons x slots ih => simp [ih]

theorem countP_eq_tally {α : Type*} (p : α → Bool) (slots : List α) :
    slots.countP p = tally (fun x => (p x).toNat) slots := by
  induction slots with
  | nil => rfl
  | cons x slots ih =>
      rw [List.countP_cons, tally_cons, ih, add_comm]
      cases p x <;> rfl

/-- Rewriting slot `i` changes a count by the difference between the two
entries. -/
theorem countP_set_add {α : Type*} {p : α → Bool} {slots : List α} {i : ℕ}
    {x : α}
    (hx : slots[i]? = some x) (y : α) :
    (p x).toNat + (slots.set i y).countP p =
      (p y).toNat + slots.countP p := by
  rw [countP_eq_tally, countP_eq_tally]
  exact tally_set (f := fun x => (p x).toNat) hx y

/-- When at most one slot counts, a slot that counts is the only one. -/
theorem eq_of_countP_le_one {α : Type*} {p : α → Bool} {slots : List α}
    {i j : ℕ} {x y : α} (h : slots.countP p ≤ 1) (hi : slots[i]? = some x)
    (hx : p x = true) (hj : slots[j]? = some y) (hy : p y = true) : i = j := by
  by_contra hne
  obtain ⟨hlt, hget⟩ := List.getElem?_eq_some_iff.mp hi
  have hsplit := tally_perm (f := fun x => (p x).toNat)
    (List.getElem_cons_eraseIdx_perm hlt)
  rw [hget, tally_cons, hx, ← countP_eq_tally, ← countP_eq_tally] at hsplit
  have hzero : (slots.eraseIdx i).countP p = 0 := by
    rw [Bool.toNat_true] at hsplit
    omega
  have hmem : y ∈ slots.eraseIdx i :=
    List.mem_eraseIdx_iff_getElem?.mpr ⟨j, fun heq => hne heq.symm, hj⟩
  exact absurd hy (List.countP_eq_zero.mp hzero y hmem)

/-- A roster that grows keeps its slots. -/
theorem getElem?_append {α : Type*} {slots : List α} {i : ℕ} {x : α}
    (hx : slots[i]? = some x) (new : List α) :
    (slots ++ new)[i]? = some x := by
  obtain ⟨hi, -⟩ := List.getElem?_eq_some_iff.mp hx
  rw [List.getElem?_append_left hi, hx]

end Yacul.Roster
