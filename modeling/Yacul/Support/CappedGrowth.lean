import Mathlib.Algebra.Order.Floor.Ring
import Mathlib.Algebra.Order.Ring.Pow

/-!
# Geometric growth up to a cap

A value that is multiplied by a factor of at least one again and again and
never exceeds a cap, and the whole parts of such values.
-/

namespace Yacul.CappedGrowth

variable {α : Type*} [CommRing α] [LinearOrder α]

/-- The initial value after `n` multiplications, capped. -/
def growth (cap a m : α) (n : ℕ) : α :=
  min cap (a * m ^ n)

variable {cap a m : α} {i j n : ℕ}

theorem growth_le_cap : growth cap a m n ≤ cap :=
  min_le_left _ _

theorem growth_zero (h : a ≤ cap) : growth cap a m 0 = a := by
  rw [growth, pow_zero, mul_one, min_eq_right h]

/-- The first multiplication taken apart. -/
theorem growth_succ : growth cap a m (n + 1) = growth cap (a * m) m n := by
  rw [growth, growth, pow_succ', mul_assoc]

/-- Two values have the same whole part when no whole number lies above the
smaller and up to the larger. -/
theorem floor_eq_floor_iff [FloorRing α] {x y : α} (hxy : x ≤ y) :
    ⌊x⌋ = ⌊y⌋ ↔ ∀ n : ℤ, x < n → ¬ (n : α) ≤ y := by
  constructor
  · intro heq n hlt hle
    have hn : n ≤ ⌊x⌋ := heq ▸ Int.le_floor.mpr hle
    exact absurd (Int.le_floor.mp hn) (not_le.mpr hlt)
  · intro hnone
    refine le_antisymm (Int.floor_mono hxy) ?_
    by_contra hlt
    exact hnone ⌊y⌋ (Int.floor_lt.mp (not_le.mp hlt)) (Int.floor_le y)

variable [IsStrictOrderedRing α]

theorem growth_nonneg (hcap : 0 ≤ cap) (ha : 0 ≤ a) (hm : 1 ≤ m) :
    0 ≤ growth cap a m n :=
  le_min hcap (mul_nonneg ha (pow_nonneg (zero_le_one.trans hm) n))

theorem mul_pow_mono (ha : 0 ≤ a) (hm : 1 ≤ m) (hij : i ≤ j) :
    a * m ^ i ≤ a * m ^ j :=
  mul_le_mul_of_nonneg_left (pow_le_pow_right₀ hm hij) ha

theorem growth_mono (ha : 0 ≤ a) (hm : 1 ≤ m) (hij : i ≤ j) :
    growth cap a m i ≤ growth cap a m j :=
  min_le_min_left cap (mul_pow_mono ha hm hij)

/-- Once a multiplication reaches the cap, the value stays there. -/
theorem growth_succ_of_reached (ha : 0 ≤ a) (hm : 1 ≤ m)
    (h : cap ≤ a * m) : growth cap a m (n + 1) = cap := by
  refine min_eq_left (h.trans ?_)
  have hmono := mul_pow_mono ha hm (Nat.le_add_left 1 n)
  rwa [pow_one] at hmono

/-- The growth makes no difference of a whole number between `i` and `j`
multiplications, whichever are more. -/
def SameWhole (cap a m : α) (i j : ℕ) : Prop :=
  ∀ n : ℤ, a * m ^ min i j < n → (n : α) ≤ a * m ^ max i j → cap < n

theorem floor_growth_eq_iff [FloorRing α] (ha : 0 ≤ a) (hm : 1 ≤ m) :
    ⌊growth cap a m i⌋ = ⌊growth cap a m j⌋ ↔ SameWhole cap a m i j := by
  have hle : ∀ {i j : ℕ}, i ≤ j →
      (⌊growth cap a m i⌋ = ⌊growth cap a m j⌋ ↔ SameWhole cap a m i j) := by
    intro i j hij
    rw [floor_eq_floor_iff (growth_mono ha hm hij), SameWhole,
      min_eq_left hij, max_eq_right hij]
    refine forall_congr' fun n => ?_
    constructor
    · intro h hlt hn
      by_contra hcap
      exact h (min_lt_of_right_lt hlt) (le_min (not_lt.mp hcap) hn)
    · intro h hlt hn
      obtain ⟨hcap, hn⟩ := le_min_iff.mp hn
      rcases min_lt_iff.mp hlt with hlt | hlt
      · exact absurd hcap (not_le.mpr hlt)
      · exact absurd hcap (not_le.mpr (h hlt hn))
  rcases le_total i j with hij | hji
  · exact hle hij
  · rw [eq_comm, hle hji, SameWhole, SameWhole, min_comm, max_comm]

end Yacul.CappedGrowth
