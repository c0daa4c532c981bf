import Mathlib.Algebra.Group.Nat.Defs
import Mathlib.Data.Int.Bitwise
import Mathlib.Data.Nat.Bitwise
import Mathlib.Tactic.Ring

/-!
# Counting zeros and clearing low bits

The leading and the trailing zeros of a word, told from the powers of two
around its value, and the mask that clears the low bits of an integer in two's
complement.
-/

namespace Yacul.Bits

variable {w k x : ℕ}

/-- The mask of the lowest `k` bits, taken away. -/
theorem ldiff_two_pow_sub_one (m k : ℕ) :
    Nat.ldiff m (2 ^ k - 1) = m / 2 ^ k * 2 ^ k := by
  apply Nat.eq_of_testBit_eq
  intro i
  rw [Nat.testBit_ldiff, Nat.testBit_two_pow_sub_one, Nat.testBit_mul_two_pow,
    Nat.testBit_div_two_pow]
  by_cases hik : k ≤ i
  · simp [hik, Nat.sub_add_cancel hik]
  · simp [hik, Nat.lt_of_not_le hik]

/-- The lowest `k` bits, all set. -/
theorem lor_two_pow_sub_one (m k : ℕ) :
    m ||| (2 ^ k - 1) = m / 2 ^ k * 2 ^ k + (2 ^ k - 1) := by
  have hlow : 2 ^ k - 1 < 2 ^ k := Nat.sub_lt (Nat.two_pow_pos k) Nat.one_pos
  apply Nat.eq_of_testBit_eq
  intro i
  rw [Nat.mul_comm, Nat.testBit_two_pow_mul_add _ hlow, Nat.testBit_or,
    Nat.testBit_two_pow_sub_one]
  by_cases hik : i < k
  · simp [hik]
  · have hsub : i - k + k = i := Nat.sub_add_cancel (Nat.le_of_not_lt hik)
    simp [hik, Nat.testBit_div_two_pow, hsub]

theorem two_pow_pos (k : ℕ) : (0 : ℤ) < 2 ^ k :=
  Int.pow_pos (by decide)

theorem neg_two_pow (k : ℕ) : (-2 ^ k : ℤ) = Int.negSucc (2 ^ k - 1) := by
  rw [Int.negSucc_eq]
  push_cast [Nat.cast_sub (Nat.two_pow_pos k)]
  omega

/-- The mask without the lowest `k` bits. -/
theorem lnot_two_pow_sub_one (k : ℕ) : Int.lnot (2 ^ k - 1) = -2 ^ k := by
  have hlow : (2 ^ k - 1 : ℤ) = ((2 ^ k - 1 : ℕ) : ℤ) := by
    push_cast [Nat.cast_sub (Nat.two_pow_pos k)]
    rfl
  rw [hlow, neg_two_pow]
  rfl

/-- In two's complement the mask rounds down, also below zero. -/
theorem land_neg_two_pow (z : ℤ) (k : ℕ) :
    Int.land z (-2 ^ k) = z / 2 ^ k * 2 ^ k := by
  rw [neg_two_pow]
  cases z with
  | ofNat m =>
      have hland : Int.land (Int.ofNat m) (Int.negSucc (2 ^ k - 1)) =
          ((Nat.ldiff m (2 ^ k - 1) : ℕ) : ℤ) := rfl
      rw [hland, ldiff_two_pow_sub_one]
      rfl
  | negSucc m =>
      have hland : Int.land (Int.negSucc m) (Int.negSucc (2 ^ k - 1)) =
          Int.negSucc (m ||| (2 ^ k - 1)) := rfl
      have hdiv : Int.negSucc m / 2 ^ k = -((m / 2 ^ k : ℕ) + 1) := by
        rw [Int.negSucc_ediv m (two_pow_pos k)]
        rfl
      rw [hland, lor_two_pow_sub_one, Int.negSucc_eq, hdiv]
      push_cast [Nat.cast_sub (Nat.two_pow_pos k)]
      ring

theorem toNat_ofNat_of_lt (hk : k < w) (hhigh : x < 2 ^ (k + 1)) :
    (BitVec.ofNat w x).toNat = x := by
  have hx : x < 2 ^ w := hhigh.trans_le (Nat.pow_le_pow_right (by decide) hk)
  rw [BitVec.toNat_ofNat, Nat.mod_eq_of_lt hx]

theorem ofNat_ne_zero (hk : k < w) (hlow : 2 ^ k ≤ x)
    (hhigh : x < 2 ^ (k + 1)) : BitVec.ofNat w x ≠ 0#w := by
  intro h
  have hval := toNat_ofNat_of_lt hk hhigh
  rw [h, BitVec.toNat_zero] at hval
  have hpos := Nat.two_pow_pos k
  omega

/-- The leading zeros of a word are told by the powers of two around it. -/
theorem toNat_clz (hk : k < w) (hlow : 2 ^ k ≤ x) (hhigh : x < 2 ^ (k + 1)) :
    (BitVec.ofNat w x).clz.toNat = w - 1 - k := by
  have hle := BitVec.two_pow_sub_clz_le_toNat_of_ne_zero (Nat.zero_lt_of_lt hk)
    (ofNat_ne_zero hk hlow hhigh)
  have hlt := BitVec.toNat_lt_two_pow_sub_clz (x := BitVec.ofNat w x)
  rw [toNat_ofNat_of_lt hk hhigh] at hle hlt
  have hupper : w - 1 - (BitVec.ofNat w x).clz.toNat < k + 1 :=
    (Nat.pow_lt_pow_iff_right (by decide)).mp (hle.trans_lt hhigh)
  have hlower : k < w - (BitVec.ofNat w x).clz.toNat :=
    (Nat.pow_lt_pow_iff_right (by decide)).mp (hlow.trans_lt hlt)
  omega

/-- The trailing zeros of a power of two. -/
theorem toNat_ctz (hk : k < w) : (BitVec.ofNat w (2 ^ k)).ctz.toNat = k := by
  have hbit : ∀ i, (BitVec.ofNat w (2 ^ k)).getLsbD i = decide (i = k) := by
    intro i
    rw [BitVec.getLsbD_ofNat, Nat.testBit_two_pow]
    by_cases hik : i = k
    · simp [hik, hk]
    · simp [hik, Ne.symm hik]
  have hne : BitVec.ofNat w (2 ^ k) ≠ 0#w :=
    ofNat_ne_zero hk le_rfl (Nat.pow_lt_pow_right (by decide) k.lt_succ_self)
  have hset := BitVec.getLsbD_true_ctz_of_ne_zero hne
  rw [hbit] at hset
  exact of_decide_eq_true hset

end Yacul.Bits
