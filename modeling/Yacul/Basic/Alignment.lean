import Mathlib.Algebra.Order.Group.Nat
import Mathlib.Data.Nat.Bitwise

/-!
# Rounding to powers of two

`IsPowerOfTwo` and `AlignUp` on an unsigned type of a given width.  The sum
inside `AlignUp` wraps; for powers of two the distance from a value to what it
is rounded to, taken modulo the width, is still the padding to the next
multiple.
-/

namespace Yacul
namespace Basic

/-- `IsPowerOfTwo`. -/
def isPowerOfTwo (x : ℕ) : Bool := 0 < x && (x &&& (x - 1)) == 0

/-- `a - b` on an unsigned type of width `w`. -/
def wrapSub (w a b : ℕ) : ℕ := (2 ^ w + a - b) % 2 ^ w

/-- `AlignUp` on an unsigned type of width `w`; `known` tells whether the
compiler knows `b` to be a power of two. -/
def alignUp (w : ℕ) (known : Bool) (a b : ℕ) : ℕ :=
  let sum := (2 ^ w - 1 + a + b) % 2 ^ w
  if known && isPowerOfTwo b then sum &&& (2 ^ w - 1 - (b - 1))
  else sum / b * b

variable {w a b x k : ℕ} {known : Bool}

theorem isPowerOfTwo_iff : isPowerOfTwo x = true ↔ ∃ k, x = 2 ^ k := by
  have hbits := Nat.ne_zero_and_sub_one_eq_zero_iff_isPowerOfTwo (n := x)
  have hpow : x.isPowerOfTwo ↔ ∃ k, x = 2 ^ k := Iff.rfl
  rw [← hpow, ← hbits]
  simp [isPowerOfTwo, Nat.pos_iff_ne_zero]

theorem pos_of_isPowerOfTwo (hb : isPowerOfTwo b = true) : 0 < b := by
  obtain ⟨k, rfl⟩ := isPowerOfTwo_iff.mp hb
  exact Nat.two_pow_pos k

/-- A power of two within the width divides the modulus. -/
theorem dvd_two_pow (hb : isPowerOfTwo b = true) (hw : b ≤ 2 ^ w) :
    b ∣ 2 ^ w := by
  obtain ⟨k, rfl⟩ := isPowerOfTwo_iff.mp hb
  exact Nat.pow_dvd_pow 2 ((Nat.pow_le_pow_iff_right (by decide)).mp hw)

/-- Masking the low bits is dividing and multiplying. -/
theorem land_mask (hx : x < 2 ^ w) (hk : k ≤ w) :
    x &&& (2 ^ w - 1 - (2 ^ k - 1)) = x / 2 ^ k * 2 ^ k := by
  have hlow : 2 ^ k - 1 < 2 ^ w := by
    have hpow : 2 ^ k ≤ 2 ^ w := Nat.pow_le_pow_right (by decide) hk
    have hpos := Nat.two_pow_pos k
    omega
  have hmask : 2 ^ w - 1 - (2 ^ k - 1) = 2 ^ w - (2 ^ k - 1 + 1) := by omega
  apply Nat.eq_of_testBit_eq
  intro i
  rw [hmask, Nat.testBit_and, Nat.testBit_two_pow_sub_succ hlow,
    Nat.testBit_mul_two_pow, Nat.testBit_div_two_pow,
    Nat.testBit_two_pow_sub_one]
  by_cases hik : k ≤ i
  · have hsub : i - k + k = i := Nat.sub_add_cancel hik
    by_cases hiw : i < w
    · simp [hik, hiw, hsub]
    · have hbit : x.testBit i = false := by
        apply Nat.testBit_lt_two_pow
        exact hx.trans_le (Nat.pow_le_pow_right (by decide) (by omega))
      simp [hbit, hsub]
  · simp [hik, Nat.lt_of_not_le hik]

/-- Both branches of `AlignUp` agree on powers of two. -/
theorem alignUp_known (hb : isPowerOfTwo b = true) (hw : b ≤ 2 ^ w) :
    alignUp w known a b = alignUp w false a b := by
  obtain ⟨k, rfl⟩ := isPowerOfTwo_iff.mp hb
  cases known with
  | false => rfl
  | true =>
      have hk : k ≤ w := (Nat.pow_le_pow_iff_right (by decide)).mp hw
      simp only [alignUp, hb, Bool.and_self, if_true, Bool.false_and,
        Bool.false_eq_true, if_false]
      exact land_mask (Nat.mod_lt _ (Nat.two_pow_pos w)) hk

/-- Without wrap-around the value is rounded up to a multiple. -/
theorem alignUp_spec (hb : 0 < b) (h : a + b ≤ 2 ^ w) :
    a ≤ alignUp w false a b ∧ alignUp w false a b < a + b ∧
      b ∣ alignUp w false a b := by
  have hsum : (2 ^ w - 1 + a + b) % 2 ^ w = a + b - 1 := by
    have hrw : 2 ^ w - 1 + a + b = a + b - 1 + 2 ^ w := by
      have hpos := Nat.two_pow_pos w
      omega
    rw [hrw, Nat.add_mod_right, Nat.mod_eq_of_lt (by omega)]
  have hval : alignUp w false a b = (a + b - 1) / b * b := by
    simp only [alignUp, Bool.false_and, Bool.false_eq_true, if_false, hsum]
  have hdiv := Nat.div_add_mod' (a + b - 1) b
  have hmod := Nat.mod_lt (a + b - 1) hb
  rw [hval]
  refine ⟨by omega, by omega, Nat.dvd_mul_left b _⟩

/-- With wrap-around the value is rounded to zero. -/
theorem alignUp_wrap (hb : 0 < b) (ha : a < 2 ^ w) (h : 2 ^ w < a + b)
    (hw : b ≤ 2 ^ w) : alignUp w false a b = 0 := by
  have hsum : (2 ^ w - 1 + a + b) % 2 ^ w = a + b - 1 - 2 ^ w := by
    have hrw : 2 ^ w - 1 + a + b = a + b - 1 - 2 ^ w + 2 ^ w + 2 ^ w := by
      omega
    rw [hrw, Nat.add_mod_right, Nat.add_mod_right,
      Nat.mod_eq_of_lt (by omega)]
  have hlt : a + b - 1 - 2 ^ w < b := by omega
  simp only [alignUp, Bool.false_and, Bool.false_eq_true, if_false, hsum,
    Nat.div_eq_of_lt hlt, Nat.zero_mul]

/-- The padding in front of the next multiple, whether or not the sum
wraps. -/
theorem padding_spec (hb : isPowerOfTwo b = true) (hw : b ≤ 2 ^ w)
    (ha : a < 2 ^ w) :
    wrapSub w (alignUp w false a b) a < b ∧
      b ∣ a + wrapSub w (alignUp w false a b) a := by
  have hpos := pos_of_isPowerOfTwo hb
  by_cases h : a + b ≤ 2 ^ w
  · obtain ⟨hle, hlt, hdvd⟩ := alignUp_spec hpos h
    have hpad : wrapSub w (alignUp w false a b) a =
        alignUp w false a b - a := by
      have hrw : 2 ^ w + alignUp w false a b - a =
          alignUp w false a b - a + 2 ^ w := by omega
      rw [wrapSub, hrw, Nat.add_mod_right, Nat.mod_eq_of_lt (by omega)]
    rw [hpad, Nat.add_sub_of_le hle]
    exact ⟨by omega, hdvd⟩
  · have hzero := alignUp_wrap hpos ha (by omega) hw
    -- The next multiple is the modulus itself.
    have ha0 : a ≠ 0 := by omega
    have hpad : wrapSub w (alignUp w false a b) a = 2 ^ w - a := by
      rw [wrapSub, hzero, Nat.add_zero, Nat.mod_eq_of_lt (by omega)]
    rw [hpad, Nat.add_sub_of_le ha.le]
    exact ⟨by omega, dvd_two_pow hb hw⟩

end Basic
end Yacul
