import Mathlib.Data.Nat.Log
import Mathlib.Order.Bounds.Defs
import Yacul.Basic.IntegralType

/-!
# The power-of-two helpers

`IsPowerOfTwo`, `Log2`, `NextPowerOfTwo` and `PrevPowerOfTwo` on the integral
types.  The leading zeros are counted on 32 bits for types of up to four bytes
and on 64 for the others, whatever the width of the type.
-/

namespace Yacul
namespace Basic
namespace IntegralType

section

/-- `IsPowerOfTwo`.  The subtraction is made for positive `x` only, and cannot
overflow. -/
def isPowerOfTwo (x : ℤ) : Bool :=
  decide (0 < x) && Int.land x (x - 1) == 0

variable (T : IntegralType)

/-- `T(1) << n`. -/
def shiftOne (n : ℕ) : Option ℤ :=
  (T.promoted.shiftLeft 1 n).map T.convert

/-- `Log2`. -/
def log2 (x : ℤ) : Option ℤ :=
  if x ≤ 0 then some (-1)
  else if T.size ≤ 4 then (clz 32 x).map fun n : ℕ => (31 - n : ℤ)
  else (clz 64 x).map fun n : ℕ => (63 - n : ℤ)

/-- `NextPowerOfTwo`. -/
def nextPowerOfTwo (x : ℤ) : Option ℤ :=
  if x ≤ 1 then some 1
  else if isPowerOfTwo x then some x
  else if T.size ≤ 4 then (clz 32 (x - 1)).bind fun n => T.shiftOne (32 - n)
  else (clz 64 (x - 1)).bind fun n => T.shiftOne (64 - n)

/-- `PrevPowerOfTwo`. -/
def prevPowerOfTwo (x : ℤ) : Option ℤ :=
  if x ≤ 0 then some 0
  else if T.size ≤ 4 then (clz 32 x).bind fun n => T.shiftOne (31 - n)
  else (clz 64 x).bind fun n => T.shiftOne (63 - n)

end

variable {T : IntegralType} {x q : ℤ} {k n : ℕ}

theorem isPowerOfTwo_natCast (m : ℕ) :
    isPowerOfTwo (m : ℤ) = Basic.isPowerOfTwo m := by
  cases m with
  | zero => rfl
  | succ m =>
      have hsub : ((m + 1 : ℕ) : ℤ) - 1 = (m : ℤ) := by
        push_cast
        exact add_sub_cancel_right _ _
      have hland : Int.land ((m + 1 : ℕ) : ℤ) (m : ℤ) =
          (((m + 1) &&& m : ℕ) : ℤ) := rfl
      have hpos : (0 : ℤ) < ((m + 1 : ℕ) : ℤ) := Int.natCast_pos.mpr m.succ_pos
      rw [isPowerOfTwo, hsub, hland, decide_eq_true hpos, Basic.isPowerOfTwo,
        decide_eq_true m.succ_pos, Nat.add_sub_cancel, Bool.eq_iff_iff]
      simp

theorem isPowerOfTwo_iff_exists :
    isPowerOfTwo x = true ↔ ∃ k : ℕ, x = 2 ^ k := by
  constructor
  · intro h
    have hpos : 0 < x := by
      rw [isPowerOfTwo, Bool.and_eq_true] at h
      exact of_decide_eq_true h.1
    obtain ⟨m, rfl⟩ := Int.eq_ofNat_of_zero_le hpos.le
    rw [isPowerOfTwo_natCast] at h
    obtain ⟨k, rfl⟩ := isPowerOfTwo_iff.mp h
    exact ⟨k, Nat.cast_pow 2 k⟩
  · rintro ⟨k, rfl⟩
    have hcast : (2 ^ k : ℤ) = ((2 ^ k : ℕ) : ℤ) := (Nat.cast_pow 2 k).symm
    rw [hcast, isPowerOfTwo_natCast]
    exact isPowerOfTwo_iff.mpr ⟨k, rfl⟩

/-- Every value of at least one lies between two powers of two. -/
theorem exists_between (h : 1 ≤ x) : ∃ k : ℕ, 2 ^ k ≤ x ∧ x < 2 ^ (k + 1) := by
  obtain ⟨m, rfl⟩ := Int.eq_ofNat_of_zero_le (Int.le_of_lt h)
  have hne : m ≠ 0 := by
    rintro rfl
    exact absurd h (by decide)
  refine ⟨Nat.log 2 m, ?_, ?_⟩
  · exact_mod_cast Nat.pow_log_le_self 2 hne
  · exact_mod_cast Nat.lt_pow_succ_log_self Nat.one_lt_two m

theorem shiftOne_eq (h : T.Holds (2 ^ k)) : T.shiftOne k = some (2 ^ k) := by
  rw [shiftOne, shiftLeft_one (holds_promoted h), Option.map_some,
    convert_of_holds h]

/-- A value of a type of up to four bytes has at most 32 bits. -/
theorem lt_thirtyTwo (hsize : T.size ≤ 4) (h : T.Holds (2 ^ k)) : k < 32 :=
  (lt_bits_of_holds h).trans_le (Nat.mul_le_mul_left 8 hsize)

theorem lt_sixtyFour (h : T.Holds (2 ^ k)) : k < 64 :=
  (lt_bits_of_holds h).trans_le (Nat.mul_le_mul_left 8 T.le)

theorem holds_low (hx : T.Holds x) (hlow : 2 ^ k ≤ x) : T.Holds (2 ^ k) :=
  holds_of_nonneg (Bits.two_pow_pos k).le (hlow.trans hx.2)

theorem log2_eq (hx : T.Holds x) (hlow : 2 ^ k ≤ x) (hhigh : x < 2 ^ (k + 1)) :
    T.log2 x = some (k : ℤ) := by
  have hpos := Bits.two_pow_pos k
  have hk := holds_low hx hlow
  rw [log2, if_neg (by omega)]
  split
  · next hsize =>
    have hlt := lt_thirtyTwo hsize hk
    rw [clz_eq hlt hlow hhigh, Option.map_some]
    congr 1
    omega
  · have hlt := lt_sixtyFour hk
    rw [clz_eq hlt hlow hhigh, Option.map_some]
    congr 1
    omega

theorem prevPowerOfTwo_eq (hx : T.Holds x) (hlow : 2 ^ k ≤ x)
    (hhigh : x < 2 ^ (k + 1)) : T.prevPowerOfTwo x = some (2 ^ k) := by
  have hpos := Bits.two_pow_pos k
  have hk := holds_low hx hlow
  rw [prevPowerOfTwo, if_neg (by omega)]
  split
  · next hsize =>
    have hlt := lt_thirtyTwo hsize hk
    have hshift : 31 - (32 - 1 - k) = k := by omega
    rw [clz_eq hlt hlow hhigh, Option.bind_some, hshift, shiftOne_eq hk]
  · have hlt := lt_sixtyFour hk
    have hshift : 63 - (64 - 1 - k) = k := by omega
    rw [clz_eq hlt hlow hhigh, Option.bind_some, hshift, shiftOne_eq hk]

theorem isPowerOfTwo_between (hlow : 2 ^ k < x) (hhigh : x < 2 ^ (k + 1)) :
    isPowerOfTwo x = false := by
  rw [← Bool.not_eq_true, isPowerOfTwo_iff_exists]
  rintro ⟨j, rfl⟩
  have hkj : k < j := (pow_lt_pow_iff_right₀ one_lt_two).mp hlow
  have hjk : j < k + 1 := (pow_lt_pow_iff_right₀ one_lt_two).mp hhigh
  omega

/-- Strictly between two powers of two the next one is the upper one. -/
theorem nextPowerOfTwo_between (hx : T.Holds x) (hlow : 2 ^ k < x)
    (hhigh : x < 2 ^ (k + 1)) (hnext : T.Holds (2 ^ (k + 1))) :
    T.nextPowerOfTwo x = some (2 ^ (k + 1)) := by
  have hpos := Bits.two_pow_pos k
  have hk := holds_low hx hlow.le
  have hnot := isPowerOfTwo_between hlow hhigh
  rw [nextPowerOfTwo, if_neg (by omega), hnot, if_neg Bool.false_ne_true]
  split
  · next hsize =>
    have hlt := lt_thirtyTwo hsize hk
    have hshift : 32 - (32 - 1 - k) = k + 1 := by omega
    rw [clz_eq hlt (by omega) (by omega), Option.bind_some, hshift,
      shiftOne_eq hnext]
  · have hlt := lt_sixtyFour hk
    have hshift : 64 - (64 - 1 - k) = k + 1 := by omega
    rw [clz_eq hlt (by omega) (by omega), Option.bind_some, hshift,
      shiftOne_eq hnext]

theorem nextPowerOfTwo_self (hpow : isPowerOfTwo x = true) :
    T.nextPowerOfTwo x = some x := by
  obtain ⟨k, rfl⟩ := isPowerOfTwo_iff_exists.mp hpow
  by_cases hle : (2 : ℤ) ^ k ≤ 1
  · have hpos := Bits.two_pow_pos k
    have hone : (2 : ℤ) ^ k = 1 := by omega
    rw [nextPowerOfTwo, if_pos hle, hone]
  · rw [nextPowerOfTwo, if_neg hle, if_pos hpow]

theorem prevPowerOfTwo_eq_self_iff (hx : T.Holds x) (h : 1 ≤ x) :
    T.prevPowerOfTwo x = some x ↔ isPowerOfTwo x = true := by
  obtain ⟨k, hlow, hhigh⟩ := exists_between h
  rw [prevPowerOfTwo_eq hx hlow hhigh, Option.some_inj]
  constructor
  · intro hself
    exact isPowerOfTwo_iff_exists.mpr ⟨k, hself.symm⟩
  · intro hpow
    by_contra hne
    have hlt := lt_of_le_of_ne hlow hne
    rw [isPowerOfTwo_between hlt hhigh] at hpow
    cases hpow

/-- The next power of two is the least one that is not below, if the type has
it. -/
theorem nextPowerOfTwo_eq (hx : T.Holds x) (h : 1 ≤ x)
    (hq : IsLeast {q : ℤ | (∃ k : ℕ, q = 2 ^ k) ∧ x ≤ q} q)
    (hholds : T.Holds q) : T.nextPowerOfTwo x = some q := by
  obtain ⟨k, hlow, hhigh⟩ := exists_between h
  obtain ⟨⟨⟨j, rfl⟩, hle⟩, hleast⟩ := hq
  by_cases hself : 2 ^ k = x
  · have hpow : isPowerOfTwo x = true :=
      isPowerOfTwo_iff_exists.mpr ⟨k, hself.symm⟩
    have hback : (2 : ℤ) ^ j ≤ x := hleast ⟨⟨k, hself.symm⟩, le_rfl⟩
    rw [nextPowerOfTwo_self hpow, le_antisymm hle hback]
  · have hlt := lt_of_le_of_ne hlow hself
    have hback : (2 : ℤ) ^ j ≤ 2 ^ (k + 1) := hleast ⟨⟨k + 1, rfl⟩, hhigh.le⟩
    have hkj : k < j :=
      (pow_lt_pow_iff_right₀ one_lt_two).mp (hlt.trans_le hle)
    have hjk : j ≤ k + 1 := (pow_le_pow_iff_right₀ one_lt_two).mp hback
    obtain rfl : j = k + 1 := by omega
    exact nextPowerOfTwo_between hx hlt hhigh hholds

/-- On every integral type and from 1 on, `PrevPowerOfTwo` is two to the power
of `Log2` and at most the value, which is below twice it; `NextPowerOfTwo` is
the least power of two that is not below the value, if the type has it; and
both are the value itself exactly for a power of two. -/
theorem powersOfTwo_agree (T : IntegralType) {x : ℤ} (hx : T.Holds x)
    (h : 1 ≤ x) :
    ∃ (p : ℤ) (n : ℕ), T.prevPowerOfTwo x = some p ∧
      T.log2 x = some (n : ℤ) ∧ p = 2 ^ n ∧ p ≤ x ∧ x < 2 * p ∧
      (∀ q, IsLeast {q : ℤ | (∃ k : ℕ, q = 2 ^ k) ∧ x ≤ q} q → T.Holds q →
        T.nextPowerOfTwo x = some q) ∧
      (T.nextPowerOfTwo x = some x ∧ T.prevPowerOfTwo x = some x ↔
        isPowerOfTwo x = true) := by
  obtain ⟨k, hlow, hhigh⟩ := exists_between h
  refine ⟨2 ^ k, k, prevPowerOfTwo_eq hx hlow hhigh, log2_eq hx hlow hhigh, rfl,
    hlow, ?_, fun q hq hholds => nextPowerOfTwo_eq hx h hq hholds, ?_⟩
  · rwa [pow_succ'] at hhigh
  · constructor
    · rintro ⟨-, hprev⟩
      exact (prevPowerOfTwo_eq_self_iff hx h).mp hprev
    · intro hpow
      exact ⟨nextPowerOfTwo_self hpow,
        (prevPowerOfTwo_eq_self_iff hx h).mpr hpow⟩

theorem powersOfTwo_agree_seventeen :
    ∃ (p : ℤ) (n : ℕ), int.prevPowerOfTwo 17 = some p ∧
      int.log2 17 = some (n : ℤ) ∧ p = 2 ^ n ∧ p ≤ 17 ∧ 17 < 2 * p ∧
      (∀ q, IsLeast {q : ℤ | (∃ k : ℕ, q = 2 ^ k) ∧ 17 ≤ q} q → int.Holds q →
        int.nextPowerOfTwo 17 = some q) ∧
      (int.nextPowerOfTwo 17 = some 17 ∧ int.prevPowerOfTwo 17 = some 17 ↔
        isPowerOfTwo 17 = true) :=
  powersOfTwo_agree int (by decide) (by decide)

end IntegralType
end Basic
end Yacul
