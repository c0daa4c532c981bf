import Mathlib.Algebra.Group.Int.Defs
import Mathlib.Algebra.Order.Ring.Int
import Mathlib.Data.Int.Bitwise
import Mathlib.Tactic.Ring
import Yacul.Basic.Alignment
import Yacul.Support.Bits

/-!
# Integral types

Arithmetic on the integral types: operands narrower than `int` are promoted to
it, an overflow of a signed type is undefined, an unsigned type wraps, and a
result is converted back modulo the width.  An undefined result is `none`.
-/

namespace Yacul
namespace Basic

/-- An integral type of one to eight bytes.  `bool` is the unsigned type of one
byte as far as the values 0 and 1 go. -/
structure IntegralType where
  size : ℕ
  signed : Bool
  pos : 0 < size
  le : size ≤ 8

namespace IntegralType

def int : IntegralType := ⟨4, true, by decide, by decide⟩

section

variable (T : IntegralType)

def bits : ℕ := 8 * T.size

def minValue : ℤ := if T.signed then -2 ^ (T.bits - 1) else 0

def maxValue : ℤ := if T.signed then 2 ^ (T.bits - 1) - 1 else 2 ^ T.bits - 1

/-- `x` is a value of the type. -/
def Holds (x : ℤ) : Prop := T.minValue ≤ x ∧ x ≤ T.maxValue

instance (x : ℤ) : Decidable (T.Holds x) :=
  inferInstanceAs (Decidable (_ ∧ _))

/-- The conversion to the type. -/
def convert (x : ℤ) : ℤ :=
  if T.signed then x.bmod (2 ^ T.bits) else x % 2 ^ T.bits

/-- The type in which operands of the type are computed with. -/
def promoted : IntegralType := if T.size < int.size then int else T

/-- The result of an operation whose mathematical value is `x`. -/
def result (x : ℤ) : Option ℤ :=
  if T.Holds x then some x
  else if T.signed then none
  else some (T.convert x)

def add (a b : ℤ) : Option ℤ := T.result (a + b)

def sub (a b : ℤ) : Option ℤ := T.result (a - b)

def mul (a b : ℤ) : Option ℤ := T.result (a * b)

/-- `a / b`, which truncates. -/
def div (a b : ℤ) : Option ℤ :=
  if b = 0 then none else T.result (a.tdiv b)

/-- `a >> n`, which is arithmetic. -/
def shiftRight (a : ℤ) (n : ℕ) : Option ℤ :=
  if n < T.bits then some (Int.shiftRight a n) else none

/-- `a << n`, modulo the width. -/
def shiftLeft (a : ℤ) (n : ℕ) : Option ℤ :=
  if n < T.bits then some (T.convert (a * 2 ^ n)) else none

/-- `~a`. -/
def lnot (a : ℤ) : ℤ := T.convert (Int.lnot a)

end

/-- `__builtin_clz` and `__builtin_clzll` of `x` as a word of `w` bits. -/
def clz (w : ℕ) (x : ℤ) : Option ℕ :=
  if BitVec.ofInt w x = 0#w then none else some (BitVec.ofInt w x).clz.toNat

/-- `__builtin_ctzll` of `x` as a word of `w` bits. -/
def ctz (w : ℕ) (x : ℤ) : Option ℕ :=
  if BitVec.ofInt w x = 0#w then none else some (BitVec.ofInt w x).ctz.toNat

variable {T : IntegralType} {a b x : ℤ} {k n w : ℕ}

/-! ## Ranges -/

theorem bits_pos : 0 < T.bits :=
  Nat.mul_pos (by decide) T.pos

theorem two_pow_bits : (2 : ℤ) ^ T.bits = 2 * 2 ^ (T.bits - 1) := by
  have hsub : T.bits - 1 + 1 = T.bits := Nat.sub_add_cancel bits_pos
  rw [← hsub, pow_succ, Nat.add_sub_cancel]
  ring

theorem convert_of_holds (h : T.Holds x) : T.convert x = x := by
  obtain ⟨hmin, hmax⟩ := h
  rw [minValue] at hmin
  rw [maxValue] at hmax
  rw [convert]
  have hbits := T.two_pow_bits
  cases hsigned : T.signed with
  | true =>
      rw [hsigned, if_pos rfl] at hmin hmax
      rw [if_pos rfl]
      apply Int.bmod_eq_of_le
      · push_cast
        omega
      · push_cast
        omega
  | false =>
      rw [hsigned, if_neg Bool.false_ne_true] at hmin hmax
      rw [if_neg Bool.false_ne_true]
      exact Int.emod_eq_of_lt hmin (by omega)

theorem maxValue_lt_two_pow : T.maxValue < 2 ^ T.bits := by
  have hbits := T.two_pow_bits
  have hpos := Bits.two_pow_pos (T.bits - 1)
  rw [maxValue]
  split
  · omega
  · omega

theorem minValue_nonpos : T.minValue ≤ 0 := by
  have hpos := Bits.two_pow_pos (T.bits - 1)
  rw [minValue]
  split
  · omega
  · exact le_rfl

theorem nonneg_of_unsigned (hsigned : T.signed = false) (hx : T.Holds x) :
    0 ≤ x := by
  have hmin := hx.1
  rwa [minValue, hsigned, if_neg Bool.false_ne_true] at hmin

theorem maxValue_nonneg : 0 ≤ T.maxValue := by
  have hbits := T.two_pow_bits
  have hpos := Bits.two_pow_pos (T.bits - 1)
  rw [maxValue]
  split
  · omega
  · omega

theorem holds_of_nonneg (h : 0 ≤ x) (hmax : x ≤ T.maxValue) : T.Holds x :=
  ⟨minValue_nonpos.trans h, hmax⟩

theorem holds_convert (x : ℤ) : T.Holds (T.convert x) := by
  have hbits := T.two_pow_bits
  have hpos := Bits.two_pow_pos (T.bits - 1)
  rw [Holds, minValue, maxValue, convert]
  cases T.signed with
  | true =>
      have hnat : 0 < 2 ^ T.bits := Nat.two_pow_pos _
      have hle := Int.le_bmod (x := x) hnat
      have hlt := Int.bmod_lt (x := x) hnat
      push_cast at hle hlt
      rw [if_pos rfl, if_pos rfl, if_pos rfl]
      omega
  | false =>
      have hnonneg := Int.emod_nonneg x (b := 2 ^ T.bits) (by omega)
      have hlt := Int.emod_lt_of_pos x (b := 2 ^ T.bits) (by omega)
      rw [if_neg Bool.false_ne_true, if_neg Bool.false_ne_true,
        if_neg Bool.false_ne_true]
      omega

theorem result_of_holds (h : T.Holds x) : T.result x = some x :=
  if_pos h

theorem holds_of_result (h : T.result a = some x) : T.Holds x := by
  rw [result] at h
  split at h
  · next hholds =>
    exact Option.some.inj h ▸ hholds
  · split at h
    · cases h
    · exact Option.some.inj h ▸ T.holds_convert a

theorem result_unsigned (hsigned : T.signed = false) :
    T.result x = some (T.convert x) := by
  rw [result]
  split
  · next h =>
    rw [convert_of_holds h]
  · rw [hsigned, if_neg Bool.false_ne_true]

/-! ## Promotion -/

theorem promoted_of_lt (h : T.size < 4) : T.promoted = int :=
  if_pos h

theorem promoted_of_le (h : 4 ≤ T.size) : T.promoted = T :=
  if_neg (Nat.not_lt.mpr h)

/-- A narrow type is within `int`, with room for sums. -/
theorem narrow_bounds (h : T.size < 4) : -2 ^ 23 ≤ T.minValue ∧
    T.maxValue < 2 ^ 24 := by
  have hpos := T.pos
  obtain hsize | hsize | hsize : T.size = 1 ∨ T.size = 2 ∨ T.size = 3 := by
    omega
  all_goals
    rw [minValue, maxValue, bits, hsize]
    cases T.signed with
    | true => decide
    | false => decide

theorem holds_promoted (h : T.Holds x) : T.promoted.Holds x := by
  by_cases hsize : T.size < 4
  · rw [promoted_of_lt hsize]
    obtain ⟨hmin, hmax⟩ := narrow_bounds hsize
    exact ⟨by
      have hle := h.1
      change -2 ^ 31 ≤ x
      omega, by
      have hle := h.2
      change x ≤ 2 ^ 31 - 1
      omega⟩
  · rwa [promoted_of_le (Nat.not_lt.mp hsize)]

/-! ## Powers of two -/

theorem lt_bits_of_holds (h : T.Holds (2 ^ k)) : k < T.bits := by
  have hlt : (2 : ℤ) ^ k < 2 ^ T.bits := h.2.trans_lt maxValue_lt_two_pow
  exact (pow_lt_pow_iff_right₀ one_lt_two).mp hlt

theorem shiftRight_eq (h : k < T.bits) :
    T.shiftRight a k = some (a / 2 ^ k) := by
  rw [shiftRight, if_pos h, ← Int.shiftRight_eq, Int.shiftRight_eq_div_pow]
  push_cast
  rfl

theorem shiftLeft_one (h : T.Holds (2 ^ k)) :
    T.shiftLeft 1 k = some (2 ^ k) := by
  rw [shiftLeft, if_pos (lt_bits_of_holds h), one_mul, convert_of_holds h]

theorem clz_eq (hk : k < w) (hlow : 2 ^ k ≤ x) (hhigh : x < 2 ^ (k + 1)) :
    clz w x = some (w - 1 - k) := by
  have hpos := Bits.two_pow_pos k
  obtain ⟨m, rfl⟩ := Int.eq_ofNat_of_zero_le (hpos.le.trans hlow)
  have hlow' : 2 ^ k ≤ m := by exact_mod_cast hlow
  have hhigh' : m < 2 ^ (k + 1) := by exact_mod_cast hhigh
  rw [clz, BitVec.ofInt_natCast, if_neg (Bits.ofNat_ne_zero hk hlow' hhigh'),
    Bits.toNat_clz hk hlow' hhigh']

theorem ctz_two_pow (hk : k < w) : ctz w (2 ^ k) = some k := by
  have hne : BitVec.ofNat w (2 ^ k) ≠ 0#w :=
    Bits.ofNat_ne_zero hk le_rfl (Nat.pow_lt_pow_right Nat.one_lt_two
      k.lt_succ_self)
  have hcast : BitVec.ofInt w (2 ^ k) = BitVec.ofNat w (2 ^ k) := by
    rw [← BitVec.ofInt_natCast]
    push_cast
    rfl
  rw [ctz, hcast, if_neg hne, Bits.toNat_ctz hk]

theorem lnot_signed (hsigned : T.signed = true) (hk : T.Holds (2 ^ k)) :
    T.lnot (2 ^ k - 1) = -2 ^ k := by
  have hholds : T.Holds (-2 ^ k) := by
    obtain ⟨hmin, hmax⟩ := hk
    have hpos := Bits.two_pow_pos k
    rw [minValue, hsigned, if_pos rfl] at hmin
    rw [maxValue, hsigned, if_pos rfl] at hmax
    rw [Holds, minValue, maxValue, hsigned, if_pos rfl, if_pos rfl]
    omega
  rw [lnot, Bits.lnot_two_pow_sub_one, convert_of_holds hholds]

theorem lnot_unsigned (hsigned : T.signed = false) (hk : T.Holds (2 ^ k)) :
    T.lnot (2 ^ k - 1) = 2 ^ T.bits - 2 ^ k := by
  have hpos := Bits.two_pow_pos k
  have hlt : (2 : ℤ) ^ k < 2 ^ T.bits := hk.2.trans_lt maxValue_lt_two_pow
  rw [lnot, Bits.lnot_two_pow_sub_one, convert, hsigned,
    if_neg Bool.false_ne_true, ← Int.add_emod_right]
  rw [Int.emod_eq_of_lt (by omega) (by omega)]
  omega

/-- Clearing the low bits of a value rounds it down. -/
theorem land_lnot (hx : T.Holds x) (hk : T.Holds (2 ^ k)) :
    Int.land x (T.lnot (2 ^ k - 1)) = x / 2 ^ k * 2 ^ k := by
  cases hsigned : T.signed with
  | true => rw [lnot_signed hsigned hk, Bits.land_neg_two_pow]
  | false =>
      obtain ⟨m, rfl⟩ :=
        Int.eq_ofNat_of_zero_le (nonneg_of_unsigned hsigned hx)
      have hm : m < 2 ^ T.bits := by
        exact_mod_cast hx.2.trans_lt maxValue_lt_two_pow
      have hle : 2 ^ k ≤ 2 ^ T.bits :=
        Nat.pow_le_pow_right (by decide) (lt_bits_of_holds hk).le
      have hmask : (2 ^ T.bits - 2 ^ k : ℤ) =
          ((2 ^ T.bits - 1 - (2 ^ k - 1) : ℕ) : ℤ) := by
        have hnat : 2 ^ T.bits - 1 - (2 ^ k - 1) = 2 ^ T.bits - 2 ^ k := by
          have hpos := Nat.two_pow_pos k
          omega
        rw [hnat]
        push_cast [Nat.cast_sub hle]
        rfl
      have hland : Int.land m ((2 ^ T.bits - 1 - (2 ^ k - 1) : ℕ) : ℤ) =
          ((m &&& (2 ^ T.bits - 1 - (2 ^ k - 1)) : ℕ) : ℤ) := rfl
      rw [lnot_unsigned hsigned hk, hmask, hland,
        land_mask hm (lt_bits_of_holds hk).le]
      push_cast
      rfl

end IntegralType
end Basic
end Yacul
