import Mathlib.Algebra.Order.Archimedean.Basic
import Mathlib.Data.Rat.Floor
import Yacul.Basic.PowersOfTwo

/-!
# Rounding on the integral types

`CeilDiv`, `AlignUp` and `AlignDown`.  For a divisor that the compiler knows to
be a power of two they shift or mask, which rounds down in two's complement;
otherwise they divide, which rounds towards zero.  On an unsigned type that is
not promoted the sum `a + b - 1` wraps.
-/

namespace Yacul
namespace Basic
namespace IntegralType

section

variable (T : IntegralType)

/-- `a + b - 1`. -/
def sum (a b : ℤ) : Option ℤ :=
  (T.promoted.add a b).bind fun s => T.promoted.sub s 1

/-- `CeilDiv`; `known` tells whether the compiler knows if `b` is a power of
two. -/
def ceilDiv (known : Bool) (a b : ℤ) : Option ℤ :=
  if known && isPowerOfTwo b then do
    let s ← T.sum a b
    let n ← ctz 64 b
    let q ← T.promoted.shiftRight s n
    return T.convert q
  else do
    let s ← T.sum a b
    let q ← T.promoted.div s b
    return T.convert q

/-- `AlignUp`. -/
def alignUp (known : Bool) (a b : ℤ) : Option ℤ :=
  if known && isPowerOfTwo b then do
    let s ← T.sum a b
    let low ← T.promoted.sub b 1
    return T.convert (Int.land s (T.promoted.lnot low))
  else do
    let s ← T.sum a b
    let q ← T.promoted.div s b
    let m ← T.promoted.mul q b
    return T.convert m

/-- `AlignDown`. -/
def alignDown (known : Bool) (a b : ℤ) : Option ℤ :=
  if known && isPowerOfTwo b then do
    let low ← T.promoted.sub b 1
    return T.convert (Int.land a (T.promoted.lnot low))
  else do
    let q ← T.promoted.div a b
    let m ← T.promoted.mul q b
    return T.convert m

end

variable {T : IntegralType} {a b s x : ℤ} {known : Bool} {k : ℕ}

/-! ## Towards zero -/

theorem tdiv_of_nonneg (hs : 0 ≤ s) (hb : 0 < b) :
    0 ≤ s.tdiv b ∧ s.tdiv b ≤ s.tdiv b * b ∧ s.tdiv b * b ≤ s := by
  rw [Int.tdiv_eq_ediv_of_nonneg hs]
  have hnonneg := Int.ediv_nonneg hs hb.le
  exact ⟨hnonneg, le_mul_of_one_le_right hnonneg hb,
    Int.ediv_mul_le s hb.ne'⟩

theorem tdiv_of_nonpos (hs : s ≤ 0) (hb : 0 < b) :
    s ≤ s.tdiv b * b ∧ s.tdiv b * b ≤ s.tdiv b ∧ s.tdiv b ≤ 0 := by
  have hneg := tdiv_of_nonneg (Int.neg_nonneg_of_nonpos hs) hb
  rw [Int.neg_tdiv, Int.neg_mul] at hneg
  omega

/-- A type that has a value has what is between it and zero. -/
theorem holds_towardZero (hs : T.Holds s)
    (h : 0 ≤ x ∧ x ≤ s ∨ s ≤ x ∧ x ≤ 0) : T.Holds x := by
  obtain ⟨hnonneg, hle⟩ | ⟨hle, hnonpos⟩ := h
  · exact holds_of_nonneg hnonneg (hle.trans hs.2)
  · exact ⟨hs.1.trans hle, hnonpos.trans maxValue_nonneg⟩

theorem holds_tdiv (hs : T.Holds s) (hb : 0 < b) : T.Holds (s.tdiv b) := by
  apply holds_towardZero hs
  obtain h | h := le_total 0 s
  · obtain ⟨hnonneg, hmul, hle⟩ := tdiv_of_nonneg h hb
    exact .inl ⟨hnonneg, hmul.trans hle⟩
  · obtain ⟨hle, hmul, hnonpos⟩ := tdiv_of_nonpos h hb
    exact .inr ⟨hle.trans hmul, hnonpos⟩

theorem holds_tdiv_mul (hs : T.Holds s) (hb : 0 < b) :
    T.Holds (s.tdiv b * b) := by
  apply holds_towardZero hs
  obtain h | h := le_total 0 s
  · obtain ⟨hnonneg, hmul, hle⟩ := tdiv_of_nonneg h hb
    exact .inl ⟨hnonneg.trans hmul, hle⟩
  · obtain ⟨hle, hmul, hnonpos⟩ := tdiv_of_nonpos h hb
    exact .inr ⟨hle, hmul.trans hnonpos⟩

/-- Below zero, rounding down and rounding towards zero differ by one, unless
nothing is rounded. -/
theorem ediv_eq_tdiv_iff (hb : 0 < b) :
    s / b = s.tdiv b ↔ 0 ≤ s ∨ b ∣ s := by
  rw [Int.tdiv_eq_ediv]
  split
  · next h =>
    exact ⟨fun _ => h, fun _ => (Int.add_zero _).symm⟩
  · next h =>
    rw [Int.sign_eq_one_of_pos hb]
    exact ⟨fun heq => absurd heq (by omega), fun hor => absurd hor h⟩

/-! ## The two branches -/

theorem holds_of_sum (h : T.sum a b = some s) : T.promoted.Holds s := by
  rw [sum] at h
  obtain ⟨_, -, hsub⟩ := Option.bind_eq_some_iff.mp h
  exact holds_of_result hsub

theorem div_eq (hs : T.Holds s) (hb : 0 < b) :
    T.div s b = some (s.tdiv b) := by
  rw [div, if_neg hb.ne', result_of_holds (holds_tdiv hs hb)]

theorem mul_tdiv_eq (hs : T.Holds s) (hb : 0 < b) :
    T.mul (s.tdiv b) b = some (s.tdiv b * b) :=
  result_of_holds (holds_tdiv_mul hs hb)

theorem sub_one_eq (hk : T.Holds (2 ^ k)) :
    T.sub (2 ^ k) 1 = some (2 ^ k - 1) := by
  have hpos := Bits.two_pow_pos k
  have hmax := hk.2
  exact result_of_holds (holds_of_nonneg (by omega) (by omega))

theorem known_two_pow : (true && isPowerOfTwo (2 ^ k)) = true := by
  rw [Bool.true_and]
  exact isPowerOfTwo_iff_exists.mpr ⟨k, rfl⟩

theorem ceilDiv_shift (hk : T.Holds (2 ^ k)) (hs : T.sum a (2 ^ k) = some s) :
    T.ceilDiv true a (2 ^ k) = some (T.convert (s / 2 ^ k)) := by
  have hbits : k < T.promoted.bits := lt_bits_of_holds (holds_promoted hk)
  rw [ceilDiv, if_pos known_two_pow, hs, ctz_two_pow (lt_sixtyFour hk)]
  simp only [Option.bind_eq_bind, Option.bind_some, shiftRight_eq hbits]
  rfl

theorem ceilDiv_divide (hknown : (known && isPowerOfTwo b) = false)
    (hb : 0 < b) (hs : T.sum a b = some s) :
    T.ceilDiv known a b = some (T.convert (s.tdiv b)) := by
  rw [ceilDiv, hknown, if_neg Bool.false_ne_true, hs]
  simp only [Option.bind_eq_bind, Option.bind_some, div_eq (holds_of_sum hs) hb]
  rfl

theorem alignUp_mask (hk : T.Holds (2 ^ k)) (hs : T.sum a (2 ^ k) = some s) :
    T.alignUp true a (2 ^ k) = some (T.convert (s / 2 ^ k * 2 ^ k)) := by
  have hpromoted := holds_promoted hk
  rw [alignUp, if_pos known_two_pow, hs]
  simp only [Option.bind_eq_bind, Option.bind_some, sub_one_eq hpromoted,
    land_lnot (holds_of_sum hs) hpromoted]
  rfl

theorem alignUp_divide (hknown : (known && isPowerOfTwo b) = false)
    (hb : 0 < b) (hs : T.sum a b = some s) :
    T.alignUp known a b = some (T.convert (s.tdiv b * b)) := by
  have hholds := holds_of_sum hs
  rw [alignUp, hknown, if_neg Bool.false_ne_true, hs]
  simp only [Option.bind_eq_bind, Option.bind_some, div_eq hholds hb,
    mul_tdiv_eq hholds hb]
  rfl

theorem alignDown_mask (hk : T.Holds (2 ^ k)) (ha : T.Holds a) :
    T.alignDown true a (2 ^ k) = some (T.convert (a / 2 ^ k * 2 ^ k)) := by
  have hpromoted := holds_promoted hk
  rw [alignDown, if_pos known_two_pow]
  simp only [Option.bind_eq_bind, Option.bind_some, sub_one_eq hpromoted,
    land_lnot (holds_promoted ha) hpromoted]
  rfl

theorem alignDown_divide (hknown : (known && isPowerOfTwo b) = false)
    (hb : 0 < b) (ha : T.Holds a) :
    T.alignDown known a b = some (T.convert (a.tdiv b * b)) := by
  have hholds := holds_promoted ha
  rw [alignDown, hknown, if_neg Bool.false_ne_true]
  simp only [Option.bind_eq_bind, Option.bind_some, div_eq hholds hb,
    mul_tdiv_eq hholds hb]
  rfl

/-! ## Whether the branches agree -/

/-- The value is the same, whatever the compiler knows. -/
def Agree (f : Bool → Option ℤ) : Prop :=
  ∃ v, ∀ known, f known = some v

theorem agree_iff {f : Bool → Option ℤ} {u v : ℤ} (hu : f true = some u)
    (hv : f false = some v) : Agree f ↔ u = v := by
  constructor
  · rintro ⟨w, hw⟩
    rw [hw] at hu hv
    exact (Option.some.inj hu).symm.trans (Option.some.inj hv)
  · rintro rfl
    exact ⟨u, Bool.rec hv hu⟩

theorem convert_inj (hs : T.Holds s) (hx : T.Holds x) :
    T.convert s = T.convert x ↔ s = x := by
  rw [convert_of_holds hs, convert_of_holds hx]

/-- A power of two of the type divides its least value. -/
theorem two_pow_dvd_minValue (hk : T.Holds (2 ^ k)) : 2 ^ k ∣ T.minValue := by
  rw [minValue]
  split
  · have hlt := lt_bits_of_holds hk
    exact (pow_dvd_pow 2 (by omega)).neg_right
  · exact Int.dvd_zero _

theorem holds_ediv (hs : T.Holds s) (hneg : s < 0) (hb : 0 < b) :
    T.Holds (s / b) := by
  have hnonpos := Int.ediv_neg_of_neg_of_pos hneg hb
  have hle : s ≤ s / b :=
    (Int.le_ediv_iff_mul_le hb).mpr (mul_le_of_one_le_right hneg.le hb)
  exact holds_towardZero hs (.inr ⟨hle, hnonpos.le⟩)

theorem holds_ediv_mul (hk : T.Holds (2 ^ k)) (hs : T.Holds s)
    (hneg : s < 0) : T.Holds (s / 2 ^ k * 2 ^ k) := by
  have hpos := Bits.two_pow_pos k
  have hle := Int.ediv_mul_le s hpos.ne'
  obtain ⟨c, hc⟩ := two_pow_dvd_minValue hk
  have hquot : c ≤ s / 2 ^ k := by
    rw [Int.le_ediv_iff_mul_le hpos, mul_comm, ← hc]
    exact hs.1
  refine ⟨?_, (hle.trans hneg.le).trans maxValue_nonneg⟩
  rw [hc, mul_comm]
  exact mul_le_mul_of_nonneg_right hquot hpos.le

theorem convert_ediv_eq_iff (hs : s < 0 → T.Holds s) (hb : 0 < b) :
    T.convert (s / b) = T.convert (s.tdiv b) ↔ 0 ≤ s ∨ b ∣ s := by
  by_cases hneg : s < 0
  · have hholds := hs hneg
    rw [convert_inj (holds_ediv hholds hneg hb) (holds_tdiv hholds hb)]
    exact ediv_eq_tdiv_iff hb
  · have hnonneg := Int.not_lt.mp hneg
    rw [Int.tdiv_eq_ediv_of_nonneg hnonneg]
    exact ⟨fun _ => .inl hnonneg, fun _ => rfl⟩

theorem convert_ediv_mul_eq_iff (hk : T.Holds (2 ^ k))
    (hs : s < 0 → T.Holds s) :
    T.convert (s / 2 ^ k * 2 ^ k) = T.convert (s.tdiv (2 ^ k) * 2 ^ k) ↔
      0 ≤ s ∨ 2 ^ k ∣ s := by
  have hpos := Bits.two_pow_pos k
  by_cases hneg : s < 0
  · have hholds := hs hneg
    rw [convert_inj (holds_ediv_mul hk hholds hneg)
      (holds_tdiv_mul hholds hpos), mul_left_inj' hpos.ne']
    exact ediv_eq_tdiv_iff hpos
  · have hnonneg := Int.not_lt.mp hneg
    rw [Int.tdiv_eq_ediv_of_nonneg hnonneg]
    exact ⟨fun _ => .inl hnonneg, fun _ => rfl⟩

/-- For a power of two the branches of `CeilDiv` and of `AlignUp` agree exactly
if the sum is not negative or a multiple, and those of `AlignDown` exactly if
the value is. -/
theorem branches_agree_iff (T : IntegralType) {a b : ℤ} (ha : T.Holds a)
    (hb : T.Holds b) (hpow : isPowerOfTwo b = true) :
    (T.sum a b = some (a + b - 1) →
      (Agree (T.ceilDiv · a b) ↔ 0 ≤ a + b - 1 ∨ b ∣ a + b - 1) ∧
      (Agree (T.alignUp · a b) ↔ 0 ≤ a + b - 1 ∨ b ∣ a + b - 1)) ∧
    (Agree (T.alignDown · a b) ↔ 0 ≤ a ∨ b ∣ a) := by
  obtain ⟨k, rfl⟩ := isPowerOfTwo_iff_exists.mp hpow
  have hpos := Bits.two_pow_pos k
  have hfalse : (false && isPowerOfTwo (2 ^ k)) = false := Bool.false_and _
  constructor
  · intro hsum
    have hholds : a + 2 ^ k - 1 < 0 → T.Holds (a + 2 ^ k - 1) := by
      intro hneg
      exact ⟨ha.1.trans (by omega), hneg.le.trans maxValue_nonneg⟩
    rw [agree_iff (ceilDiv_shift hb hsum) (ceilDiv_divide hfalse hpos hsum),
      agree_iff (alignUp_mask hb hsum) (alignUp_divide hfalse hpos hsum)]
    exact ⟨convert_ediv_eq_iff hholds hpos, convert_ediv_mul_eq_iff hb hholds⟩
  · rw [agree_iff (alignDown_mask hb ha) (alignDown_divide hfalse hpos ha)]
    exact convert_ediv_mul_eq_iff hb fun _ => ha

theorem branches_agree_iff_four :
    (Agree (int.ceilDiv · 5 4) ↔ (0 : ℤ) ≤ 5 + 4 - 1 ∨ (4 : ℤ) ∣ 5 + 4 - 1) ∧
      (Agree (int.alignUp · 5 4) ↔
        (0 : ℤ) ≤ 5 + 4 - 1 ∨ (4 : ℤ) ∣ 5 + 4 - 1) ∧
      (Agree (int.alignDown · 5 4) ↔ (0 : ℤ) ≤ 5 ∨ (4 : ℤ) ∣ 5) := by
  obtain ⟨hup, hdown⟩ :=
    branches_agree_iff int (a := 5) (b := 4) (by decide) (by decide) (by decide)
  obtain ⟨hceil, halign⟩ := hup (by decide)
  exact ⟨hceil, halign, hdown⟩

/-- On negative values of `int` the shift and the masks round down, the
divisions up. -/
theorem exists_branches_differ :
    int.Holds (-5) ∧ int.Holds (-3) ∧ int.Holds 4 ∧ isPowerOfTwo 4 = true ∧
      int.sum (-5) 4 = some (-2) ∧
      int.ceilDiv true (-5) 4 = some (-1) ∧
      int.ceilDiv false (-5) 4 = some 0 ∧
      int.alignUp true (-5) 4 = some (-4) ∧
      int.alignUp false (-5) 4 = some 0 ∧
      int.alignDown true (-3) 4 = some (-4) ∧
      int.alignDown false (-3) 4 = some 0 := by
  decide +kernel

/-! ## Unsigned types -/

theorem sum_eq (hadd : T.promoted.Holds (a + b))
    (hsub : T.promoted.Holds (a + b - 1)) : T.sum a b = some (a + b - 1) := by
  rw [sum, add, result_of_holds hadd, Option.bind_some, sub,
    result_of_holds hsub]

/-- The sum of a narrow type does not overflow. -/
theorem sum_narrow (hsize : T.size < 4) (ha : T.Holds a) (hb : T.Holds b) :
    T.sum a b = some (a + b - 1) := by
  obtain ⟨hmin, hmax⟩ := narrow_bounds hsize
  obtain ⟨hamin, hamax⟩ := ha
  obtain ⟨hbmin, hbmax⟩ := hb
  apply sum_eq
  all_goals
    rw [promoted_of_lt hsize]
    constructor
    · change -2 ^ 31 ≤ _
      omega
    · change _ ≤ 2 ^ 31 - 1
      omega

/-- The sum of a wide unsigned type wraps. -/
theorem sum_wide (hsigned : T.signed = false) (hsize : 4 ≤ T.size) :
    T.sum a b = some ((a + b - 1) % 2 ^ T.bits) := by
  rw [sum, promoted_of_le hsize, add, result_unsigned hsigned, Option.bind_some,
    sub, result_unsigned hsigned, convert, convert, hsigned,
    if_neg Bool.false_ne_true, if_neg Bool.false_ne_true, Int.emod_sub_emod]

theorem ceilDiv_of_nonneg (hb : T.Holds b) (hpos : 0 < b)
    (hs : T.sum a b = some s) (hnonneg : 0 ≤ s) :
    T.ceilDiv known a b = some (T.convert (s / b)) := by
  cases hknown : known && isPowerOfTwo b with
  | true =>
      obtain ⟨rfl, hpow⟩ := (Bool.and_eq_true _ _).mp hknown
      obtain ⟨k, rfl⟩ := isPowerOfTwo_iff_exists.mp hpow
      exact ceilDiv_shift hb hs
  | false =>
      rw [ceilDiv_divide hknown hpos hs, Int.tdiv_eq_ediv_of_nonneg hnonneg]

theorem alignUp_of_nonneg (hb : T.Holds b) (hpos : 0 < b)
    (hs : T.sum a b = some s) (hnonneg : 0 ≤ s) :
    T.alignUp known a b = some (T.convert (s / b * b)) := by
  cases hknown : known && isPowerOfTwo b with
  | true =>
      obtain ⟨rfl, hpow⟩ := (Bool.and_eq_true _ _).mp hknown
      obtain ⟨k, rfl⟩ := isPowerOfTwo_iff_exists.mp hpow
      exact alignUp_mask hb hs
  | false =>
      rw [alignUp_divide hknown hpos hs, Int.tdiv_eq_ediv_of_nonneg hnonneg]

/-- On a wide unsigned type `AlignUp` is the function on natural numbers that
the arena is modelled with. -/
theorem alignUp_natCast (hsigned : T.signed = false) (hsize : 4 ≤ T.size)
    {m n : ℕ} (hn : T.Holds n) (hpos : 0 < n) :
    T.alignUp known m n = some ((Basic.alignUp T.bits known m n : ℕ) : ℤ) := by
  have hmodulus := Nat.two_pow_pos T.bits
  have hsum : ((m : ℤ) + n - 1) % 2 ^ T.bits =
      (((2 ^ T.bits - 1 + m + n) % 2 ^ T.bits : ℕ) : ℤ) := by
    push_cast [Nat.cast_sub hmodulus]
    rw [← Int.add_emod_right]
    congr 1
    ring
  have hs := T.sum_wide (a := m) (b := n) hsigned hsize
  rw [hsum] at hs
  have hplain : Basic.alignUp T.bits known m n =
      Basic.alignUp T.bits false m n := by
    cases hpow : Basic.isPowerOfTwo n with
    | true =>
        have hlt : n < 2 ^ T.bits := by
          exact_mod_cast hn.2.trans_lt maxValue_lt_two_pow
        exact alignUp_known hpow hlt.le
    | false =>
        simp only [Basic.alignUp, hpow, Bool.and_false]
  have hholds :
      T.Holds (((2 ^ T.bits - 1 + m + n) % 2 ^ T.bits / n * n : ℕ)) := by
    have hle := Nat.div_mul_le_self ((2 ^ T.bits - 1 + m + n) % 2 ^ T.bits) n
    have hsumHolds := holds_of_sum hs
    rw [promoted_of_le hsize] at hsumHolds
    exact holds_towardZero hsumHolds
      (.inl ⟨Int.natCast_nonneg _, by exact_mod_cast hle⟩)
  have hcast : (((2 ^ T.bits - 1 + m + n) % 2 ^ T.bits : ℕ) : ℤ) / n * n =
      (((2 ^ T.bits - 1 + m + n) % 2 ^ T.bits / n * n : ℕ) : ℤ) := by
    rw [Nat.cast_mul, Int.natCast_ediv]
  rw [alignUp_of_nonneg hn (by exact_mod_cast hpos) hs (Int.natCast_nonneg _),
    hcast, convert_of_holds hholds, hplain]
  rfl

/-- The quotient of the sum times `b` is at most `b - 1` above `a`. -/
theorem le_quotient_mul (hpos : 0 < b) :
    a ≤ (a + b - 1) / b * b ∧ (a + b - 1) / b * b ≤ a + b - 1 := by
  have hle := Int.ediv_mul_le (a + b - 1) hpos.ne'
  have hlt := Int.lt_ediv_add_one_mul_self (a + b - 1) hpos
  rw [add_mul, one_mul] at hlt
  omega

/-- The quotient of the sum is the ceiling. -/
theorem ceil_div_eq (hpos : 0 < b) : ⌈(a : ℚ) / b⌉ = (a + b - 1) / b := by
  obtain ⟨hge, hle⟩ := le_quotient_mul (a := a) hpos
  have hpos' : (0 : ℚ) < b := by exact_mod_cast hpos
  rw [Int.ceil_eq_iff, lt_div_iff₀ hpos', div_le_iff₀ hpos']
  constructor
  · have hlt : ((a + b - 1) / b - 1) * b < a := by
      rw [sub_mul, one_mul]
      omega
    exact_mod_cast hlt
  · exact_mod_cast hge

/-- The quotient of the sum gives the least multiple. -/
theorem isLeast_multiple (hpos : 0 < b) :
    IsLeast {m : ℤ | b ∣ m ∧ a ≤ m} ((a + b - 1) / b * b) := by
  obtain ⟨hge, hle⟩ := le_quotient_mul (a := a) hpos
  refine ⟨⟨Int.dvd_mul_left _ _, hge⟩, ?_⟩
  rintro _ ⟨⟨c, rfl⟩, hc⟩
  have hlt : (a + b - 1) / b * b < (c + 1) * b := by
    rw [add_mul, one_mul, mul_comm c]
    omega
  have hquot : (a + b - 1) / b < c + 1 := lt_of_mul_lt_mul_right hlt hpos.le
  rw [mul_comm b]
  exact mul_le_mul_of_nonneg_right (Int.le_of_lt_add_one hquot) hpos.le

/-- What `CeilDiv` and `AlignUp` are to compute. -/
def Exact (T : IntegralType) (known : Bool) (a b : ℤ) : Prop :=
  T.ceilDiv known a b = some ⌈(a : ℚ) / b⌉ ∧
    ∀ m, IsLeast {m : ℤ | b ∣ m ∧ a ≤ m} m → T.Holds m →
      T.alignUp known a b = some m

theorem exact_of_sum (ha : T.Holds a) (hb : T.Holds b) (hnonneg : 0 ≤ a)
    (hpos : 0 < b) (hs : T.sum a b = some (a + b - 1)) :
    Exact T known a b := by
  have hsum : 0 ≤ a + b - 1 := by omega
  have hquot : T.Holds ((a + b - 1) / b) := by
    have hlt : a + b - 1 < (a + 1) * b := by
      have hmul : a ≤ a * b := le_mul_of_one_le_right hnonneg hpos
      rw [add_mul, one_mul]
      omega
    have hle : (a + b - 1) / b < a + 1 := Int.ediv_lt_of_lt_mul hpos hlt
    exact holds_towardZero ha
      (.inl ⟨Int.ediv_nonneg hsum hpos.le, Int.le_of_lt_add_one hle⟩)
  constructor
  · rw [ceilDiv_of_nonneg hb hpos hs hsum, convert_of_holds hquot,
      ceil_div_eq hpos]
  · intro m hm hholds
    obtain rfl := hm.unique (isLeast_multiple hpos)
    rw [alignUp_of_nonneg hb hpos hs hsum, convert_of_holds hholds]

/-- Where the sum wraps, the quotient is zero, but not the ceiling. -/
theorem ceilDiv_wrapped (known : Bool) (hsigned : T.signed = false)
    (hsize : 4 ≤ T.size) (ha : T.Holds a) (hb : T.Holds b) (hpos : 0 < b)
    (hwrap : T.maxValue < a + b - 1) :
    T.ceilDiv known a b = some 0 ∧ (0 : ℤ) < ⌈(a : ℚ) / b⌉ := by
  have hmax : T.maxValue = 2 ^ T.bits - 1 := by
    rw [maxValue, hsigned, if_neg Bool.false_ne_true]
  have hamax := ha.2
  have hbmax := hb.2
  have hmod : (a + b - 1) % 2 ^ T.bits = a + b - 1 - 2 ^ T.bits := by
    rw [← Int.sub_emod_right, Int.emod_eq_of_lt (by omega) (by omega)]
  have hs : T.sum a b = some (a + b - 1 - 2 ^ T.bits) := by
    rw [sum_wide hsigned hsize, hmod]
  constructor
  · have hzero : (a + b - 1 - 2 ^ T.bits) / b = 0 :=
      Int.ediv_eq_zero_of_lt (by omega) (by omega)
    rw [ceilDiv_of_nonneg hb hpos hs (by omega), hzero,
      convert_of_holds (holds_of_nonneg le_rfl maxValue_nonneg)]
  · rw [ceil_div_eq hpos]
    exact (Int.le_ediv_iff_mul_le hpos).mpr (by omega)

/-- On an unsigned type `CeilDiv` and `AlignUp` are exact if and only if the
type is promoted or the sum does not wrap. -/
theorem exact_iff (T : IntegralType) (hsigned : T.signed = false)
    (known : Bool) {a b : ℤ} (ha : T.Holds a) (hb : T.Holds b) (hpos : 0 < b) :
    Exact T known a b ↔ T.size < 4 ∨ a + b - 1 ≤ T.maxValue := by
  have hnonneg := nonneg_of_unsigned hsigned ha
  constructor
  · rintro ⟨hceil, -⟩
    by_contra hcond
    obtain ⟨hsize, hwrap⟩ := not_or.mp hcond
    obtain ⟨hzero, hne⟩ := ceilDiv_wrapped known hsigned
      (Nat.not_lt.mp hsize) ha hb hpos (Int.not_le.mp hwrap)
    rw [hzero] at hceil
    exact hne.ne (Option.some.inj hceil)
  · intro hcond
    apply exact_of_sum ha hb hnonneg hpos
    by_cases hsize : T.size < 4
    · exact sum_narrow hsize ha hb
    · have hle := hcond.resolve_left hsize
      have hlt := hle.trans_lt maxValue_lt_two_pow
      rw [sum_wide hsigned (Nat.not_lt.mp hsize),
        Int.emod_eq_of_lt (by omega) hlt]

/-- `size_t`. -/
def sizeT : IntegralType := ⟨8, false, by decide, by decide⟩

theorem exact_iff_ten :
    Exact sizeT false 10 3 ↔
      sizeT.size < 4 ∨ (10 : ℤ) + 3 - 1 ≤ sizeT.maxValue :=
  exact_iff sizeT rfl false (by decide) (by decide) (by decide)

/-- The greatest `size_t` divided by 3 is rounded up to zero, although it is a
multiple of 3 itself. -/
theorem exists_wrapped_sum :
    sizeT.Holds (2 ^ 64 - 1) ∧ sizeT.Holds 3 ∧
      IsLeast {m : ℤ | 3 ∣ m ∧ 2 ^ 64 - 1 ≤ m} (2 ^ 64 - 1) ∧
      ∀ known, sizeT.ceilDiv known (2 ^ 64 - 1) 3 = some 0 ∧
        sizeT.alignUp known (2 ^ 64 - 1) 3 = some 0 ∧
        ¬ Exact sizeT known (2 ^ 64 - 1) 3 := by
  have ha : sizeT.Holds (2 ^ 64 - 1) := by decide
  have hb : sizeT.Holds 3 := by decide
  refine ⟨ha, hb, ⟨⟨by decide, le_rfl⟩, fun m hm => hm.2⟩, fun known => ?_⟩
  obtain ⟨hzero, hne⟩ :=
    ceilDiv_wrapped known rfl (by decide) ha hb (by decide) (by decide)
  refine ⟨hzero, by cases known <;> decide, fun hexact => ?_⟩
  rw [Exact, hzero] at hexact
  exact hne.ne (Option.some.inj hexact.1)

end IntegralType
end Basic
end Yacul
