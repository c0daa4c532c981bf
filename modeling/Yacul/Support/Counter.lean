import Mathlib.Algebra.Group.Int.Defs
import Mathlib.Algebra.Group.Nat.Defs
import Mathlib.Data.Int.Notation
import Mathlib.Data.Nat.Notation

/-!
# Machine counters that run behind

A concurrent program changes a collection and the counter of its members in
different steps.  Between the two the counter is off by what the threads have
still to add or subtract.  `Owes c due total` says that the 64-bit counter `c`
is `total` once `due` has been added, modulo `2 ^ 64`.
-/

namespace Yacul.Counting

variable {c c' : UInt64} {d d' D D' r : ℤ} {n n' : ℕ} {m : ℤ}

/-- The counter is `total` once `due` has been added. -/
def Owes (c : UInt64) (due : ℤ) (total : ℕ) : Prop :=
  (c.toNat + due) % 2 ^ 64 = (total : ℤ) % 2 ^ 64

/-- The counter has been changed by `r`. -/
def Raised (c : UInt64) (r : ℤ) (c' : UInt64) : Prop :=
  (c'.toNat : ℤ) % 2 ^ 64 = (c.toNat + r) % 2 ^ 64

theorem Raised.zero (c : UInt64) : Raised c 0 c := by
  simp [Raised]

theorem Raised.add (c k : UInt64) : Raised c k.toNat (c + k) := by
  unfold Raised
  rw [UInt64.toNat_add]
  omega

theorem Raised.add_one (c : UInt64) : Raised c 1 (c + 1) :=
  Raised.add c 1

theorem Raised.sub_one (c : UInt64) : Raised c (-1) (c - 1) := by
  unfold Raised
  rw [UInt64.toNat_sub, UInt64.toNat_one]
  omega

theorem Owes.zero : Owes 0 0 0 := rfl

/-- The rule for one step: the counter is changed by `r`, the total by `m`,
and the part `d` of the sum `D` that belongs to the moving thread changes by
the difference. -/
theorem Owes.step (h : Owes c D n) (hcounter : Raised c r c')
    (htotal : (n' : ℤ) = n + m) (hdue : d + D' = d' + D)
    (hbalance : r + d' = d + m) : Owes c' D' n' := by
  unfold Owes at h ⊢
  unfold Raised at hcounter
  omega

/-- With nothing due the counter is the total. -/
theorem Owes.eq_ofNat (h : Owes c 0 n) : c = UInt64.ofNat n := by
  apply UInt64.toNat_inj.mp
  rw [UInt64.toNat_ofNat']
  have hlt := c.toNat_lt
  unfold Owes at h
  omega

theorem Owes.toNat_eq (h : Owes c 0 n) (hn : n < 2 ^ 64) : c.toNat = n := by
  have hlt := c.toNat_lt
  unfold Owes at h
  omega

/-- A counter that is not ahead of its total has not wrapped around. -/
theorem Owes.toNat_le (h : Owes c d n) (hd : d ≤ n) : (c.toNat : ℤ) ≤ n - d := by
  have hlt := c.toNat_lt
  unfold Owes at h
  omega

end Yacul.Counting
