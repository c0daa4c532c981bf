import Mathlib.Algebra.Group.Nat.Defs
import Mathlib.Data.Int.Notation
import Mathlib.Data.Rat.Cast.Order
import Mathlib.Tactic.Positivity

/-!
# CPU usage from tick counters

`UsagePercent` divides the busy ticks between two snapshots by all ticks
between them.  Both differences are guarded, but the ticks that are not busy
are not: when they go down, the busy ticks are more than all ticks.
-/

namespace Yacul
namespace SystemInfo

/-- `CpuCoreStats`. -/
structure CpuCoreStats where
  core_id : ℤ := -1
  user : UInt64 := 0
  nice : UInt64 := 0
  system_ticks : UInt64 := 0
  idle : UInt64 := 0
  iowait : UInt64 := 0
  irq : UInt64 := 0
  softirq : UInt64 := 0
  steal : UInt64 := 0
  guest : UInt64 := 0
  guest_nice : UInt64 := 0
deriving DecidableEq, Repr

namespace CpuCoreStats

/-- `CpuCoreStats::Total`. -/
def total (s : CpuCoreStats) : UInt64 :=
  s.user + s.nice + s.system_ticks + s.idle + s.iowait + s.irq + s.softirq +
    s.steal + s.guest + s.guest_nice

/-- `CpuCoreStats::Busy`. -/
def busy (s : CpuCoreStats) : UInt64 :=
  s.user + s.nice + s.system_ticks + s.irq + s.softirq + s.steal

/-- `CpuCoreStats::UsagePercent`, in rationals. -/
def usagePercent (cur prev : CpuCoreStats) : ℚ :=
  if cur.total < prev.total then 0
  else
    let delta_total := cur.total - prev.total
    if delta_total = 0 then 0
    else
      let prev_busy := prev.busy
      let cur_busy := cur.busy
      if cur_busy < prev_busy then 0
      else
        let delta_busy := cur_busy - prev_busy
        100 * (delta_busy.toNat : ℚ) / (delta_total.toNat : ℚ)

/-- The ticks of `Busy`. -/
def busyTicks (s : CpuCoreStats) : ℕ :=
  s.user.toNat + s.nice.toNat + s.system_ticks.toNat + s.irq.toNat +
    s.softirq.toNat + s.steal.toNat

/-- The ticks of `Total` that are not in `Busy`. -/
def otherTicks (s : CpuCoreStats) : ℕ :=
  s.idle.toNat + s.iowait.toNat + s.guest.toNat + s.guest_nice.toNat

/-- The sums of the ticks fit in their type. -/
def Fits (s : CpuCoreStats) : Prop :=
  s.busyTicks + s.otherTicks < 2 ^ 64

instance (s : CpuCoreStats) : Decidable s.Fits := by
  unfold Fits
  exact inferInstance

variable {s cur prev : CpuCoreStats}

theorem Fits.toNat_total (hs : s.Fits) :
    s.total.toNat = s.busyTicks + s.otherTicks := by
  unfold Fits busyTicks otherTicks at *
  simp only [total, UInt64.toNat_add]
  omega

theorem Fits.toNat_busy (hs : s.Fits) : s.busy.toNat = s.busyTicks := by
  unfold Fits busyTicks otherTicks at *
  simp only [busy, UInt64.toNat_add]
  omega

theorem usagePercent_of_total_le (h : cur.total ≤ prev.total) :
    cur.usagePercent prev = 0 := by
  simp only [usagePercent]
  split_ifs with hlt hdelta hbusy
  · rfl
  · rfl
  · rfl
  · have heq : cur.total = prev.total :=
      UInt64.le_antisymm h (UInt64.not_lt.mp hlt)
    exact absurd (by rw [heq, UInt64.sub_self]) hdelta

theorem usagePercent_of_busy_lt (h : cur.busy < prev.busy) :
    cur.usagePercent prev = 0 := by
  simp only [usagePercent]
  split_ifs
  · rfl
  · rfl
  · rfl

theorem toNat_total_sub (h : prev.total < cur.total) :
    (cur.total - prev.total).toNat = cur.total.toNat - prev.total.toNat :=
  UInt64.toNat_sub_of_le _ _ (UInt64.le_of_lt h)

/-- Past the guards the usage is the quotient. -/
theorem usagePercent_of_guards (htotal : prev.total < cur.total)
    (hbusy : prev.busy ≤ cur.busy) :
    cur.usagePercent prev =
      100 * ((cur.busy.toNat - prev.busy.toNat : ℕ) : ℚ) /
        ((cur.total.toNat - prev.total.toNat : ℕ) : ℚ) := by
  have hlt : prev.total.toNat < cur.total.toNat :=
    UInt64.lt_iff_toNat_lt.mp htotal
  have hdelta : cur.total - prev.total ≠ 0 := by
    intro hzero
    have hsub := toNat_total_sub htotal
    rw [hzero] at hsub
    exact absurd hsub.symm (Nat.sub_pos_of_lt hlt).ne'
  simp only [usagePercent]
  rw [if_neg (UInt64.not_lt.mpr (UInt64.le_of_lt htotal)), if_neg hdelta,
    if_neg (UInt64.not_lt.mpr hbusy), toNat_total_sub htotal,
    UInt64.toNat_sub_of_le _ _ hbusy]

/-- The usage is a percentage exactly if the ticks that are not busy have not
gone down, or a guard applies. -/
theorem usagePercent_mem_iff (hcur : cur.Fits) (hprev : prev.Fits) :
    (0 ≤ cur.usagePercent prev ∧ cur.usagePercent prev ≤ 100) ↔
      cur.total ≤ prev.total ∨ cur.busy < prev.busy ∨
        prev.otherTicks ≤ cur.otherTicks := by
  by_cases htotal : cur.total ≤ prev.total
  · rw [usagePercent_of_total_le htotal]
    exact iff_of_true ⟨le_rfl, by norm_num⟩ (.inl htotal)
  by_cases hbusy : cur.busy < prev.busy
  · rw [usagePercent_of_busy_lt hbusy]
    exact iff_of_true ⟨le_rfl, by norm_num⟩ (.inr (.inl hbusy))
  have hlt : prev.total.toNat < cur.total.toNat :=
    UInt64.lt_iff_toNat_lt.mp (UInt64.not_le.mp htotal)
  have hle : prev.busy.toNat ≤ cur.busy.toNat :=
    UInt64.le_iff_toNat_le.mp (UInt64.not_lt.mp hbusy)
  have hpos : (0 : ℚ) < ((cur.total.toNat - prev.total.toNat : ℕ) : ℚ) :=
    Nat.cast_pos.mpr (Nat.sub_pos_of_lt hlt)
  -- Past the guards it is the busy ticks against all ticks.
  have hquotient : cur.usagePercent prev ≤ 100 ↔
      cur.busy.toNat - prev.busy.toNat ≤
        cur.total.toNat - prev.total.toNat := by
    rw [usagePercent_of_guards (UInt64.not_le.mp htotal) (UInt64.not_lt.mp hbusy),
      div_le_iff₀ hpos, mul_le_mul_iff_right₀ (by norm_num), Nat.cast_le]
  have hnonneg : 0 ≤ cur.usagePercent prev := by
    rw [usagePercent_of_guards (UInt64.not_le.mp htotal) (UInt64.not_lt.mp hbusy)]
    positivity
  rw [and_iff_right hnonneg, hquotient, or_iff_right htotal,
    or_iff_right hbusy]
  rw [hcur.toNat_total, hprev.toNat_total] at hlt ⊢
  rw [hcur.toNat_busy, hprev.toNat_busy] at hle ⊢
  omega

/-- A core that has worked for a fifth of the time. -/
theorem usagePercent_mem_iff_fifth :
    (0 ≤ usagePercent { user := 200, idle := 800 } { user := 100, idle := 400 } ∧
        usagePercent { user := 200, idle := 800 }
          { user := 100, idle := 400 } ≤ 100) ↔
      total { user := 200, idle := 800 } ≤ total { user := 100, idle := 400 } ∨
        busy { user := 200, idle := 800 } < busy { user := 100, idle := 400 } ∨
        otherTicks { user := 100, idle := 400 } ≤
          otherTicks { user := 200, idle := 800 } :=
  usagePercent_mem_iff (by decide) (by decide)

/-- `iowait` can go down: ten ticks more in all, twenty of them busy. -/
theorem exists_usageAboveHundred :
    ∃ cur prev : CpuCoreStats, cur.Fits ∧ prev.Fits ∧
      cur.usagePercent prev = 200 :=
  ⟨{ user := 120, idle := 400, iowait := 40 },
    { user := 100, idle := 400, iowait := 50 }, by decide, by decide,
    by decide +kernel⟩

end CpuCoreStats

end SystemInfo
end Yacul
