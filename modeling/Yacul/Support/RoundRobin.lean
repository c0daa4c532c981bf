import Mathlib.Algebra.Order.BigOperators.Group.Finset
import Mathlib.Data.Fintype.Basic

/-!
# Weighted round robin

Levels are served in rounds: in each round, from the highest level to the
lowest, every level is served up to its quantum.  The record of a server is
the list of the levels it has served, all of them being backlogged.
-/

namespace Yacul.RoundRobin

variable {L : Type*} [Fintype L] [LinearOrder L] {quanta : L → ℕ}
  {served : List L}

/-- Every stretch as long as a round serves every level with a positive
quantum, and a level is not served beyond its quantum while a lower level has
a positive one. -/
structure Fair (quanta : L → ℕ) (served : List L) : Prop where
  everyTurn : ∀ window, window <:+: served →
    window.length = ∑ l, quanta l → ∀ level, 0 < quanta level → level ∈ window
  withinQuantum : ∀ level n, List.replicate n level <:+: served →
    quanta level < n → ∀ lower < level, quanta lower = 0

/-- The highest level with a positive quantum. -/
def Highest (quanta : L → ℕ) (level : L) : Prop :=
  0 < quanta level ∧ ∀ l, level < l → quanta l = 0

omit [Fintype L] in
theorem Highest.le {high level : L} (hhigh : Highest quanta high)
    (hlevel : 0 < quanta level) : level ≤ high := by
  by_contra hlt
  have hzero := hhigh.2 level (lt_of_not_ge hlt)
  omega

omit [Fintype L] in
theorem Highest.eq {high level : L} (hhigh : Highest quanta high)
    (hlevel : Highest quanta level) : level = high :=
  le_antisymm (hhigh.le hlevel.1) (hlevel.le hhigh.1)

/-- A server that keeps to the highest level is fair exactly as long as it
stays within the quantum of that level, or no other level has a quantum. -/
theorem fair_iff_of_highest (hserved : ∀ l ∈ served, Highest quanta l) :
    Fair quanta served ↔
      ∀ high low, Highest quanta high → low ≠ high → 0 < quanta low →
        served.length ≤ quanta high := by
  constructor
  · intro hfair high low hhigh hne hlow
    by_contra hlong
    have hall : served = List.replicate served.length high :=
      List.eq_replicate_of_mem fun l hl => hhigh.eq (hserved l hl)
    have hinner : List.replicate served.length high <:+: served :=
      hall ▸ List.infix_rfl
    have hlower : low < high := lt_of_le_of_ne (hhigh.le hlow) hne
    have hzero := hfair.withinQuantum high served.length hinner
      (Nat.lt_of_not_le hlong) low hlower
    omega
  · intro hshort
    constructor
    · intro window hinner hlength level hlevel
      have hround : quanta level ≤ ∑ l, quanta l :=
        Finset.single_le_sum (fun _ _ => Nat.zero_le _) (Finset.mem_univ level)
      obtain ⟨high, hmem⟩ : ∃ high, high ∈ window := by
        apply List.exists_mem_of_length_pos
        omega
      by_cases heq : level = high
      · exact heq ▸ hmem
      · have hhigh := hserved high (hinner.subset hmem)
        have hle := hshort high level hhigh heq hlevel
        have hboth : quanta high + quanta level ≤ ∑ l, quanta l :=
          Finset.add_le_sum (fun _ _ => Nat.zero_le _) (Finset.mem_univ high)
            (Finset.mem_univ level) (Ne.symm heq)
        have hwindow := hinner.length_le
        omega
    · intro level n hinner hn lower hlower
      by_contra hpos
      have hmem : level ∈ List.replicate n level :=
        List.mem_replicate.mpr ⟨by omega, rfl⟩
      have hle := hshort level lower (hserved level (hinner.subset hmem))
        hlower.ne (Nat.pos_of_ne_zero hpos)
      have hlength := hinner.length_le
      rw [List.length_replicate] at hlength
      omega

end Yacul.RoundRobin
