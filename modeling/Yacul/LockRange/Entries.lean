import Yacul.LockRange.Machine
import Yacul.Support.SharedExclusive
import Mathlib.Data.List.Perm.Basic
import Mathlib.Data.Multiset.MapFold

/-!
# The sorted entry map of the range lock

The scans of the source stop early because the map is sorted by offset.  This
module shows that stopping early loses nothing, and reads the map as a
multiset of shared and exclusive holds on ranges.
-/

namespace Yacul
namespace LockRange

open SharedExclusive

/-! ## Keys and ranges -/

theorem EntryKey.eq_of_not_lt {k o : EntryKey}
    (hko : k.lt o = false) (hok : o.lt k = false) : k = o := by
  obtain ⟨ko, ki⟩ := k
  obtain ⟨oo, oi⟩ := o
  simp only [EntryKey.lt, ne_eq, ite_not] at hko hok
  by_cases hoff : ko = oo
  · subst hoff
    simp only [if_true, decide_eq_false_iff_not] at hko hok
    obtain rfl : ki = oi := by omega
    rfl
  · simp only [hoff, Ne.symm hoff, if_false, decide_eq_false_iff_not,
      UInt64.lt_iff_toNat_lt] at hko hok
    exact absurd (UInt64.toNat_inj.mp (by omega)) hoff

theorem EntryKey.offset_le_of_lt {k o : EntryKey} (hko : k.lt o = true) :
    k.offset ≤ o.offset := by
  simp only [EntryKey.lt, ne_eq, ite_not] at hko
  split at hko
  · simp [*]
  · exact UInt64.le_of_lt (of_decide_eq_true hko)

theorem overlaps_comm (a b c d : UInt64) :
    overlaps a b c d = overlaps c d a b := by
  simp only [overlaps, Bool.and_comm]

/-- A half-open range of offsets. -/
structure Range where
  offset : UInt64
  endOff : UInt64
deriving DecidableEq, Repr

/-- Two ranges share an offset. -/
def Range.Touches (r q : Range) : Prop :=
  overlaps r.offset r.endOff q.offset q.endOff = true

theorem Range.Touches.symm (r q : Range) (h : r.Touches q) : q.Touches r := by
  simpa [Range.Touches, overlaps_comm q.offset] using h

/-- The hold that a range in a given mode stands for. -/
def hold (offset endOff : UInt64) (mode : Mode) : Hold Range :=
  ⟨⟨offset, endOff⟩, mode = .kExclusive⟩

theorem hold_inj {o o' e e' : UInt64} {m m' : Mode} :
    hold o e m = hold o' e' m' ↔ o = o' ∧ e = e' ∧ m = m' := by
  cases m <;> cases m' <;> simp [hold]

/-- The hold an entry stands for. -/
def entryHold (p : EntryKey × LockEntry) : Hold Range :=
  hold p.2.offset p.2.endOff p.2.mode

/-- The holds recorded in the map. -/
def held (m : EntryMap) : Multiset (Hold Range) :=
  (m.map entryHold : List (Hold Range))

/-! ## The invariant of the map -/

/-- The map is sorted by offset, keys agree with their entries, ids below
`nextId` are used, and no entry counts more than one holder. -/
structure MapOk (nextId : ℕ) (m : EntryMap) : Prop where
  sorted : m.Pairwise fun p q => p.1.offset ≤ q.1.offset
  keyed : ∀ p ∈ m, p.2.offset = p.1.offset
  fresh : ∀ p ∈ m, p.1.id < nextId
  single : ∀ p ∈ m, p.2.shareCount = 1

theorem MapOk.tail {n : ℕ} {p : EntryKey × LockEntry} {m : EntryMap}
    (hm : MapOk n (p :: m)) : MapOk n m where
  sorted := hm.sorted.tail
  keyed q hq := hm.keyed q (List.mem_cons_of_mem p hq)
  fresh q hq := hm.fresh q (List.mem_cons_of_mem p hq)
  single q hq := hm.single q (List.mem_cons_of_mem p hq)

theorem MapOk.of_sublist {n : ℕ} {m m' : EntryMap}
    (hm : MapOk n m) (hsub : m'.Sublist m) : MapOk n m' where
  sorted := hm.sorted.sublist hsub
  keyed q hq := hm.keyed q (hsub.mem hq)
  fresh q hq := hm.fresh q (hsub.mem hq)
  single q hq := hm.single q (hsub.mem hq)

/-! ## Insertion -/

theorem mapAssign_perm {key : EntryKey} {e : LockEntry} {m : EntryMap}
    (hkey : ∀ p ∈ m, p.1 ≠ key) : (mapAssign key e m).Perm ((key, e) :: m) := by
  induction m with
  | nil => exact List.Perm.refl _
  | cons p m ih =>
      obtain ⟨k, e'⟩ := p
      simp only [mapAssign]
      split
      · exact List.Perm.refl _
      · next hlt =>
        split
        · have htail := ih fun q hq => hkey q (List.mem_cons_of_mem _ hq)
          exact (htail.cons (k, e')).trans (List.Perm.swap _ _ _)
        · next hgt =>
          have heq := EntryKey.eq_of_not_lt (by simpa using hlt) (by simpa using hgt)
          exact absurd heq.symm (hkey (k, e') List.mem_cons_self)

theorem mapAssign_sorted {key : EntryKey} {e : LockEntry} {m : EntryMap}
    (hkey : ∀ p ∈ m, p.1 ≠ key)
    (hm : m.Pairwise fun p q => p.1.offset ≤ q.1.offset) :
    (mapAssign key e m).Pairwise fun p q => p.1.offset ≤ q.1.offset := by
  induction m with
  | nil => simp [mapAssign]
  | cons p m ih =>
      obtain ⟨k, e'⟩ := p
      have hhead : ∀ q ∈ m, k.offset ≤ q.1.offset := fun q hq =>
        List.rel_of_pairwise_cons hm hq
      simp only [mapAssign]
      split
      · next hlt =>
        have hle := EntryKey.offset_le_of_lt hlt
        refine List.Pairwise.cons ?_ hm
        intro q hq
        rcases List.mem_cons.mp hq with rfl | hq
        · exact hle
        · exact UInt64.le_trans hle (hhead q hq)
      · next hlt =>
        split
        · next hgt =>
          have hkey' : ∀ q ∈ m, q.1 ≠ key := fun q hq =>
            hkey q (List.mem_cons_of_mem _ hq)
          refine List.Pairwise.cons ?_ (ih hkey' hm.tail)
          intro q hq
          rcases List.mem_cons.mp ((mapAssign_perm hkey').mem_iff.mp hq) with
            rfl | hq
          · exact EntryKey.offset_le_of_lt hgt
          · exact hhead q hq
        · next hgt =>
          have heq := EntryKey.eq_of_not_lt (by simpa using hlt) (by simpa using hgt)
          exact absurd heq.symm (hkey (k, e') List.mem_cons_self)

/-- The key of the next entry is not in the map. -/
theorem MapOk.ne_next {n : ℕ} {m : EntryMap} (hm : MapOk n m)
    (offset : UInt64) : ∀ p ∈ m, p.1 ≠ ⟨offset, n⟩ := by
  intro p hp heq
  have hlt := hm.fresh p hp
  simp [heq] at hlt

theorem insertEntry_perm {c : Core} (hm : MapOk c.nextId c.entries)
    (offset endOff : UInt64) (mode : Mode) :
    (insertEntry c offset endOff mode).entries.Perm
      ((⟨offset, c.nextId⟩, ⟨offset, endOff, mode, 1⟩) :: c.entries) :=
  mapAssign_perm (hm.ne_next offset)

theorem insertEntry_mapOk {c : Core} (hm : MapOk c.nextId c.entries)
    (offset endOff : UInt64) (mode : Mode) :
    MapOk (c.nextId + 1) (insertEntry c offset endOff mode).entries := by
  have hperm := insertEntry_perm hm offset endOff mode
  constructor
  · exact mapAssign_sorted (hm.ne_next offset) hm.sorted
  all_goals
    intro p hp
    rcases List.mem_cons.mp (hperm.mem_iff.mp hp) with rfl | hp
  · rfl
  · exact hm.keyed p hp
  · exact Nat.lt_succ_self _
  · exact Nat.lt_succ_of_lt (hm.fresh p hp)
  · rfl
  · exact hm.single p hp

theorem held_insertEntry {c : Core} (hm : MapOk c.nextId c.entries)
    (offset endOff : UInt64) (mode : Mode) :
    held (insertEntry c offset endOff mode).entries =
      hold offset endOff mode ::ₘ held c.entries := by
  have hperm := (insertEntry_perm hm offset endOff mode).map entryHold
  simpa [held, entryHold] using Multiset.coe_eq_coe.mpr hperm

/-! ## The conflict scan -/

/-- Stopping at the first key at or past `endOff` loses no conflict. -/
theorem hasConflict_iff {n : ℕ} {m : EntryMap} (hm : MapOk n m)
    (offset endOff : UInt64) (mode : Mode) :
    hasConflict offset endOff mode none m = true ↔
      ∃ p ∈ m, overlaps p.2.offset p.2.endOff offset endOff = true ∧
        (mode = .kExclusive ∨ p.2.mode = .kExclusive) := by
  induction m with
  | nil => simp [hasConflict]
  | cons p m ih =>
      obtain ⟨key, entry⟩ := p
      have hkeyed := hm.keyed (key, entry) List.mem_cons_self
      have hrest := ih hm.tail
      simp only [hasConflict, reduceCtorEq, if_false, List.exists_mem_cons_iff]
      split
      · next hpast =>
        -- Every later key is past `endOff` as well, so nothing overlaps.
        have hfar : ∀ q ∈ (key, entry) :: m,
            overlaps q.2.offset q.2.endOff offset endOff = false := by
          intro q hq
          have hkq : key.offset ≤ q.1.offset := by
            rcases List.mem_cons.mp hq with rfl | hq
            · exact UInt64.le_refl _
            · exact List.rel_of_pairwise_cons hm.sorted hq
          have hle := UInt64.le_trans hpast hkq
          simp [overlaps, hm.keyed q hq, UInt64.not_lt.mpr hle]
        simp only [Bool.false_eq_true, false_iff, not_or, not_exists]
        refine ⟨by simp [hfar (key, entry) List.mem_cons_self], ?_⟩
        rintro q ⟨hq, hov, -⟩
        simp [hfar q (List.mem_cons_of_mem _ hq)] at hov
      · by_cases hov : overlaps entry.offset entry.endOff offset endOff = true
        · by_cases hex : mode = .kExclusive ∨ entry.mode = .kExclusive
          · simp [hov, hex]
          · simp [hov, hex, hrest]
        · simp [hov, hrest]

/-- A request without conflict is compatible with all present holds. -/
theorem compatible_of_not_hasConflict {n : ℕ} {m : EntryMap} (hm : MapOk n m)
    {offset endOff : UInt64} {mode : Mode}
    (hfree : hasConflict offset endOff mode none m = false) :
    ∀ k ∈ held m, Compatible Range.Touches (hold offset endOff mode) k := by
  intro k hk htouch
  obtain ⟨p, hp, rfl⟩ := List.mem_map.mp (Multiset.mem_coe.mp hk)
  have hno : ¬ (mode = .kExclusive ∨ p.2.mode = .kExclusive) := by
    intro hex
    have hconf := (hasConflict_iff hm offset endOff mode).mpr
      ⟨p, hp, (overlaps_comm _ _ _ _).trans htouch, hex⟩
    simp [hfree] at hconf
  simpa [hold, entryHold, not_or] using hno

/-! ## Giving up a hold -/

/-- A scan that may go as far as the offset it looks for finds the entry of
every hold, and erases it. -/
theorem dropHolder_of_mem {n : ℕ} {m : EntryMap} (hm : MapOk n m)
    {bound offset endOff : UInt64} {mode : Mode} (hbound : offset ≤ bound)
    (hmem : hold offset endOff mode ∈ held m) :
    ∃ m', dropHolder bound offset endOff mode m = some (true, m') ∧
      m'.Sublist m ∧ held m = hold offset endOff mode ::ₘ held m' := by
  induction m with
  | nil => simp [held] at hmem
  | cons p m ih =>
      obtain ⟨key, e⟩ := p
      have hkeyed := hm.keyed (key, e) List.mem_cons_self
      have hsingle := hm.single (key, e) List.mem_cons_self
      by_cases hmatch : e.offset = offset ∧ e.endOff = endOff ∧ e.mode = mode
      · obtain ⟨rfl, rfl, rfl⟩ := hmatch
        have hnot : ¬ bound < key.offset := by
          rw [UInt64.not_lt, ← hkeyed]
          exact hbound
        refine ⟨m, ?_, List.sublist_cons_self _ _, by simp [held, entryHold]⟩
        simp_all [dropHolder]
      · have hne : entryHold (key, e) ≠ hold offset endOff mode := by
          simpa [entryHold, hold_inj] using hmatch
        have hin : hold offset endOff mode ∈ held m := by
          simpa [held, hne.symm] using hmem
        obtain ⟨q, hq, hqhold⟩ := List.mem_map.mp (Multiset.mem_coe.mp hin)
        have hqoff : q.1.offset = offset := by
          rw [← hm.keyed q (List.mem_cons_of_mem _ hq)]
          exact (hold_inj.mp hqhold).1
        have hnot : ¬ bound < key.offset := by
          rw [UInt64.not_lt]
          refine UInt64.le_trans ?_ hbound
          rw [← hqoff]
          exact List.rel_of_pairwise_cons hm.sorted hq
        obtain ⟨m', hdrop, hsub, hheld⟩ := ih hm.tail hin
        refine ⟨(key, e) :: m', ?_, hsub.cons_cons _, ?_⟩
        · have hmiss : (e.offset ≠ offset || e.endOff ≠ endOff || e.mode ≠ mode)
              = true := by
            simp only [not_and_or] at hmatch
            simpa [or_assoc] using hmatch
          rw [dropHolder, if_neg hnot, if_pos hmiss, hdrop]
          rfl
        · simp only [held, List.map_cons, ← Multiset.cons_coe] at hheld ⊢
          rw [hheld, Multiset.cons_swap]

end LockRange
end Yacul
