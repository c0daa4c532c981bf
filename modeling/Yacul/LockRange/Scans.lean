import Yacul.LockRange.Exclusion
import Mathlib.Order.Interval.Set.LinearOrder

/-!
# What the scans of the range lock find

`HasConflict` and `IsLockedAny` read the sorted map up to the end of their
range.  This module says which intervals of numbers they find.  The locking
calls have checked that the end of their range does not wrap; `IsLockedAny`
has not.
-/

namespace Yacul
namespace LockRange

/-- The loop of `LockRange::IsLockedAny`. -/
def anyOverlap (offset endOff : UInt64) : EntryMap → Bool
  | [] => false
  | (key, entry) :: rest =>
      if endOff ≤ key.offset then false
      else if overlaps entry.offset entry.endOff offset endOff then true
      else anyOverlap offset endOff rest

/-- `LockRange::IsLockedAny`. -/
def isLockedAny (c : Core) (offset length : UInt64) : Bool :=
  if length = 0 then false
  else anyOverlap offset (offset + length) c.entries

/-- The entry meets the interval of numbers `[offset, offset + length)`. -/
def LockEntry.Meets (e : LockEntry) (offset length : UInt64) : Prop :=
  (Set.Ico e.offset.toNat e.endOff.toNat ∩
    Set.Ico offset.toNat (offset.toNat + length.toNat)).Nonempty

/-- No valid guard and no sleeping request has an empty range. -/
structure Sized (s : State) : Prop where
  guards : ∀ g ∈ s.guards, g.owner = true → g.length ≠ 0
  asleep : ∀ t req n, s.threads t = .blocked req n → req.length ≠ 0

section Sized

variable {s s' : State} {guards : List Guard} {threads : ℕ → Frame}
  {core : Core} {g : Guard} {t : ℕ} {req : Request} {status : Status}
  {a : Action}

theorem sized_init : Sized init := by
  constructor <;> simp [init]

/-- A valid guard after a call has the range of a guard before, or of the
call. -/
theorem length_of_mem_concludeCall (hg : g ∈ concludeCall guards req status)
    (hown : g.owner = true) :
    (∃ k ∈ guards, k.owner = true ∧ k.length = g.length) ∨
      g.length = req.length := by
  have happend : g ∈ guards ++ [req.guard status] →
      (∃ k ∈ guards, k.owner = true ∧ k.length = g.length) ∨
        g.length = req.length := by
    intro hg
    rcases List.mem_append.mp hg with hg | hg
    · exact Or.inl ⟨g, hg, hown, rfl⟩
    · obtain rfl := List.mem_singleton.mp hg
      unfold Request.guard at hown ⊢
      split at hown
      · exact Or.inr (by simp [*])
      · cases hown
  cases hcall : req.call with
  | lock | tryLockUntil d | tryLock =>
      simp only [concludeCall, hcall] at hg
      exact happend hg
  | upgradeUntil j d =>
      simp only [concludeCall, hcall] at hg
      obtain ⟨i, hi⟩ := List.mem_iff_getElem?.mp hg
      rw [List.getElem?_modify, Option.map_eq_map,
        Option.map_eq_some_iff] at hi
      obtain ⟨k, hk, rfl⟩ := hi
      have hmem := List.mem_of_getElem? hk
      left
      split at hown
      · unfold Guard.upgraded at hown
        split at hown
        · refine ⟨k, hmem, hown, ?_⟩
          simp [Guard.upgraded, *]
        · cases hown
      · next hne => exact ⟨k, hmem, hown, by simp [hne]⟩

theorem Sized.set_guard (hs : Sized ⟨core, guards, threads⟩) (i : ℕ)
    (g : Guard) (hg : g.owner = true → g.length ≠ 0) (core' : Core) :
    Sized ⟨core', guards.set i g, threads⟩ := by
  refine ⟨fun k hk hown => ?_, hs.asleep⟩
  rcases List.mem_or_eq_of_mem_set hk with hk | rfl
  · exact hs.guards k hk hown
  · exact hg hown

theorem Sized.notifyAll (hs : Sized ⟨core, guards, threads⟩) :
    Sized ⟨core, guards, notifyAll threads⟩ := by
  refine ⟨hs.guards, fun t req n ht => ?_⟩
  obtain ⟨n', ht'⟩ := notifyAll_eq_blocked ht
  exact hs.asleep t req n' ht'

theorem Sized.settle (hs : Sized s) (hreq : req.length ≠ 0)
    (out : Option Status × Core) : Sized (settle s t req out) := by
  rcases out with ⟨_ | status, core⟩
  · refine ⟨hs.guards, fun t' req' n ht' => ?_⟩
    by_cases heq : t' = t
    · simp only [LockRange.settle, heq, Function.update_self,
        Frame.blocked.injEq] at ht'
      exact ht'.1 ▸ hreq
    · simp only [LockRange.settle, Function.update_of_ne heq] at ht'
      exact hs.asleep t' req' n ht'
  · refine ⟨fun g hg hown => ?_, fun t' req' n ht' => ?_⟩
    · rcases length_of_mem_concludeCall hg hown with
        ⟨k, hk, hkown, hlength⟩ | hlength
      · exact hlength ▸ hs.guards k hk hkown
      · exact hlength ▸ hreq
    · by_cases heq : t' = t
      · simp [LockRange.settle, heq] at ht'
      · simp only [LockRange.settle, Function.update_of_ne heq] at ht'
        exact hs.asleep t' req' n ht'

theorem Sized.releaseGuard (hs : Sized s) (i : ℕ) (g : Guard) :
    Sized (releaseGuard s i g) := by
  unfold LockRange.releaseGuard
  split
  · have hset : Sized
        ⟨s.core, s.guards.set i { g with owner := false }, s.threads⟩ :=
      hs.set_guard i { g with owner := false }
          (fun hfalse => Bool.noConfusion hfalse) s.core
    simp only [doRelease]
    split
    · exact hset
    · next erased entries _ =>
        cases erased with
        | false => exact ⟨hset.guards, hset.asleep⟩
        | true => exact ⟨hset.guards, hset.notifyAll.asleep⟩
  · exact hs

theorem Sized.step (hs : Sized s) (h : step s a = some s') : Sized s' := by
  cases a with
  | acquire t req =>
      obtain ⟨-, -, hrange, rfl⟩ := step_acquire h
      simp only [validateRange, Bool.and_eq_true, decide_eq_true_eq] at hrange
      exact hs.settle hrange.1 _
  | upgradeUntil t i deadline =>
      obtain ⟨-, g, hg, -, hup⟩ := step_upgradeUntil h
      have hlength := hs.guards g (List.mem_of_getElem? hg)
      unfold upgradeSection at hup
      dsimp only at hup
      split at hup
      · cases hup
      · next hown =>
        have hown : g.owner = true := by simpa using hown
        split at hup
        · obtain rfl := Option.some.inj hup
          refine ⟨hs.guards, fun t' req' n ht' => ?_⟩
          by_cases heq : t' = t
          · simp [heq] at ht'
          · exact hs.asleep t' req' n (by simpa [heq] using ht')
        · obtain ⟨⟨erased, entries⟩, -, rfl⟩ := Option.map_eq_some_iff.mp hup
          have hset : Sized ⟨{ s.core with entries := entries },
              s.guards.set i { g with upgrading := true }, s.threads⟩ :=
            hs.set_guard i { g with upgrading := true }
              (fun _ => hlength hown) _
          refine Sized.settle ?_ (hlength hown) _
          cases erased with
          | false => exact hset
          | true => exact hset.notifyAll
  | wake t =>
      obtain ⟨req, n, ht, rfl⟩ := step_wakeUp h
      exact hs.settle (hs.asleep t req n ht) _
  | timeout t =>
      obtain ⟨req, n, ht, -, rfl⟩ := step_timeout h
      exact hs.settle (hs.asleep t req n ht) _
  | release i =>
      obtain ⟨g, -, -, rfl⟩ := step_release h
      exact hs.releaseGuard i g
  | moveConstruct i =>
      obtain ⟨g, hg, -, rfl⟩ := step_moveConstruct h
      have hset : Sized
          ⟨s.core, s.guards.set i { g with owner := false }, s.threads⟩ :=
        hs.set_guard i { g with owner := false }
          (fun hfalse => Bool.noConfusion hfalse) s.core
      refine ⟨fun k hk hown => ?_, hs.asleep⟩
      rcases List.mem_append.mp hk with hk | hk
      · exact hset.guards k hk hown
      · obtain rfl := List.mem_singleton.mp hk
        exact hs.guards k (List.mem_of_getElem? hg) hown
  | moveAssign dst src =>
      obtain rfl | ⟨dstGuard, srcGuard, -, -, -, hsrc, -, rfl⟩ :=
        step_moveAssign h
      · exact hs
      · have hgiven := (hs.releaseGuard dst dstGuard).set_guard dst srcGuard
          (hs.guards srcGuard (List.mem_of_getElem? hsrc))
          (LockRange.releaseGuard s dst dstGuard).core
        exact hgiven.set_guard src { srcGuard with owner := false }
          (fun hfalse => Bool.noConfusion hfalse) _

theorem reachable_sized (hs : Reachable s) : Sized s :=
  hs.invariant (by rintro s rfl; exact sized_init)
    fun _ _ _ hs _ h => hs.step h

end Sized

/-! ## Ranges as intervals -/

section Scans

variable {s : State} {m : EntryMap} {e : LockEntry}
  {offset length : UInt64}

/-- No range in the map is empty. -/
theorem offset_lt_endOff (hs : Reachable s) :
    ∀ p ∈ s.core.entries, p.2.offset < p.2.endOff := by
  intro p hp
  have hinv := reachable_inv hs
  have hheld : entryHold p ∈ guardHolds s.guards := by
    rw [← hinv.ledger]
    exact Multiset.mem_coe.mpr (List.mem_map_of_mem hp)
  obtain ⟨g, hg, hhold⟩ := Roster.mem_tally.mp hheld
  by_cases hholding : g.holding = true
  · rw [Guard.holds_of_holding hholding, Multiset.mem_singleton] at hhold
    obtain ⟨hoff, hend, -⟩ := hold_inj.mp hhold
    have hown : g.owner = true := by
      simp only [Guard.holding, Bool.and_eq_true] at hholding
      exact hholding.1
    have hwide := hinv.wide g hg hown
    have hlength := (reachable_sized hs).guards g hg hown
    rw [hoff, hend]
    refine UInt64.lt_of_le_of_ne hwide fun heq => hlength ?_
    exact UInt64.add_eq_left.mp heq.symm
  · rw [Guard.holds_of_not_holding (by simpa using hholding)] at hhold
    cases hhold

/-- An entry meets an interval when each begins before the other ends. -/
theorem meets_iff (he : e.offset < e.endOff) (hlength : length ≠ 0) :
    e.Meets offset length ↔
      e.offset.toNat < offset.toNat + length.toNat ∧ offset < e.endOff := by
  have hpos : 0 < length.toNat := by
    rw [Nat.pos_iff_ne_zero]
    exact fun hzero => hlength (UInt64.toNat_inj.mp hzero)
  rw [UInt64.lt_iff_toNat_lt] at he ⊢
  rw [LockEntry.Meets, Set.Ico_inter_Ico, Set.nonempty_Ico, sup_lt_iff,
    lt_inf_iff, lt_inf_iff]
  omega

theorem validateRange_spec (h : validateRange offset length = true) :
    length ≠ 0 ∧
      (offset + length).toNat = offset.toNat + length.toNat := by
  have hwide := validateRange_wide h
  simp only [validateRange, Bool.and_eq_true, decide_eq_true_eq] at h
  refine ⟨h.1, ?_⟩
  rw [UInt64.le_iff_toNat_le, UInt64.toNat_add] at hwide
  rw [UInt64.toNat_add]
  have hoffset := offset.toNat_lt
  have hlength := length.toNat_lt
  omega

/-- The conflict scan is complete: in every reachable state it finds a
conflict of a checked request exactly when some entry of the whole map meets
the interval of the request and one of the two is exclusive.  And a `TryLock`
that does not acquire leaves the entries and the waiters as they were. -/
theorem conflict_scan (hs : Reachable s) :
    (∀ offset length mode, validateRange offset length = true →
      (hasConflict offset (offset + length) mode none s.core.entries = true ↔
        ∃ p ∈ s.core.entries, p.2.Meets offset length ∧
          (mode = .kExclusive ∨ p.2.mode = .kExclusive))) ∧
    ∀ t req s', req.call = .tryLock → step s (.acquire t req) = some s' →
      ∃ status, s'.threads t = .returned req status ∧
        (status ≠ .kAcquired → s'.core.entries = s.core.entries ∧
          s'.core.waiters = s.core.waiters) := by
  constructor
  · intro offset length mode hrange
    obtain ⟨hlength, hend⟩ := validateRange_spec hrange
    rw [hasConflict_iff (reachable_inv hs).map]
    refine exists_congr fun p => and_congr_right fun hp =>
      and_congr_left fun _ => ?_
    rw [meets_iff (offset_lt_endOff hs p hp) hlength, ← hend,
      ← UInt64.lt_iff_toNat_lt]
    simp only [overlaps, Bool.and_eq_true, decide_eq_true_eq]
  · intro t req s' hcall h
    obtain ⟨-, -, -, rfl⟩ := step_acquire h
    rw [hcall, Call.noWait, waitLoopEnter]
    split
    · exact ⟨.kAcquired, by simp [settle], fun hne => absurd rfl hne⟩
    · exact ⟨.kTimeout, by simp [settle], fun _ => ⟨rfl, rfl⟩⟩

/-! ## Queries -/

/-- The scan of `IsLockedAny` is that of an exclusive request. -/
theorem anyOverlap_eq (offset endOff : UInt64) (m : EntryMap) :
    anyOverlap offset endOff m =
      hasConflict offset endOff .kExclusive none m := by
  induction m with
  | nil => rfl
  | cons p m ih =>
      obtain ⟨key, entry⟩ := p
      simp only [anyOverlap, hasConflict, ih, reduceCtorEq, if_false]
      cases overlaps entry.offset entry.endOff offset endOff <;> simp

/-- In every reachable state `IsLockedAny` answers whether some entry meets
the interval exactly when the end does not wrap, or no entry ends behind the
offset, or one that does begins before the wrapped end. -/
theorem isLockedAny_iff (hs : Reachable s) (offset length : UInt64) :
    (isLockedAny s.core offset length = true ↔
      ∃ p ∈ s.core.entries, p.2.Meets offset length) ↔
    offset.toNat + length.toNat < 2 ^ 64 ∨
      (∀ p ∈ s.core.entries, p.2.endOff ≤ offset) ∨
      ∃ p ∈ s.core.entries, offset < p.2.endOff ∧
        p.2.offset < offset + length := by
  by_cases hlength : length = 0
  · have hnone : ¬ ∃ p ∈ s.core.entries, p.2.Meets offset length := by
      rintro ⟨p, -, x, -, hx⟩
      simp [hlength] at hx
    have hfalse : isLockedAny s.core offset length = false := by
      rw [isLockedAny, if_pos hlength]
    refine iff_of_true (iff_of_false (by simp [hfalse]) hnone) (Or.inl ?_)
    rw [hlength]
    exact offset.toNat_lt
  have hmeets : ∀ p ∈ s.core.entries, p.2.Meets offset length ↔
      p.2.offset.toNat < offset.toNat + length.toNat ∧
        offset < p.2.endOff :=
    fun p hp => meets_iff (offset_lt_endOff hs p hp) hlength
  have hscan : isLockedAny s.core offset length = true ↔
      ∃ p ∈ s.core.entries, p.2.offset < offset + length ∧
        offset < p.2.endOff := by
    rw [isLockedAny, if_neg hlength, anyOverlap_eq,
      hasConflict_iff (reachable_inv hs).map]
    simp [overlaps]
  by_cases hfits : offset.toNat + length.toNat < 2 ^ 64
  · refine iff_of_true ?_ (Or.inl hfits)
    rw [hscan]
    refine exists_congr fun p => and_congr_right fun hp => ?_
    rw [hmeets p hp, UInt64.lt_iff_toNat_lt, UInt64.toNat_add,
      Nat.mod_eq_of_lt hfits]
  · -- Every offset lies in front of the real end.
    have hreal : (∃ p ∈ s.core.entries, p.2.Meets offset length) ↔
        ∃ p ∈ s.core.entries, offset < p.2.endOff := by
      refine exists_congr fun p => and_congr_right fun hp => ?_
      have hlt : p.2.offset.toNat < offset.toNat + length.toNat :=
        p.2.offset.toNat_lt.trans_le (Nat.le_of_not_lt hfits)
      rw [hmeets p hp, and_iff_right hlt]
    rw [hscan, hreal]
    constructor
    · intro hiff
      by_cases hany : ∃ p ∈ s.core.entries, offset < p.2.endOff
      · obtain ⟨p, hp, hoff, hend⟩ := hiff.mpr hany
        exact Or.inr (Or.inr ⟨p, hp, hend, hoff⟩)
      · refine Or.inr (Or.inl fun p hp => UInt64.not_lt.mp fun hlt => ?_)
        exact hany ⟨p, hp, hlt⟩
    · rintro (hlt | hnone | ⟨p, hp, hend, hoff⟩)
      · exact absurd hlt hfits
      · refine iff_of_false ?_ ?_
        · rintro ⟨p, hp, -, hend⟩
          exact absurd hend (UInt64.not_lt.mpr (hnone p hp))
        · rintro ⟨p, hp, hend⟩
          exact absurd hend (UInt64.not_lt.mpr (hnone p hp))
      · exact iff_of_true ⟨p, hp, hoff, hend⟩ ⟨p, hp, hend⟩

end Scans

theorem reachable_readersAndWriterState :
    Reachable readersAndWriterState :=
  Transition.reachable_get_run (Set.mem_singleton init) readersAndWriter_runs

/-- The two readers are in the way of a writer who wants `[14, 16)`. -/
theorem conflict_scan_readersAndWriter :
    hasConflict 14 16 .kExclusive none readersAndWriterState.core.entries =
        true ∧
      ∃ p ∈ readersAndWriterState.core.entries, p.2.Meets 14 2 := by
  have hscan := (conflict_scan reachable_readersAndWriterState).1 14 2
    .kExclusive (by decide)
  have hconflict : hasConflict 14 16 .kExclusive none
      readersAndWriterState.core.entries = true := by decide
  obtain ⟨p, hp, hmeets, -⟩ := hscan.mp hconflict
  exact ⟨hconflict, p, hp, hmeets⟩

/-- Behind offset 20 nothing is held, so a wrapped end does no harm. -/
theorem isLockedAny_iff_readersAndWriter :
    isLockedAny readersAndWriterState.core 20 0xFFFFFFFFFFFFFFFF = true ↔
      ∃ p ∈ readersAndWriterState.core.entries,
        p.2.Meets 20 0xFFFFFFFFFFFFFFFF :=
  (isLockedAny_iff reachable_readersAndWriterState 20
    0xFFFFFFFFFFFFFFFF).mpr (Or.inr (Or.inl (by decide)))

/-- `[5, 15)` is held, and `[12, 2 ^ 64)` is reported free: its end is 0. -/
theorem exists_missed :
    ¬ ∀ s, Reachable s → ∀ offset length,
      (isLockedAny s.core offset length = true ↔
        ∃ p ∈ s.core.entries, p.2.Meets offset length) := by
  intro hall
  have hquery := hall _ reachable_readersAndWriterState 12 0xFFFFFFFFFFFFFFF4
  have hmeets : ∃ p ∈ readersAndWriterState.core.entries,
      p.2.Meets 12 0xFFFFFFFFFFFFFFF4 :=
    ⟨(⟨5, 1⟩, ⟨5, 15, .kShared, 1⟩), by decide, 13,
      ⟨by decide, by decide⟩, by decide, by decide⟩
  exact absurd (hquery.mpr hmeets) (by decide)

end LockRange
end Yacul
