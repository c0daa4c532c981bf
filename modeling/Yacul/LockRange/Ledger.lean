import Yacul.LockRange.Entries
import Yacul.Support.Roster

/-!
# The ledger of the range lock

In every reachable state the entry map records exactly the ranges of the
guards that hold their lock, so every release and every upgrade finds its
entry.  Read as a multiset of holds, the map only ever takes the steps of a
reader-writer lock, which gives exclusion.
-/

namespace Yacul
namespace LockRange

open SharedExclusive

/-! ## The sections of `WaitLoop` -/

/-- Everything a section of `WaitLoop` can do to the guarded state: grant the
request when no entry conflicts with it, give up when it may, or sleep. -/
inductive WaitOutcome (c : Core) (offset endOff : UInt64) (mode : Mode)
    (mayGiveUp : Prop) : Option Status × Core → Prop
  | acquired (ws : List Waiter)
      (hfree : hasConflict offset endOff mode none c.entries = false) :
      WaitOutcome c offset endOff mode mayGiveUp
        (some .kAcquired,
          insertEntry { c with waiters := ws } offset endOff mode)
  | gaveUp (ws : List Waiter) (hmay : mayGiveUp) :
      WaitOutcome c offset endOff mode mayGiveUp
        (some .kTimeout, { c with waiters := ws })
  | asleep (ws : List Waiter) :
      WaitOutcome c offset endOff mode mayGiveUp
        (none, { c with waiters := ws })

theorem not_hasConflict_of_canGrant {c : Core} {offset endOff : UInt64}
    {mode : Mode} (h : canGrant c offset endOff mode none = true) :
    hasConflict offset endOff mode none c.entries = false := by
  unfold canGrant at h
  split at h
  · cases h
  · simpa using h

theorem exclusiveWaiterExists_of_sublist {ws ws' : List Waiter}
    (hsub : ws'.Sublist ws) {offset endOff : UInt64}
    (h : exclusiveWaiterExists ws' offset endOff = true) :
    exclusiveWaiterExists ws offset endOff = true := by
  obtain ⟨w, hw, hov⟩ := List.any_eq_true.mp h
  exact List.any_eq_true.mpr ⟨w, hsub.mem hw, hov⟩

/-- A waiter that leaves does not make a grantable request ungrantable. -/
theorem canGrant_of_sublist {c : Core} {ws : List Waiter}
    (hsub : ws.Sublist c.waiters) {offset endOff : UInt64} {mode : Mode}
    (h : canGrant c offset endOff mode none = true) :
    canGrant { c with waiters := ws } offset endOff mode none = true := by
  have hconf := not_hasConflict_of_canGrant h
  unfold canGrant at h ⊢
  split at h
  · cases h
  · next hno =>
    rw [if_neg]
    · simpa using hconf
    · intro hyes
      simp only [Bool.and_eq_true] at hyes hno
      exact hno ⟨hyes.1, exclusiveWaiterExists_of_sublist hsub hyes.2⟩

theorem waitLoopLeave_of_canGrant {c : Core} (t : ℕ) {offset endOff : UInt64}
    {mode : Mode} (h : canGrant c offset endOff mode none = true) :
    waitLoopLeave c t offset endOff mode =
      (.kAcquired, insertEntry
        { c with waiters := c.waiters.eraseP fun w => w.thread = t }
        offset endOff mode) := by
  have hleft := canGrant_of_sublist
    (List.eraseP_sublist (p := fun w => decide (w.thread = t))) h
  simp [waitLoopLeave, hleft]

theorem waitLoopTest_outcome (c : Core) (t : ℕ) (offset endOff : UInt64)
    (mode : Mode) (mayGiveUp : Prop) :
    WaitOutcome c offset endOff mode mayGiveUp
      (waitLoopTest c t offset endOff mode) := by
  unfold waitLoopTest
  split
  · next h =>
    rw [waitLoopLeave_of_canGrant t h]
    exact .acquired _ (not_hasConflict_of_canGrant h)
  · exact .asleep c.waiters

theorem waitLoopEnter_outcome (c : Core) (t : ℕ) (offset endOff : UInt64)
    (mode : Mode) (noWait : Bool) :
    WaitOutcome c offset endOff mode (noWait = true)
      (waitLoopEnter c t offset endOff mode noWait) := by
  unfold waitLoopEnter
  split
  · next h => exact .acquired c.waiters (not_hasConflict_of_canGrant h)
  · split
    · next hno => exact .gaveUp c.waiters hno
    · -- The waiter just registered does not change the entries.
      have htest := waitLoopTest_outcome
        { c with waiters := c.waiters ++ [⟨t, offset, endOff, mode⟩] }
        t offset endOff mode (noWait = true)
      generalize waitLoopTest _ t offset endOff mode = out at htest ⊢
      cases htest with
      | acquired ws hfree => exact .acquired ws hfree
      | gaveUp ws hmay => exact .gaveUp ws hmay
      | asleep ws => exact .asleep ws

theorem waitLoopResume_outcome (c : Core) (t : ℕ) (offset endOff : UInt64)
    (mode : Mode) (timedOut : Bool) :
    WaitOutcome c offset endOff mode (timedOut = true)
      (waitLoopResume c t offset endOff mode timedOut) := by
  unfold waitLoopResume
  split
  · next h =>
    simp only [Bool.and_eq_true] at h
    simp only [waitLoopLeave]
    split
    · next hgrant =>
      have hfree := not_hasConflict_of_canGrant hgrant
      exact .acquired _ hfree
    · exact .gaveUp _ h.1
  · exact waitLoopTest_outcome c t offset endOff mode _

/-! ## Guards as holds -/

/-- The guard holds its range: it is valid and not in the middle of an
upgrade. -/
def Guard.holding (g : Guard) : Bool :=
  g.owner && !g.upgrading

/-- The hold a guard stands for. -/
def guardHold (g : Guard) : Hold Range :=
  hold g.offset (g.offset + g.length) g.mode

/-- The hold a guard object contributes. -/
def Guard.holds (g : Guard) : Multiset (Hold Range) :=
  if g.holding then {guardHold g} else 0

/-- The holds of all guard objects. -/
def guardHolds (guards : List Guard) : Multiset (Hold Range) :=
  Roster.tally Guard.holds guards

theorem Guard.holds_of_holding {g : Guard} (h : g.holding = true) :
    g.holds = {guardHold g} := by
  simp [Guard.holds, h]

theorem Guard.holds_of_not_holding {g : Guard} (h : g.holding = false) :
    g.holds = 0 := by
  simp [Guard.holds, h]

theorem guardHolds_set_of_release {guards : List Guard} {i : ℕ}
    {g g' : Guard} (hg : guards[i]? = some g) (hold : g.holding = true)
    (hnew : g'.holding = false) :
    guardHolds guards = guardHold g ::ₘ guardHolds (guards.set i g') := by
  have hset := Roster.tally_set (f := Guard.holds) hg g'
  rw [Guard.holds_of_holding hold, Guard.holds_of_not_holding hnew,
    zero_add, Multiset.singleton_add] at hset
  exact hset.symm

/-! ## The invariant -/

/-- A pending request has a range that does not wrap; an upgrade uses a valid
guard object of the same range. -/
structure RequestOk (guards : List Guard) (req : Request) : Prop where
  wide : req.offset ≤ req.endOff
  upgrade : ∀ g d, req.call = .upgradeUntil g d →
    req.mode = .kExclusive ∧ ∃ guard, guards[g]? = some guard ∧
      guard.owner = true ∧ guard.upgrading = true ∧
      guard.offset = req.offset ∧ guard.length = req.length

/-- The status a finished call may have: without a deadline it is
`kAcquired`, or `kInvalid` for the upgrade of an exclusive guard. -/
def StatusOk (req : Request) (status : Status) : Prop :=
  req.call.deadline = kForever → status = .kAcquired ∨
    (status = .kInvalid ∧ ∃ g d, req.call = .upgradeUntil g d)

/-- The invariant of the calls in progress. -/
structure CallsOk (guards : List Guard) (threads : ℕ → Frame) : Prop where
  asleep : ∀ t req n, threads t = .blocked req n → RequestOk guards req
  apart : ∀ t t' req req' n n' g d d', threads t = .blocked req n →
    threads t' = .blocked req' n' → req.call = .upgradeUntil g d →
    req'.call = .upgradeUntil g d' → t = t'
  status : ∀ t req st, threads t = .returned req st → StatusOk req st

/-- The invariant of the range lock. -/
structure Inv (s : State) : Prop where
  map : MapOk s.core.nextId s.core.entries
  ledger : held s.core.entries = guardHolds s.guards
  wide : ∀ g ∈ s.guards, g.owner = true → g.offset ≤ g.offset + g.length
  calls : CallsOk s.guards s.threads

theorem inv_init : Inv init where
  map := by constructor <;> simp [init]
  ledger := rfl
  wide := by simp [init]
  calls := by constructor <;> simp [init]

/-! ## Effects of the pieces of a step on the calls -/

theorem notifyAll_eq_blocked {threads : ℕ → Frame} {t : ℕ} {req : Request}
    {n : Bool} (h : notifyAll threads t = .blocked req n) :
    ∃ n', threads t = .blocked req n' := by
  unfold notifyAll at h
  split at h
  · next req' n' heq =>
    obtain ⟨rfl, -⟩ := Frame.blocked.inj h
    exact ⟨n', heq⟩
  · exact ⟨n, h⟩

theorem notifyAll_eq_returned {threads : ℕ → Frame} {t : ℕ} {req : Request}
    {st : Status} (h : notifyAll threads t = .returned req st) :
    threads t = .returned req st := by
  unfold notifyAll at h
  split at h
  · cases h
  · exact h

theorem CallsOk.notifyAll {guards : List Guard} {threads : ℕ → Frame}
    (hc : CallsOk guards threads) : CallsOk guards (notifyAll threads) where
  asleep t req n ht := by
    obtain ⟨n', ht'⟩ := notifyAll_eq_blocked ht
    exact hc.asleep t req n' ht'
  apart t t' req req' n n' g d d' ht ht' := by
    obtain ⟨k, hk⟩ := notifyAll_eq_blocked ht
    obtain ⟨k', hk'⟩ := notifyAll_eq_blocked ht'
    exact hc.apart t t' req req' k k' g d d' hk hk'
  status t req st ht := hc.status t req st (notifyAll_eq_returned ht)

/-- Guard lists that agree on the objects in the middle of an upgrade serve
the same pending requests. -/
theorem CallsOk.of_guards {guards guards' : List Guard}
    {threads : ℕ → Frame} (hc : CallsOk guards threads)
    (hg : ∀ (i : ℕ) g, guards[i]? = some g → g.upgrading = true →
      guards'[i]? = some g) :
    CallsOk guards' threads where
  asleep t req n ht := by
    have hreq := hc.asleep t req n ht
    refine ⟨hreq.wide, fun g d hcall => ?_⟩
    obtain ⟨hmode, guard, hguard, hown, hup, hrange⟩ := hreq.upgrade g d hcall
    exact ⟨hmode, guard, hg g guard hguard hup, hown, hup, hrange⟩
  apart := hc.apart
  status := hc.status

theorem CallsOk.set_guard {guards : List Guard} {threads : ℕ → Frame}
    (hc : CallsOk guards threads) {i : ℕ} {g : Guard}
    (hg : guards[i]? = some g) (hup : g.upgrading = false) (g' : Guard) :
    CallsOk (guards.set i g') threads := by
  apply hc.of_guards
  intro j k hk hkup
  have hij : i ≠ j := by
    rintro rfl
    rw [hg] at hk
    obtain rfl := Option.some.inj hk
    simp [hup] at hkup
  rw [List.getElem?_set_ne hij, hk]

theorem CallsOk.append_guard {guards : List Guard} {threads : ℕ → Frame}
    (hc : CallsOk guards threads) (g : Guard) :
    CallsOk (guards ++ [g]) threads := by
  apply hc.of_guards
  intro i k hk _
  rw [List.getElem?_append_left (List.getElem?_eq_some_iff.mp hk).1, hk]

theorem CallsOk.returned {guards : List Guard} {threads : ℕ → Frame}
    (hc : CallsOk guards threads) {t : ℕ} {req : Request} {st : Status}
    (hst : StatusOk req st) :
    CallsOk guards (Function.update threads t (.returned req st)) where
  asleep t' req' n ht' := by
    by_cases heq : t' = t
    · simp [heq] at ht'
    · exact hc.asleep t' req' n (by simpa [heq] using ht')
  apart t₁ t₂ r₁ r₂ n₁ n₂ g d d' h₁ h₂ := by
    by_cases heq₁ : t₁ = t
    · simp [heq₁] at h₁
    · by_cases heq₂ : t₂ = t
      · simp [heq₂] at h₂
      · exact hc.apart t₁ t₂ r₁ r₂ n₁ n₂ g d d' (by simpa [heq₁] using h₁)
          (by simpa [heq₂] using h₂)
  status t' req' st' ht' := by
    by_cases heq : t' = t
    · rw [heq, Function.update_self, Frame.returned.injEq] at ht'
      obtain ⟨rfl, rfl⟩ := ht'
      exact hst
    · exact hc.status t' req' st' (by simpa [heq] using ht')

/-- No other thread is upgrading the guard object that `req` upgrades. -/
def Alone (threads : ℕ → Frame) (t : ℕ) (req : Request) : Prop :=
  ∀ t' req' n g d d', t' ≠ t → threads t' = .blocked req' n →
    req.call = .upgradeUntil g d → req'.call ≠ .upgradeUntil g d'

theorem CallsOk.blocked {guards : List Guard} {threads : ℕ → Frame}
    (hc : CallsOk guards threads) {t : ℕ} {req : Request}
    (hreq : RequestOk guards req) (halone : Alone threads t req) :
    CallsOk guards (Function.update threads t (.blocked req false)) where
  asleep t' req' n ht' := by
    by_cases heq : t' = t
    · rw [heq, Function.update_self, Frame.blocked.injEq] at ht'
      exact ht'.1 ▸ hreq
    · exact hc.asleep t' req' n (by simpa [heq] using ht')
  apart t₁ t₂ r₁ r₂ n₁ n₂ g d d' h₁ h₂ hr₁ hr₂ := by
    by_cases heq₁ : t₁ = t
    · by_cases heq₂ : t₂ = t
      · exact heq₁.trans heq₂.symm
      · rw [heq₁, Function.update_self, Frame.blocked.injEq] at h₁
        obtain ⟨rfl, -⟩ := h₁
        exact absurd hr₂ (halone t₂ r₂ n₂ g d d' heq₂
          (by simpa [heq₂] using h₂) hr₁)
    · by_cases heq₂ : t₂ = t
      · rw [heq₂, Function.update_self, Frame.blocked.injEq] at h₂
        obtain ⟨rfl, -⟩ := h₂
        exact absurd hr₁ (halone t₁ r₁ n₁ g d' d heq₁
          (by simpa [heq₁] using h₁) hr₂)
      · exact hc.apart t₁ t₂ r₁ r₂ n₁ n₂ g d d' (by simpa [heq₁] using h₁)
          (by simpa [heq₂] using h₂) hr₁ hr₂
  status t' req' st' ht' := by
    by_cases heq : t' = t
    · simp [heq] at ht'
    · exact hc.status t' req' st' (by simpa [heq] using ht')

/-! ## Concluding a call -/

section Conclude

variable {guards : List Guard} {req : Request} {status : Status}

/-- `concludeCall` either rewrites the object being upgraded or adds one. -/
theorem concludeCall_cases (hreq : RequestOk guards req) (status : Status) :
    (∃ g d guard, req.call = .upgradeUntil g d ∧ guards[g]? = some guard ∧
      guard.owner = true ∧ guard.upgrading = true ∧
      guard.offset = req.offset ∧ guard.length = req.length ∧
      req.mode = .kExclusive ∧
      concludeCall guards req status = guards.set g (guard.upgraded status)) ∨
    ((∀ g d, req.call ≠ .upgradeUntil g d) ∧
      concludeCall guards req status = guards ++ [req.guard status]) := by
  cases hcall : req.call with
  | upgradeUntil g d =>
      obtain ⟨hmode, guard, hguard, hown, hup, hoff, hlen⟩ :=
        hreq.upgrade g d hcall
      refine Or.inl ⟨g, d, guard, rfl, hguard, hown, hup, hoff, hlen, hmode, ?_⟩
      simp [concludeCall, hcall, List.modify_eq_set_getElem?, hguard]
  | lock => exact Or.inr ⟨by simp, by simp [concludeCall, hcall]⟩
  | tryLock => exact Or.inr ⟨by simp, by simp [concludeCall, hcall]⟩
  | tryLockUntil d => exact Or.inr ⟨by simp, by simp [concludeCall, hcall]⟩

theorem guardHolds_concludeCall_acquired (hreq : RequestOk guards req) :
    guardHolds (concludeCall guards req .kAcquired) =
      hold req.offset req.endOff req.mode ::ₘ guardHolds guards := by
  rcases concludeCall_cases hreq .kAcquired with
    ⟨g, d, guard, -, hguard, hown, hup, hoff, hlen, hmode, heq⟩ | ⟨-, heq⟩
  · have hset := Roster.tally_set (f := Guard.holds) hguard
      (guard.upgraded .kAcquired)
    have hold : guard.holding = false := by simp [Guard.holding, hup]
    have hnew : (guard.upgraded .kAcquired).holding = true := by
      simp [Guard.holding, Guard.upgraded, hown]
    rw [Guard.holds_of_not_holding hold, Guard.holds_of_holding hnew,
      zero_add, Multiset.singleton_add] at hset
    rw [heq, guardHolds, hset, guardHolds]
    simp [guardHold, Guard.upgraded, hoff, hlen, hmode, Request.endOff]
  · have hnew : (req.guard .kAcquired).holding = true := by
      simp [Guard.holding, Request.guard]
    rw [heq, guardHolds, Roster.tally_append, Roster.tally_cons,
      Guard.holds_of_holding hnew, Roster.tally_nil, add_zero, add_comm,
      Multiset.singleton_add, guardHolds]
    simp [guardHold, Request.guard, Request.endOff]

theorem guardHolds_concludeCall_other (hreq : RequestOk guards req)
    (hst : status ≠ .kAcquired) :
    guardHolds (concludeCall guards req status) = guardHolds guards := by
  rcases concludeCall_cases hreq status with
    ⟨g, d, guard, -, hguard, -, hup, -, -, -, heq⟩ | ⟨-, heq⟩
  · rw [heq]
    exact Roster.tally_set_of_eq hguard
      (by simp [Guard.holds, Guard.holding, Guard.upgraded, hst, hup])
  · rw [heq]
    simp [guardHolds, Guard.holds, Guard.holding, Request.guard, hst]

theorem wide_concludeCall (hreq : RequestOk guards req)
    (hwide : ∀ g ∈ guards, g.owner = true → g.offset ≤ g.offset + g.length) :
    ∀ g ∈ concludeCall guards req status, g.owner = true →
      g.offset ≤ g.offset + g.length := by
  intro k hk hown
  rcases concludeCall_cases hreq status with
    ⟨g, d, guard, -, hguard, hgown, -, -, -, -, heq⟩ | ⟨-, heq⟩
  · rw [heq] at hk
    rcases List.mem_or_eq_of_mem_set hk with hk | rfl
    · exact hwide k hk hown
    · have hrange := hwide guard (List.mem_of_getElem? hguard) hgown
      unfold Guard.upgraded
      split <;> exact hrange
  · rw [heq, List.mem_append, List.mem_singleton] at hk
    rcases hk with hk | rfl
    · exact hwide k hk hown
    · unfold Request.guard at hown ⊢
      split at hown
      · next hst =>
        rw [if_pos hst]
        exact hreq.wide
      · cases hown

/-- Concluding the call of `t` leaves the other pending requests in order. -/
theorem CallsOk.conclude {threads : ℕ → Frame} {t : ℕ}
    (hc : CallsOk guards (Function.update threads t (.returned req status)))
    (hreq : RequestOk guards req) (halone : Alone threads t req) :
    CallsOk (concludeCall guards req status)
      (Function.update threads t (.returned req status)) := by
  rcases concludeCall_cases hreq status with
    ⟨g, d, guard, hcall, hguard, -, -, -, -, -, heq⟩ | ⟨-, heq⟩
  · refine ⟨fun t' req' n ht' => ?_, hc.apart, hc.status⟩
    have hreq' := hc.asleep t' req' n ht'
    refine ⟨hreq'.wide, fun g' d' hcall' => ?_⟩
    have hne : t' ≠ t := by
      rintro rfl
      simp at ht'
    have hgg' : g ≠ g' := by
      rintro rfl
      exact halone t' req' n g d d' hne (by simpa [hne] using ht') hcall hcall'
    rw [heq, List.getElem?_set_ne hgg']
    exact hreq'.upgrade g' d' hcall'
  · rw [heq]
    exact hc.append_guard _

end Conclude

end LockRange
end Yacul
