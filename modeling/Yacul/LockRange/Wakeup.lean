import Yacul.LockRange.Exclusion

/-!
# Wake-ups of the range lock

A sleeping request may be grantable only if it has been notified since its
last failed test.  Every operation that shrinks the entry map notifies, but an
exclusive waiter that gives up on its deadline shrinks the waiter list without
notifying.  A run is free of lost wake-ups exactly when no such departure
uncovers a sleeping shared request.
-/

namespace Yacul
namespace LockRange

/-- No thread sleeps un-notified on a request that could be granted. -/
def NoLostWakeup (s : State) : Prop :=
  ∀ t req, s.threads t = .blocked req false →
    canGrant s.core req.offset req.endOff req.mode none = false

/-- The waiter list without the descriptors of thread `t`. -/
def waitersWithout (ws : List Waiter) (t : ℕ) : List Waiter :=
  ws.eraseP fun w => w.thread = t

/-- When an exclusive request gives up on its deadline, every un-notified
shared request it overlaps still has a conflicting entry or another exclusive
waiter in front of it. -/
def DepartureUncoversNobody (s : State) (a : Action) : Prop :=
  ∀ t req n, a = .timeout t → s.threads t = .blocked req n →
    req.mode = .kExclusive →
    canGrant s.core req.offset req.endOff req.mode none = false →
    ∀ t' req', t' ≠ t → s.threads t' = .blocked req' false →
      req'.mode = .kShared →
      overlaps req.offset req.endOff req'.offset req'.endOff = true →
      hasConflict req'.offset req'.endOff .kShared none s.core.entries = true ∨
        exclusiveWaiterExists (waitersWithout s.core.waiters t)
          req'.offset req'.endOff = true

/-! ## The waiter list mirrors the sleeping threads -/

/-- The descriptor that thread `t` registers for `req`. -/
def Request.waiter (req : Request) (t : ℕ) : Waiter :=
  ⟨t, req.offset, req.endOff, req.mode⟩

/-- Each sleeping thread has exactly one descriptor in the list. -/
structure WaitersOk (ws : List Waiter) (threads : ℕ → Frame) : Prop where
  registered : ∀ t req n, threads t = .blocked req n → req.waiter t ∈ ws
  asleep : ∀ w ∈ ws, ∃ req n, threads w.thread = .blocked req n ∧
    w = req.waiter w.thread
  distinct : ws.Pairwise fun w w' => w.thread ≠ w'.thread

theorem waitersOk_init : WaitersOk init.core.waiters init.threads := by
  constructor <;> simp [init]

section WaiterList

variable {ws : List Waiter} {threads : ℕ → Frame}

theorem mem_waitersWithout (hws : WaitersOk ws threads) {t : ℕ} {w : Waiter} :
    w ∈ waitersWithout ws t ↔ w ∈ ws ∧ w.thread ≠ t := by
  have hdistinct := hws.distinct
  clear hws
  induction ws with
  | nil => simp [waitersWithout]
  | cons v ws ih =>
      have hrel : ∀ x ∈ ws, v.thread ≠ x.thread := fun x hx =>
        List.rel_of_pairwise_cons hdistinct hx
      by_cases hv : v.thread = t
      · simp only [waitersWithout, List.eraseP_cons, hv, decide_true,
          cond_true, List.mem_cons]
        constructor
        · intro hw
          exact ⟨Or.inr hw, fun heq => hrel w hw (hv.trans heq.symm)⟩
        · rintro ⟨rfl | hw, hne⟩
          · exact absurd hv hne
          · exact hw
      · have hstep : waitersWithout (v :: ws) t = v :: waitersWithout ws t := by
          simp [waitersWithout, hv]
        have htail : w ∈ waitersWithout ws t ↔ w ∈ ws ∧ w.thread ≠ t :=
          ih hdistinct.tail
        rw [hstep, List.mem_cons, List.mem_cons, htail]
        constructor
        · rintro (rfl | ⟨hw, hne⟩)
          · exact ⟨Or.inl rfl, hv⟩
          · exact ⟨Or.inr hw, hne⟩
        · rintro ⟨rfl | hw, hne⟩
          · exact Or.inl rfl
          · exact Or.inr ⟨hw, hne⟩

theorem WaitersOk.notifyAll (hws : WaitersOk ws threads) :
    WaitersOk ws (notifyAll threads) where
  registered t req n ht := by
    obtain ⟨n', hn'⟩ := notifyAll_eq_blocked ht
    exact hws.registered t req n' hn'
  asleep w hw := by
    obtain ⟨req, n, hn, heq⟩ := hws.asleep w hw
    exact ⟨req, true, by simp [LockRange.notifyAll, hn], heq⟩
  distinct := hws.distinct

/-- A thread that is outside and returns from a call stays outside. -/
theorem WaitersOk.returned (hws : WaitersOk ws threads) {t : ℕ}
    (ht : (threads t).canCall = true) (req : Request) (st : Status) :
    WaitersOk ws (Function.update threads t (.returned req st)) where
  registered t' req' n ht' := by
    by_cases heq : t' = t
    · simp [heq] at ht'
    · exact hws.registered t' req' n (by simpa [heq] using ht')
  asleep w hw := by
    obtain ⟨req', n, hn, hw'⟩ := hws.asleep w hw
    have hne : w.thread ≠ t := by
      intro heq
      rw [heq] at hn
      simp [hn, Frame.canCall] at ht
    exact ⟨req', n, by simpa [hne] using hn, hw'⟩
  distinct := hws.distinct

/-- A sleeping thread unregisters and returns. -/
theorem WaitersOk.leave (hws : WaitersOk ws threads) (t : ℕ) (req : Request)
    (st : Status) :
    WaitersOk (waitersWithout ws t)
      (Function.update threads t (.returned req st)) where
  registered t' req' n ht' := by
    by_cases heq : t' = t
    · simp [heq] at ht'
    · exact (mem_waitersWithout hws).mpr
        ⟨hws.registered t' req' n (by simpa [heq] using ht'), heq⟩
  asleep w hw := by
    obtain ⟨hmem, hne⟩ := (mem_waitersWithout hws).mp hw
    obtain ⟨req', n, hn, hw'⟩ := hws.asleep w hmem
    exact ⟨req', n, by simpa [hne] using hn, hw'⟩
  distinct := hws.distinct.sublist List.eraseP_sublist

/-- A thread that is outside registers and falls asleep. -/
theorem WaitersOk.enter (hws : WaitersOk ws threads) {t : ℕ}
    (ht : (threads t).canCall = true) (req : Request) :
    WaitersOk (ws ++ [req.waiter t])
      (Function.update threads t (.blocked req false)) where
  registered t' req' n ht' := by
    by_cases heq : t' = t
    · subst heq
      rw [Function.update_self, Frame.blocked.injEq] at ht'
      simp [ht'.1]
    · exact List.mem_append_left _
        (hws.registered t' req' n (by simpa [heq] using ht'))
  asleep w hw := by
    rcases List.mem_append.mp hw with hw | hw
    · obtain ⟨req', n, hn, hw'⟩ := hws.asleep w hw
      have hne : w.thread ≠ t := by
        intro heq
        rw [heq] at hn
        simp [hn, Frame.canCall] at ht
      exact ⟨req', n, by simpa [hne] using hn, hw'⟩
    · obtain rfl := List.mem_singleton.mp hw
      exact ⟨req, false, by simp [Request.waiter], rfl⟩
  distinct := by
    rw [List.pairwise_append]
    refine ⟨hws.distinct, List.pairwise_singleton _ _, ?_⟩
    intro w hw v hv heq
    obtain rfl := List.mem_singleton.mp hv
    obtain ⟨req', n, hn, -⟩ := hws.asleep w hw
    rw [heq] at hn
    simp only [Request.waiter] at hn
    simp [hn, Frame.canCall] at ht

/-- A thread that goes back to sleep keeps its descriptor. -/
theorem WaitersOk.sleep (hws : WaitersOk ws threads) {t : ℕ} {req : Request}
    {n : Bool} (ht : threads t = .blocked req n) :
    WaitersOk ws (Function.update threads t (.blocked req false)) where
  registered t' req' n' ht' := by
    by_cases heq : t' = t
    · subst heq
      rw [Function.update_self, Frame.blocked.injEq] at ht'
      exact ht'.1 ▸ hws.registered t' req n ht
    · exact hws.registered t' req' n' (by simpa [heq] using ht')
  asleep w hw := by
    obtain ⟨req', n', hn', hw'⟩ := hws.asleep w hw
    by_cases heq : w.thread = t
    · rw [heq, ht, Frame.blocked.injEq] at hn'
      exact ⟨req, false, by simp [heq], by rw [hw', hn'.1]; rfl⟩
    · exact ⟨req', n', by simpa [heq] using hn', hw'⟩
  distinct := hws.distinct

end WaiterList

/-! ## How the grant test changes -/

theorem canGrant_eq_false_iff {c : Core} {offset endOff : UInt64}
    {mode : Mode} :
    canGrant c offset endOff mode none = false ↔
      (mode = .kShared ∧
        exclusiveWaiterExists c.waiters offset endOff = true) ∨
      hasConflict offset endOff mode none c.entries = true := by
  unfold canGrant
  by_cases h : mode = .kShared ∧
      exclusiveWaiterExists c.waiters offset endOff = true
  · simp [h]
  · rw [if_neg (by simpa using h)]
    simp [h]

section Grant

variable {c : Core} {ws ws' : List Waiter}

/-- An inserted entry removes no conflict. -/
theorem hasConflict_insertEntry (hm : MapOk c.nextId c.entries)
    {offset endOff : UInt64} {mode : Mode} {o e : UInt64} {m : Mode}
    (h : hasConflict offset endOff mode none c.entries = true ∨
      (overlaps o e offset endOff = true ∧ m = .kExclusive)) :
    hasConflict offset endOff mode none (insertEntry c o e m).entries =
      true := by
  rw [hasConflict_iff (insertEntry_mapOk hm o e m)]
  have hperm := insertEntry_perm hm o e m
  rcases h with h | ⟨hov, hex⟩
  · obtain ⟨p, hp, hpov, hpex⟩ := (hasConflict_iff hm offset endOff mode).mp h
    exact ⟨p, hperm.mem_iff.mpr (List.mem_cons_of_mem _ hp), hpov, hpex⟩
  · exact ⟨_, hperm.mem_iff.mpr List.mem_cons_self, hov, Or.inr hex⟩

/-- A waiter list that shrinks only by the descriptor of `t` keeps every
exclusive waiter but that one. -/
theorem exclusiveWaiterExists_without {threads : ℕ → Frame}
    (hws : WaitersOk ws threads) {t : ℕ} {req : Request} {n : Bool}
    (ht : threads t = .blocked req n) {offset endOff : UInt64}
    (h : exclusiveWaiterExists ws offset endOff = true) :
    exclusiveWaiterExists (waitersWithout ws t) offset endOff = true ∨
      (req.mode = .kExclusive ∧
        overlaps req.offset req.endOff offset endOff = true) := by
  obtain ⟨w, hw, hwx⟩ := List.any_eq_true.mp h
  by_cases heq : w.thread = t
  · obtain ⟨req', n', hn', hw'⟩ := hws.asleep w hw
    rw [heq, ht, Frame.blocked.injEq] at hn'
    simp only [Bool.and_eq_true, decide_eq_true_eq] at hwx
    rw [hw', ← hn'.1] at hwx
    exact Or.inr hwx
  · exact Or.inl (List.any_eq_true.mpr
      ⟨w, (mem_waitersWithout hws).mpr ⟨hw, heq⟩, hwx⟩)

/-- Registering a waiter does not make an ungrantable request grantable. -/
theorem not_canGrant_append {offset endOff : UInt64} {mode : Mode}
    (h : canGrant c offset endOff mode none = false) (w : Waiter) :
    canGrant { c with waiters := c.waiters ++ [w] } offset endOff mode none =
      false := by
  rw [← Bool.not_eq_true] at h ⊢
  intro hyes
  exact h (canGrant_of_sublist (c := { c with waiters := c.waiters ++ [w] })
    (List.sublist_append_left _ _) hyes)

/-- Granting a request keeps every other sleeping request ungrantable. -/
theorem not_canGrant_insertEntry (hm : MapOk c.nextId c.entries)
    {offset endOff : UInt64} {mode : Mode}
    (h : canGrant c offset endOff mode none = false) (o e : UInt64)
    (m : Mode) :
    canGrant (insertEntry c o e m) offset endOff mode none = false := by
  rw [canGrant_eq_false_iff] at h ⊢
  rcases h with h | h
  · exact Or.inl h
  · exact Or.inr (hasConflict_insertEntry hm (Or.inl h))

/-- The waiter `t` takes the place of its descriptor by its entry, so what the
descriptor held back stays held back. -/
theorem not_canGrant_promote {threads : ℕ → Frame}
    (hm : MapOk c.nextId c.entries) (hws : WaitersOk c.waiters threads)
    {t : ℕ} {req : Request} {n : Bool} (ht : threads t = .blocked req n)
    {offset endOff : UInt64} {mode : Mode}
    (h : canGrant c offset endOff mode none = false) :
    canGrant
      (insertEntry { c with waiters := waitersWithout c.waiters t }
        req.offset req.endOff req.mode) offset endOff mode none = false := by
  have hm' : MapOk c.nextId
      ({ c with waiters := waitersWithout c.waiters t } : Core).entries := hm
  rw [canGrant_eq_false_iff] at h ⊢
  rcases h with ⟨hshared, hex⟩ | hconf
  · rcases exclusiveWaiterExists_without hws ht hex with hrest | ⟨hmode, hov⟩
    · exact Or.inl ⟨hshared, hrest⟩
    · exact Or.inr (hasConflict_insertEntry hm' (Or.inr ⟨hov, hmode⟩))
  · exact Or.inr (hasConflict_insertEntry hm' (Or.inl hconf))

/-- The descriptor of `t` does not stand in the way of `t` itself. -/
theorem canGrant_without_self {threads : ℕ → Frame}
    (hws : WaitersOk c.waiters threads) {t : ℕ} {req : Request} {n : Bool}
    (ht : threads t = .blocked req n)
    (h : canGrant c req.offset req.endOff req.mode none = false) :
    canGrant { c with waiters := waitersWithout c.waiters t }
      req.offset req.endOff req.mode none = false := by
  rw [canGrant_eq_false_iff] at h ⊢
  rcases h with ⟨hshared, hex⟩ | hconf
  · rcases exclusiveWaiterExists_without hws ht hex with hrest | ⟨hmode, -⟩
    · exact Or.inl ⟨hshared, hrest⟩
    · rw [hshared] at hmode
      cases hmode
  · exact Or.inr hconf

end Grant

/-! ## The sections of `WaitLoop`, exactly -/

theorem waitLoopEnter_eq (c : Core) (t : ℕ) (req : Request) (noWait : Bool) :
    waitLoopEnter c t req.offset req.endOff req.mode noWait =
      if canGrant c req.offset req.endOff req.mode none then
        (some .kAcquired, insertEntry c req.offset req.endOff req.mode)
      else if noWait then (some .kTimeout, c)
      else (none, { c with waiters := c.waiters ++ [req.waiter t] }) := by
  unfold waitLoopEnter
  split
  · rfl
  · next hno =>
    split
    · rfl
    · have hstill := not_canGrant_append (by simpa using hno) (req.waiter t)
      simp only [Request.waiter] at hstill ⊢
      simp [waitLoopTest, hstill]

theorem waitLoopResume_eq {c : Core} {threads : ℕ → Frame}
    (hws : WaitersOk c.waiters threads) {t : ℕ} {req : Request} {n : Bool}
    (ht : threads t = .blocked req n) (timedOut : Bool) :
    waitLoopResume c t req.offset req.endOff req.mode timedOut =
      if canGrant c req.offset req.endOff req.mode none then
        (some .kAcquired,
          insertEntry { c with waiters := waitersWithout c.waiters t }
            req.offset req.endOff req.mode)
      else if timedOut then
        (some .kTimeout, { c with waiters := waitersWithout c.waiters t })
      else (none, c) := by
  cases hgrant : canGrant c req.offset req.endOff req.mode none with
  | true =>
      simp [waitLoopResume, hgrant, waitLoopTest,
        waitLoopLeave_of_canGrant t hgrant, waitersWithout]
  | false =>
      have hself := canGrant_without_self hws ht hgrant
      cases timedOut with
      | true =>
          simp only [waitersWithout] at hself
          simp [waitLoopResume, hgrant, waitLoopLeave, hself, waitersWithout]
      | false => simp [waitLoopResume, hgrant, waitLoopTest]

/-! ## One step -/

/-- The invariant under which departures are the only source of lost
wake-ups. -/
structure WakeInv (s : State) : Prop where
  inv : Inv s
  waiters : WaitersOk s.core.waiters s.threads

/-- After `notify_all` nobody sleeps un-notified. -/
theorem noLostWakeup_notifyAll {s : State} {threads : ℕ → Frame}
    (h : s.threads = notifyAll threads) : NoLostWakeup s := by
  intro t req ht
  rw [h] at ht
  unfold notifyAll at ht
  split at ht
  · simp at ht
  · next hno => exact absurd ht (hno req false)

/-- A section that ends in a return keeps the property when it keeps every
other sleeping request ungrantable. -/
theorem noLostWakeup_returned {core : Core} {guards : List Guard}
    {threads : ℕ → Frame} {t : ℕ} {req : Request} {status : Status}
    (h : ∀ t' req', t' ≠ t → threads t' = .blocked req' false →
      canGrant core req'.offset req'.endOff req'.mode none = false) :
    NoLostWakeup
      { core := core
        guards := guards
        threads := Function.update threads t (.returned req status) } := by
  intro t' req' ht'
  by_cases heq : t' = t
  · simp [heq] at ht'
  · exact h t' req' heq (by simpa [heq] using ht')

theorem noLostWakeup_blocked {core : Core} {guards : List Guard}
    {threads : ℕ → Frame} {t : ℕ} {req : Request}
    (hself : canGrant core req.offset req.endOff req.mode none = false)
    (h : ∀ t' req', t' ≠ t → threads t' = .blocked req' false →
      canGrant core req'.offset req'.endOff req'.mode none = false) :
    NoLostWakeup
      { core := core
        guards := guards
        threads := Function.update threads t (.blocked req false) } := by
  intro t' req' ht'
  by_cases heq : t' = t
  · simp only [heq, Function.update_self, Frame.blocked.injEq] at ht'
    exact ht'.1 ▸ hself
  · exact h t' req' heq (by simpa [heq] using ht')

/-! ### The waiter list -/

theorem enter_waitersOk {s : State}
    (hws : WaitersOk s.core.waiters s.threads) {t : ℕ}
    (ht : (s.threads t).canCall = true) (req : Request) (noWait : Bool) :
    WaitersOk (settle s t req (waitLoopEnter s.core t req.offset req.endOff
        req.mode noWait)).core.waiters
      (settle s t req (waitLoopEnter s.core t req.offset req.endOff
        req.mode noWait)).threads := by
  rw [waitLoopEnter_eq]
  split
  · exact hws.returned ht req _
  · split
    · exact hws.returned ht req _
    · exact hws.enter ht req

theorem resume_waitersOk {s : State}
    (hws : WaitersOk s.core.waiters s.threads) {t : ℕ} {req : Request}
    {n : Bool} (ht : s.threads t = .blocked req n) (timedOut : Bool) :
    WaitersOk (settle s t req (waitLoopResume s.core t req.offset req.endOff
        req.mode timedOut)).core.waiters
      (settle s t req (waitLoopResume s.core t req.offset req.endOff
        req.mode timedOut)).threads := by
  rw [waitLoopResume_eq hws ht]
  split
  · exact hws.leave t req _
  · split
    · exact hws.leave t req _
    · exact hws.sleep ht

theorem releaseGuard_waitersOk {s : State} (hs : WakeInv s) {g : ℕ}
    {guard : Guard} (hguard : s.guards[g]? = some guard)
    (hup : guard.upgrading = false) :
    WaitersOk (releaseGuard s g guard).core.waiters
      (releaseGuard s g guard).threads := by
  unfold releaseGuard
  split
  · next hown =>
    have hhold : guard.holding = true := by simp [Guard.holding, hown, hup]
    obtain ⟨entries, hdrop, -⟩ :=
      dropHolder_release hs.inv (List.mem_of_getElem? hguard) hhold
    simp only [doRelease, hdrop, if_true]
    exact hs.waiters.notifyAll
  · exact hs.waiters

/-- The state in which an upgrade enters `WaitLoop`: the shared entry is gone
and everybody is notified. -/
def upgradeEntry (s : State) (g : ℕ) (guard : Guard) (entries : EntryMap) :
    State :=
  { core := { s.core with entries := entries }
    guards := s.guards.set g { guard with upgrading := true }
    threads := notifyAll s.threads }

/-- An upgrade of an exclusive guard returns at once; another one gives up the
shared entry and enters `WaitLoop`. -/
theorem upgradeSection_cases {s s' : State} (hs : Inv s) {t g : ℕ}
    {guard : Guard} (hguard : s.guards[g]? = some guard)
    (hup : guard.upgrading = false) {deadline : TimePoint}
    (h : upgradeSection s t g guard deadline = some s') :
    (∃ req st, s' = { s with
      threads := Function.update s.threads t (.returned req st) }) ∨
    ∃ entries req, entries.Sublist s.core.entries ∧
      req = ⟨.upgradeUntil g deadline, guard.offset, guard.length,
        .kExclusive⟩ ∧
      s' = settle (upgradeEntry s g guard entries) t req
        (waitLoopEnter { s.core with entries := entries } t req.offset
          req.endOff req.mode false) := by
  unfold upgradeSection at h
  dsimp only at h
  split at h
  · cases h
  · next hown =>
    split at h
    · exact Or.inl ⟨_, _, (Option.some.inj h).symm⟩
    · next hmode =>
      have hmode : guard.mode = .kShared := by
        cases hm : guard.mode with
        | kShared => rfl
        | kExclusive => exact absurd hm hmode
      have hhold : guard.holding = true := by
        simp only [Bool.not_eq_true', Bool.not_eq_false] at hown
        simp [Guard.holding, hown, hup]
      obtain ⟨entries, hdrop, hsub, -⟩ := dropHolder_upgrade hs
        (List.mem_of_getElem? hguard) hhold hmode
      simp only [hdrop, Option.map_some, if_true, Option.some.injEq] at h
      exact Or.inr ⟨entries, _, hsub, rfl, h.symm⟩

theorem upgradeEntry_canCall {s : State} {t : ℕ}
    (ht : (s.threads t).canCall = true) (g : ℕ) (guard : Guard)
    (entries : EntryMap) :
    ((upgradeEntry s g guard entries).threads t).canCall = true := by
  revert ht
  cases hf : s.threads t <;> simp [upgradeEntry, notifyAll, hf, Frame.canCall]

/-- The waiter list mirrors the sleeping threads after every step. -/
theorem step_waitersOk {s s' : State} {a : Action} (hs : WakeInv s)
    (h : step s a = some s') : WaitersOk s'.core.waiters s'.threads := by
  cases a with
  | acquire t req =>
      obtain ⟨-, ht, -, rfl⟩ := step_acquire h
      exact enter_waitersOk hs.waiters ht req _
  | upgradeUntil t g deadline =>
      obtain ⟨ht, guard, hguard, hfree, hup⟩ := step_upgradeUntil h
      rcases upgradeSection_cases hs.inv hguard hfree hup with
        ⟨req, st, rfl⟩ | ⟨entries, req, -, -, rfl⟩
      · exact hs.waiters.returned ht _ _
      · exact enter_waitersOk (s := upgradeEntry s g guard entries)
          hs.waiters.notifyAll (upgradeEntry_canCall ht g guard entries) req
          false
  | wake t =>
      obtain ⟨req, n, ht, rfl⟩ := step_wakeUp h
      exact resume_waitersOk hs.waiters ht false
  | timeout t =>
      obtain ⟨req, n, ht, -, rfl⟩ := step_timeout h
      exact resume_waitersOk hs.waiters ht true
  | release g =>
      obtain ⟨guard, hguard, hfree, rfl⟩ := step_release h
      exact releaseGuard_waitersOk hs hguard hfree
  | moveConstruct g =>
      obtain ⟨guard, -, -, rfl⟩ := step_moveConstruct h
      exact hs.waiters
  | moveAssign dst src =>
      obtain rfl | ⟨dstGuard, srcGuard, -, hdst, hfree, -, -, rfl⟩ :=
        step_moveAssign h
      · exact hs.waiters
      · exact releaseGuard_waitersOk hs hdst hfree

theorem step_wakeInv {s s' : State} {a : Action} (hs : WakeInv s)
    (h : step s a = some s') : WakeInv s' :=
  ⟨(step_inv hs.inv h).1, step_waitersOk hs h⟩

theorem wakeInv_init : WakeInv init := ⟨inv_init, waitersOk_init⟩

theorem reachable_wakeInv {s : State} (hs : Reachable s) : WakeInv s :=
  hs.invariant (by rintro s rfl; exact wakeInv_init)
    fun _ _ _ hI _ hstep => step_wakeInv hI hstep

/-! ### Wake-ups -/

/-- Entering `WaitLoop` loses no wake-up. -/
theorem enter_wake {s : State} (hm : MapOk s.core.nextId s.core.entries)
    (hP : NoLostWakeup s) (t : ℕ) (req : Request) (noWait : Bool) :
    NoLostWakeup (settle s t req (waitLoopEnter s.core t req.offset
      req.endOff req.mode noWait)) := by
  rw [waitLoopEnter_eq]
  cases hgrant : canGrant s.core req.offset req.endOff req.mode none with
  | true =>
      apply noLostWakeup_returned
      intro t' req' _ ht'
      exact not_canGrant_insertEntry hm (hP t' req' ht') _ _ _
  | false =>
      cases noWait with
      | true =>
          apply noLostWakeup_returned
          intro t' req' _ ht'
          exact hP t' req' ht'
      | false =>
          apply noLostWakeup_blocked
          · exact not_canGrant_append hgrant _
          · intro t' req' _ ht'
            exact not_canGrant_append (hP t' req' ht') _

/-- Waking up, or timing out on a grantable request, loses no wake-up; a
failed time-out loses none exactly when it uncovers nobody. -/
theorem resume_wake {s : State} (hs : WakeInv s) (hP : NoLostWakeup s)
    {t : ℕ} {req : Request} {n : Bool} (ht : s.threads t = .blocked req n)
    (timedOut : Bool) :
    NoLostWakeup (settle s t req (waitLoopResume s.core t req.offset
        req.endOff req.mode timedOut)) ↔
      (timedOut = true →
        canGrant s.core req.offset req.endOff req.mode none = false →
        ∀ t' req', t' ≠ t → s.threads t' = .blocked req' false →
          canGrant { s.core with
              waiters := waitersWithout s.core.waiters t }
            req'.offset req'.endOff req'.mode none = false) := by
  rw [waitLoopResume_eq hs.waiters ht]
  cases hgrant : canGrant s.core req.offset req.endOff req.mode none with
  | true =>
      apply iff_of_true _ (by simp)
      apply noLostWakeup_returned
      intro t' req' _ ht'
      exact not_canGrant_promote hs.inv.map hs.waiters ht (hP t' req' ht')
  | false =>
      cases timedOut with
      | true =>
          constructor
          · intro hlost _ _ t' req' hne ht'
            exact hlost t' req' (by simpa [settle, hne] using ht')
          · intro h
            exact noLostWakeup_returned (h rfl rfl)
      | false =>
          apply iff_of_true _ (by simp)
          apply noLostWakeup_blocked hgrant
          intro t' req' _ ht'
          exact hP t' req' ht'

theorem releaseGuard_wake {s : State} (hs : WakeInv s) (hP : NoLostWakeup s)
    {g : ℕ} {guard : Guard} (hguard : s.guards[g]? = some guard)
    (hup : guard.upgrading = false) :
    NoLostWakeup (releaseGuard s g guard) := by
  unfold releaseGuard
  split
  · next hown =>
    have hhold : guard.holding = true := by simp [Guard.holding, hown, hup]
    obtain ⟨entries, hdrop, -⟩ :=
      dropHolder_release hs.inv (List.mem_of_getElem? hguard) hhold
    simp only [doRelease, hdrop, if_true]
    exact noLostWakeup_notifyAll rfl
  · exact hP

/-- The grant test of a request after waiter `t` has left, for a request that
could not be granted before. -/
theorem departure_iff {s : State} (hs : WakeInv s) (hP : NoLostWakeup s)
    {t : ℕ} {req : Request} {n : Bool} (ht : s.threads t = .blocked req n) :
    (∀ t' req', t' ≠ t → s.threads t' = .blocked req' false →
      canGrant { s.core with waiters := waitersWithout s.core.waiters t }
        req'.offset req'.endOff req'.mode none = false) ↔
    (req.mode = .kExclusive →
      ∀ t' req', t' ≠ t → s.threads t' = .blocked req' false →
        req'.mode = .kShared →
        overlaps req.offset req.endOff req'.offset req'.endOff = true →
        hasConflict req'.offset req'.endOff .kShared none s.core.entries =
            true ∨
          exclusiveWaiterExists (waitersWithout s.core.waiters t)
            req'.offset req'.endOff = true) := by
  constructor
  · intro h _ t' req' hne ht' hshared _
    have hcan := canGrant_eq_false_iff.mp (h t' req' hne ht')
    rw [hshared] at hcan
    exact hcan.symm.imp id And.right
  · intro h t' req' hne ht'
    rw [canGrant_eq_false_iff]
    rcases canGrant_eq_false_iff.mp (hP t' req' ht') with ⟨hshared, hex⟩ | hconf
    · rcases exclusiveWaiterExists_without hs.waiters ht hex with
        hrest | ⟨hmode, hov⟩
      · exact Or.inl ⟨hshared, hrest⟩
      · rcases h hmode t' req' hne ht' hshared hov with hconf | hrest
        · exact Or.inr (hshared ▸ hconf)
        · exact Or.inl ⟨hshared, hrest⟩
    · exact Or.inr hconf

theorem step_wake {s s' : State} {a : Action} (hs : WakeInv s)
    (hP : NoLostWakeup s) (h : step s a = some s') :
    NoLostWakeup s' ↔ DepartureUncoversNobody s a := by
  have hkeep : (∀ t, a ≠ .timeout t) → NoLostWakeup s' →
      (NoLostWakeup s' ↔ DepartureUncoversNobody s a) := by
    intro hne hlost
    exact iff_of_true hlost fun t _ _ heq => absurd heq (hne t)
  cases a with
  | acquire t req =>
      apply hkeep (by simp)
      obtain ⟨-, -, -, rfl⟩ := step_acquire h
      exact enter_wake hs.inv.map hP t req _
  | upgradeUntil t g deadline =>
      apply hkeep (by simp)
      obtain ⟨-, guard, hguard, hfree, hup⟩ := step_upgradeUntil h
      rcases upgradeSection_cases hs.inv hguard hfree hup with
        ⟨req, st, rfl⟩ | ⟨entries, req, hsub, -, rfl⟩
      · exact noLostWakeup_returned fun t' req' _ ht' => hP t' req' ht'
      · -- The erased entry notified everybody before the request enters.
        exact enter_wake (s := upgradeEntry s g guard entries)
          (hs.inv.map.of_sublist hsub) (noLostWakeup_notifyAll rfl) t req
          false
  | wake t =>
      apply hkeep (by simp)
      obtain ⟨req, n, ht, rfl⟩ := step_wakeUp h
      exact (resume_wake hs hP ht false).mpr (by simp)
  | timeout t =>
      obtain ⟨req, n, ht, -, rfl⟩ := step_timeout h
      refine (resume_wake hs hP ht true).trans ?_
      rw [departure_iff hs hP ht]
      constructor
      · rintro hdep t₁ req₁ n₁ heq ht₁ hmode hgrant
        obtain rfl := Action.timeout.inj heq
        rw [ht, Frame.blocked.injEq] at ht₁
        obtain ⟨rfl, -⟩ := ht₁
        exact hdep rfl hgrant hmode
      · intro hdep _ hgrant hmode
        exact hdep t req n rfl ht hmode hgrant
  | release g =>
      apply hkeep (by simp)
      obtain ⟨guard, hguard, hfree, rfl⟩ := step_release h
      exact releaseGuard_wake hs hP hguard hfree
  | moveConstruct g =>
      apply hkeep (by simp)
      obtain ⟨guard, -, -, rfl⟩ := step_moveConstruct h
      exact hP
  | moveAssign dst src =>
      apply hkeep (by simp)
      obtain rfl | ⟨dstGuard, srcGuard, -, hdst, hfree, -, -, rfl⟩ :=
        step_moveAssign h
      · exact hP
      · exact releaseGuard_wake hs hP hdst hfree

/-! ## Runs -/

/-- The exact condition for the absence of lost wake-ups: in a run from the
fresh lock no state has a lost wake-up exactly when no exclusive request that
gives up on its deadline uncovers a sleeping shared request. -/
theorem noLostWakeup_iff (acts : List Action) :
    Transition.AllStates step NoLostWakeup init acts ↔
      Transition.AllSteps step DepartureUncoversNobody init acts := by
  apply Transition.allStates_iff_allSteps _ wakeInv_init
    (by simp [NoLostWakeup, init])
  intro s a s' hs hP h
  exact ⟨step_wakeInv hs h, step_wake hs hP h⟩

/-- A reader holds a range, a writer with a deadline queues up behind it, a
second reader yields to the writer, and the writer's deadline passes. -/
def abandonedWriter : List Action :=
  [.acquire 0 ⟨.lock, 0, 10, .kShared⟩,
   .acquire 1 ⟨.tryLockUntil 100, 0, 10, .kExclusive⟩,
   .acquire 2 ⟨.lock, 0, 10, .kShared⟩,
   .timeout 1]

theorem abandonedWriter_runs :
    (Transition.run step init abandonedWriter).isSome = true := by decide

/-- A reachable state in which the second reader sleeps for ever on a range it
could be granted. -/
theorem exists_lostWakeup : ¬ ∀ s, Reachable s → NoLostWakeup s := by
  intro hall
  have hreach := Transition.reachable_get_run (Set.mem_singleton init)
    abandonedWriter_runs
  have hlost := hall _ hreach 2 ⟨.lock, 0, 10, .kShared⟩ (by decide)
  exact absurd hlost (by decide)

end LockRange
end Yacul
