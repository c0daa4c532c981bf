import Yacul.LockRange.Wakeup

/-!
# Writer preference of the range lock

While an exclusive request is registered as a waiter, no shared entry that
overlaps its range is inserted.  A step inserts at most one entry, and inserts
a shared one only where no registered exclusive request overlaps it.
-/

namespace Yacul
namespace LockRange

/-- What a step may insert: nothing, or one entry, which is shared only if no
exclusive waiter overlaps it and the step registers nobody. -/
def InsertsFairly (c c' : Core) : Prop :=
  ∃ new : Option LockEntry,
    (∀ p ∈ c'.entries, p ∈ c.entries ∨ new = some p.2) ∧
    ∀ e, new = some e → e.mode = .kShared →
      exclusiveWaiterExists c.waiters e.offset e.endOff = false ∧
        c'.waiters ⊆ c.waiters

theorem InsertsFairly.of_subset {c c' : Core}
    (h : ∀ p ∈ c'.entries, p ∈ c.entries) : InsertsFairly c c' :=
  ⟨none, fun p hp => Or.inl (h p hp), fun e he => by cases he⟩

/-- An upgrade enters with fewer entries and the same waiters. -/
theorem InsertsFairly.of_sublist {c c' : Core} {entries : EntryMap}
    (h : InsertsFairly { c with entries := entries } c')
    (hsub : entries.Sublist c.entries) : InsertsFairly c c' := by
  obtain ⟨new, hnew, hfair⟩ := h
  exact ⟨new, fun p hp => (hnew p hp).imp (fun hmem => hsub.mem hmem) id,
    hfair⟩

/-- A shared request that can be granted has no exclusive waiter in its
range. -/
theorem not_exclusiveWaiterExists_of_canGrant {c : Core}
    {offset endOff : UInt64}
    (h : canGrant c offset endOff .kShared none = true) :
    exclusiveWaiterExists c.waiters offset endOff = false := by
  rw [← Bool.not_eq_true]
  intro hex
  simp [canGrant, hex] at h

/-- Both grants of `WaitLoop` insert fairly: the entry was grantable in `c`,
and the waiter list does not grow. -/
theorem insertsFairly_insertEntry {c : Core} (hm : MapOk c.nextId c.entries)
    {ws : List Waiter} (hws : ws ⊆ c.waiters) {offset endOff : UInt64}
    {mode : Mode} (h : canGrant c offset endOff mode none = true) :
    InsertsFairly c
      (insertEntry { c with waiters := ws } offset endOff mode) := by
  refine ⟨some ⟨offset, endOff, mode, 1⟩, ?_, ?_⟩
  · intro p hp
    have hperm := insertEntry_perm (c := { c with waiters := ws }) hm offset
      endOff mode
    rcases List.mem_cons.mp (hperm.mem_iff.mp hp) with rfl | hold
    · exact Or.inr rfl
    · exact Or.inl hold
  · intro e he hshared
    obtain rfl := Option.some.inj he
    dsimp only at hshared
    rw [hshared] at h
    exact ⟨not_exclusiveWaiterExists_of_canGrant h, hws⟩

theorem enter_insertsFairly {c : Core} (hm : MapOk c.nextId c.entries)
    (t : ℕ) (req : Request) (noWait : Bool) :
    InsertsFairly c (waitLoopEnter c t req.offset req.endOff req.mode
      noWait).2 := by
  rw [waitLoopEnter_eq]
  split
  · next hgrant =>
    exact insertsFairly_insertEntry hm (List.Subset.refl _) hgrant
  · split
    · exact .of_subset fun p hp => hp
    · exact .of_subset fun p hp => hp

theorem resume_insertsFairly {s : State} (hs : WakeInv s) {t : ℕ}
    {req : Request} {n : Bool} (ht : s.threads t = .blocked req n)
    (timedOut : Bool) :
    InsertsFairly s.core (waitLoopResume s.core t req.offset req.endOff
      req.mode timedOut).2 := by
  rw [waitLoopResume_eq hs.waiters ht]
  split
  · next hgrant =>
    exact insertsFairly_insertEntry hs.inv.map List.eraseP_subset hgrant
  · split
    · exact .of_subset fun p hp => hp
    · exact .of_subset fun p hp => hp

@[simp] theorem settle_core (s : State) (t : ℕ) (req : Request)
    (out : Option Status × Core) : (settle s t req out).core = out.2 := by
  obtain ⟨status | status, core⟩ := out <;> rfl

theorem releaseGuard_entries {s : State} (hs : Inv s) {g : ℕ} {guard : Guard}
    (hguard : s.guards[g]? = some guard) (hup : guard.upgrading = false) :
    ∀ p ∈ (releaseGuard s g guard).core.entries, p ∈ s.core.entries := by
  intro p hp
  unfold releaseGuard at hp
  split at hp
  · next hown =>
    have hhold : guard.holding = true := by simp [Guard.holding, hown, hup]
    obtain ⟨entries, hdrop, hsub, -⟩ :=
      dropHolder_release hs (List.mem_of_getElem? hguard) hhold
    simp only [doRelease, hdrop] at hp
    exact hsub.mem hp
  · exact hp

theorem step_insertsFairly {s s' : State} {a : Action} (hs : WakeInv s)
    (h : step s a = some s') : InsertsFairly s.core s'.core := by
  cases a with
  | acquire t req =>
      obtain ⟨-, -, -, rfl⟩ := step_acquire h
      rw [settle_core]
      exact enter_insertsFairly hs.inv.map t req _
  | upgradeUntil t g deadline =>
      obtain ⟨-, guard, hguard, hfree, hup⟩ := step_upgradeUntil h
      rcases upgradeSection_cases hs.inv hguard hfree hup with
        ⟨req, st, rfl⟩ | ⟨entries, req, hsub, -, rfl⟩
      · exact .of_subset fun p hp => hp
      · rw [settle_core]
        have henter := enter_insertsFairly
          (c := { s.core with entries := entries })
          (hs.inv.map.of_sublist hsub) t req false
        exact henter.of_sublist hsub
  | wake t =>
      obtain ⟨req, n, ht, rfl⟩ := step_wakeUp h
      rw [settle_core]
      exact resume_insertsFairly hs ht false
  | timeout t =>
      obtain ⟨req, n, ht, -, rfl⟩ := step_timeout h
      rw [settle_core]
      exact resume_insertsFairly hs ht true
  | release g =>
      obtain ⟨guard, hguard, hfree, rfl⟩ := step_release h
      exact .of_subset (releaseGuard_entries hs.inv hguard hfree)
  | moveConstruct g =>
      obtain ⟨guard, -, -, rfl⟩ := step_moveConstruct h
      exact .of_subset fun p hp => hp
  | moveAssign dst src =>
      obtain rfl | ⟨dstGuard, srcGuard, -, hdst, hfree, -, -, rfl⟩ :=
        step_moveAssign h
      · exact .of_subset fun p hp => hp
      · exact .of_subset (releaseGuard_entries hs.inv hdst hfree)

/-- A shared entry that overlaps an exclusive request registered before or
after a step was in the map before the step. -/
theorem step_preference {s s' : State} {a : Action} (hs : WakeInv s)
    (h : step s a = some s') {w : Waiter} (hw : w.mode = .kExclusive)
    (hreg : w ∈ s.core.waiters ∨ w ∈ s'.core.waiters)
    {p : EntryKey × LockEntry} (hp : p ∈ s'.core.entries)
    (hshared : p.2.mode = .kShared)
    (hov : overlaps w.offset w.endOff p.2.offset p.2.endOff = true) :
    p ∈ s.core.entries := by
  obtain ⟨new, hnew, hfair⟩ := step_insertsFairly hs h
  rcases hnew p hp with hold | hinserted
  · exact hold
  · obtain ⟨hnone, hsub⟩ := hfair p.2 hinserted hshared
    have hmem : w ∈ s.core.waiters := hreg.elim id fun hafter => hsub hafter
    have hex : exclusiveWaiterExists s.core.waiters p.2.offset p.2.endOff =
        true := List.any_eq_true.mpr ⟨w, hmem, by simp [hw, hov]⟩
    exact absurd hex (by simp [hnone])

/-- The request `w` is registered before or after the step: the step is one
from the one that registers it to the one that unregisters it. -/
def RegisteredAround (w : Waiter) (s : State) (a : Action) : Prop :=
  w ∈ s.core.waiters ∨ ∃ s', step s a = some s' ∧ w ∈ s'.core.waiters

instance (w : Waiter) (s : State) (a : Action) :
    Decidable (RegisteredAround w s a) :=
  match h : step s a with
  | none => decidable_of_iff (w ∈ s.core.waiters)
      (by simp [RegisteredAround, h])
  | some s' => decidable_of_iff (w ∈ s.core.waiters ∨ w ∈ s'.core.waiters)
      (by simp [RegisteredAround, h])

/-- Writer preference: over any stretch of a run from the registration of an
exclusive request to its unregistration, every overlapping shared entry at the
end was already there at the beginning. -/
theorem run_preference {s : State} (hs : Reachable s) {w : Waiter}
    (hw : w.mode = .kExclusive) {acts : List Action}
    (hreg : Transition.AllSteps step (RegisteredAround w) s acts)
    {s' : State} (hrun : Transition.run step s acts = some s') :
    ∀ p ∈ s'.core.entries, p.2.mode = .kShared →
      overlaps w.offset w.endOff p.2.offset p.2.endOff = true →
      p ∈ s.core.entries := by
  induction acts generalizing s with
  | nil =>
      obtain rfl : s = s' := Option.some.inj hrun
      exact fun p hp _ _ => hp
  | cons a acts ih =>
      obtain ⟨mid, hmid, hrest⟩ := Option.bind_eq_some_iff.mp hrun
      obtain ⟨haround, hreg'⟩ := hreg mid hmid
      have hbetween : w ∈ s.core.waiters ∨ w ∈ mid.core.waiters := by
        rcases haround with hbefore | ⟨mid', hmid', hafter⟩
        · exact Or.inl hbefore
        · obtain rfl := Option.some.inj (hmid.symm.trans hmid')
          exact Or.inr hafter
      intro p hp hshared hov
      have hmem := ih (.next hs trivial hmid) hreg' hrest p hp hshared hov
      exact step_preference (reachable_wakeInv hs) hmid hw hbetween hmem
        hshared hov

/-- A reader holds a range. -/
def readerHolds : List Action := [.acquire 0 ⟨.lock, 0, 10, .kShared⟩]

/-- A writer queues up, a second reader yields to it, the first reader
releases, and the writer is granted. -/
def writerOvertakes : List Action :=
  [.acquire 1 ⟨.lock, 5, 10, .kExclusive⟩,
   .acquire 2 ⟨.lock, 8, 10, .kShared⟩,
   .wake 2,
   .release 0,
   .wake 1]

theorem readerHolds_runs :
    (Transition.run step init readerHolds).isSome = true := by decide

/-- The state after `readerHolds`. -/
def readerHoldsState : State :=
  (Transition.run step init readerHolds).get readerHolds_runs

theorem writerOvertakes_runs :
    (Transition.run step readerHoldsState writerOvertakes).isSome = true := by
  decide

theorem run_preference_writerOvertakes :
    Transition.AllSteps step (RegisteredAround ⟨1, 5, 15, .kExclusive⟩)
        readerHoldsState writerOvertakes ∧
      ∀ p ∈ ((Transition.run step readerHoldsState writerOvertakes).get
          writerOvertakes_runs).core.entries, p.2.mode = .kShared →
        overlaps 5 15 p.2.offset p.2.endOff = true →
        p ∈ readerHoldsState.core.entries := by
  have hreg : Transition.AllSteps step
      (RegisteredAround ⟨1, 5, 15, .kExclusive⟩) readerHoldsState
      writerOvertakes := by decide
  exact ⟨hreg, run_preference
    (Transition.reachable_get_run (Set.mem_singleton init) readerHolds_runs)
    rfl hreg (Option.some_get writerOvertakes_runs).symm⟩

end LockRange
end Yacul
