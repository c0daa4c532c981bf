import Yacul.LockRange.Ledger

/-!
# Exclusion of the range lock

Each step of the range lock keeps the ledger and acts on the multiset of held
ranges by steps of a reader-writer lock.  The main theorem collects what this
gives in every reachable state.
-/

namespace Yacul
namespace LockRange

open SharedExclusive

/-- The entry map moves by steps of a reader-writer lock on ranges. -/
def Refines (s s' : State) : Prop :=
  Relation.ReflTransGen (SharedExclusive.Step Range.Touches)
    (held s.core.entries) (held s'.core.entries)

/-! ## Storing the outcome of a wait section -/

/-- Granting, giving up and sleeping all keep the invariant. -/
theorem settle_inv {s : State} (hs : Inv s) {t : ℕ} {req : Request}
    (hreq : RequestOk s.guards req) (halone : Alone s.threads t req)
    {mayGiveUp : Prop} (hmay : mayGiveUp → req.call.deadline ≠ kForever)
    {out : Option Status × Core}
    (hout : WaitOutcome s.core req.offset req.endOff req.mode mayGiveUp out) :
    Inv (settle s t req out) ∧ Refines s (settle s t req out) := by
  cases hout with
  | acquired ws hfree =>
      have hinsert := held_insertEntry (c := { s.core with waiters := ws })
        hs.map req.offset req.endOff req.mode
      refine ⟨⟨?_, ?_, ?_, ?_⟩, ?_⟩
      · exact insertEntry_mapOk (c := { s.core with waiters := ws })
          hs.map req.offset req.endOff req.mode
      · simp only [settle]
        rw [hinsert, guardHolds_concludeCall_acquired hreq]
        exact congrArg _ hs.ledger
      · exact wide_concludeCall hreq hs.wide
      · exact CallsOk.conclude
          (hs.calls.returned fun _ => Or.inl rfl) hreq halone
      · refine Relation.ReflTransGen.single ?_
        simp only [settle]
        rw [hinsert]
        exact .acquire (compatible_of_not_hasConflict hs.map hfree)
  | gaveUp ws hgave =>
      have hst : StatusOk req .kTimeout := fun hdl => absurd hdl (hmay hgave)
      refine ⟨⟨hs.map, ?_, ?_, ?_⟩, .refl⟩
      · exact hs.ledger.trans
          (guardHolds_concludeCall_other hreq (by decide)).symm
      · exact wide_concludeCall hreq hs.wide
      · exact CallsOk.conclude (hs.calls.returned hst) hreq halone
  | asleep ws =>
      exact ⟨⟨hs.map, hs.ledger, hs.wide, hs.calls.blocked hreq halone⟩, .refl⟩

/-! ## Releasing -/

theorem guardHold_mem_held {s : State} (hs : Inv s) {guard : Guard}
    (hmem : guard ∈ s.guards) (hhold : guard.holding = true) :
    guardHold guard ∈ held s.core.entries := by
  rw [hs.ledger]
  exact Roster.mem_tally.mpr
    ⟨guard, hmem, by simp [Guard.holds_of_holding hhold]⟩

/-- Taking the entry of a guard out of the map together with the guard's hold
keeps the invariant, whatever happens to the notifications. -/
theorem drop_inv {s : State} (hs : Inv s) {g : ℕ} {guard : Guard}
    (guard' : Guard) (hguard : s.guards[g]? = some guard) (hhold : guard.holding = true)
    (hnew : guard'.holding = false) (hoff : guard'.offset = guard.offset)
    (hlen : guard'.length = guard.length) {entries : EntryMap}
    (hsub : entries.Sublist s.core.entries)
    (hheld : held s.core.entries = guardHold guard ::ₘ held entries)
    {threads : ℕ → Frame} (hcalls : CallsOk s.guards threads) :
    Inv { core := { s.core with entries := entries }
          guards := s.guards.set g guard'
          threads := threads } := by
  have hown : guard.owner = true := by
    simp only [Guard.holding, Bool.and_eq_true] at hhold
    exact hhold.1
  have hup : guard.upgrading = false := by
    simpa [Guard.holding, hown] using hhold
  refine ⟨hs.map.of_sublist hsub, ?_, ?_, hcalls.set_guard hguard hup guard'⟩
  · have hcons : guardHold guard ::ₘ held entries =
        guardHold guard ::ₘ guardHolds (s.guards.set g guard') := by
      rw [← hheld, hs.ledger]
      exact guardHolds_set_of_release hguard hhold hnew
    exact Multiset.cons_inj_right _ |>.mp hcons
  · intro k hk hkown
    rcases List.mem_or_eq_of_mem_set hk with hk | rfl
    · exact hs.wide k hk hkown
    · rw [hoff, hlen]
      exact hs.wide guard (List.mem_of_getElem? hguard) hown

/-- `DoRelease` finds the entry of a guard that holds its range. -/
theorem dropHolder_release {s : State} (hs : Inv s) {guard : Guard}
    (hmem : guard ∈ s.guards) (hhold : guard.holding = true) :
    ∃ entries, dropHolder (guard.offset + guard.length) guard.offset
        (guard.offset + guard.length) guard.mode s.core.entries =
          some (true, entries) ∧
      entries.Sublist s.core.entries ∧
      held s.core.entries = guardHold guard ::ₘ held entries := by
  have hown : guard.owner = true := by
    simp only [Guard.holding, Bool.and_eq_true] at hhold
    exact hhold.1
  exact dropHolder_of_mem hs.map (hs.wide guard hmem hown)
    (guardHold_mem_held hs hmem hhold)

theorem releaseGuard_inv {s : State} (hs : Inv s) {g : ℕ} {guard : Guard}
    (hguard : s.guards[g]? = some guard) (hup : guard.upgrading = false) :
    Inv (releaseGuard s g guard) ∧ Refines s (releaseGuard s g guard) := by
  unfold releaseGuard
  split
  · next hown =>
    have hmem := List.mem_of_getElem? hguard
    have hhold : guard.holding = true := by simp [Guard.holding, hown, hup]
    obtain ⟨entries, hdrop, hsub, hheld⟩ := dropHolder_release hs hmem hhold
    simp only [doRelease, hdrop, if_true]
    refine ⟨drop_inv hs { guard with owner := false } hguard hhold
      (by simp [Guard.holding]) rfl rfl hsub hheld hs.calls.notifyAll, ?_⟩
    refine Relation.ReflTransGen.single ?_
    simp only [hheld]
    exact .release
  · exact ⟨hs, .refl⟩

/-! ## Upgrading -/

/-- `UpgradeUntil` finds the entry of a shared guard that holds its range,
although its scan stops at the offset of the guard. -/
theorem dropHolder_upgrade {s : State} (hs : Inv s) {guard : Guard}
    (hmem : guard ∈ s.guards) (hhold : guard.holding = true)
    (hmode : guard.mode = .kShared) :
    ∃ entries, dropHolder guard.offset guard.offset
        (guard.offset + guard.length) .kShared s.core.entries =
          some (true, entries) ∧
      entries.Sublist s.core.entries ∧
      held s.core.entries = guardHold guard ::ₘ held entries := by
  have hin := guardHold_mem_held hs hmem hhold
  simp only [guardHold, hmode] at hin ⊢
  exact dropHolder_of_mem hs.map (UInt64.le_refl _) hin

theorem upgradeSection_inv {s s' : State} (hs : Inv s) {t g : ℕ}
    {guard : Guard} (hguard : s.guards[g]? = some guard)
    (hup : guard.upgrading = false) {deadline : TimePoint}
    (h : upgradeSection s t g guard deadline = some s') :
    Inv s' ∧ Refines s s' := by
  unfold upgradeSection at h
  dsimp only at h
  split at h
  · cases h
  · next hown =>
    have hown : guard.owner = true := by simpa using hown
    split at h
    · obtain rfl := Option.some.inj h
      refine ⟨⟨hs.map, hs.ledger, hs.wide, hs.calls.returned ?_⟩, .refl⟩
      intro _
      exact Or.inr ⟨rfl, g, deadline, rfl⟩
    · next hmode =>
      have hmode : guard.mode = .kShared := by
        cases hm : guard.mode with
        | kShared => rfl
        | kExclusive => exact absurd hm hmode
      have hmem := List.mem_of_getElem? hguard
      have hhold : guard.holding = true := by simp [Guard.holding, hown, hup]
      obtain ⟨entries, hdrop, hsub, hheld⟩ :=
        dropHolder_upgrade hs hmem hhold hmode
      simp only [hdrop, Option.map_some, if_true, Option.some.injEq] at h
      have hmid := drop_inv hs { guard with upgrading := true }
        hguard hhold (by simp [Guard.holding]) rfl rfl hsub hheld
        hs.calls.notifyAll
      have hlt : g < s.guards.length :=
        (List.getElem?_eq_some_iff.mp hguard).1
      subst h
      have hreq : RequestOk
          (s.guards.set g { guard with upgrading := true })
          ⟨.upgradeUntil g deadline, guard.offset, guard.length,
            .kExclusive⟩ := by
        refine ⟨hs.wide guard hmem hown, fun g' d hcall => ⟨rfl, ?_⟩⟩
        obtain ⟨rfl, -⟩ := Call.upgradeUntil.inj hcall
        exact ⟨_, List.getElem?_set_self hlt, hown, rfl, rfl, rfl⟩
      have hsettle := settle_inv (t := t) hmid hreq ?_ ?_
        (waitLoopEnter_outcome _ t guard.offset
          (guard.offset + guard.length) .kExclusive false)
      · refine ⟨hsettle.1, Relation.ReflTransGen.head ?_ hsettle.2⟩
        simp only [hheld]
        exact .release
      · -- A thread upgrading `g` would have marked the object.
        intro t' req' n g' d d' _ ht' hcall hcall'
        obtain ⟨rfl, -⟩ := Call.upgradeUntil.inj hcall
        obtain ⟨n', hn'⟩ := notifyAll_eq_blocked ht'
        obtain ⟨-, k, hk, -, hkup, -⟩ :=
          (hs.calls.asleep t' req' n' hn').upgrade g d' hcall'
        rw [hguard] at hk
        obtain rfl := Option.some.inj hk
        simp [hup] at hkup
      · intro hfalse
        cases hfalse

/-! ## Steps -/

theorem validateRange_wide {offset length : UInt64}
    (h : validateRange offset length = true) : offset ≤ offset + length := by
  simp only [validateRange, Bool.and_eq_true, decide_eq_true_eq,
    UInt64.le_iff_toNat_le] at h
  have hsub := UInt64.toNat_sub_of_le (0xFFFFFFFFFFFFFFFF : UInt64) length
    (UInt64.le_iff_toNat_le.mpr (by have := length.toNat_lt; simp; omega))
  have hle := h.2
  rw [hsub] at hle
  have hconst : (0xFFFFFFFFFFFFFFFF : UInt64).toNat = 2 ^ 64 - 1 := rfl
  rw [UInt64.le_iff_toNat_le, UInt64.toNat_add, Nat.mod_eq_of_lt]
  · omega
  · have := length.toNat_lt
    omega

/-- The other threads in `UpgradeUntil` use other guard objects. -/
theorem Inv.alone {s : State} (hs : Inv s) {t : ℕ} {req : Request} {n : Bool}
    (ht : s.threads t = .blocked req n) : Alone s.threads t req := by
  intro t' req' n' g d d' hne ht' hcall hcall'
  exact hne (hs.calls.apart t' t req' req n' n g d' d ht' ht hcall' hcall)

theorem resume_inv {s : State} (hs : Inv s) {t : ℕ} {req : Request} {n : Bool}
    (ht : s.threads t = .blocked req n) {timedOut : Bool}
    (hdl : timedOut = true → req.call.deadline ≠ kForever) :
    Inv (settle s t req
      (waitLoopResume s.core t req.offset req.endOff req.mode timedOut)) ∧
    Refines s (settle s t req
      (waitLoopResume s.core t req.offset req.endOff req.mode timedOut)) :=
  settle_inv hs (hs.calls.asleep t req n ht) (hs.alone ht) hdl
    (waitLoopResume_outcome s.core t req.offset req.endOff req.mode timedOut)

theorem acquire_inv {s : State} (hs : Inv s) {t : ℕ} {req : Request}
    (hcall : ∀ g d, req.call ≠ .upgradeUntil g d)
    (hrange : validateRange req.offset req.length = true) :
    Inv (settle s t req (waitLoopEnter s.core t req.offset req.endOff req.mode
      req.call.noWait)) ∧
    Refines s (settle s t req (waitLoopEnter s.core t req.offset req.endOff
      req.mode req.call.noWait)) := by
  apply settle_inv hs _ _ _ (waitLoopEnter_outcome s.core t req.offset
    req.endOff req.mode req.call.noWait)
  · exact ⟨validateRange_wide hrange, fun g d hup => absurd hup (hcall g d)⟩
  · intro t' req' n g d d' _ _ hup
    exact absurd hup (hcall g d)
  · intro hno
    cases hc : req.call <;> simp [hc, Call.noWait, Call.deadline, kForever] at hno ⊢

theorem moveConstruct_inv {s : State} (hs : Inv s) {g : ℕ} {guard : Guard}
    (hguard : s.guards[g]? = some guard) (hup : guard.upgrading = false) :
    Inv { s with
      guards := s.guards.set g { guard with owner := false } ++ [guard] } := by
  refine ⟨hs.map, ?_, ?_, ?_⟩
  · have hset := Roster.tally_set (f := Guard.holds) hguard
      { guard with owner := false }
    have hgone : Guard.holds { guard with owner := false } = 0 := by
      simp [Guard.holds, Guard.holding]
    rw [hgone, zero_add] at hset
    rw [hs.ledger, guardHolds, guardHolds, ← hset, Roster.tally_append,
      Roster.tally_cons, Roster.tally_nil, add_zero, add_comm]
  · intro k hk hown
    rcases List.mem_append.mp hk with hk | hk
    · rcases List.mem_or_eq_of_mem_set hk with hk | rfl
      · exact hs.wide k hk hown
      · cases hown
    · obtain rfl := List.mem_singleton.mp hk
      exact hs.wide k (List.mem_of_getElem? hguard) hown
  · exact (hs.calls.set_guard hguard hup _).append_guard guard

/-- A released guard object takes over the range of another one. -/
theorem moveAssign_inv {s : State} (hs : Inv s) {dst src : ℕ}
    {dstGuard srcGuard : Guard} (hne : dst ≠ src)
    (hdst : s.guards[dst]? = some dstGuard) (hdstOwn : dstGuard.owner = false)
    (hdstUp : dstGuard.upgrading = false)
    (hsrc : s.guards[src]? = some srcGuard)
    (hsrcUp : srcGuard.upgrading = false) :
    Inv { s with
      guards := (s.guards.set dst srcGuard).set src
        { srcGuard with owner := false } } := by
  have hsrc' : (s.guards.set dst srcGuard)[src]? = some srcGuard := by
    rw [List.getElem?_set_ne hne, hsrc]
  refine ⟨hs.map, ?_, ?_, ?_⟩
  · have htake := Roster.tally_set (f := Guard.holds) hdst srcGuard
    have hgive := Roster.tally_set (f := Guard.holds) hsrc'
      { srcGuard with owner := false }
    have hgone : Guard.holds { srcGuard with owner := false } = 0 := by
      simp [Guard.holds, Guard.holding]
    rw [Guard.holds_of_not_holding (by simp [Guard.holding, hdstOwn]),
      zero_add] at htake
    rw [hgone, zero_add, htake] at hgive
    rw [hs.ledger]
    exact (add_left_cancel hgive).symm
  · intro k hk hown
    rcases List.mem_or_eq_of_mem_set hk with hk | rfl
    · rcases List.mem_or_eq_of_mem_set hk with hk | rfl
      · exact hs.wide k hk hown
      · exact hs.wide k (List.mem_of_getElem? hsrc) hown
    · cases hown
  · exact (hs.calls.set_guard hdst hdstUp srcGuard).set_guard hsrc' hsrcUp _

/-- After `Release` the object is at its place and holds nothing. -/
theorem releaseGuard_guards (s : State) {g : ℕ} {guard : Guard}
    (hguard : s.guards[g]? = some guard) :
    (releaseGuard s g guard).guards =
      s.guards.set g { guard with owner := false } := by
  obtain ⟨hlt, rfl⟩ := List.getElem?_eq_some_iff.mp hguard
  unfold releaseGuard
  split
  · simp only [doRelease]
    split <;> rfl
  · next hown =>
    have hself : { s.guards[g] with owner := false } = s.guards[g] := by
      rw [← Bool.eq_false_iff.mpr hown]
    rw [hself, List.set_getElem_self]

theorem step_inv {s s' : State} {a : Action} (hs : Inv s)
    (h : step s a = some s') : Inv s' ∧ Refines s s' := by
  cases a with
  | acquire t req =>
      obtain ⟨hcall, -, hrange, rfl⟩ := step_acquire h
      exact acquire_inv hs hcall hrange
  | upgradeUntil t g deadline =>
      obtain ⟨-, guard, hguard, hfree, hup⟩ := step_upgradeUntil h
      exact upgradeSection_inv hs hguard hfree hup
  | wake t =>
      obtain ⟨req, n, ht, rfl⟩ := step_wakeUp h
      exact resume_inv hs ht (by simp)
  | timeout t =>
      obtain ⟨req, n, ht, hdl, rfl⟩ := step_timeout h
      exact resume_inv hs ht fun _ => hdl
  | release g =>
      obtain ⟨guard, hguard, hfree, rfl⟩ := step_release h
      exact releaseGuard_inv hs hguard hfree
  | moveConstruct g =>
      obtain ⟨guard, hguard, hfree, rfl⟩ := step_moveConstruct h
      exact ⟨moveConstruct_inv hs hguard hfree, .refl⟩
  | moveAssign dst src =>
      obtain rfl | ⟨dstGuard, srcGuard, hne, hdst, hdstFree, hsrc, hsrcFree,
        rfl⟩ := step_moveAssign h
      · exact ⟨hs, .refl⟩
      · obtain ⟨hrel, hstep⟩ := releaseGuard_inv hs hdst hdstFree
        have hguards := releaseGuard_guards s hdst
        have hlt := (List.getElem?_eq_some_iff.mp hdst).1
        have hdst' : (releaseGuard s dst dstGuard).guards[dst]? =
            some { dstGuard with owner := false } := by
          rw [hguards, List.getElem?_set_self hlt]
        have hsrc' : (releaseGuard s dst dstGuard).guards[src]? =
            some srcGuard := by
          rw [hguards, List.getElem?_set_ne hne, hsrc]
        exact ⟨moveAssign_inv hrel hne hdst' rfl hdstFree hsrc' hsrcFree,
          hstep⟩

/-! ## Every reachable state -/

theorem reachable_inv {s : State} (hs : Reachable s) : Inv s :=
  hs.invariant (by rintro s rfl; exact inv_init)
    fun _ _ _ hI _ hstep => (step_inv hI hstep).1

/-- The range lock refines the reader-writer lock on ranges. -/
theorem step_simulates :
    Transition.Simulates step Inv (fun s => held s.core.entries)
      (SharedExclusive.Step Range.Touches) :=
  fun _ _ _ hs h => (step_inv hs h).2

theorem reachable_exclusion {s : State} (hs : Reachable s) :
    Exclusion Range.Touches (held s.core.entries) :=
  step_simulates.invariant (fun _ h => reachable_inv h)
    (by rintro s rfl; exact exclusion_zero)
    (fun _ _ hx hstep => hx.step Range.Touches.symm hstep) hs

/-- Exclusion read off the map: two overlapping entries are both shared. -/
theorem pairwise_of_exclusion {m : EntryMap}
    (hx : Exclusion Range.Touches (held m)) :
    m.Pairwise fun p q =>
      overlaps p.2.offset p.2.endOff q.2.offset q.2.endOff = true →
        p.2.mode = .kShared ∧ q.2.mode = .kShared := by
  have hshared : ∀ mode : Mode,
      decide (mode = .kExclusive) = false → mode = .kShared := by
    intro mode
    cases mode <;> simp
  induction m with
  | nil => exact List.Pairwise.nil
  | cons p m ih =>
      have hcons : held (p :: m) = entryHold p ::ₘ held m := by simp [held]
      rw [hcons] at hx
      refine List.Pairwise.cons ?_ (ih hx.of_cons)
      intro q hq hov
      obtain ⟨rest, hrest⟩ := Multiset.exists_cons_of_mem
        (show entryHold q ∈ held m from
          Multiset.mem_coe.mpr (List.mem_map_of_mem hq))
      have hcompat := hx (entryHold p) (entryHold q) rest (by rw [hrest]) hov
      exact ⟨hshared _ hcompat.1, hshared _ hcompat.2⟩

/-- The exclusion and ledger theorem of the range lock.  In every reachable
state the entries are the ranges of the guards that hold their lock, two
overlapping entries are both shared, releases and upgrades find the entry they
act on, and a call that waits forever comes back with `kAcquired`. -/
theorem reachable_ledger {s : State} (hs : Reachable s) :
    held s.core.entries = guardHolds s.guards ∧
    (s.core.entries.Pairwise fun p q =>
      overlaps p.2.offset p.2.endOff q.2.offset q.2.endOff = true →
        p.2.mode = .kShared ∧ q.2.mode = .kShared) ∧
    (∀ g ∈ s.guards, g.owner = true → g.upgrading = false →
      (∃ entries, dropHolder (g.offset + g.length) g.offset
        (g.offset + g.length) g.mode s.core.entries = some (true, entries)) ∧
      (g.mode = .kShared → ∃ entries, dropHolder g.offset g.offset
        (g.offset + g.length) .kShared s.core.entries =
          some (true, entries))) ∧
    (∀ t req status, s.threads t = .returned req status →
      req.call.deadline = kForever →
      (∀ g d, req.call ≠ .upgradeUntil g d) → status = .kAcquired) := by
  have hinv := reachable_inv hs
  refine ⟨hinv.ledger, pairwise_of_exclusion (reachable_exclusion hs), ?_, ?_⟩
  · intro g hg hown hup
    have hhold : g.holding = true := by simp [Guard.holding, hown, hup]
    obtain ⟨entries, hdrop, -⟩ := dropHolder_release hinv hg hhold
    refine ⟨⟨entries, hdrop⟩, fun hmode => ?_⟩
    obtain ⟨entries', hdrop', -⟩ := dropHolder_upgrade hinv hg hhold hmode
    exact ⟨entries', hdrop'⟩
  · intro t req status ht hforever hcall
    rcases hinv.calls.status t req status ht hforever with hacq | ⟨-, g, d, hup⟩
    · exact hacq
    · exact absurd hup (hcall g d)

/-- Two readers hold overlapping ranges and a writer waits behind them. -/
def readersAndWriter : List Action :=
  [.acquire 0 ⟨.lock, 0, 10, .kShared⟩,
   .acquire 1 ⟨.tryLock, 5, 10, .kShared⟩,
   .acquire 2 ⟨.lock, 8, 4, .kExclusive⟩]

theorem readersAndWriter_runs :
    (Transition.run step init readersAndWriter).isSome = true := by decide

/-- The state after `readersAndWriter`. -/
def readersAndWriterState : State :=
  (Transition.run step init readersAndWriter).get readersAndWriter_runs

theorem reachable_ledger_readersAndWriter :
    Reachable readersAndWriterState ∧
    readersAndWriterState.core.entries.length = 2 ∧
    held readersAndWriterState.core.entries =
      guardHolds readersAndWriterState.guards := by
  have hreach : Reachable readersAndWriterState :=
    Transition.reachable_get_run (Set.mem_singleton init) readersAndWriter_runs
  exact ⟨hreach, by decide, (reachable_ledger hreach).1⟩

end LockRange
end Yacul
