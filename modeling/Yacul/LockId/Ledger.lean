import Yacul.LockId.Machine
import Yacul.Support.Roster
import Yacul.Support.SharedExclusive
import Mathlib.Data.Multiset.Count

/-!
# The entry table of the per-identifier lock

The maps of all shards together form one table from identifiers to allocated
entries.  `TableOk` says what the table knows about a multiset of holds and a
reference count for each identifier, and each section that touches the table
has one lemma about it.
-/

namespace Yacul
namespace LockId

open SharedExclusive

section Table

variable {ι : Type*}

/-! ## References -/

/-- The hold a guard object contributes. -/
def Guard.holds (g : Guard ι) : Multiset (Hold ι) :=
  if g.releases then {⟨g.id, g.exclusive⟩} else 0

/-- The holds of all guard objects. -/
def guardHolds (guards : List (Guard ι)) : Multiset (Hold ι) :=
  Roster.tally Guard.holds guards

theorem Guard.holds_of_releases {g : Guard ι} (h : g.releases = true) :
    g.holds = {⟨g.id, g.exclusive⟩} := by
  simp [Guard.holds, h]

theorem Guard.holds_of_not_releases {g : Guard ι}
    (h : g.releases = false) : g.holds = 0 := by
  simp [Guard.holds, h]

theorem hold_mem_guardHolds {guards : List (Guard ι)} {g : Guard ι}
    (hg : g ∈ guards) (h : g.releases = true) :
    (⟨g.id, g.exclusive⟩ : Hold ι) ∈ guardHolds guards :=
  Roster.mem_tally.mpr ⟨g, hg, by simp [Guard.holds_of_releases h]⟩

theorem guardHolds_set_of_not_releases {guards : List (Guard ι)} {i : ℕ}
    {g g' : Guard ι} (hg : guards[i]? = some g) (hold : g.releases = false)
    (hnew : g'.releases = false) :
    guardHolds (guards.set i g') = guardHolds guards := by
  refine Roster.tally_set_of_eq hg ?_
  rw [Guard.holds_of_not_releases hold, Guard.holds_of_not_releases hnew]

theorem guardHolds_set_of_release {guards : List (Guard ι)} {i : ℕ}
    {g g' : Guard ι} (hg : guards[i]? = some g) (hold : g.releases = true)
    (hnew : g'.releases = false) :
    guardHolds guards =
      ⟨g.id, g.exclusive⟩ ::ₘ guardHolds (guards.set i g') := by
  have hset := Roster.tally_set (f := Guard.holds) hg g'
  rw [Guard.holds_of_releases hold, Guard.holds_of_not_releases hnew,
    zero_add, Multiset.singleton_add] at hset
  exact hset.symm

/-- Moving a guard object into a slot that holds nothing keeps the holds. -/
theorem guardHolds_move {guards : List (Guard ι)} {dst src : ℕ}
    {g g' : Guard ι} (hne : dst ≠ src) (hdst : guards[dst]? = some g')
    (hsrc : guards[src]? = some g) (hempty : g'.releases = false) :
    guardHolds ((guards.set dst g).set src g.movedFrom) =
      guardHolds guards := by
  have hmoved : g.movedFrom.releases = false := by
    simp [Guard.movedFrom, Guard.releases]
  have hsrc' : (guards.set dst g)[src]? = some g := by
    rw [List.getElem?_set_ne hne, hsrc]
  have hin := Roster.tally_set (f := Guard.holds) hdst g
  have hout := Roster.tally_set (f := Guard.holds) hsrc' g.movedFrom
  rw [Guard.holds_of_not_releases hempty, zero_add] at hin
  rw [Guard.holds_of_not_releases hmoved, zero_add, hin] at hout
  exact add_left_cancel hout

section Sections

variable [DecidableEq ι]

/-- The thread is between `AcquireEntry` and `ReleaseEntry` for `id`, and no
guard object stands for its reference. -/
def Frame.refs (id : ι) : Frame ι → ℕ
  | .idle => 0
  | .attempt _ _ k _ => if k = id then 1 else 0
  | .failed _ k => if k = id then 1 else 0
  | .releasing _ k _ => if k = id then 1 else 0

/-- The guards that hold the lock of `id`. -/
def guardsOn (s : State ι) (id : ι) : ℕ :=
  (guardHolds s.guards).countP fun h => h.resource = id

/-- The threads between `AcquireEntry` and `ReleaseEntry` for `id`. -/
def threadsOn (s : State ι) (id : ι) : ℕ :=
  Roster.tally (Frame.refs id) s.threads

theorem threadsOn_set {threads : List (Frame ι)} {t : ℕ} {f : Frame ι}
    (hf : threads[t]? = some f) (f' : Frame ι) (id : ι) :
    f.refs id + Roster.tally (Frame.refs id) (threads.set t f') =
      f'.refs id + Roster.tally (Frame.refs id) threads :=
  Roster.tally_set hf f'

theorem one_le_threadsOn {threads : List (Frame ι)} {t : ℕ} {f : Frame ι}
    (hf : threads[t]? = some f) (id : ι) :
    f.refs id ≤ Roster.tally (Frame.refs id) threads := by
  have hset := threadsOn_set hf .idle id
  have hidle : (Frame.idle : Frame ι).refs id = 0 := rfl
  omega

end Sections

/-! ## The table -/

variable [DecidableEq ι] {p : Params ι}

/-- The entry records the holds and the references of `id`. -/
structure EntryOk (id : ι) (refs : ℕ) (holds : Multiset (Hold ι))
    (e : LockEntry) : Prop where
  refCount : e.refCount = refs
  referenced : 0 < refs
  readers : e.mutex.readers = holds.count ⟨id, false⟩
  writer : e.mutex.writer.toNat = holds.count ⟨id, true⟩

/-- The table holds one allocated entry for each referenced identifier. -/
structure TableOk (p : Params ι) (s : State ι) (refs : ι → ℕ)
    (holds : Multiset (Hold ι)) : Prop where
  home : ∀ k id entry, (s.shards k).lookup id = some entry →
    shardIndex p id = k
  absent : ∀ id, entryOf p s id = none →
    refs id = 0 ∧ ∀ h ∈ holds, h.resource ≠ id
  present : ∀ id entry, entryOf p s id = some entry →
    ∃ e, s.heap entry = some e ∧ EntryOk id (refs id) holds e
  apart : ∀ id id' entry, entryOf p s id = some entry →
    entryOf p s id' = some entry → id = id'

theorem entryOf_update_insert {s : State ι} {id : ι} {entry : Ptr} (id' : ι)
    {heap : Ptr → Option LockEntry} :
    entryOf p { s with
      shards := Function.update s.shards (shardIndex p id)
        ((s.shards (shardIndex p id)).insert id entry)
      heap := heap } id' =
      if id' = id then some entry else entryOf p s id' := by
  unfold entryOf
  by_cases hid : id' = id
  · subst hid
    simp [AList.lookup_insert]
  · by_cases hk : shardIndex p id' = shardIndex p id
    · simp [hk, hid, AList.lookup_insert_ne]
    · simp [hk, hid]

theorem entryOf_update_erase {s : State ι} {id : ι} (id' : ι)
    {heap : Ptr → Option LockEntry} :
    entryOf p { s with
      shards := Function.update s.shards (shardIndex p id)
        ((s.shards (shardIndex p id)).erase id)
      heap := heap } id' =
      if id' = id then none else entryOf p s id' := by
  unfold entryOf
  by_cases hid : id' = id
  · subst hid
    simp [AList.lookup_erase]
  · by_cases hk : shardIndex p id' = shardIndex p id
    · simp [hk, hid, AList.lookup_erase_ne]
    · simp [hk, hid]

section Sections

variable {s : State ι} {refs : ι → ℕ} {holds : Multiset (Hold ι)}

/-- The table does not depend on the guards and the threads. -/
theorem TableOk.of_eq (h : TableOk p s refs holds) {s' : State ι}
    (hshards : s'.shards = s.shards) (hheap : s'.heap = s.heap) :
    TableOk p s' refs holds := by
  have hentry : ∀ id, entryOf p s' id = entryOf p s id := by
    intro id
    simp [entryOf, hshards]
  refine ⟨?_, ?_, ?_, ?_⟩
  · rw [hshards]
    exact h.home
  · simpa only [hentry] using h.absent
  · simpa only [hentry, hheap] using h.present
  · simpa only [hentry] using h.apart

/-- Rewriting the entry of one identifier. -/
theorem TableOk.update_heap (h : TableOk p s refs holds) {id : ι}
    {entry : Ptr} (hentry : entryOf p s id = some entry) {e : LockEntry}
    {refs' : ι → ℕ} {holds' : Multiset (Hold ι)}
    (hok : EntryOk id (refs' id) holds' e)
    (hrefs : ∀ k, k ≠ id → refs' k = refs k)
    (hholds : ∀ x : Hold ι, x.resource ≠ id →
      holds'.count x = holds.count x) :
    TableOk p { s with heap := Function.update s.heap entry (some e) }
      refs' holds' := by
  refine ⟨h.home, ?_, ?_, h.apart⟩
  · intro k hk
    have hne : k ≠ id := by
      rintro rfl
      exact Option.some_ne_none entry (hentry.symm.trans hk)
    obtain ⟨hzero, hno⟩ := h.absent k hk
    refine ⟨by rw [hrefs k hne, hzero], fun x hx hres => ?_⟩
    have hpos := Multiset.count_pos.mpr hx
    rw [hholds x (hres ▸ hne)] at hpos
    exact hno x (Multiset.count_pos.mp hpos) hres
  · intro k entry' hk
    by_cases hne : k = id
    · subst hne
      obtain rfl : entry = entry' := Option.some.inj (hentry.symm.trans hk)
      exact ⟨e, by simp, hok⟩
    · have hentries : entry' ≠ entry := by
        rintro rfl
        exact hne (h.apart k id entry' hk hentry)
      obtain ⟨e', he', hok'⟩ := h.present k entry' hk
      refine ⟨e', by simpa [hentries] using he', ?_⟩
      refine ⟨by rw [hrefs k hne, hok'.refCount], ?_, ?_, ?_⟩
      · rw [hrefs k hne]
        exact hok'.referenced
      · rw [hholds _ (by simpa using hne), hok'.readers]
      · rw [hholds _ (by simpa using hne), hok'.writer]

/-- `AcquireEntry` adds one reference and never moves an entry. -/
theorem TableOk.acquireEntry (h : TableOk p s refs holds) {id : ι}
    {fresh entry : Ptr} {s' : State ι}
    (hacq : acquireEntry p s id fresh = some (entry, s'))
    {refs' : ι → ℕ} (hid : refs' id = refs id + 1)
    (hrefs : ∀ k, k ≠ id → refs' k = refs k) :
    TableOk p s' refs' holds ∧ entryOf p s' id = some entry ∧
      (∀ k e, entryOf p s k = some e → entryOf p s' k = some e) ∧
      s'.guards = s.guards ∧ s'.threads = s.threads := by
  unfold LockId.acquireEntry at hacq
  split at hacq
  · next old hold =>
    obtain ⟨e, he, heq⟩ := Option.map_eq_some_iff.mp hacq
    obtain ⟨rfl, rfl⟩ := Prod.mk.inj heq
    obtain ⟨e', he', hok⟩ := h.present id old hold
    obtain rfl : e = e' := Option.some.inj (he.symm.trans he')
    refine ⟨h.update_heap hold ?_ hrefs fun _ _ => rfl, hold,
      fun k e hk => hk, rfl, rfl⟩
    exact ⟨by rw [hid, ← hok.refCount], by omega, hok.readers, hok.writer⟩
  · next hnone =>
    split at hacq
    · next hfresh =>
      obtain ⟨rfl, rfl⟩ := Prod.mk.inj (Option.some.inj hacq)
      obtain ⟨hzero, hno⟩ := h.absent id hnone
      have hunused : ∀ k e, entryOf p s k = some e → e ≠ fresh := by
        rintro k e hk rfl
        obtain ⟨e', he', -⟩ := h.present k e hk
        exact Option.some_ne_none e' (he'.symm.trans hfresh)
      have hcount : ∀ b, holds.count ⟨id, b⟩ = 0 := fun b =>
        Multiset.count_eq_zero.mpr fun hmem => hno _ hmem rfl
      refine ⟨⟨?_, ?_, ?_, ?_⟩, ?_, ?_, rfl, rfl⟩
      · intro k id' e hk
        by_cases heq : k = shardIndex p id
        · by_cases hid' : id' = id
          · rw [heq, hid']
          · refine h.home k id' e ?_
            simpa [heq, AList.lookup_insert_ne hid'] using hk
        · exact h.home k id' e (by simpa [heq] using hk)
      · intro k hk
        rw [entryOf_update_insert] at hk
        by_cases hne : k = id
        · simp [hne] at hk
        · rw [if_neg hne] at hk
          rw [hrefs k hne]
          exact h.absent k hk
      · intro k e hk
        rw [entryOf_update_insert] at hk
        by_cases hne : k = id
        · subst hne
          rw [if_pos rfl, Option.some.injEq] at hk
          subst hk
          refine ⟨{ refCount := 1 }, by simp, ?_, ?_, ?_, ?_⟩
          · rw [hid, hzero]
          · omega
          · exact (hcount false).symm
          · exact (hcount true).symm
        · rw [if_neg hne] at hk
          obtain ⟨e', he', hok⟩ := h.present k e hk
          refine ⟨e', by simpa [hunused k e hk] using he', ?_⟩
          rw [hrefs k hne]
          exact hok
      · intro k k' e hk hk'
        rw [entryOf_update_insert] at hk hk'
        split at hk <;> split at hk'
        · next h₁ h₂ => rw [h₁, h₂]
        · rw [Option.some.injEq] at hk
          exact absurd hk.symm (hunused k' e hk')
        · rw [Option.some.injEq] at hk'
          exact absurd hk'.symm (hunused k e hk)
        · exact h.apart k k' e hk hk'
      · rw [entryOf_update_insert, if_pos rfl]
      · intro k e hk
        rw [entryOf_update_insert, if_neg, hk]
        rintro rfl
        exact Option.some_ne_none e (hk.symm.trans hnone)
    · cases hacq

theorem releaseEntry_guards (s : State ι) (id : ι) :
    (releaseEntry p s id).guards = s.guards := by
  unfold releaseEntry
  repeat' (split <;> try rfl)

theorem releaseEntry_threads (s : State ι) (id : ι) :
    (releaseEntry p s id).threads = s.threads := by
  unfold releaseEntry
  repeat' (split <;> try rfl)

/-- `ReleaseEntry` gives back one reference.  An entry goes away only with its
last reference, and no entry moves. -/
theorem TableOk.releaseEntry (h : TableOk p s refs holds) {id : ι}
    {refs' : ι → ℕ} (hid : refs id = refs' id + 1)
    (hrefs : ∀ k, k ≠ id → refs' k = refs k)
    (hlast : refs' id = 0 → ∀ x ∈ holds, x.resource ≠ id) :
    TableOk p (releaseEntry p s id) refs' holds ∧
      ∀ k e, entryOf p s k = some e → 0 < refs' k →
        entryOf p (releaseEntry p s id) k = some e := by
  unfold LockId.releaseEntry
  split
  · next hnone =>
    have hzero := (h.absent id hnone).1
    omega
  · next entry hentry =>
    obtain ⟨e, he, hok⟩ := h.present id entry hentry
    simp only [he]
    split
    · next hlastRef =>
      have hzero : refs' id = 0 := by
        have := hok.refCount
        omega
      have hother : ∀ k e, k ≠ id → entryOf p s k = some e → e ≠ entry := by
        rintro k e hne hk rfl
        exact hne (h.apart k id e hk hentry)
      refine ⟨⟨?_, ?_, ?_, ?_⟩, ?_⟩
      · intro k id' e' hk
        by_cases heq : k = shardIndex p id
        · by_cases hid' : id' = id
          · subst hid'
            simp [heq, AList.lookup_erase] at hk
          · refine h.home k id' e' ?_
            simpa [heq, AList.lookup_erase_ne hid'] using hk
        · exact h.home k id' e' (by simpa [heq] using hk)
      · intro k hk
        by_cases hne : k = id
        · subst hne
          exact ⟨hzero, hlast hzero⟩
        · rw [entryOf_update_erase, if_neg hne] at hk
          rw [hrefs k hne]
          exact h.absent k hk
      · intro k e' hk
        rw [entryOf_update_erase] at hk
        split at hk
        · cases hk
        · next hne =>
          obtain ⟨e'', he'', hok'⟩ := h.present k e' hk
          refine ⟨e'', by simpa [hother k e' hne hk] using he'', ?_⟩
          rw [hrefs k hne]
          exact hok'
      · intro k k' e' hk hk'
        rw [entryOf_update_erase] at hk hk'
        split at hk <;> split at hk'
        · cases hk
        · cases hk
        · cases hk'
        · exact h.apart k k' e' hk hk'
      · intro k e' hk hpos
        rw [entryOf_update_erase, if_neg, hk]
        rintro rfl
        omega
    · next hmore =>
      refine ⟨h.update_heap hentry ?_ hrefs fun _ _ => rfl,
        fun k e' hk _ => hk⟩
      have hcount := hok.refCount
      refine ⟨?_, ?_, hok.readers, hok.writer⟩
      · show e.refCount - 1 = refs' id
        omega
      · omega

/-- `ActiveEntryCount` is zero exactly when nothing is referenced. -/
theorem TableOk.activeEntryCount_eq_zero (h : TableOk p s refs holds)
    (hrefs : ∀ id, refs id = 0) : activeEntryCount p s = 0 := by
  unfold activeEntryCount
  refine List.sum_eq_zero fun n hn => ?_
  obtain ⟨k, -, rfl⟩ := List.mem_map.mp hn
  refine List.length_eq_zero_iff.mpr (List.eq_nil_iff_forall_not_mem.mpr ?_)
  rintro ⟨id, entry⟩ hmem
  have hlookup : (s.shards k).lookup id = some entry :=
    AList.mem_lookup_iff.mpr hmem
  have hentry : entryOf p s id = some entry := by
    rw [entryOf, h.home k id entry hlookup, hlookup]
  obtain ⟨e, -, hok⟩ := h.present id entry hentry
  have hpos := hok.referenced
  rw [hrefs id] at hpos
  exact absurd hpos (lt_irrefl 0)

end Sections

end Table

end LockId
end Yacul
