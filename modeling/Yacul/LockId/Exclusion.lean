import Yacul.LockId.Ledger
import Mathlib.Data.Multiset.Filter

/-!
# Entry lifetime and exclusion of the per-identifier lock

The table of entries agrees with the guard objects and the calls in progress
in every reachable state.  An entry therefore lives as long as anything refers
to it, all users of an identifier meet at one mutex, and the guards of an
identifier move by steps of a reader-writer lock.
-/

namespace Yacul
namespace LockId

open SharedExclusive

section Frames

variable {ι : Type*}

/-! ## Guards and calls in progress -/

/-- Every guard that holds its lock points to the entry of its identifier. -/
def GuardsOk (entry : ι → Option Ptr) (guards : List (Guard ι)) : Prop :=
  ∀ g ∈ guards, g.releases = true →
    ∃ e, g.mutex = some e ∧ entry g.id = some e

/-- The object in use by a call to `Release`. -/
def InRelease (guards : List (Guard ι)) (g : ℕ) : Prop :=
  ∃ guard, guards[g]? = some guard ∧ guard.busy = true ∧
    guard.releases = false

/-- The calls in progress use the entry of their identifier, and each guard
object is released by one thread at a time. -/
structure FramesOk (entry : ι → Option Ptr) (guards : List (Guard ι))
    (threads : List (Frame ι)) : Prop where
  attempts : ∀ (t : ℕ) call exclusive id e,
    threads[t]? = some (.attempt call exclusive id e) → entry id = some e
  releasing : ∀ (t : ℕ) g id source,
    threads[t]? = some (.releasing g id source) → InRelease guards g
  apart : ∀ (t t' : ℕ) g id id' source source',
    threads[t]? = some (.releasing g id source) →
      threads[t']? = some (.releasing g id' source') → t = t'

theorem getElem?_set_cases {α : Type*} {l : List α} {i j : ℕ} {x y : α}
    (h : (l.set i x)[j]? = some y) :
    (j = i ∧ y = x) ∨ (j ≠ i ∧ l[j]? = some y) := by
  by_cases hij : j = i
  · subst hij
    rw [List.getElem?_set_self'] at h
    obtain ⟨-, -, rfl⟩ := Option.map_eq_some_iff.mp h
    exact Or.inl ⟨rfl, rfl⟩
  · rw [List.getElem?_set_ne (Ne.symm hij)] at h
    exact Or.inr ⟨hij, h⟩

section Sections

variable {entry entry' : ι → Option Ptr} {guards guards' : List (Guard ι)}
  {threads : List (Frame ι)}

theorem GuardsOk.append (h : GuardsOk entry guards) {g : Guard ι}
    (hg : g.releases = true →
      ∃ e, g.mutex = some e ∧ entry g.id = some e) :
    GuardsOk entry (guards ++ [g]) := by
  intro k hk hrel
  rcases List.mem_append.mp hk with hk | hk
  · exact h k hk hrel
  · obtain rfl := List.mem_singleton.mp hk
    exact hg hrel

theorem GuardsOk.set (h : GuardsOk entry guards) {i : ℕ} {g : Guard ι}
    (hg : g.releases = true →
      ∃ e, g.mutex = some e ∧ entry g.id = some e) :
    GuardsOk entry (guards.set i g) := by
  intro k hk hrel
  rcases List.mem_or_eq_of_mem_set hk with hk | rfl
  · exact h k hk hrel
  · exact hg hrel

theorem GuardsOk.of_entry (h : GuardsOk entry guards)
    (he : ∀ g ∈ guards, g.releases = true → ∀ e, entry g.id = some e →
      entry' g.id = some e) : GuardsOk entry' guards := by
  intro g hg hrel
  obtain ⟨e, hmutex, hentry⟩ := h g hg hrel
  exact ⟨e, hmutex, he g hg hrel e hentry⟩

theorem FramesOk.of_entry (h : FramesOk entry guards threads)
    (he : ∀ (t : ℕ) call exclusive id e,
      threads[t]? = some (.attempt call exclusive id e) →
        entry id = some e → entry' id = some e) :
    FramesOk entry' guards threads where
  attempts t call exclusive id e ht :=
    he t call exclusive id e ht (h.attempts t call exclusive id e ht)
  releasing := h.releasing
  apart := h.apart

theorem FramesOk.of_guards (h : FramesOk entry guards threads)
    (hg : ∀ (t : ℕ) g id source,
      threads[t]? = some (.releasing g id source) → InRelease guards g →
        InRelease guards' g) :
    FramesOk entry guards' threads where
  attempts := h.attempts
  releasing t g id source ht :=
    hg t g id source ht (h.releasing t g id source ht)
  apart := h.apart

theorem FramesOk.append_guard (h : FramesOk entry guards threads)
    (g : Guard ι) : FramesOk entry (guards ++ [g]) threads := by
  apply h.of_guards
  rintro t i id source - ⟨guard, hguard, hbusy⟩
  refine ⟨guard, ?_, hbusy⟩
  rw [List.getElem?_append_left (List.getElem?_eq_some_iff.mp hguard).1, hguard]

/-- Rewriting an object that no call uses. -/
theorem FramesOk.set_guard (h : FramesOk entry guards threads) {i : ℕ}
    {g : Guard ι} (hg : guards[i]? = some g) (hbusy : g.busy = false)
    (g' : Guard ι) : FramesOk entry (guards.set i g') threads := by
  apply h.of_guards
  rintro t j id source - ⟨guard, hguard, hb⟩
  have hij : i ≠ j := by
    rintro rfl
    rw [hg] at hguard
    obtain rfl := Option.some.inj hguard
    simp [hbusy] at hb
  exact ⟨guard, by rw [List.getElem?_set_ne hij, hguard], hb⟩

theorem FramesOk.set_thread (h : FramesOk entry guards threads) {t : ℕ}
    {f : Frame ι}
    (hattempt : ∀ call exclusive id e, f = .attempt call exclusive id e →
      entry id = some e)
    (hreleasing : ∀ g id source, f = .releasing g id source →
      InRelease guards g ∧ ∀ (t' : ℕ) id' source',
        threads[t']? ≠ some (.releasing g id' source')) :
    FramesOk entry guards (threads.set t f) where
  attempts t' call exclusive id e ht' := by
    rcases getElem?_set_cases ht' with ⟨-, rfl⟩ | ⟨-, ht'⟩
    · exact hattempt call exclusive id e rfl
    · exact h.attempts t' call exclusive id e ht'
  releasing t' g id source ht' := by
    rcases getElem?_set_cases ht' with ⟨-, rfl⟩ | ⟨-, ht'⟩
    · exact (hreleasing g id source rfl).1
    · exact h.releasing t' g id source ht'
  apart t₁ t₂ g id id' source source' h₁ h₂ := by
    rcases getElem?_set_cases h₁ with ⟨heq₁, hf₁⟩ | ⟨-, h₁⟩
    · rcases getElem?_set_cases h₂ with ⟨heq₂, -⟩ | ⟨-, h₂⟩
      · exact heq₁.trans heq₂.symm
      · exact absurd h₂ ((hreleasing g id source hf₁.symm).2 t₂ id' source')
    · rcases getElem?_set_cases h₂ with ⟨heq, hf₂⟩ | ⟨-, h₂⟩
      · exact absurd h₁ ((hreleasing g id' source' hf₂.symm).2 t₁ id source)
      · exact h.apart t₁ t₂ g id id' source source' h₁ h₂

/-- Nobody else releases an object that was not in use. -/
theorem FramesOk.not_releasing (h : FramesOk entry guards threads) {g : ℕ}
    {guard : Guard ι} (hg : guards[g]? = some guard)
    (hbusy : guard.busy = false) (t : ℕ) (id : ι) (source : Option ℕ) :
    threads[t]? ≠ some (.releasing g id source) := by
  intro ht
  obtain ⟨guard', hg', hb, -⟩ := h.releasing t g id source ht
  obtain rfl : guard = guard' := Option.some.inj (hg.symm.trans hg')
  simp [hbusy] at hb

end Sections

/-- Two guards on one identifier are two holds of it. -/
theorem guardHolds_pair {guards : List (Guard ι)} {i j : ℕ} {g h : Guard ι}
    (hij : i ≠ j) (hi : guards[i]? = some g) (hj : guards[j]? = some h)
    (hg : g.releases = true) (hh : h.releases = true) :
    ∃ rest, guardHolds guards =
      ⟨g.id, g.exclusive⟩ ::ₘ ⟨h.id, h.exclusive⟩ ::ₘ rest := by
  have hmoved : ∀ k : Guard ι, k.movedFrom.releases = false := by
    simp [Guard.movedFrom, Guard.releases]
  have hj' : (guards.set i g.movedFrom)[j]? = some h := by
    rw [List.getElem?_set_ne hij, hj]
  refine ⟨guardHolds ((guards.set i g.movedFrom).set j h.movedFrom), ?_⟩
  rw [guardHolds_set_of_release hi hg (hmoved g),
    guardHolds_set_of_release hj' hh (hmoved h)]

theorem guardAt_eq_some {s : State ι} {g : ℕ} {guard : Guard ι}
    (h : guardAt s g = some guard) :
    s.guards[g]? = some guard ∧ guard.busy = false := by
  obtain ⟨hguard, hbusy⟩ := Option.filter_eq_some_iff.mp h
  exact ⟨hguard, by simpa using hbusy⟩

/-- The guards move by steps of a reader-writer lock. -/
def Refines (s s' : State ι) : Prop :=
  Relation.ReflTransGen (SharedExclusive.Step Eq)
    (guardHolds s.guards) (guardHolds s'.guards)

theorem refines_of_eq {s s' : State ι}
    (h : guardHolds s'.guards = guardHolds s.guards) : Refines s s' := by
  rw [Refines, h]

end Frames

section Steps

variable {ι : Type*} [DecidableEq ι] {p : Params ι}

/-! ## The invariant -/

/-- The references to `id`: guards that hold its lock and threads on the way
to or from it. -/
def references (s : State ι) (id : ι) : ℕ :=
  guardsOn s id + threadsOn s id

/-- The invariant of the lock. -/
structure Inv (p : Params ι) (s : State ι) : Prop where
  table : TableOk p s (references s) (guardHolds s.guards)
  guards : GuardsOk (entryOf p s) s.guards
  frames : FramesOk (entryOf p s) s.guards s.threads

theorem threadsOn_replicate (n : ℕ) (id : ι) :
    Roster.tally (Frame.refs id) (List.replicate n .idle) = 0 := by
  simp [Roster.tally, Frame.refs]

theorem inv_init (n : ℕ) : Inv p (init n) := by
  refine ⟨⟨?_, ?_, ?_, ?_⟩, ?_, ⟨?_, ?_, ?_⟩⟩
  · intro k id entry h
    cases h
  · intro id _
    refine ⟨?_, by simp [init, guardHolds]⟩
    simpa [references, guardsOn, guardHolds, init, threadsOn] using
      threadsOn_replicate n id
  · intro id entry h
    cases h
  · intro id id' entry h
    cases h
  · simp [init, GuardsOk]
  · intro t call exclusive id entry h
    simp [init, List.getElem?_replicate] at h
  · intro t g id source h
    simp [init, List.getElem?_replicate] at h
  · intro t t' g id id' source source' h
    simp [init, List.getElem?_replicate] at h

section Sections

variable {s : State ι}

/-- The guards on `id` and their holds. -/
theorem guardsOn_pos {g : Guard ι} (hg : g ∈ s.guards)
    (h : g.releases = true) : 0 < guardsOn s g.id :=
  Multiset.countP_pos.mpr ⟨_, hold_mem_guardHolds hg h, rfl⟩

theorem no_hold_of_guardsOn {id : ι} (h : guardsOn s id = 0) :
    ∀ x ∈ guardHolds s.guards, x.resource ≠ id :=
  Multiset.countP_eq_zero.mp h

theorem guardsOn_cons {guards : List (Guard ι)} {id : ι} {exclusive : Bool}
    {holds : Multiset (Hold ι)}
    (hx : guardHolds guards = ⟨id, exclusive⟩ ::ₘ holds) (k : ι) :
    (guardHolds guards).countP (fun h => h.resource = k) =
      holds.countP (fun h => h.resource = k) + if id = k then 1 else 0 := by
  rw [hx, Multiset.countP_cons]

theorem references_set_thread {t : ℕ} {f : Frame ι}
    (hf : s.threads[t]? = some f) (f' : Frame ι) (id : ι) :
    f.refs id + references { s with threads := s.threads.set t f' } id =
      f'.refs id + references s id := by
  have hset := threadsOn_set hf f' id
  simp only [references, guardsOn, threadsOn]
  omega

/-! ## Acquiring -/

theorem acquireEntry_inv (hs : Inv p s) {t : ℕ} {id : ι} {fresh entry : Ptr}
    {s' : State ι} (ht : s.threads[t]? = some .idle)
    (hacq : acquireEntry p s id fresh = some (entry, s')) (call : Call)
    (exclusive : Bool) :
    let s' := { s' with
      threads := s'.threads.set t (.attempt call exclusive id entry) }
    Inv p s' ∧ Refines s s' := by
  have hrefs := references_set_thread ht (.attempt call exclusive id entry)
  have hid : references { s with
      threads := s.threads.set t (.attempt call exclusive id entry) } id =
      references s id + 1 := by
    have h := hrefs id
    simp only [Frame.refs, if_true] at h
    omega
  have hother : ∀ k, k ≠ id → references { s with
      threads := s.threads.set t (.attempt call exclusive id entry) } k =
      references s k := by
    intro k hk
    have h := hrefs k
    simp only [Frame.refs, if_neg (Ne.symm hk)] at h
    omega
  obtain ⟨htable, hentry, hkeep, hguards, hthreads⟩ :=
    hs.table.acquireEntry hacq hid hother
  obtain ⟨shards, heap, guards, threads⟩ := s'
  simp only at hguards hthreads
  subst hguards hthreads
  refine ⟨⟨htable.of_eq rfl rfl, ?_, ?_⟩, .refl⟩
  · exact hs.guards.of_entry fun g _ _ e he => hkeep g.id e he
  · refine FramesOk.set_thread
      (hs.frames.of_entry fun _ _ _ k e _ he => hkeep k e he) ?_ ?_
    · rintro _ _ _ _ ⟨⟩
      exact hentry
    · rintro _ _ _ ⟨⟩

/-- Everything that holds `id` is compatible with a lock its mutex grants. -/
theorem compatible_of_free {id : ι} {exclusive : Bool} {e : LockEntry}
    {refs : ℕ} (hok : EntryOk id refs (guardHolds s.guards) e)
    (hfree : e.mutex.free exclusive = true) :
    ∀ k ∈ guardHolds s.guards,
      Compatible Eq (⟨id, exclusive⟩ : Hold ι) k := by
  rintro ⟨k, kex⟩ hk rfl
  simp only [SharedTimedMutex.free, Bool.and_eq_true, Bool.not_eq_true',
    Bool.or_eq_true, decide_eq_true_eq] at hfree
  obtain ⟨hwriter, hreaders⟩ := hfree
  have hnoWriter : kex = false := by
    cases kex with
    | false => rfl
    | true =>
        have hpos := Multiset.count_pos.mpr hk
        rw [← hok.writer, hwriter] at hpos
        exact absurd hpos (by decide)
  subst hnoWriter
  refine ⟨?_, rfl⟩
  rcases hreaders with hshared | hnone
  · exact hshared
  · have hpos := Multiset.count_pos.mpr hk
    rw [← hok.readers, hnone] at hpos
    exact absurd hpos (lt_irrefl 0)

theorem EntryOk.lock {id : ι} {exclusive : Bool} {e : LockEntry} {refs : ℕ}
    {holds : Multiset (Hold ι)} (hok : EntryOk id refs holds e)
    (hfree : e.mutex.free exclusive = true) :
    EntryOk id refs (⟨id, exclusive⟩ ::ₘ holds)
      { e with mutex := e.mutex.lock exclusive } := by
  have hreaders := hok.readers
  have hwriter := hok.writer
  refine ⟨hok.refCount, hok.referenced, ?_, ?_⟩
  · cases exclusive <;> simp [SharedTimedMutex.lock, hreaders]
  · have hfalse : e.mutex.writer = false := by
      simp only [SharedTimedMutex.free, Bool.and_eq_true,
        Bool.not_eq_true'] at hfree
      exact hfree.1
    rw [hfalse] at hwriter
    cases exclusive <;> simp [SharedTimedMutex.lock, hfalse, ← hwriter]

theorem EntryOk.unlock {id : ι} {exclusive : Bool} {e : LockEntry} {refs : ℕ}
    {holds : Multiset (Hold ι)}
    (hok : EntryOk id refs (⟨id, exclusive⟩ ::ₘ holds) e) :
    EntryOk id refs holds
      { e with mutex := e.mutex.unlock exclusive } := by
  have hreaders := hok.readers
  have hwriter := hok.writer
  refine ⟨hok.refCount, hok.referenced, ?_, ?_⟩
  · cases exclusive <;>
      simp_all [SharedTimedMutex.unlock]
  · cases exclusive with
    | false => simpa [SharedTimedMutex.unlock] using hwriter
    | true =>
        rw [Multiset.count_cons_self] at hwriter
        have hle := Bool.toNat_le e.mutex.writer
        simp only [SharedTimedMutex.unlock, if_true, Bool.toNat_false]
        omega

theorem count_cons_other {id : ι} {exclusive : Bool}
    (holds : Multiset (Hold ι)) {x : Hold ι} (hx : x.resource ≠ id) :
    (⟨id, exclusive⟩ ::ₘ holds).count x = holds.count x := by
  refine Multiset.count_cons_of_ne ?_ holds
  rintro rfl
  exact hx rfl

theorem lockMutex_inv (hs : Inv p s) {t : ℕ} {call : Call} {exclusive : Bool}
    {id : ι} {entry : Ptr} {e : LockEntry}
    (ht : s.threads[t]? = some (.attempt call exclusive id entry))
    (he : s.heap entry = some e) (hfree : e.mutex.free exclusive = true) :
    let s' := { s with
      heap := Function.update s.heap entry
        (some { e with mutex := e.mutex.lock exclusive })
      guards := s.guards ++ [acquiredGuard exclusive id entry]
      threads := s.threads.set t .idle }
    Inv p s' ∧ Refines s s' := by
  have hentry := hs.frames.attempts t call exclusive id entry ht
  obtain ⟨e', he', hok⟩ := hs.table.present id entry hentry
  obtain rfl : e = e' := Option.some.inj (he.symm.trans he')
  have hholds : guardHolds (s.guards ++ [acquiredGuard exclusive id entry]) =
      ⟨id, exclusive⟩ ::ₘ guardHolds s.guards := by
    have hrel : (acquiredGuard exclusive id entry).releases = true := rfl
    rw [guardHolds, Roster.tally_append, Roster.tally_cons, Roster.tally_nil,
      Guard.holds_of_releases hrel, add_zero, add_comm,
      Multiset.singleton_add]
    rfl
  intro s'
  have hrefs : ∀ k, references s' k = references s k := by
    intro k
    have hset := threadsOn_set ht .idle k
    have hcount := guardsOn_cons hholds k
    simp only [Frame.refs] at hset
    simp only [references, guardsOn, threadsOn, s']
    omega
  have hrefine : Refines s s' := by
    refine Relation.ReflTransGen.single ?_
    show SharedExclusive.Step Eq _ (guardHolds (s.guards ++ _))
    rw [hholds]
    exact .acquire (compatible_of_free hok hfree)
  refine ⟨⟨?_, ?_, ?_⟩, hrefine⟩
  · have hlocked : EntryOk id (references s' id) (guardHolds s'.guards)
        { e with mutex := e.mutex.lock exclusive } := by
      show EntryOk id _ (guardHolds (s.guards ++ _)) _
      rw [hholds, hrefs id]
      exact hok.lock hfree
    refine (hs.table.update_heap hentry hlocked (fun k _ => hrefs k)
      fun x hx => ?_).of_eq rfl rfl
    show (guardHolds (s.guards ++ _)).count x = _
    rw [hholds, count_cons_other _ hx]
  · exact hs.guards.append fun _ => ⟨entry, rfl, hentry⟩
  · refine (hs.frames.append_guard _).set_thread ?_ ?_
    · rintro _ _ _ _ ⟨⟩
    · rintro _ _ _ ⟨⟩

theorem tryFails_inv (hs : Inv p s) {t : ℕ} {call : Call}
    {exclusive : Bool} {id : ι} {entry : Ptr}
    (ht : s.threads[t]? = some (.attempt call exclusive id entry)) :
    Inv p { s with threads := s.threads.set t (.failed exclusive id) } := by
  have hrefs : references { s with
      threads := s.threads.set t (.failed exclusive id) } = references s := by
    funext k
    have hset := references_set_thread ht (.failed exclusive id) k
    simpa [Frame.refs] using hset
  refine ⟨?_, hs.guards, hs.frames.set_thread ?_ ?_⟩
  · rw [hrefs]
    exact hs.table.of_eq rfl rfl
  · rintro _ _ _ _ ⟨⟩
  · rintro _ _ _ ⟨⟩

/-! ## Giving references back -/

/-- A thread that referred to `id` runs `ReleaseEntry` and becomes idle. -/
theorem releaseEntry_inv (hs : Inv p s) {t : ℕ} {f : Frame ι} {id : ι}
    (ht : s.threads[t]? = some f)
    (hf : ∀ k, f.refs k = if id = k then 1 else 0) :
    Inv p { releaseEntry p s id with threads := s.threads.set t .idle } := by
  have hguards : (releaseEntry p s id).guards = s.guards :=
    releaseEntry_guards s id
  have hset := fun k => references_set_thread ht .idle k
  have hidle : ∀ k, (Frame.idle : Frame ι).refs k = 0 := fun _ => rfl
  simp only [hf, hidle, zero_add] at hset
  have hid := hset id
  rw [if_pos rfl, add_comm] at hid
  obtain ⟨htable, hkeep⟩ := hs.table.releaseEntry hid.symm
    (fun k hk => by
      have h := hset k
      rwa [if_neg (Ne.symm hk), zero_add] at h)
    (fun hzero => no_hold_of_guardsOn (Nat.eq_zero_of_add_eq_zero hzero).1)
  refine ⟨?_, ?_, ?_⟩
  · have hrefs : references { releaseEntry p s id with
        threads := s.threads.set t .idle } =
        references { s with threads := s.threads.set t .idle } := by
      funext k
      simp only [references, guardsOn, threadsOn, hguards]
    rw [hrefs]
    simp only [hguards]
    exact htable.of_eq rfl rfl
  · simp only [hguards]
    refine hs.guards.of_entry fun g hg hrel e he => hkeep g.id e he ?_
    have hpos := guardsOn_pos hg hrel
    exact Nat.lt_of_lt_of_le hpos (Nat.le_add_right _ _)
  · simp only [hguards]
    have hidle : FramesOk (entryOf p s) s.guards (s.threads.set t .idle) := by
      refine hs.frames.set_thread ?_ ?_
      · rintro _ _ _ _ ⟨⟩
      · rintro _ _ _ ⟨⟩
    refine hidle.of_entry fun t' call exclusive k e ht' he => hkeep k e he ?_
    have hle := one_le_threadsOn ht' k
    simp only [Frame.refs, if_true] at hle
    simp only [references, threadsOn]
    omega

/-- Guard objects may be added, moved and retired as long as the holds stay
the same. -/
theorem Inv.of_guards (hs : Inv p s) {guards : List (Guard ι)}
    (hholds : guardHolds guards = guardHolds s.guards)
    (hguards : GuardsOk (entryOf p s) guards)
    (hframes : FramesOk (entryOf p s) guards s.threads) :
    Inv p { s with guards := guards } := by
  have hrefs : references { s with guards := guards } = references s := by
    funext k
    simp only [references, guardsOn, threadsOn, hholds]
  refine ⟨?_, hguards, hframes⟩
  rw [hrefs]
  simp only [hholds]
  exact hs.table.of_eq rfl rfl

theorem Inv.append_empty (hs : Inv p s) {g : Guard ι}
    (hg : g.releases = false) :
    Inv p { s with guards := s.guards ++ [g] } := by
  refine hs.of_guards ?_ (hs.guards.append ?_) (hs.frames.append_guard g)
  · rw [guardHolds, Roster.tally_append, Roster.tally_cons, Roster.tally_nil,
      Guard.holds_of_not_releases hg, add_zero, add_zero, guardHolds]
  · simp [hg]

theorem Inv.set_empty (hs : Inv p s) {g : ℕ} {guard guard' : Guard ι}
    (hguard : s.guards[g]? = some guard) (hold : guard.releases = false)
    (hnew : guard'.releases = false)
    (halone : ∀ (t : ℕ) id source,
      s.threads[t]? ≠ some (.releasing g id source)) :
    Inv p { s with guards := s.guards.set g guard' } := by
  refine hs.of_guards (guardHolds_set_of_not_releases hguard hold hnew)
    (hs.guards.set (by simp [hnew])) (hs.frames.of_guards ?_)
  rintro t i id source ht ⟨other, hother, hbusy⟩
  have hne : g ≠ i := by
    rintro rfl
    exact halone t id source ht
  exact ⟨other, by rw [List.getElem?_set_ne hne, hother], hbusy⟩

/-- `Release` up to the unlock turns a guard on the identifier into a thread
on its way to `ReleaseEntry`. -/
theorem unlockGuard_inv (hs : Inv p s) {t g : ℕ} {guard : Guard ι}
    {source : Option ℕ} {s' : State ι} (ht : s.threads[t]? = some .idle)
    (hguard : s.guards[g]? = some guard) (hbusy : guard.busy = false)
    (hrel : guard.releases = true)
    (hstep : unlockGuard s t g guard source = some s') :
    Inv p s' ∧ Refines s s' := by
  obtain ⟨entry, hmutex, hrest⟩ := Option.bind_eq_some_iff.mp hstep
  obtain ⟨e, he, rfl⟩ := Option.map_eq_some_iff.mp hrest
  obtain ⟨entry', hmutex', hentry⟩ :=
    hs.guards guard (List.mem_of_getElem? hguard) hrel
  obtain rfl : entry = entry' :=
    Option.some.inj (hmutex.symm.trans hmutex')
  obtain ⟨e', he', hok⟩ := hs.table.present guard.id entry hentry
  obtain rfl : e = e' := Option.some.inj (he.symm.trans he')
  have hnew : ({ guard with ownsLock := false, busy := true } :
      Guard ι).releases = false := by simp [Guard.releases]
  have hholds := guardHolds_set_of_release hguard hrel hnew
  generalize hs' : ({ s with
    heap := Function.update s.heap entry
      (some { e with mutex := e.mutex.unlock guard.exclusive })
    guards := s.guards.set g { guard with ownsLock := false, busy := true }
    threads := s.threads.set t (.releasing g guard.id source) } :
      State ι) = s'
  have hrefs : ∀ k, references s' k = references s k := by
    intro k
    have hset := threadsOn_set ht (.releasing g guard.id source) k
    have hcount := guardsOn_cons hholds k
    simp only [Frame.refs] at hset
    simp only [references, guardsOn, threadsOn, ← hs']
    omega
  subst hs'
  refine ⟨⟨?_, ?_, ?_⟩, ?_⟩
  · rw [hholds] at hok
    refine (hs.table.update_heap hentry (e := { e with
      mutex := e.mutex.unlock guard.exclusive }) ?_ (fun k _ => hrefs k)
        fun x hx => ?_).of_eq rfl rfl
    · rw [hrefs]
      exact hok.unlock
    · rw [hholds, count_cons_other _ hx]
  · exact hs.guards.set (by simp [hnew])
  · refine (hs.frames.set_guard hguard hbusy _).set_thread ?_ ?_
    · rintro _ _ _ _ ⟨⟩
    · rintro _ _ _ ⟨⟩
      refine ⟨⟨_, List.getElem?_set_self ?_, rfl, hnew⟩,
        hs.frames.not_releasing hguard hbusy⟩
      exact (List.getElem?_eq_some_iff.mp hguard).1
  · refine Relation.ReflTransGen.single ?_
    rw [hholds]
    exact .release

/-! ## Moves -/

theorem transferGuard_inv (hs : Inv p s) {dst src : ℕ} {s' : State ι}
    (hempty : ∀ guard, s.guards[dst]? = some guard →
      guard.releases = false)
    (hstep : transferGuard s dst src = some s') :
    Inv p s' ∧ guardHolds s'.guards = guardHolds s.guards := by
  obtain ⟨dstGuard, hdst, hrest⟩ := Option.bind_eq_some_iff.mp hstep
  obtain ⟨srcGuard, hsrc, hrest⟩ := Option.bind_eq_some_iff.mp hrest
  obtain ⟨hdst, hdstFree⟩ := guardAt_eq_some hdst
  obtain ⟨hsrc, hsrcFree⟩ := guardAt_eq_some hsrc
  split at hrest
  · cases hrest
  · next hcheck =>
    obtain rfl := Option.some.inj hrest
    have hne : dst ≠ src := by
      rintro rfl
      simp at hcheck
    have hholds := guardHolds_move hne hdst hsrc (hempty dstGuard hdst)
    have hsrc' : (s.guards.set dst srcGuard)[src]? = some srcGuard := by
      rw [List.getElem?_set_ne hne, hsrc]
    refine ⟨hs.of_guards hholds ?_ ?_, hholds⟩
    · refine (hs.guards.set ?_).set ?_
      · exact hs.guards srcGuard (List.mem_of_getElem? hsrc)
      · simp [Guard.movedFrom, Guard.releases]
    · exact (hs.frames.set_guard hdst hdstFree srcGuard).set_guard hsrc'
        hsrcFree _

theorem moveConstruct_inv (hs : Inv p s) {g : ℕ} {guard : Guard ι}
    (hguard : s.guards[g]? = some guard) (hbusy : guard.busy = false) :
    Inv p { s with guards := s.guards.set g guard.movedFrom ++ [guard] } ∧
      guardHolds (s.guards.set g guard.movedFrom ++ [guard]) =
        guardHolds s.guards := by
  have hmoved : guard.movedFrom.releases = false := by
    simp [Guard.movedFrom, Guard.releases]
  have hholds : guardHolds (s.guards.set g guard.movedFrom ++ [guard]) =
      guardHolds s.guards := by
    have hset := Roster.tally_set (f := Guard.holds) hguard guard.movedFrom
    rw [Guard.holds_of_not_releases hmoved, zero_add] at hset
    rw [guardHolds, Roster.tally_append, Roster.tally_cons, Roster.tally_nil,
      add_zero, add_comm, hset, guardHolds]
  refine ⟨hs.of_guards hholds ?_ ?_, hholds⟩
  · refine (hs.guards.set (by simp [hmoved])).append ?_
    exact hs.guards guard (List.mem_of_getElem? hguard)
  · exact (hs.frames.set_guard hguard hbusy _).append_guard guard

/-! ## Every step -/

theorem releaseEntry_step_inv [Inhabited ι] (hs : Inv p s) {t : ℕ}
    {s' : State ι} (hstep : step p s (.releaseEntry t) = some s') :
    Inv p s' ∧ guardHolds s'.guards = guardHolds s.guards := by
  have hguards := fun id => releaseEntry_guards (p := p) s id
  have hthreads := fun id => releaseEntry_threads (p := p) s id
  simp only [step] at hstep
  split at hstep
  · next exclusive id ht =>
    obtain rfl := Option.some.inj hstep
    have hempty : (emptyGuard exclusive : Guard ι).releases = false := rfl
    have hreleased := releaseEntry_inv hs ht (fun _ => rfl)
    have hfinal := hreleased.append_empty hempty
    simp only [hguards, hthreads] at hfinal ⊢
    refine ⟨hfinal, ?_⟩
    rw [guardHolds, Roster.tally_append, Roster.tally_cons, Roster.tally_nil,
      Guard.holds_of_not_releases hempty, add_zero, add_zero, guardHolds]
  · next g id source ht =>
    obtain ⟨guard, hguard, hrest⟩ := Option.bind_eq_some_iff.mp hstep
    obtain ⟨guard', hguard', -, hold⟩ := hs.frames.releasing t g id source ht
    obtain rfl : guard = guard' := Option.some.inj (hguard.symm.trans hguard')
    have hnew : ({ guard with owner := false, busy := false } :
        Guard ι).releases = false := by simp [Guard.releases]
    have hreleased := releaseEntry_inv hs ht (fun _ => rfl)
    simp only [hguards] at hreleased
    have hdone := hreleased.set_empty hguard hold hnew (by
      intro t' id' source' ht'
      rcases getElem?_set_cases ht' with ⟨-, hidle⟩ | ⟨hne, ht'⟩
      · cases hidle
      · exact hne (hs.frames.apart t' t g id' id source' source ht' ht))
    simp only [hguards, hthreads] at hrest
    have hholds := guardHolds_set_of_not_releases hguard hold hnew
    cases source with
    | none =>
        obtain rfl := Option.some.inj hrest
        exact ⟨hdone, hholds⟩
    | some src =>
        obtain ⟨hinv, heq⟩ := transferGuard_inv hdone (by
          intro k hk
          rcases getElem?_set_cases hk with ⟨-, rfl⟩ | ⟨hne, -⟩
          · exact hnew
          · exact absurd rfl hne) hrest
        exact ⟨hinv, heq.trans hholds⟩
  · cases hstep

theorem step_inv [Inhabited ι] (hs : Inv p s) {a : Action ι} {s' : State ι}
    (hstep : step p s a = some s') : Inv p s' ∧ Refines s s' := by
  cases a with
  | acquireEntry t call exclusive id fresh =>
      simp only [step] at hstep
      split at hstep
      · next ht =>
        obtain ⟨⟨entry, s₁⟩, hacq, rfl⟩ := Option.map_eq_some_iff.mp hstep
        exact acquireEntry_inv hs ht hacq call exclusive
      · cases hstep
  | lockMutex t =>
      simp only [step] at hstep
      split at hstep
      · next call exclusive id entry ht =>
        obtain ⟨e, he, hrest⟩ := Option.bind_eq_some_iff.mp hstep
        split at hrest
        · next hfree =>
          obtain rfl := Option.some.inj hrest
          exact lockMutex_inv hs ht he hfree
        · cases hrest
      · cases hstep
  | tryFails t =>
      simp only [step] at hstep
      split at hstep
      · next call exclusive id entry ht =>
        split at hstep
        · cases hstep
        · obtain rfl := Option.some.inj hstep
          exact ⟨tryFails_inv hs ht, .refl⟩
      · cases hstep
  | releaseEntry t =>
      obtain ⟨hinv, hholds⟩ := releaseEntry_step_inv hs hstep
      exact ⟨hinv, refines_of_eq hholds⟩
  | release t g =>
      simp only [step] at hstep
      split at hstep
      · next ht =>
        obtain ⟨guard, hat, hrest⟩ := Option.bind_eq_some_iff.mp hstep
        obtain ⟨hguard, hbusy⟩ := guardAt_eq_some hat
        split at hrest
        · next hrel => exact unlockGuard_inv hs ht hguard hbusy hrel hrest
        · obtain rfl := Option.some.inj hrest
          exact ⟨hs, .refl⟩
      · cases hstep
  | moveConstruct t g =>
      simp only [step] at hstep
      split at hstep
      · obtain ⟨guard, hat, rfl⟩ := Option.map_eq_some_iff.mp hstep
        obtain ⟨hguard, hbusy⟩ := guardAt_eq_some hat
        obtain ⟨hinv, hholds⟩ := moveConstruct_inv hs hguard hbusy
        exact ⟨hinv, refines_of_eq hholds⟩
      · cases hstep
  | moveAssign t dst src =>
      simp only [step] at hstep
      split at hstep
      · next ht =>
        split at hstep
        · obtain rfl := Option.some.inj hstep
          exact ⟨hs, .refl⟩
        · obtain ⟨guard, hat, hrest⟩ := Option.bind_eq_some_iff.mp hstep
          obtain ⟨hguard, hbusy⟩ := guardAt_eq_some hat
          split at hrest
          · next hrel => exact unlockGuard_inv hs ht hguard hbusy hrel hrest
          · next hrel =>
            obtain ⟨hinv, hholds⟩ := transferGuard_inv hs (by
              intro k hk
              obtain rfl : guard = k := Option.some.inj (hguard.symm.trans hk)
              simpa using hrel) hrest
            exact ⟨hinv, refines_of_eq hholds⟩
      · cases hstep

theorem reachable_inv [Inhabited ι] (hs : Reachable p s) : Inv p s := by
  refine Transition.ReachableVia.invariant ?_ ?_ hs
  · rintro _ ⟨n, rfl⟩
    exact inv_init n
  · intro s a s' hinv _ hstep
    exact (step_inv hinv hstep).1

/-- The lock simulates a reader-writer lock on identifiers. -/
theorem simulates [Inhabited ι] :
    Transition.Simulates (step p) (Inv p)
      (fun s : State ι => guardHolds s.guards)
      (SharedExclusive.Step Eq) :=
  fun _ _ _ hs hstep => (step_inv hs hstep).2

theorem reachable_exclusion [Inhabited ι] (hs : Reachable p s) :
    Exclusion Eq (guardHolds s.guards) := by
  refine simulates.invariant (fun _ h => reachable_inv h) ?_ ?_ hs
  · rintro _ ⟨n, rfl⟩
    exact exclusion_zero
  · intro held held' hx hstep
    exact hx.step (fun _ _ h => h.symm) hstep

end Sections

end Steps

/-! ## The main theorem -/

section Main

variable {ι : Type*} [DecidableEq ι] [Inhabited ι]

/-- Entry lifetime and exclusion.  In every reachable state the reference
count of an entry is the number of guards on its identifier and of threads
between `AcquireEntry` and `ReleaseEntry`, an identifier has an entry exactly
as long as it is referenced, holders and waiters all point to that entry, an
exclusive guard is alone on its identifier, and nothing is left when no guard
and no call remains. -/
theorem reachable_entryLifetime (hasher : ι → UInt64) (numShards : UInt64)
    {s : State ι} (hs : Reachable (Params.construct hasher numShards) s) :
    let p := Params.construct hasher numShards
    (∀ id entry, entryOf p s id = some entry →
      ∃ e, s.heap entry = some e ∧
        e.refCount = guardsOn s id + threadsOn s id) ∧
    (∀ id, entryOf p s id = none ↔ guardsOn s id + threadsOn s id = 0) ∧
    (∀ g ∈ s.guards, g.releases = true →
      ∃ entry, g.mutex = some entry ∧ entryOf p s g.id = some entry) ∧
    (∀ (t : ℕ) call exclusive id entry,
      s.threads[t]? = some (.attempt call exclusive id entry) →
        entryOf p s id = some entry) ∧
    (∀ (i j : ℕ) (g h : Guard ι), i ≠ j → s.guards[i]? = some g →
      s.guards[j]? = some h → g.releases = true → h.releases = true →
      g.id = h.id → g.exclusive = false ∧ h.exclusive = false) ∧
    ((∀ g ∈ s.guards, g.releases = false) → (∀ f ∈ s.threads, f = .idle) →
      activeEntryCount p s = 0) := by
  intro p
  have hinv : Inv p s := reachable_inv hs
  refine ⟨?_, ?_, hinv.guards, hinv.frames.attempts, ?_, ?_⟩
  · intro id entry hentry
    obtain ⟨e, he, hok⟩ := hinv.table.present id entry hentry
    exact ⟨e, he, hok.refCount⟩
  · intro id
    constructor
    · intro hnone
      exact (hinv.table.absent id hnone).1
    · intro hzero
      by_contra hsome
      obtain ⟨entry, hentry⟩ := Option.ne_none_iff_exists'.mp hsome
      obtain ⟨e, -, hok⟩ := hinv.table.present id entry hentry
      exact hok.referenced.ne' hzero
  · intro i j g h hij hi hj hg hh hid
    obtain ⟨rest, hrest⟩ := guardHolds_pair hij hi hj hg hh
    exact reachable_exclusion hs _ _ rest hrest hid
  · intro hguards hthreads
    refine hinv.table.activeEntryCount_eq_zero fun id => ?_
    have hheld : guardHolds s.guards = 0 := by
      rw [guardHolds, Roster.tally_congr (g := fun _ => 0)
        fun g hg => Guard.holds_of_not_releases (hguards g hg)]
      simp [Roster.tally]
    have hidle : threadsOn s id = 0 := by
      rw [threadsOn, Roster.tally_congr (g := fun _ => 0)
        fun f hf => by rw [hthreads f hf, Frame.refs]]
      simp [Roster.tally]
    rw [references, guardsOn, hheld, hidle]
    rfl

/-- Two readers of one identifier, one of them moved into another object, and
a writer that waits for them. -/
def readersAndWriter : List (Action ℕ) :=
  [.acquireEntry 0 .lock false 7 100, .acquireEntry 1 .tryLock false 7 101,
   .lockMutex 1, .lockMutex 0, .moveConstruct 0 1,
   .acquireEntry 2 .lock true 7 101]

/-- A lock on numbers with the default shards. -/
def numberLock : Params ℕ :=
  Params.construct (fun n => n.toUInt64) 0

theorem readersAndWriter_runs :
    (Transition.run (step numberLock) (init 3) readersAndWriter).isSome =
      true := by decide

/-- The state after `readersAndWriter`. -/
def readersAndWriterState : State ℕ :=
  (Transition.run (step numberLock) (init 3) readersAndWriter).get
    readersAndWriter_runs

theorem reachable_entryLifetime_readersAndWriter :
    Reachable numberLock readersAndWriterState ∧
    ∃ e, readersAndWriterState.heap 100 = some e ∧ e.refCount = 3 := by
  have hreach : Reachable numberLock readersAndWriterState :=
    Transition.reachable_get_run (Set.mem_range_self 3) readersAndWriter_runs
  have hentry : entryOf numberLock readersAndWriterState 7 = some 100 := by
    decide
  have hcount : guardsOn readersAndWriterState 7 +
      threadsOn readersAndWriterState 7 = 3 := by decide
  have hlife := reachable_entryLifetime (fun n : ℕ => n.toUInt64) 0 hreach
  obtain ⟨e, he, href⟩ := hlife.1 7 100 hentry
  rw [hcount] at href
  exact ⟨hreach, e, he, href⟩

end Main

end LockId
end Yacul
