import Yacul.System.ProcStat

/-!
# How fresh the cached CPU information is

`GetCpuInfo` hands out the cached value while its stamp is not older than the
lifetime of the cache.  The stamp is set after the fields have been read, and
`GetCpuUsage` stamps the whole value anew although it replaces the tick
counters only.  Here every reading of the system carries its time.
-/

namespace Yacul
namespace SystemInfo

open Scanning

/-- Something that was read from the system at a time of the clock. -/
structure Dated (α : Type) where
  value : α
  read_at : ℤ
deriving DecidableEq, Repr

/-- The cache with the last reading of the clock.  `stats` is not there: it is
the text that `core_stats` of the cached value is from. -/
structure Timed (τ : Type) where
  impl : Impl (Dated τ)
  clock : ℤ
  stats : Dated Text
deriving DecidableEq, Repr

/-- The sections under `cpu_mutex`, with the times of what each reads. -/
inductive TimedAction (τ : Type)
  | getCpuInfo (reading : Reading (Dated τ)) (stat_read_at : ℤ)
  | getCpuUsage (before : Text) (after : Dated Text)
      (reading : Reading (Dated τ)) (stat_read_at : ℤ)
  | refresh (reading : Reading (Dated τ)) (stat_read_at : ℤ)
  | invalidateCache
deriving DecidableEq, Repr

section

variable {τ : Type}

/-- The action without the times of the texts. -/
def TimedAction.untimed : TimedAction τ → Action (Dated τ)
  | .getCpuInfo reading _ => .getCpuInfo reading
  | .getCpuUsage before after reading _ =>
      .getCpuUsage before after.value reading
  | .refresh reading _ => .refresh reading
  | .invalidateCache => .invalidateCache

/-- The clock does not go back.  `FetchCpuInfo` reads `/proc/stat` last. -/
def Reading.InOrder (reading : Reading (Dated τ)) (stat_read_at clock : ℤ) :
    Prop :=
  clock ≤ reading.checked_at ∧ reading.checked_at ≤ reading.topology.read_at ∧
    reading.topology.read_at ≤ stat_read_at ∧
    stat_read_at ≤ reading.stored_at

instance (reading : Reading (Dated τ)) (stat_read_at clock : ℤ) :
    Decidable (reading.InOrder stat_read_at clock) := by
  unfold Reading.InOrder
  exact inferInstance

/-- The times of an action are in order.  `after` is read without the mutex,
at any time before the stamp. -/
def TimedAction.InOrder (clock : ℤ) : TimedAction τ → Prop
  | .getCpuInfo reading stat_read_at => reading.InOrder stat_read_at clock
  | .getCpuUsage _ after reading stat_read_at =>
      reading.InOrder stat_read_at clock ∧ after.read_at ≤ reading.stored_at
  | .refresh reading stat_read_at => reading.InOrder stat_read_at clock
  | .invalidateCache => True

instance (clock : ℤ) : (action : TimedAction τ) →
    Decidable (action.InOrder clock)
  | .getCpuInfo reading stat_read_at =>
      inferInstanceAs (Decidable (reading.InOrder stat_read_at clock))
  | .getCpuUsage _ after reading stat_read_at =>
      inferInstanceAs (Decidable (reading.InOrder stat_read_at clock ∧
        after.read_at ≤ reading.stored_at))
  | .refresh reading stat_read_at =>
      inferInstanceAs (Decidable (reading.InOrder stat_read_at clock))
  | .invalidateCache => .isTrue trivial

/-- The last reading of the clock in an action. -/
def Timed.clockAfter (s : Timed τ) : TimedAction τ → ℤ
  | .getCpuInfo reading _ =>
      if s.impl.cpu_cache.isStale s.impl.cache_ttl reading.checked_at then
        reading.stored_at
      else reading.checked_at
  | .getCpuUsage _ _ reading _ => reading.stored_at
  | .refresh reading _ => reading.stored_at
  | .invalidateCache => s.clock

/-- The text that `core_stats` is from after an action. -/
def Timed.statsAfter (s : Timed τ) : TimedAction τ → Dated Text
  | .getCpuInfo reading stat_read_at =>
      if s.impl.cpu_cache.isStale s.impl.cache_ttl reading.checked_at then
        ⟨reading.stat, stat_read_at⟩
      else s.stats
  | .getCpuUsage _ after _ _ => after
  | .refresh reading stat_read_at => ⟨reading.stat, stat_read_at⟩
  | .invalidateCache => s.stats

/-- One section, if its times are in order. -/
def Timed.step (s : Timed τ) (action : TimedAction τ) : Option (Timed τ) :=
  if action.InOrder s.clock then
    (SystemInfo.step s.impl action.untimed).map fun impl =>
      { impl := impl
        clock := s.clockAfter action
        stats := s.statsAfter action }
  else none

/-- The object after its construction. -/
def Timed.init (cache_ttl : ℤ) (topology : Dated τ) (stat : Dated Text) :
    Timed τ where
  impl := Impl.init cache_ttl topology stat.value
  clock := stat.read_at
  stats := stat

end

section

variable {τ : Type} {s s' : Timed τ} {action : TimedAction τ} {delay : ℤ}

/-! ## The text behind the counters -/

/-- `core_stats` of a valid value is what `ParseProcStat` makes of `stats`. -/
def StatsOf (s : Timed τ) : Prop :=
  s.impl.cpu_cache.valid = true →
    s.impl.cpu_cache.value.core_stats = parseProcStat s.stats.value

theorem Timed.step_eq_some (h : s.step action = some s') :
    action.InOrder s.clock ∧
      SystemInfo.step s.impl action.untimed = some s'.impl ∧
      s'.clock = s.clockAfter action ∧ s'.stats = s.statsAfter action := by
  unfold Timed.step at h
  split at h
  · next horder =>
    obtain ⟨impl, himpl, rfl⟩ := Option.map_eq_some_iff.mp h
    exact ⟨horder, himpl, rfl, rfl⟩
  · cases h

theorem statsOf_step (hs : StatsOf s) (h : s.step action = some s') :
    StatsOf s' := by
  obtain ⟨-, himpl, -, hstats⟩ := Timed.step_eq_some h
  unfold StatsOf
  rw [hstats]
  cases action with
  | getCpuInfo reading stat_read_at =>
      rw [← Option.some.inj himpl]
      cases hstale : s.impl.cpu_cache.isStale s.impl.cache_ttl
          reading.checked_at with
      | true =>
          rw [Impl.getCpuInfo_of_stale hstale, Timed.statsAfter, if_pos hstale]
          intro _
          rfl
      | false =>
          rw [Impl.getCpuInfo_of_fresh hstale, Timed.statsAfter, hstale]
          exact hs
  | getCpuUsage before after reading stat_read_at =>
      rw [← Option.some.inj himpl]
      intro _
      rfl
  | refresh reading stat_read_at =>
      rw [← Option.some.inj himpl]
      intro _
      rfl
  | invalidateCache =>
      rw [← Option.some.inj himpl]
      intro hvalid
      exact Bool.noConfusion hvalid

/-! ## Freshness -/

/-- Whenever from now on the cached value is judged fresh, its fields have
been read within the lifetime of the cache. -/
def Fresh (s : Timed τ) : Prop :=
  ∀ now, s.clock ≤ now →
    s.impl.cpu_cache.isStale s.impl.cache_ttl now = false →
      now - s.impl.cache_ttl ≤ s.impl.cpu_cache.value.topology.read_at ∧
        now - s.impl.cache_ttl ≤ s.stats.read_at

/-- Whatever an action stamps has been read at the time of the stamp. -/
def StampsFresh (s : Timed τ) : TimedAction τ → Prop
  | .getCpuInfo reading stat_read_at =>
      s.impl.cpu_cache.isStale s.impl.cache_ttl reading.checked_at = true →
        reading.stored_at ≤ reading.topology.read_at ∧
          reading.stored_at ≤ stat_read_at
  | .getCpuUsage _ after reading _ =>
      (if s.impl.cpu_cache.valid then
        reading.stored_at ≤ s.impl.cpu_cache.value.topology.read_at
      else reading.stored_at ≤ reading.topology.read_at) ∧
        reading.stored_at ≤ after.read_at
  | .refresh reading stat_read_at =>
      reading.stored_at ≤ reading.topology.read_at ∧
        reading.stored_at ≤ stat_read_at
  | .invalidateCache => True

/-- The same with fields that have been read up to `delay` earlier. -/
def FreshWithin (delay : ℤ) (s : Timed τ) : Prop :=
  ∀ now, s.clock ≤ now →
    s.impl.cpu_cache.isStale s.impl.cache_ttl now = false →
      now - s.impl.cache_ttl - delay ≤
          s.impl.cpu_cache.value.topology.read_at ∧
        now - s.impl.cache_ttl - delay ≤ s.stats.read_at

/-- Whatever an action stamps has been read within `delay` of the stamp: a
fetch takes no longer, and `GetCpuUsage` finds no value with older fields. -/
def StampsWithin (delay : ℤ) (s : Timed τ) : TimedAction τ → Prop
  | .getCpuInfo reading stat_read_at =>
      s.impl.cpu_cache.isStale s.impl.cache_ttl reading.checked_at = true →
        reading.stored_at - delay ≤ reading.topology.read_at ∧
          reading.stored_at - delay ≤ stat_read_at
  | .getCpuUsage _ after reading _ =>
      (if s.impl.cpu_cache.valid then
        reading.stored_at - delay ≤ s.impl.cpu_cache.value.topology.read_at
      else reading.stored_at - delay ≤ reading.topology.read_at) ∧
        reading.stored_at - delay ≤ after.read_at
  | .refresh reading stat_read_at =>
      reading.stored_at - delay ≤ reading.topology.read_at ∧
        reading.stored_at - delay ≤ stat_read_at
  | .invalidateCache => True

instance (delay : ℤ) (s : Timed τ) : (action : TimedAction τ) →
    Decidable (StampsWithin delay s action)
  | .getCpuInfo reading stat_read_at =>
      inferInstanceAs (Decidable
        (s.impl.cpu_cache.isStale s.impl.cache_ttl reading.checked_at = true →
          reading.stored_at - delay ≤ reading.topology.read_at ∧
            reading.stored_at - delay ≤ stat_read_at))
  | .getCpuUsage _ after reading _ =>
      inferInstanceAs (Decidable
        ((if s.impl.cpu_cache.valid then
          reading.stored_at - delay ≤ s.impl.cpu_cache.value.topology.read_at
        else reading.stored_at - delay ≤ reading.topology.read_at) ∧
          reading.stored_at - delay ≤ after.read_at))
  | .refresh reading stat_read_at =>
      inferInstanceAs (Decidable
        (reading.stored_at - delay ≤ reading.topology.read_at ∧
          reading.stored_at - delay ≤ stat_read_at))
  | .invalidateCache => .isTrue trivial

theorem freshWithin_zero : FreshWithin 0 s ↔ Fresh s := by
  simp only [FreshWithin, Fresh, Int.sub_zero]

theorem stampsWithin_zero : StampsWithin 0 s action ↔ StampsFresh s action := by
  cases action <;> simp only [StampsWithin, StampsFresh, Int.sub_zero]

theorem isStale_eq_false_iff {α : Type} {entry : CacheEntry α} {ttl now : ℤ} :
    entry.isStale ttl now = false ↔
      entry.valid = true ∧ ttl ≠ 0 ∧ now - entry.fetched_at ≤ ttl := by
  cases hvalid : entry.valid with
  | false => simp [CacheEntry.isStale, hvalid]
  | true =>
      by_cases hzero : ttl = 0
      · simp [CacheEntry.isStale, hvalid, hzero]
      · simp [CacheEntry.isStale, hvalid, hzero]

/-- A value that has just been stamped stays as fresh as its stamp says if its
fields are not much older than the stamp. -/
theorem freshWithin_of_stamp_iff (httl : 0 < s.impl.cache_ttl)
    (hvalid : s.impl.cpu_cache.valid = true)
    (hstamp : s.impl.cpu_cache.fetched_at = s.clock) :
    FreshWithin delay s ↔
      s.clock - delay ≤ s.impl.cpu_cache.value.topology.read_at ∧
        s.clock - delay ≤ s.stats.read_at := by
  constructor
  · intro hfresh
    -- The last moment at which the value is judged fresh.
    have hlast := hfresh (s.clock + s.impl.cache_ttl) (by omega)
      (isStale_eq_false_iff.mpr ⟨hvalid, httl.ne', by omega⟩)
    rwa [Int.add_sub_cancel] at hlast
  · rintro ⟨htopology, hstats⟩ now hnow hjudged
    obtain ⟨-, -, hage⟩ := isStale_eq_false_iff.mp hjudged
    exact ⟨by omega, by omega⟩

theorem FreshWithin.mono (hs : FreshWithin delay s) (himpl : s'.impl = s.impl)
    (hstats : s'.stats = s.stats) (hclock : s.clock ≤ s'.clock) :
    FreshWithin delay s' := by
  intro now hnow hjudged
  rw [himpl] at hjudged
  rw [himpl, hstats]
  exact hs now (hclock.trans hnow) hjudged

/-- A value that is not valid is never judged fresh. -/
theorem freshWithin_of_invalid (h : s.impl.cpu_cache.valid = false) :
    FreshWithin delay s := by
  intro now _ hjudged
  have hvalid := (isStale_eq_false_iff.mp hjudged).1
  rw [h] at hvalid
  cases hvalid

theorem cache_ttl_step (h : s.step action = some s') :
    s'.impl.cache_ttl = s.impl.cache_ttl := by
  obtain ⟨-, himpl, -, -⟩ := Timed.step_eq_some h
  cases action with
  | getCpuInfo reading stat_read_at =>
      rw [← Option.some.inj himpl]
      unfold Impl.getCpuInfo
      split
      · rfl
      · rfl
  | getCpuUsage before after reading stat_read_at =>
      rw [← Option.some.inj himpl]
      unfold Impl.getCpuUsage
      dsimp only
      split
      · rfl
      · rfl
  | refresh reading stat_read_at => rw [← Option.some.inj himpl]; rfl
  | invalidateCache => rw [← Option.some.inj himpl]; rfl

theorem topology_withUsage {τ : Type} (info : CpuInfo τ)
    (current previous : List CpuCoreStats) :
    (info.withUsage current previous).topology = info.topology := by
  unfold CpuInfo.withUsage
  split
  · rfl
  · rfl

theorem topology_refresh {τ : Type} (impl : Impl τ) (reading : Reading τ) :
    (impl.refresh reading).cpu_cache.value.topology = reading.topology :=
  topology_withUsage _ _ _

/-- The topology stays in the cache as long as the cache is valid. -/
theorem topology_getCpuUsage {τ : Type} (impl : Impl τ) (before after : Text)
    (reading : Reading τ) :
    (impl.getCpuUsage before after reading).2.cpu_cache.value.topology =
      if impl.cpu_cache.valid then impl.cpu_cache.value.topology
      else reading.topology := by
  cases hvalid : impl.cpu_cache.valid with
  | true =>
      simp [Impl.getCpuUsage, hvalid, CacheEntry.set, topology_withUsage]
  | false =>
      simp [Impl.getCpuUsage, hvalid, CacheEntry.set, topology_withUsage,
        Impl.fetchCpuInfo]

/-- A fetch. -/
theorem freshWithin_refresh_iff {reading : Reading (Dated τ)} {stat_read_at : ℤ}
    (httl : 0 < s'.impl.cache_ttl) (himpl : s.impl.refresh reading = s'.impl)
    (hclock : s'.clock = reading.stored_at)
    (hstats : s'.stats = ⟨reading.stat, stat_read_at⟩) :
    FreshWithin delay s' ↔
      reading.stored_at - delay ≤ reading.topology.read_at ∧
        reading.stored_at - delay ≤ stat_read_at := by
  rw [freshWithin_of_stamp_iff httl (by rw [← himpl]; rfl)
    (by rw [← himpl, hclock]; rfl), hclock, hstats, ← himpl, topology_refresh]

/-- One step keeps the value fresh exactly if what it stamps is fresh. -/
theorem freshWithin_step_iff (httl : 0 < s.impl.cache_ttl)
    (hs : FreshWithin delay s) (h : s.step action = some s') :
    FreshWithin delay s' ↔ StampsWithin delay s action := by
  have httl' : 0 < s'.impl.cache_ttl := by rwa [cache_ttl_step h]
  obtain ⟨horder, himpl, hclock, hstats⟩ := Timed.step_eq_some h
  cases action with
  | getCpuInfo reading stat_read_at =>
      have himpl' := Option.some.inj himpl
      cases hstale : s.impl.cpu_cache.isStale s.impl.cache_ttl
          reading.checked_at with
      | true =>
          rw [Impl.getCpuInfo_of_stale hstale] at himpl'
          rw [Timed.clockAfter, if_pos hstale] at hclock
          rw [Timed.statsAfter, if_pos hstale] at hstats
          rw [freshWithin_refresh_iff httl' himpl' hclock hstats, StampsWithin,
            imp_iff_right hstale]
      | false =>
          have hjudged := Bool.eq_false_iff.mp hstale
          rw [Impl.getCpuInfo_of_fresh hstale] at himpl'
          rw [Timed.clockAfter, if_neg hjudged] at hclock
          rw [Timed.statsAfter, if_neg hjudged] at hstats
          exact iff_of_true
            (hs.mono himpl'.symm hstats (hclock ▸ horder.1))
            fun hstale' => absurd hstale' hjudged
  | getCpuUsage before after reading stat_read_at =>
      have himpl' := Option.some.inj himpl
      have hstamped : FreshWithin delay s' ↔
          s'.clock - delay ≤ s'.impl.cpu_cache.value.topology.read_at ∧
            s'.clock - delay ≤ s'.stats.read_at :=
        freshWithin_of_stamp_iff httl' (by rw [← himpl']; rfl)
          (by rw [← himpl', hclock]; rfl)
      rw [hstamped, hclock, hstats, ← himpl', topology_getCpuUsage]
      unfold StampsWithin
      split
      · rfl
      · rfl
  | refresh reading stat_read_at =>
      exact freshWithin_refresh_iff httl' (Option.some.inj himpl) hclock hstats
  | invalidateCache =>
      refine iff_of_true (freshWithin_of_invalid ?_) trivial
      rw [← Option.some.inj himpl]
      rfl

/-- After `GetCpuInfo` the cached value is the one that it has handed out, and
is judged fresh at that time. -/
theorem getCpuInfo_cached {reading : Reading (Dated τ)} {stat_read_at : ℤ}
    (httl : 0 < s.impl.cache_ttl)
    (h : s.step (.getCpuInfo reading stat_read_at) = some s') :
    (s.impl.getCpuInfo reading).1 = s'.impl.cpu_cache.value ∧
      s'.impl.cpu_cache.isStale s'.impl.cache_ttl s'.clock = false := by
  obtain ⟨-, himpl, hclock, -⟩ := Timed.step_eq_some h
  rw [← Option.some.inj himpl, hclock, Timed.clockAfter]
  cases hstale : s.impl.cpu_cache.isStale s.impl.cache_ttl
      reading.checked_at with
  | true =>
      rw [Impl.getCpuInfo_of_stale hstale, if_pos rfl]
      refine ⟨rfl, isStale_eq_false_iff.mpr ⟨rfl, httl.ne', ?_⟩⟩
      change reading.stored_at - reading.stored_at ≤ s.impl.cache_ttl
      omega
  | false =>
      rw [Impl.getCpuInfo_of_fresh hstale, if_neg Bool.false_ne_true]
      exact ⟨rfl, hstale⟩

/-- What `GetCpuInfo` hands out in a run that stamps what has been read within
`delay`: its fields have been read within the lifetime of the cache and
`delay` before the value was judged fresh, or fetched. -/
theorem getCpuInfo_freshWithin {cache_ttl : ℤ} (httl : 0 < cache_ttl)
    {topology : Dated τ} {stat : Dated Text}
    (hs : Transition.ReachableVia Timed.step (StampsWithin delay)
      {Timed.init cache_ttl topology stat} s)
    {reading : Reading (Dated τ)} {stat_read_at : ℤ}
    (hstamps : StampsWithin delay s (.getCpuInfo reading stat_read_at))
    (h : s.step (.getCpuInfo reading stat_read_at) = some s') :
    (s.impl.getCpuInfo reading).1.core_stats = parseProcStat s'.stats.value ∧
      s'.clock - cache_ttl - delay ≤
        (s.impl.getCpuInfo reading).1.topology.read_at ∧
      s'.clock - cache_ttl - delay ≤ s'.stats.read_at := by
  have hinv : s'.impl.cache_ttl = cache_ttl ∧ FreshWithin delay s' ∧
      StatsOf s' := by
    refine (hs.next hstamps h).invariant (I := fun s =>
      s.impl.cache_ttl = cache_ttl ∧ FreshWithin delay s ∧ StatsOf s) ?_ ?_
    · rintro s rfl
      exact ⟨rfl, freshWithin_of_invalid rfl,
        fun hvalid => Bool.noConfusion hvalid⟩
    · rintro s action s' ⟨httl, hfresh, hstats⟩ hstamps hstep
      have hpos : 0 < s.impl.cache_ttl := by rwa [httl]
      exact ⟨(cache_ttl_step hstep).trans httl,
        (freshWithin_step_iff hpos hfresh hstep).mpr hstamps,
        statsOf_step hstats hstep⟩
  obtain ⟨httl, hfresh, hstats⟩ := hinv
  have hpos : 0 < s.impl.cache_ttl := by rwa [← cache_ttl_step h, httl]
  obtain ⟨hvalue, hjudged⟩ := getCpuInfo_cached hpos h
  rw [hvalue, ← httl]
  exact ⟨hstats (isStale_eq_false_iff.mp hjudged).1,
    hfresh s'.clock le_rfl hjudged⟩

/-- Without a delay they have been read within the lifetime. -/
theorem getCpuInfo_fresh {cache_ttl : ℤ} (httl : 0 < cache_ttl)
    {topology : Dated τ} {stat : Dated Text}
    (hs : Transition.ReachableVia Timed.step StampsFresh
      {Timed.init cache_ttl topology stat} s)
    {reading : Reading (Dated τ)} {stat_read_at : ℤ}
    (hstamps : StampsFresh s (.getCpuInfo reading stat_read_at))
    (h : s.step (.getCpuInfo reading stat_read_at) = some s') :
    (s.impl.getCpuInfo reading).1.core_stats = parseProcStat s'.stats.value ∧
      s'.clock - cache_ttl ≤
        (s.impl.getCpuInfo reading).1.topology.read_at ∧
      s'.clock - cache_ttl ≤ s'.stats.read_at := by
  have hnow := getCpuInfo_freshWithin httl
    (hs.mono fun _ _ => stampsWithin_zero.mpr) (stampsWithin_zero.mpr hstamps) h
  rwa [Int.sub_zero] at hnow

/-- Along a run the values that `GetCpuInfo` judges fresh are as fresh as the
lifetime and `delay` say exactly as long as everything that is stamped has
been read within `delay` of the stamp. -/
theorem freshWithin_iff {cache_ttl : ℤ} (httl : 0 < cache_ttl)
    (topology : Dated τ) (stat : Dated Text)
    (actions : List (TimedAction τ)) :
    Transition.AllStates Timed.step (FreshWithin delay)
        (Timed.init cache_ttl topology stat) actions ↔
      Transition.AllSteps Timed.step (StampsWithin delay)
        (Timed.init cache_ttl topology stat) actions := by
  refine Transition.allStates_iff_allSteps
    (I := fun s => 0 < s.impl.cache_ttl) ?_ httl
    (freshWithin_of_invalid rfl) actions
  intro s action s' hpos hs h
  refine ⟨?_, freshWithin_step_iff hpos hs h⟩
  rwa [cache_ttl_step h]

/-- Along a run the values that `GetCpuInfo` judges fresh are fresh exactly as
long as everything that is stamped has been read at the time of the stamp. -/
theorem fresh_iff {cache_ttl : ℤ} (httl : 0 < cache_ttl) (topology : Dated τ)
    (stat : Dated Text) (actions : List (TimedAction τ)) :
    Transition.AllStates Timed.step Fresh
        (Timed.init cache_ttl topology stat) actions ↔
      Transition.AllSteps Timed.step StampsFresh
        (Timed.init cache_ttl topology stat) actions := by
  have hfresh : (FreshWithin 0 : Timed τ → Prop) = Fresh :=
    funext fun _ => propext freshWithin_zero
  have hstamps : (StampsWithin 0 : Timed τ → TimedAction τ → Prop) =
      StampsFresh :=
    funext fun _ => funext fun _ => propext stampsWithin_zero
  rw [← hfresh, ← hstamps]
  exact freshWithin_iff httl topology stat actions

end

/-! ## A stamp after the reading -/

/-- A fetch that takes 5, and another one when its value is stale. -/
def slowFetches : List (TimedAction Unit) :=
  [.getCpuInfo ⟨⟨(), 0⟩, [], 0, 5⟩ 3,
    .getCpuInfo ⟨⟨(), 1010⟩, [], 1010, 1015⟩ 1013]

example : Transition.AllStates Timed.step (FreshWithin 5)
    (Timed.init 1000 ⟨(), 0⟩ ⟨[], 0⟩) slowFetches :=
  (freshWithin_iff (by decide) _ _ _).mpr (by decide)

/-! ## A stamp without a reading -/

/-- Everything is read and stamped at one time. -/
def readingAt (now : ℤ) : Reading (Dated Unit) where
  topology := ⟨(), now⟩
  stat := []
  checked_at := now
  stored_at := now

/-- The cache is filled, and `GetCpuUsage` stamps it when it is almost stale. -/
def restamped : List (TimedAction Unit) :=
  [.getCpuInfo (readingAt 0) 0, .getCpuUsage [] ⟨[], 900⟩ (readingAt 900) 900]

theorem fresh_iff_restamped :
    Transition.AllStates Timed.step Fresh
        (Timed.init 1000 ⟨(), 0⟩ ⟨[], 0⟩) restamped ↔
      Transition.AllSteps Timed.step StampsFresh
        (Timed.init 1000 ⟨(), 0⟩ ⟨[], 0⟩) restamped :=
  fresh_iff (by decide) _ _ _

/-- With a lifetime of 1000 a value is judged fresh at 1800 whose topology has
been read at 0. -/
theorem exists_staleTopology :
    ∃ s, Transition.run Timed.step (Timed.init 1000 ⟨(), 0⟩ ⟨[], 0⟩) restamped =
        some s ∧
      s.impl.cpu_cache.isStale 1000 1800 = false ∧
      (s.impl.getCpuInfo (readingAt 1800)).1.topology.read_at = 0 ∧
      ¬ Fresh s := by
  refine ⟨_, rfl, by decide, by decide, fun hfresh => ?_⟩
  exact absurd (hfresh 1800 (by decide) (by decide)).1 (by decide)

end SystemInfo
end Yacul
