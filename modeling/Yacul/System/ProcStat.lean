import Mathlib.Data.List.Infix
import Yacul.Support.Scanning
import Yacul.Support.Transition
import Yacul.System.CpuUsage

/-!
# Per-core usage

A snapshot of the cores is what `ParseProcStat` makes of `/proc/stat`: one
entry for a line, in the order of the lines.  The usage of the cores compares
two snapshots entry by entry, so it compares a core with itself exactly as
long as both list the same cores in the same order.  `/proc/stat` lists the
cores that are online.
-/

namespace Yacul

/-- Two lists agree at every position that both have exactly if one is the
start of the other. -/
theorem forall_mem_zip_eq_iff {α : Type*} (l l' : List α) :
    (∀ p ∈ l.zip l', p.1 = p.2) ↔ l <+: l' ∨ l' <+: l := by
  induction l generalizing l' with
  | nil => simp
  | cons a l ih =>
      cases l' with
      | nil => simp
      | cons b l' =>
          rw [List.zip_cons_cons, List.forall_mem_cons, ih l',
            List.cons_prefix_cons, List.cons_prefix_cons, eq_comm (a := b)]
          exact and_or_left

namespace SystemInfo

open Scanning

/-! ## Parsing -/

/-- `"cpu"`. -/
def cpuLabel : Text := [0x63, 0x70, 0x75]

/-- The core of a line's label; nothing where `stoi` throws. -/
def labelCoreId (label : Text) : Option ℤ :=
  if label = cpuLabel then some (-1) else stoi (label.drop 3)

/-- The ten counters of a line. -/
def readTicks (core_id : ℤ) (ss : IStringStream) : CpuCoreStats :=
  let (user, ss) := ss.readUInt64
  let (nice, ss) := ss.readUInt64
  let (system_ticks, ss) := ss.readUInt64
  let (idle, ss) := ss.readUInt64
  let (iowait, ss) := ss.readUInt64
  let (irq, ss) := ss.readUInt64
  let (softirq, ss) := ss.readUInt64
  let (steal, ss) := ss.readUInt64
  let (guest, ss) := ss.readUInt64
  let (guest_nice, _) := ss.readUInt64
  { core_id, user, nice, system_ticks, idle, iowait, irq, softirq, steal,
    guest, guest_nice }

@[simp]
theorem readTicks_core_id (core_id : ℤ) (ss : IStringStream) :
    (readTicks core_id ss).core_id = core_id := rfl

/-- The loop of `ParseProcStat`. -/
def parseLines : List Text → List CpuCoreStats
  | [] => []
  | line :: rest =>
      if cpuLabel.isPrefixOf line then
        let (label, ss) := IStringStream.readWord { rest := line }
        match labelCoreId label with
        | none => parseLines rest
        | some core_id => readTicks core_id ss :: parseLines rest
      else []

/-- `SystemInfo::ParseProcStat`; a file that does not open is an empty one. -/
def parseProcStat (stat : Text) : List CpuCoreStats :=
  parseLines (lines stat)

/-- The cores that a text lists, in its order. -/
def coreIds (stat : Text) : List ℤ :=
  ((lines stat).takeWhile cpuLabel.isPrefixOf).filterMap fun line =>
    labelCoreId (IStringStream.readWord { rest := line }).1

theorem map_core_id_parseLines (rest : List Text) :
    (parseLines rest).map CpuCoreStats.core_id =
      (rest.takeWhile cpuLabel.isPrefixOf).filterMap fun line =>
        labelCoreId (IStringStream.readWord { rest := line }).1 := by
  induction rest with
  | nil => rfl
  | cons line rest ih =>
      rw [parseLines, List.takeWhile_cons]
      split
      · rw [List.filterMap_cons]
        cases hid : labelCoreId
            (IStringStream.readWord { rest := line }).1 with
        | none => simpa [hid] using ih
        | some core_id => simpa [hid] using ih
      · rfl

/-- A snapshot has one entry for each core listed. -/
theorem map_core_id_parseProcStat (stat : Text) :
    (parseProcStat stat).map CpuCoreStats.core_id = coreIds stat :=
  map_core_id_parseLines (lines stat)

/-! ## Comparing snapshots -/

/-- An entry of `per_core_usage_percent`, with the snapshots it is from. -/
structure CoreUsage where
  percent : ℚ
  current : CpuCoreStats
  previous : CpuCoreStats
  percent_eq : percent = current.usagePercent previous
deriving DecidableEq, Repr

namespace CoreUsage

def compare (cores : CpuCoreStats × CpuCoreStats) : CoreUsage :=
  ⟨cores.1.usagePercent cores.2, cores.1, cores.2, rfl⟩

/-- Both snapshots are of one core. -/
def SameCore (usage : CoreUsage) : Prop :=
  usage.current.core_id = usage.previous.core_id

instance (usage : CoreUsage) : Decidable usage.SameCore := by
  unfold SameCore
  exact inferInstance

end CoreUsage

/-- The loops over the cores; the first entry is the aggregate. -/
def compareCores (current previous : List CpuCoreStats) : List CoreUsage :=
  ((current.drop 1).zip (previous.drop 1)).map CoreUsage.compare

/-- Past the aggregate, two lists of cores agree as far as both go. -/
def Agree (ids ids' : List ℤ) : Prop :=
  ids.drop 1 <+: ids'.drop 1 ∨ ids'.drop 1 <+: ids.drop 1

instance (ids ids' : List ℤ) : Decidable (Agree ids ids') := by
  unfold Agree
  exact inferInstance

/-- The comparison is of each core with itself exactly if the snapshots list
the same cores in the same order. -/
theorem sameCore_compareCores_iff (current previous : List CpuCoreStats) :
    (∀ usage ∈ compareCores current previous, usage.SameCore) ↔
      Agree (current.map CpuCoreStats.core_id)
        (previous.map CpuCoreStats.core_id) := by
  rw [Agree, ← List.map_drop, ← List.map_drop, ← forall_mem_zip_eq_iff,
    List.zip_map, compareCores, List.forall_mem_map, List.forall_mem_map]
  rfl

/-! ## The cache -/

/-- `SystemInfo::CpuInfo`; the fields that are not from `/proc/stat` are one,
the topology. -/
structure CpuInfo (τ : Type) where
  topology : τ
  core_stats : List CpuCoreStats := []
  usage_percent : ℚ := 0
  per_core_usage_percent : List CoreUsage := []
deriving DecidableEq, Repr

/-- `Impl::CacheEntry`. -/
structure CacheEntry (α : Type) where
  value : α
  fetched_at : ℤ := 0
  valid : Bool := false
deriving DecidableEq, Repr

/-- `CacheEntry::IsStale`, at a time of the clock. -/
def CacheEntry.isStale {α : Type} (entry : CacheEntry α) (ttl now : ℤ) :
    Bool :=
  if !entry.valid || ttl = 0 then true else ttl < now - entry.fetched_at

/-- `CacheEntry::Set`. -/
def CacheEntry.set {α : Type} (value : α) (now : ℤ) : CacheEntry α :=
  { value := value, fetched_at := now, valid := true }

/-- What `SystemInfo::Impl` keeps for the cores.  `computed` is not there: it
collects every entry of `per_core_usage_percent` that is computed. -/
structure Impl (τ : Type) where
  cache_ttl : ℤ
  cpu_cache : CacheEntry (CpuInfo τ)
  prev_cpu_stats : List CpuCoreStats
  computed : List CoreUsage := []
deriving DecidableEq, Repr

section Operations

variable {τ : Type}

/-- The usage delta of `FetchCpuInfo` and `GetCpuUsage`. -/
def CpuInfo.withUsage (info : CpuInfo τ)
    (current previous : List CpuCoreStats) : CpuInfo τ :=
  match current, previous with
  | aggregate :: _, aggregate' :: _ =>
      { info with
        usage_percent := aggregate.usagePercent aggregate'
        per_core_usage_percent := compareCores current previous }
  | _, _ => info

/-- What one call finds in the system's files and on the clock. -/
structure Reading (τ : Type) where
  topology : τ
  stat : Text
  checked_at : ℤ
  stored_at : ℤ
deriving DecidableEq, Repr

/-- `SystemInfo::FetchCpuInfo`. -/
def Impl.fetchCpuInfo (impl : Impl τ) (reading : Reading τ) :
    CpuInfo τ × Impl τ :=
  let snap := parseProcStat reading.stat
  let info : CpuInfo τ := { topology := reading.topology }
  ({ info.withUsage snap impl.prev_cpu_stats with core_stats := snap },
    { impl with
      prev_cpu_stats := snap
      computed := impl.computed ++ compareCores snap impl.prev_cpu_stats })

/-- Fetch, and `Set` the cache. -/
def Impl.refresh (impl : Impl τ) (reading : Reading τ) : Impl τ :=
  let (info, impl) := impl.fetchCpuInfo reading
  { impl with cpu_cache := CacheEntry.set info reading.stored_at }

/-- `SystemInfo::GetCpuInfo`. -/
def Impl.getCpuInfo (impl : Impl τ) (reading : Reading τ) :
    CpuInfo τ × Impl τ :=
  if impl.cpu_cache.isStale impl.cache_ttl reading.checked_at then
    let impl := impl.refresh reading
    (impl.cpu_cache.value, impl)
  else (impl.cpu_cache.value, impl)

/-- `SystemInfo::GetCpuUsage`; `before` and `after` are read without the
mutex. -/
def Impl.getCpuUsage (impl : Impl τ) (before after : Text)
    (reading : Reading τ) : CpuInfo τ × Impl τ :=
  let before := parseProcStat before
  let after := parseProcStat after
  let (info, impl) :=
    if impl.cpu_cache.valid then (impl.cpu_cache.value, impl)
    else impl.fetchCpuInfo reading
  let info := { info.withUsage after before with core_stats := after }
  (info,
    { impl with
      cpu_cache := CacheEntry.set info reading.stored_at
      computed := impl.computed ++ compareCores after before })

/-- `InvalidateCache("cpu")`. -/
def Impl.invalidateCache (impl : Impl τ) : Impl τ :=
  { impl with cpu_cache := { impl.cpu_cache with valid := false } }

/-- The constructor: it warms the baseline. -/
def Impl.init (cache_ttl : ℤ) (topology : τ) (stat : Text) : Impl τ where
  cache_ttl := cache_ttl
  cpu_cache := { value := { topology := topology } }
  prev_cpu_stats := parseProcStat stat

/-- The sections under `cpu_mutex`, with what each reads. -/
inductive Action (τ : Type)
  | getCpuInfo (reading : Reading τ)
  | getCpuUsage (before after : Text) (reading : Reading τ)
  /-- One round of `RefreshLoop`. -/
  | refresh (reading : Reading τ)
  | invalidateCache
deriving DecidableEq, Repr

/-- No section fails. -/
def step (impl : Impl τ) : Action τ → Option (Impl τ)
  | .getCpuInfo reading => some (impl.getCpuInfo reading).2
  | .getCpuUsage before after reading =>
      some (impl.getCpuUsage before after reading).2
  | .refresh reading => some (impl.refresh reading)
  | .invalidateCache => some impl.invalidateCache

theorem Impl.getCpuInfo_of_fresh {impl : Impl τ} {reading : Reading τ}
    (h : impl.cpu_cache.isStale impl.cache_ttl reading.checked_at = false) :
    impl.getCpuInfo reading = (impl.cpu_cache.value, impl) := by
  simp [Impl.getCpuInfo, h]

theorem Impl.getCpuInfo_of_stale {impl : Impl τ} {reading : Reading τ}
    (h : impl.cpu_cache.isStale impl.cache_ttl reading.checked_at = true) :
    impl.getCpuInfo reading =
      ((impl.refresh reading).cpu_cache.value, impl.refresh reading) := by
  simp [Impl.getCpuInfo, h]

end Operations

/-! ## Runs -/

section Runs

variable {τ : Type}

/-- Every entry computed so far compares a core with itself. -/
def SameCores (impl : Impl τ) : Prop :=
  ∀ usage ∈ impl.computed, usage.SameCore

/-- The cores of the baseline. -/
def Impl.prevCoreIds (impl : Impl τ) : List ℤ :=
  impl.prev_cpu_stats.map CpuCoreStats.core_id

/-- The texts that an action compares list the same cores in the same order,
as far as both go. -/
def Comparable (impl : Impl τ) : Action τ → Prop
  | .getCpuInfo reading =>
      impl.cpu_cache.isStale impl.cache_ttl reading.checked_at = true →
        Agree (coreIds reading.stat) impl.prevCoreIds
  | .getCpuUsage before after reading =>
      (impl.cpu_cache.valid = false →
        Agree (coreIds reading.stat) impl.prevCoreIds) ∧
      Agree (coreIds after) (coreIds before)
  | .refresh reading => Agree (coreIds reading.stat) impl.prevCoreIds
  | .invalidateCache => True

/-- What is appended to the entries has to compare a core with itself. -/
theorem sameCores_append_iff {impl impl' : Impl τ}
    {current previous : List CpuCoreStats}
    (h : impl'.computed = impl.computed ++ compareCores current previous) :
    SameCores impl' ↔
      SameCores impl ∧
        Agree (current.map CpuCoreStats.core_id)
          (previous.map CpuCoreStats.core_id) := by
  rw [SameCores, h, List.forall_mem_append, sameCore_compareCores_iff]
  rfl

theorem sameCores_fetchCpuInfo_iff (impl : Impl τ) (reading : Reading τ) :
    SameCores (impl.fetchCpuInfo reading).2 ↔
      SameCores impl ∧ Agree (coreIds reading.stat) impl.prevCoreIds := by
  rw [← map_core_id_parseProcStat]
  exact sameCores_append_iff rfl

theorem sameCores_refresh_iff (impl : Impl τ) (reading : Reading τ) :
    SameCores (impl.refresh reading) ↔
      SameCores impl ∧ Agree (coreIds reading.stat) impl.prevCoreIds :=
  sameCores_fetchCpuInfo_iff impl reading

theorem sameCores_getCpuInfo_iff (impl : Impl τ) (reading : Reading τ) :
    SameCores (impl.getCpuInfo reading).2 ↔
      SameCores impl ∧
        (impl.cpu_cache.isStale impl.cache_ttl reading.checked_at = true →
          Agree (coreIds reading.stat) impl.prevCoreIds) := by
  cases hstale : impl.cpu_cache.isStale impl.cache_ttl reading.checked_at with
  | true =>
      rw [Impl.getCpuInfo_of_stale hstale, sameCores_refresh_iff,
        imp_iff_right rfl]
  | false =>
      rw [Impl.getCpuInfo_of_fresh hstale]
      exact (and_iff_left fun h => Bool.noConfusion h).symm

theorem sameCores_getCpuUsage_iff (impl : Impl τ) (before after : Text)
    (reading : Reading τ) :
    SameCores (impl.getCpuUsage before after reading).2 ↔
      SameCores impl ∧
        (impl.cpu_cache.valid = false →
          Agree (coreIds reading.stat) impl.prevCoreIds) ∧
        Agree (coreIds after) (coreIds before) := by
  rw [← map_core_id_parseProcStat after, ← map_core_id_parseProcStat before]
  cases hvalid : impl.cpu_cache.valid with
  | true =>
      have hcomputed : (impl.getCpuUsage before after reading).2.computed =
          impl.computed ++
            compareCores (parseProcStat after) (parseProcStat before) := by
        simp only [Impl.getCpuUsage, hvalid, if_true]
      rw [sameCores_append_iff hcomputed]
      simp
  | false =>
      have hcomputed : (impl.getCpuUsage before after reading).2.computed =
          (impl.fetchCpuInfo reading).2.computed ++
            compareCores (parseProcStat after) (parseProcStat before) := by
        simp [Impl.getCpuUsage, hvalid]
      rw [sameCores_append_iff hcomputed, sameCores_fetchCpuInfo_iff, and_assoc]
      simp

/-- One step: the entries stay of one core each exactly if the texts of the
action agree. -/
theorem sameCores_step_iff {impl impl' : Impl τ} {action : Action τ}
    (hsame : SameCores impl) (h : step impl action = some impl') :
    SameCores impl' ↔ Comparable impl action := by
  cases action with
  | getCpuInfo reading =>
      obtain rfl := Option.some.inj h
      rw [sameCores_getCpuInfo_iff, and_iff_right hsame]
      rfl
  | getCpuUsage before after reading =>
      obtain rfl := Option.some.inj h
      rw [sameCores_getCpuUsage_iff, and_iff_right hsame]
      rfl
  | refresh reading =>
      obtain rfl := Option.some.inj h
      rw [sameCores_refresh_iff, and_iff_right hsame]
      rfl
  | invalidateCache =>
      obtain rfl := Option.some.inj h
      exact iff_of_true hsame trivial

/-- Along a run every entry compares a core with itself exactly as long as
all the texts compared agree. -/
theorem sameCores_iff (cache_ttl : ℤ) (topology : τ) (stat : Text)
    (actions : List (Action τ)) :
    Transition.AllStates step SameCores (Impl.init cache_ttl topology stat)
        actions ↔
      Transition.AllSteps step Comparable (Impl.init cache_ttl topology stat)
        actions := by
  refine Transition.allStates_iff_allSteps (I := fun _ => True) ?_ trivial ?_
    actions
  · intro impl action impl' _ hsame h
    exact ⟨trivial, sameCores_step_iff hsame h⟩
  · intro usage husage
    exact absurd husage List.not_mem_nil

/-! ## What callers get -/

/-- Every entry in the cache is one that has been computed. -/
def CachedComputed (impl : Impl τ) : Prop :=
  ∀ usage ∈ impl.cpu_cache.value.per_core_usage_percent,
    usage ∈ impl.computed

theorem mem_withUsage {info : CpuInfo τ} {current previous : List CpuCoreStats}
    {usage : CoreUsage}
    (h : usage ∈ (info.withUsage current previous).per_core_usage_percent) :
    usage ∈ info.per_core_usage_percent ∨
      usage ∈ compareCores current previous := by
  unfold CpuInfo.withUsage at h
  split at h
  · exact .inr h
  · exact .inl h

theorem mem_fetchCpuInfo {impl : Impl τ} {reading : Reading τ}
    {usage : CoreUsage}
    (h : usage ∈ (impl.fetchCpuInfo reading).1.per_core_usage_percent) :
    usage ∈ (impl.fetchCpuInfo reading).2.computed := by
  rcases mem_withUsage h with hnone | hmem
  · exact absurd hnone List.not_mem_nil
  · exact List.mem_append_right _ hmem

theorem cachedComputed_refresh (impl : Impl τ) (reading : Reading τ) :
    CachedComputed (impl.refresh reading) := by
  intro usage husage
  exact mem_fetchCpuInfo husage

theorem cachedComputed_getCpuUsage {impl : Impl τ} (h : CachedComputed impl)
    (before after : Text) (reading : Reading τ) :
    CachedComputed (impl.getCpuUsage before after reading).2 := by
  intro usage husage
  cases hvalid : impl.cpu_cache.valid with
  | true =>
      simp only [Impl.getCpuUsage, hvalid, if_true, CacheEntry.set] at husage ⊢
      rcases mem_withUsage husage with hcached | hmem
      · exact List.mem_append_left _ (h usage hcached)
      · exact List.mem_append_right _ hmem
  | false =>
      simp only [Impl.getCpuUsage, hvalid, Bool.false_eq_true, if_false,
        CacheEntry.set] at husage ⊢
      rcases mem_withUsage husage with hfetched | hmem
      · exact List.mem_append_left _ (mem_fetchCpuInfo hfetched)
      · exact List.mem_append_right _ hmem

theorem cachedComputed_step {impl impl' : Impl τ} {action : Action τ}
    (hcached : CachedComputed impl) (h : step impl action = some impl') :
    CachedComputed impl' := by
  cases action with
  | getCpuInfo reading =>
      obtain rfl := Option.some.inj h
      unfold Impl.getCpuInfo
      split
      · exact cachedComputed_refresh impl reading
      · exact hcached
  | getCpuUsage before after reading =>
      obtain rfl := Option.some.inj h
      exact cachedComputed_getCpuUsage hcached before after reading
  | refresh reading =>
      obtain rfl := Option.some.inj h
      exact cachedComputed_refresh impl reading
  | invalidateCache =>
      obtain rfl := Option.some.inj h
      exact hcached

/-- In a run whose texts agree, the entries in the cache, which are the ones
that callers get, each compare a core with itself. -/
theorem cached_sameCore {cache_ttl : ℤ} {topology : τ} {stat : Text}
    {impl : Impl τ}
    (h : Transition.ReachableVia step Comparable
      {Impl.init cache_ttl topology stat} impl) :
    ∀ usage ∈ impl.cpu_cache.value.per_core_usage_percent,
      usage.SameCore := by
  have hinv : SameCores impl ∧ CachedComputed impl := by
    refine h.invariant (I := fun impl => SameCores impl ∧ CachedComputed impl)
      ?_ ?_
    · rintro impl rfl
      exact ⟨fun usage husage => absurd husage List.not_mem_nil,
        fun usage husage => absurd husage List.not_mem_nil⟩
    · rintro impl action impl' ⟨hsame, hcached⟩ hcomparable hstep
      exact ⟨(sameCores_step_iff hsame hstep).mpr hcomparable,
        cachedComputed_step hcached hstep⟩
  intro usage husage
  exact hinv.1 usage (hinv.2 usage husage)

end Runs

/-! ## A core that goes offline -/

/-- A line with its user and idle ticks, and no others. -/
def statLine (label : Text) (user idle : UInt8) : Text :=
  label ++ [0x20, 0x30 + user, 0x20, 0x30, 0x20, 0x30, 0x20, 0x30 + idle,
    0x20, 0x30, 0x20, 0x30, 0x20, 0x30, 0x20, 0x30, 0x20, 0x30, 0x20, 0x30,
    0x0a]

/-- `"cpuN"`, for a digit. -/
def coreLabel (n : UInt8) : Text :=
  cpuLabel ++ [0x30 + n]

/-- Three cores. -/
def statBefore : Text :=
  statLine cpuLabel 9 4 ++ statLine (coreLabel 0) 1 1 ++
    statLine (coreLabel 1) 0 2 ++ statLine (coreLabel 2) 8 1

/-- The second one is offline; the others have been idle. -/
def statAfter : Text :=
  statLine cpuLabel 9 6 ++ statLine (coreLabel 0) 1 2 ++
    statLine (coreLabel 2) 8 2

/-- The third core is compared with the second: it has been idle, and is
reported as fully busy. -/
theorem exists_otherCore :
    ∃ impl,
      step (Impl.init 1000 () statBefore)
          (.getCpuUsage statBefore statAfter
            { topology := (), stat := statAfter, checked_at := 0,
              stored_at := 100 }) = some impl ∧
        ¬ SameCores impl ∧
        ∃ usage ∈ impl.cpu_cache.value.per_core_usage_percent,
          usage.current.core_id = 2 ∧ usage.previous.core_id = 1 ∧
            usage.percent = 100 := by
  refine ⟨_, rfl, ?_, by decide +kernel⟩
  unfold SameCores
  decide +kernel

end SystemInfo
end Yacul
