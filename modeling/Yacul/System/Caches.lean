import Mathlib.Algebra.Ring.Nat
import Mathlib.Logic.Function.Basic
import Yacul.Support.Roster
import Yacul.Support.Transition
import Yacul.System.CpuFreshness

/-!
# The caches of all domains

Each domain of `SystemInfo` has a cache and a mutex of its own.  `Get...` reads
through the cache, `GetSystemStats` does so for seven domains one after the
other, `InvalidateCache` takes the mutexes of all domains in turn, and a round
of `RefreshLoop` fetches four of them.  Any number of calls are under way at a
time; a fetch takes time, during which only the mutex of its domain is held.
-/

namespace Yacul
namespace SystemInfo
namespace Caches

/-! ## Model -/

/-- The domains. -/
inductive Domain
  | os
  | cpu
  | memory
  | disk
  | disk_io
  | network
  | thermal
  | gpu
  | processes
  | load
  | docker
deriving DecidableEq, Repr

/-- The comparisons in `InvalidateCache(domain)`. -/
def Domain.ofName? (domain : String) : Option Domain :=
  if domain = "os" then some .os
  else if domain = "cpu" then some .cpu
  else if domain = "memory" then some .memory
  else if domain = "disk" then some .disk
  else if domain = "disk_io" then some .disk_io
  else if domain = "network" then some .network
  else if domain = "thermal" then some .thermal
  else if domain = "gpu" then some .gpu
  else if domain = "processes" then some .processes
  else if domain = "load" then some .load
  else if domain = "docker" then some .docker
  else none

/-- The sections under the mutex of a domain. -/
inductive Op
  /-- `Get...`. -/
  | get (d : Domain)
  /-- The section of `GetCpuUsage`. -/
  | usage
  /-- A section of `RefreshLoop`. -/
  | refresh (d : Domain)
  | invalidate (d : Domain)
deriving DecidableEq, Repr

def Op.domain : Op → Domain
  | .get d | .refresh d | .invalidate d => d
  | .usage => .cpu

inductive Call
  | Get (d : Domain)
  | GetSystemStats
  | GetCpuUsage
  | InvalidateCache
  | InvalidateDomain (domain : String)
  /-- A round of `RefreshLoop`. -/
  | RefreshLoop
deriving DecidableEq, Repr

/-- `InvalidateCache(domain)`. -/
def invalidateDomain (domain : String) : List Op :=
  (Domain.ofName? domain).toList.map .invalidate

def Call.ops : Call → List Op
  | .Get d => [.get d]
  | .GetSystemStats =>
      [.get .os, .get .cpu, .get .memory, .get .load, .get .disk,
        .get .network, .get .thermal]
  | .GetCpuUsage => [.usage]
  | .InvalidateCache =>
      ["os", "cpu", "memory", "disk", "disk_io", "network", "thermal", "gpu",
        "processes", "load", "docker"].flatMap invalidateDomain
  | .InvalidateDomain domain => invalidateDomain domain
  | .RefreshLoop =>
      [.refresh .cpu, .refresh .memory, .refresh .network, .refresh .load]

/-- What a fetch has returned: here only which fetch it was, by the number of
the step in which it began, and when it ended. -/
structure Value where
  domain : Domain
  started : ℕ
  stored : ℤ
deriving DecidableEq, Repr

/-- What a section has seen when it got the mutex; the last two are history:
the steps of the last invalidation of the domain, and of the beginning of the
last `InvalidateCache()` that has returned. -/
structure Entry where
  step : ℕ
  time : ℤ
  invalidated : ℕ
  allInvalidated : ℕ
deriving DecidableEq, Repr

/-- A call under way. -/
structure Thread where
  call : Call
  began : ℕ
  ops : List Op
  /-- The fetch of the first of `ops` has begun. -/
  fetching : Option Entry := none
deriving DecidableEq, Repr

/-- A value that `Get...` has returned. -/
structure Reply where
  domain : Domain
  entry : Entry
  value : Option Value
deriving DecidableEq, Repr

/-- The object; the value `T{}` of a cache is `none`. -/
structure State where
  cache_ttl : ℤ
  clock : ℤ := 0
  caches : Domain → CacheEntry (Option Value) := fun _ => { value := none }
  mutexes : Domain → Option ℕ := fun _ => none
  threads : List Thread := []
  /-- History. -/
  steps : ℕ := 1
  invalidated : Domain → ℕ := fun _ => 0
  allInvalidated : ℕ := 0
  replies : List Reply := []

namespace State

def entry (s : State) (d : Domain) : Entry where
  step := s.steps
  time := s.clock
  invalidated := s.invalidated d
  allInvalidated := s.allInvalidated

def setCache (s : State) (d : Domain) (c : CacheEntry (Option Value)) :
    State :=
  { s with caches := Function.update s.caches d c }

def setMutex (s : State) (d : Domain) (owner : Option ℕ) : State :=
  { s with mutexes := Function.update s.mutexes d owner }

/-- The thread goes on with `ops`. -/
def goOn (s : State) (t : ℕ) (thread : Thread) (ops : List Op) : State :=
  { s with
    steps := s.steps + 1
    threads := s.threads.set t { thread with ops := ops, fetching := none } }

/-- The section of `InvalidateCache(domain)`; with the last one of its
sections, `InvalidateCache()` returns. -/
def invalidate (s : State) (d : Domain) (thread : Thread) (rest : List Op) :
    State :=
  { s.setCache d { s.caches d with valid := false } with
    invalidated := Function.update s.invalidated d s.steps
    allInvalidated :=
      if thread.call = .InvalidateCache ∧ rest = [] then
        max s.allInvalidated thread.began
      else s.allInvalidated }

/-- The mutex is taken, and the fetch begins. -/
def beginFetch (s : State) (t : ℕ) (thread : Thread) (d : Domain) : State :=
  { s.setMutex d (some t) with
    steps := s.steps + 1
    threads := s.threads.set t { thread with fetching := some (s.entry d) } }

def reply (s : State) (op : Op) (e : Entry) (value : Option Value) : State :=
  match op with
  | .get d => { s with replies := ⟨d, e, value⟩ :: s.replies }
  | _ => s

end State

/-- A section begins when its mutex is free. -/
def enterSection (s : State) (t : ℕ) (thread : Thread) (op : Op)
    (rest : List Op) : State :=
  let d := op.domain
  let cache := s.caches d
  match op with
  | .get _ =>
      if cache.isStale s.cache_ttl s.clock then s.beginFetch t thread d
      else (s.reply op (s.entry d) cache.value).goOn t thread rest
  | .usage =>
      if cache.valid then
        (s.setCache d (.set cache.value s.clock)).goOn t thread rest
      else s.beginFetch t thread d
  | .refresh _ => s.beginFetch t thread d
  | .invalidate _ => (s.invalidate d thread rest).goOn t thread rest

/-- The fetch of a section ends. -/
def endFetch (s : State) (t : ℕ) (thread : Thread) (op : Op) (rest : List Op)
    (e : Entry) (throws : Bool) : State :=
  let d := op.domain
  let s := s.setMutex d none
  if throws then s.goOn t thread []
  else
    let value := some ⟨d, e.step, s.clock⟩
    ((s.setCache d (.set value s.clock)).reply op e value).goOn t thread rest

inductive Action
  | begin (call : Call)
  /-- The next step of a thread. -/
  | run (t : ℕ) (throws : Bool)
  | wait (time : ℕ)
deriving DecidableEq, Repr

def step (s : State) : Action → Option State
  | .begin call =>
      some { s with
        steps := s.steps + 1
        threads := s.threads ++ [⟨call, s.steps, call.ops, none⟩] }
  | .run t throws =>
      match s.threads[t]? with
      | some thread =>
          match thread.ops with
          | [] => none
          | op :: rest =>
              match thread.fetching with
              | some e => some (endFetch s t thread op rest e throws)
              | none =>
                  if s.mutexes op.domain = none then
                    some (enterSection s t thread op rest)
                  else none
      | none => none
  | .wait time => some { s with clock := s.clock + time }

def init : Set State :=
  { s | ∃ cache_ttl clock, s = { cache_ttl := cache_ttl, clock := clock } }

/-! ## Invariants -/

/-- A valid cache holds what a fetch of its domain returned that began after
the last invalidation. -/
def Stored (s : State) : Prop :=
  ∀ d, (s.caches d).valid = true →
    ∃ v, (s.caches d).value = some v ∧ v.domain = d ∧
      s.invalidated d < v.started ∧
      (d ≠ .cpu → v.stored = (s.caches d).fetched_at)

/-- The domain has not been invalidated since the section began. -/
structure Entry.Current (e : Entry) (s : State) (d : Domain) : Prop where
  invalidated : s.invalidated d = e.invalidated
  invalidated_lt : e.invalidated < e.step
  all_le : e.allInvalidated ≤ e.invalidated

/-- The thread has the mutex of the section it is in. -/
structure Fetches (s : State) (t : ℕ) (thread : Thread) (e : Entry)
    (op : Op) (rest : List Op) : Prop where
  found : s.threads[t]? = some thread
  fetching : thread.fetching = some e
  ops : thread.ops = op :: rest
  not_invalidate : ∀ d, op ≠ .invalidate d
  mutex : s.mutexes op.domain = some t
  current : e.Current s op.domain

/-- The mutexes are those of the threads that fetch. -/
structure Locked (s : State) : Prop where
  fetching : ∀ t thread e, s.threads[t]? = some thread →
    thread.fetching = some e → ∃ op rest, Fetches s t thread e op rest
  held : ∀ d t, s.mutexes d = some t →
    ∃ thread e op rest, Fetches s t thread e op rest ∧ op.domain = d

/-- Between its sections, `InvalidateCache()` has invalidated what it does not
come to any more. -/
structure Dated (s : State) : Prop where
  invalidated : ∀ d, s.invalidated d < s.steps
  began : ∀ thread ∈ s.threads, thread.began < s.steps
  covers : ∀ thread ∈ s.threads, thread.call = .InvalidateCache →
    thread.ops ≠ [] →
      ∀ d, .invalidate d ∈ thread.ops ∨ thread.began ≤ s.invalidated d
  all_le : ∀ d, s.allInvalidated ≤ s.invalidated d

/-- What a reply is: the result of a fetch of the domain that began after the
last invalidation before the section, and with the section or at most
`cache_ttl` before it. -/
def Reply.Fresh (cache_ttl : ℤ) (r : Reply) : Prop :=
  ∃ v, r.value = some v ∧ v.domain = r.domain ∧
    r.entry.allInvalidated ≤ r.entry.invalidated ∧
    r.entry.invalidated < v.started ∧
    (v.started = r.entry.step ∨
      cache_ttl ≠ 0 ∧ (r.domain ≠ .cpu →
        r.entry.time - v.stored ≤ cache_ttl))

structure Inv (s : State) : Prop where
  stored : Stored s
  locked : Locked s
  dated : Dated s
  fresh : ∀ r ∈ s.replies, r.Fresh s.cache_ttl

/-! ## Threads -/

theorem getElem?_concat_cases {α : Type*} {l : List α} {t : ℕ} {x y : α}
    (h : (l ++ [y])[t]? = some x) : l[t]? = some x ∨ x = y := by
  obtain hlt | hle := Nat.lt_or_ge t l.length
  · rw [List.getElem?_append_left hlt] at h
    exact .inl h
  · rw [List.getElem?_append_right hle] at h
    exact .inr (List.mem_singleton.mp (List.mem_of_getElem? h))

theorem getElem?_set_of_some {α : Type*} {l : List α} {t : ℕ} {x : α}
    (h : l[t]? = some x) (y : α) (t' : ℕ) :
    (l.set t y)[t']? = if t' = t then some y else l[t']? := by
  split
  · next ht =>
      rw [ht]
      exact List.getElem?_set_self (List.getElem?_eq_some_iff.mp h).1
  · next ht => exact List.getElem?_set_ne (Ne.symm ht)

variable {s s' : State} {t : ℕ} {thread : Thread} {op : Op} {rest : List Op}
  {e : Entry}

/-- The others hold their mutexes on. -/
theorem Fetches.other (h : Fetches s t thread e op rest)
    (hthread : s'.threads[t]? = s.threads[t]?)
    (hmutex : s'.mutexes op.domain = s.mutexes op.domain)
    (hinvalidated : s'.invalidated op.domain = s.invalidated op.domain) :
    Fetches s' t thread e op rest where
  found := hthread.trans h.found
  fetching := h.fetching
  ops := h.ops
  not_invalidate := h.not_invalidate
  mutex := hmutex.trans h.mutex
  current :=
    { h.current with invalidated := hinvalidated.trans h.current.invalidated }

theorem Fetches.ne_of_fetching_eq_none {t' : ℕ} {thread' : Thread}
    (h : Fetches s t thread e op rest) (hthread : s.threads[t']? = some thread')
    (hnone : thread'.fetching = none) : t ≠ t' := by
  rintro rfl
  obtain rfl := Option.some.inj (hthread.symm.trans h.found)
  rw [h.fetching] at hnone
  cases hnone

/-- A step of a thread that does not fetch, before it and after it. -/
theorem Locked.pass (h : Locked s) (hthread : s.threads[t]? = some thread)
    (hnone : thread.fetching = none) {thread' : Thread}
    (hnone' : thread'.fetching = none)
    (hthreads : s'.threads = s.threads.set t thread')
    (hmutexes : s'.mutexes = s.mutexes)
    (hinvalidated : ∀ d, s.mutexes d ≠ none →
      s'.invalidated d = s.invalidated d) : Locked s' := by
  have hother : ∀ {t₁ thread₁ e₁ op₁ rest₁},
      Fetches s t₁ thread₁ e₁ op₁ rest₁ →
        Fetches s' t₁ thread₁ e₁ op₁ rest₁ := by
    intro t₁ thread₁ e₁ op₁ rest₁ hf
    have hne := hf.ne_of_fetching_eq_none hthread hnone
    refine hf.other ?_ (by rw [hmutexes]) ?_
    · rw [hthreads, getElem?_set_of_some hthread, if_neg hne]
    · exact hinvalidated _ (by rw [hf.mutex]; exact Option.some_ne_none _)
  constructor
  · intro t₁ thread₁ e₁ hthread₁ hfetching₁
    rw [hthreads, getElem?_set_of_some hthread] at hthread₁
    split at hthread₁
    · obtain rfl := Option.some.inj hthread₁
      rw [hnone'] at hfetching₁
      cases hfetching₁
    · obtain ⟨op₁, rest₁, hf⟩ := h.fetching t₁ thread₁ e₁ hthread₁ hfetching₁
      exact ⟨op₁, rest₁, hother hf⟩
  · intro d t₁ hd
    rw [hmutexes] at hd
    obtain ⟨thread₁, e₁, op₁, rest₁, hf, hop⟩ := h.held d t₁ hd
    exact ⟨thread₁, e₁, op₁, rest₁, hother hf, hop⟩

/-- A thread takes a free mutex. -/
theorem Locked.take (h : Locked s) (hthread : s.threads[t]? = some thread)
    (hops : thread.ops = op :: rest) (hop : ∀ d, op ≠ .invalidate d)
    (hnone : thread.fetching = none)
    (hfree : s.mutexes op.domain = none)
    (hthreads : s'.threads =
      s.threads.set t { thread with fetching := some e })
    (hmutexes : s'.mutexes = Function.update s.mutexes op.domain (some t))
    (hinvalidated : s'.invalidated = s.invalidated)
    (hcurrent : e.Current s op.domain) : Locked s' := by
  have hother : ∀ {t₁ thread₁ e₁ op₁ rest₁},
      Fetches s t₁ thread₁ e₁ op₁ rest₁ →
        Fetches s' t₁ thread₁ e₁ op₁ rest₁ := by
    intro t₁ thread₁ e₁ op₁ rest₁ hf
    have hne := hf.ne_of_fetching_eq_none hthread hnone
    have hdomain : op₁.domain ≠ op.domain := by
      intro heq
      have hheld := hf.mutex
      rw [heq, hfree] at hheld
      cases hheld
    refine hf.other ?_ ?_ (by rw [hinvalidated])
    · rw [hthreads, getElem?_set_of_some hthread, if_neg hne]
    · rw [hmutexes, Function.update_of_ne hdomain]
  have hself : Fetches s' t { thread with fetching := some e } e op rest :=
    { found := by rw [hthreads, getElem?_set_of_some hthread, if_pos rfl]
      fetching := rfl
      ops := hops
      not_invalidate := hop
      mutex := by rw [hmutexes, Function.update_self]
      current := { hcurrent with
        invalidated := by rw [hinvalidated, hcurrent.invalidated] } }
  constructor
  · intro t₁ thread₁ e₁ hthread₁ hfetching₁
    rw [hthreads, getElem?_set_of_some hthread] at hthread₁
    split at hthread₁
    · next ht =>
        obtain rfl := Option.some.inj hthread₁
        obtain rfl : e = e₁ := Option.some.inj hfetching₁
        exact ⟨op, rest, ht ▸ hself⟩
    · obtain ⟨op₁, rest₁, hf⟩ := h.fetching t₁ thread₁ e₁ hthread₁ hfetching₁
      exact ⟨op₁, rest₁, hother hf⟩
  · intro d t₁ hd
    rw [hmutexes] at hd
    by_cases hdomain : d = op.domain
    · subst hdomain
      rw [Function.update_self] at hd
      obtain rfl := Option.some.inj hd
      exact ⟨_, e, op, rest, hself, rfl⟩
    · rw [Function.update_of_ne hdomain] at hd
      obtain ⟨thread₁, e₁, op₁, rest₁, hf, hop⟩ := h.held d t₁ hd
      exact ⟨thread₁, e₁, op₁, rest₁, hother hf, hop⟩

/-- A thread gives its mutex back. -/
theorem Locked.release (h : Locked s) (hf : Fetches s t thread e op rest)
    {thread' : Thread} (hnone : thread'.fetching = none)
    (hthreads : s'.threads = s.threads.set t thread')
    (hmutexes : s'.mutexes = Function.update s.mutexes op.domain none)
    (hinvalidated : s'.invalidated = s.invalidated) : Locked s' := by
  have hother : ∀ {t₁ thread₁ e₁ op₁ rest₁}, t₁ ≠ t →
      Fetches s t₁ thread₁ e₁ op₁ rest₁ →
        Fetches s' t₁ thread₁ e₁ op₁ rest₁ := by
    intro t₁ thread₁ e₁ op₁ rest₁ hne hf₁
    have hdomain : op₁.domain ≠ op.domain := by
      intro heq
      have hheld := hf₁.mutex
      rw [heq, hf.mutex] at hheld
      exact hne (Option.some.inj hheld).symm
    refine hf₁.other ?_ ?_ (by rw [hinvalidated])
    · rw [hthreads, getElem?_set_of_some hf.found, if_neg hne]
    · rw [hmutexes, Function.update_of_ne hdomain]
  constructor
  · intro t₁ thread₁ e₁ hthread₁ hfetching₁
    rw [hthreads, getElem?_set_of_some hf.found] at hthread₁
    split at hthread₁
    · obtain rfl := Option.some.inj hthread₁
      rw [hnone] at hfetching₁
      cases hfetching₁
    · next hne =>
        obtain ⟨op₁, rest₁, hf₁⟩ :=
          h.fetching t₁ thread₁ e₁ hthread₁ hfetching₁
        exact ⟨op₁, rest₁, hother hne hf₁⟩
  · intro d t₁ hd
    rw [hmutexes] at hd
    by_cases hdomain : d = op.domain
    · rw [hdomain, Function.update_self] at hd
      cases hd
    · rw [Function.update_of_ne hdomain] at hd
      obtain ⟨thread₁, e₁, op₁, rest₁, hf₁, hop⟩ := h.held d t₁ hd
      have hne : t₁ ≠ t := by
        rintro rfl
        obtain rfl := Option.some.inj (hf.found.symm.trans hf₁.found)
        obtain ⟨rfl, -⟩ := List.cons.inj (hf.ops.symm.trans hf₁.ops)
        exact hdomain hop.symm
      exact ⟨thread₁, e₁, op₁, rest₁, hother hne hf₁, hop⟩

/-- A thread goes on, and nothing is invalidated. -/
theorem Dated.goOn (h : Dated s) (hmem : thread ∈ s.threads)
    (thread' : Thread) (hbegan : thread'.began = thread.began)
    (hcall : thread'.call = thread.call)
    (hops : thread'.ops ≠ [] → ∀ d, .invalidate d ∈ thread.ops →
      .invalidate d ∈ thread'.ops)
    (hne : thread.ops ≠ [])
    (hthreads : s'.threads = s.threads.set t thread')
    (hsteps : s'.steps = s.steps + 1)
    (hinvalidated : s'.invalidated = s.invalidated)
    (hall : s'.allInvalidated = s.allInvalidated) : Dated s' := by
  refine ⟨fun d => ?_, fun thread₁ hthread₁ => ?_,
    fun thread₁ hthread₁ hcall₁ hne₁ d => ?_, fun d => ?_⟩
  · rw [hinvalidated, hsteps]
    exact Nat.lt_succ_of_lt (h.invalidated d)
  · rw [hthreads] at hthread₁
    rw [hsteps]
    obtain hold | rfl := List.mem_or_eq_of_mem_set hthread₁
    · exact Nat.lt_succ_of_lt (h.began thread₁ hold)
    · rw [hbegan]
      exact Nat.lt_succ_of_lt (h.began thread hmem)
  · rw [hthreads] at hthread₁
    rw [hinvalidated]
    obtain hold | rfl := List.mem_or_eq_of_mem_set hthread₁
    · exact h.covers thread₁ hold hcall₁ hne₁ d
    · rw [hbegan]
      exact (h.covers thread hmem (hcall.symm.trans hcall₁) hne d).imp_left
        (hops hne₁ d)
  · rw [hall, hinvalidated]
    exact h.all_le d

/-- A section of `InvalidateCache` ends. -/
theorem Dated.invalidate {d : Domain} (h : Dated s) (hmem : thread ∈ s.threads)
    (hops : thread.ops = .invalidate d :: rest) :
    Dated ((s.invalidate d thread rest).goOn t thread rest) := by
  set invalidated := Function.update s.invalidated d s.steps with hdef
  have hself : invalidated d = s.steps := Function.update_self ..
  have hmono : ∀ d', s.invalidated d' ≤ invalidated d' := by
    intro d'
    by_cases hd : d' = d
    · rw [hd, hself]
      exact (h.invalidated d).le
    · exact (Function.update_of_ne hd s.steps s.invalidated).ge
  have hcover : thread.call = .InvalidateCache →
      ∀ d', .invalidate d' ∈ rest ∨ thread.began ≤ invalidated d' := by
    intro hcall d'
    have hne : thread.ops ≠ [] := by
      rw [hops]
      exact List.cons_ne_nil _ _
    obtain hin | hle := h.covers thread hmem hcall hne d'
    · rw [hops, List.mem_cons] at hin
      obtain heq | hin := hin
      · obtain rfl : d' = d := Op.invalidate.inj heq
        exact .inr (hself ▸ (h.began thread hmem).le)
      · exact .inl hin
    · exact .inr (hle.trans (hmono d'))
  refine ⟨fun d' => ?_, fun thread₁ hthread₁ => ?_,
    fun thread₁ hthread₁ hcall hne d' => ?_, fun d' => ?_⟩
  · show invalidated d' < s.steps + 1
    by_cases hd : d' = d
    · rw [hd, hself]
      exact Nat.lt_succ_self _
    · rw [hdef, Function.update_of_ne hd]
      exact Nat.lt_succ_of_lt (h.invalidated d')
  · show thread₁.began < s.steps + 1
    obtain hold | rfl := List.mem_or_eq_of_mem_set hthread₁
    · exact Nat.lt_succ_of_lt (h.began thread₁ hold)
    · exact Nat.lt_succ_of_lt (h.began thread hmem)
  · show _ ∨ thread₁.began ≤ invalidated d'
    obtain hold | rfl := List.mem_or_eq_of_mem_set hthread₁
    · exact (h.covers thread₁ hold hcall hne d').imp_right
        fun hle => hle.trans (hmono d')
    · exact hcover hcall d'
  · show (if thread.call = .InvalidateCache ∧ rest = [] then
      max s.allInvalidated thread.began else s.allInvalidated) ≤ invalidated d'
    split
    · next hlast =>
        refine max_le ((h.all_le d').trans (hmono d')) ?_
        obtain hin | hle := hcover hlast.1 d'
        · rw [hlast.2] at hin
          cases hin
        · exact hle
    · exact (h.all_le d').trans (hmono d')

/-! ## Caches -/

theorem Stored.setCache {d : Domain} {c : CacheEntry (Option Value)}
    (h : Stored s)
    (hc : c.valid = true → ∃ v, c.value = some v ∧ v.domain = d ∧
      s.invalidated d < v.started ∧ (d ≠ .cpu → v.stored = c.fetched_at))
    (hcaches : s'.caches = Function.update s.caches d c)
    (hinvalidated : s'.invalidated = s.invalidated) : Stored s' := by
  intro d'
  rw [hcaches, hinvalidated]
  by_cases hd : d' = d
  · subst hd
    rw [Function.update_self]
    exact hc
  · rw [Function.update_of_ne hd]
    exact h d'

theorem Stored.invalidate {d : Domain} (h : Stored s) :
    Stored ((s.invalidate d thread rest).goOn t thread rest) := by
  intro d'
  show (Function.update s.caches d _ d').valid = true →
    ∃ v, (Function.update s.caches d _ d').value = some v ∧ v.domain = d' ∧
      Function.update s.invalidated d s.steps d' < v.started ∧
      (d' ≠ .cpu → v.stored = (Function.update s.caches d _ d').fetched_at)
  by_cases hd : d' = d
  · subst hd
    rw [Function.update_self]
    exact fun hvalid => absurd hvalid Bool.false_ne_true
  · rw [Function.update_of_ne hd, Function.update_of_ne hd]
    exact h d'

/-! ## Steps -/

theorem Inv.beginFetch (h : Inv s) (hthread : s.threads[t]? = some thread)
    (hops : thread.ops = op :: rest) (hop : ∀ d, op ≠ .invalidate d)
    (hnone : thread.fetching = none)
    (hfree : s.mutexes op.domain = none) :
    Inv (s.beginFetch t thread op.domain) where
  stored := h.stored
  locked :=
    h.locked.take hthread hops hop hnone hfree rfl rfl rfl
      ⟨rfl, h.dated.invalidated op.domain, h.dated.all_le op.domain⟩
  dated :=
    h.dated.goOn (List.mem_of_getElem? hthread)
      { thread with fetching := some (s.entry op.domain) } rfl rfl
      (fun _ _ hin => hin) (hops ▸ List.cons_ne_nil _ _) rfl rfl rfl rfl
  fresh := h.fresh

/-- A section that needs no fetch. -/
theorem Inv.pass (h : Inv s) (hthread : s.threads[t]? = some thread)
    (hops : thread.ops = op :: rest) (hnone : thread.fetching = none)
    (hop : ∀ d, op ≠ .invalidate d) (hstored : Stored s')
    (hthreads : s'.threads =
      s.threads.set t { thread with ops := rest, fetching := none })
    (hmutexes : s'.mutexes = s.mutexes)
    (hsteps : s'.steps = s.steps + 1)
    (hinvalidated : s'.invalidated = s.invalidated)
    (hall : s'.allInvalidated = s.allInvalidated)
    (hfresh : ∀ r ∈ s'.replies, r.Fresh s'.cache_ttl) : Inv s' where
  stored := hstored
  locked :=
    h.locked.pass hthread hnone rfl hthreads hmutexes
      fun d _ => congrFun hinvalidated d
  dated := by
    refine h.dated.goOn (List.mem_of_getElem? hthread)
      { thread with ops := rest, fetching := none } rfl rfl ?_
      (hops ▸ List.cons_ne_nil _ _) hthreads hsteps hinvalidated hall
    intro _ d hin
    rw [hops, List.mem_cons] at hin
    exact hin.resolve_left fun heq => hop d heq.symm
  fresh := hfresh

theorem Inv.invalidate {d : Domain} (h : Inv s)
    (hthread : s.threads[t]? = some thread)
    (hops : thread.ops = .invalidate d :: rest)
    (hnone : thread.fetching = none) (hfree : s.mutexes d = none) :
    Inv ((s.invalidate d thread rest).goOn t thread rest) where
  stored := h.stored.invalidate
  locked := by
    refine h.locked.pass hthread hnone rfl rfl rfl fun d' hd' => ?_
    have hne : d' ≠ d := fun heq => hd' (heq ▸ hfree)
    exact Function.update_of_ne hne s.steps s.invalidated
  dated := h.dated.invalidate (List.mem_of_getElem? hthread) hops
  fresh := h.fresh

theorem fresh_reply {d : Domain} {value : Option Value}
    (h : ∀ r ∈ s.replies, r.Fresh s.cache_ttl)
    (hr : Reply.Fresh s.cache_ttl ⟨d, e, value⟩) :
    ∀ r ∈ (s.reply (.get d) e value).replies, r.Fresh s.cache_ttl := by
  intro r hmem
  obtain rfl | hold := List.mem_cons.mp hmem
  · exact hr
  · exact h r hold

theorem Inv.enterSection (h : Inv s) (hthread : s.threads[t]? = some thread)
    (hops : thread.ops = op :: rest) (hnone : thread.fetching = none)
    (hfree : s.mutexes op.domain = none) :
    Inv (enterSection s t thread op rest) := by
  unfold Caches.enterSection
  cases op with
  | get d =>
      dsimp only
      split
      · exact h.beginFetch hthread hops (fun _ heq => by cases heq) hnone hfree
      · next hstale =>
          rw [Bool.not_eq_true, isStale_eq_false_iff] at hstale
          obtain ⟨hvalid, httl, htime⟩ := hstale
          obtain ⟨v, hv, hdomain, hstarted, hstored⟩ := h.stored d hvalid
          refine h.pass hthread hops hnone (fun _ heq => by cases heq) h.stored
            rfl rfl rfl rfl rfl (fresh_reply h.fresh ?_)
          refine ⟨v, hv, hdomain, h.dated.all_le d, hstarted, .inr ⟨httl, ?_⟩⟩
          intro hcpu
          rw [hstored hcpu]
          exact htime
  | usage =>
      dsimp only
      split
      · next hvalid =>
          refine h.pass hthread hops hnone (fun _ heq => by cases heq)
            (h.stored.setCache ?_ rfl rfl) rfl rfl rfl rfl rfl h.fresh
          intro _
          obtain ⟨v, hv, hdomain, hstarted, -⟩ := h.stored .cpu hvalid
          exact ⟨v, hv, hdomain, hstarted, fun hcpu => absurd rfl hcpu⟩
      · exact h.beginFetch hthread hops (fun _ heq => by cases heq) hnone hfree
  | refresh d =>
      exact h.beginFetch hthread hops (fun _ heq => by cases heq) hnone hfree
  | invalidate d => exact h.invalidate hthread hops hnone hfree

/-- The fetch of a section ends; an exception ends the call. -/
theorem Inv.endFetch (h : Inv s) (hf : Fetches s t thread e op rest)
    (throws : Bool) : Inv (endFetch s t thread op rest e throws) := by
  have hmem := List.mem_of_getElem? hf.found
  have hne : thread.ops ≠ [] := hf.ops ▸ List.cons_ne_nil _ _
  have hcurrent := hf.current
  unfold Caches.endFetch
  cases throws with
  | true =>
      exact
        { stored := h.stored
          locked := h.locked.release hf rfl rfl rfl rfl
          dated := h.dated.goOn hmem
            { thread with ops := [], fetching := none } rfl rfl
            (fun hnil => absurd rfl hnil) hne rfl rfl rfl rfl
          fresh := h.fresh }
  | false =>
      have hstarted : s.invalidated op.domain < e.step := by
        rw [hcurrent.invalidated]
        exact hcurrent.invalidated_lt
      have hreply : Reply.Fresh s.cache_ttl
          ⟨op.domain, e, some ⟨op.domain, e.step, s.clock⟩⟩ :=
        ⟨_, rfl, rfl, hcurrent.all_le, hcurrent.invalidated_lt, .inl rfl⟩
      have hstored : Stored ((s.setMutex op.domain none).setCache op.domain
          (.set (some ⟨op.domain, e.step, s.clock⟩) s.clock)) :=
        h.stored.setCache (d := op.domain)
          (fun _ => ⟨_, rfl, rfl, hstarted, fun _ => rfl⟩) rfl rfl
      have hrest : ∀ d, Op.invalidate d ∈ thread.ops →
          Op.invalidate d ∈ rest := by
        intro d hin
        rw [hf.ops, List.mem_cons] at hin
        exact hin.resolve_left fun heq => hf.not_invalidate d heq.symm
      have hdated : ∀ s' : State, s'.threads = s.threads.set t
            { thread with ops := rest, fetching := none } →
          s'.steps = s.steps + 1 → s'.invalidated = s.invalidated →
          s'.allInvalidated = s.allInvalidated → Dated s' :=
        fun _ => h.dated.goOn hmem { thread with ops := rest, fetching := none }
          rfl rfl (fun _ => hrest) hne
      cases op with
      | get d =>
          exact
            { stored := hstored
              locked := h.locked.release hf rfl rfl rfl rfl
              dated := hdated _ rfl rfl rfl rfl
              fresh := fresh_reply h.fresh hreply }
      | usage | refresh d =>
          exact
            { stored := hstored
              locked := h.locked.release hf rfl rfl rfl rfl
              dated := hdated _ rfl rfl rfl rfl
              fresh := h.fresh }
      | invalidate d => exact absurd rfl (hf.not_invalidate d)

theorem invalidate_mem_ops (d : Domain) :
    Op.invalidate d ∈ Call.ops .InvalidateCache := by
  cases d <;> simp [Call.ops, invalidateDomain, Domain.ofName?]

theorem Inv.begin (h : Inv s) (call : Call) :
    Inv { s with
      steps := s.steps + 1
      threads := s.threads ++ [⟨call, s.steps, call.ops, none⟩] } where
  stored := h.stored
  locked := by
    have hold : ∀ {t₁ thread₁ e₁ op₁ rest₁},
        Fetches s t₁ thread₁ e₁ op₁ rest₁ →
          Fetches { s with
            steps := s.steps + 1
            threads := s.threads ++ [⟨call, s.steps, call.ops, none⟩] }
            t₁ thread₁ e₁ op₁ rest₁ := by
      intro t₁ thread₁ e₁ op₁ rest₁ hf
      refine hf.other ?_ rfl rfl
      exact List.getElem?_append_left (List.getElem?_eq_some_iff.mp hf.found).1
    constructor
    · intro t₁ thread₁ e₁ hthread₁ hfetching₁
      obtain hin | heq := getElem?_concat_cases hthread₁
      · obtain ⟨op₁, rest₁, hf⟩ :=
          h.locked.fetching t₁ thread₁ e₁ hin hfetching₁
        exact ⟨op₁, rest₁, hold hf⟩
      · rw [heq] at hfetching₁
        cases hfetching₁
    · intro d t₁ hd
      obtain ⟨thread₁, e₁, op₁, rest₁, hf, hop⟩ := h.locked.held d t₁ hd
      exact ⟨thread₁, e₁, op₁, rest₁, hold hf, hop⟩
  dated := by
    refine ⟨fun d => Nat.lt_succ_of_lt (h.dated.invalidated d), ?_, ?_,
      h.dated.all_le⟩
    · intro thread₁ hthread₁
      obtain hin | hnew := List.mem_append.mp hthread₁
      · exact Nat.lt_succ_of_lt (h.dated.began thread₁ hin)
      · rw [List.mem_singleton.mp hnew]
        exact Nat.lt_succ_self _
    · intro thread₁ hthread₁ hcall hne d
      obtain hin | hnew := List.mem_append.mp hthread₁
      · exact h.dated.covers thread₁ hin hcall hne d
      · rw [List.mem_singleton.mp hnew] at hcall ⊢
        obtain rfl : call = .InvalidateCache := hcall
        exact .inl (invalidate_mem_ops d)
  fresh := h.fresh

theorem Inv.wait (h : Inv s) (time : ℕ) :
    Inv { s with clock := s.clock + time } where
  stored := h.stored
  locked := by
    constructor
    · intro t thread e hthread hfetching
      obtain ⟨op, rest, hf⟩ := h.locked.fetching t thread e hthread hfetching
      exact ⟨op, rest, hf.other rfl rfl rfl⟩
    · intro d t hd
      obtain ⟨thread, e, op, rest, hf, hop⟩ := h.locked.held d t hd
      exact ⟨thread, e, op, rest, hf.other rfl rfl rfl, hop⟩
  dated := ⟨h.dated.invalidated, h.dated.began, h.dated.covers, h.dated.all_le⟩
  fresh := h.fresh

theorem Inv.preserved {a : Action} (h : Inv s) (hstep : step s a = some s') :
    Inv s' := by
  cases a with
  | begin call =>
      obtain rfl := Option.some.inj hstep
      exact h.begin call
  | run t throws =>
      unfold Caches.step at hstep
      dsimp only at hstep
      split at hstep
      · next thread hthread =>
          split at hstep
          · cases hstep
          · next op rest hops =>
              split at hstep
              · next e hfetching =>
                  obtain rfl := Option.some.inj hstep
                  obtain ⟨op', rest', hf⟩ :=
                    h.locked.fetching t thread e hthread hfetching
                  obtain ⟨rfl, rfl⟩ := List.cons.inj (hops.symm.trans hf.ops)
                  exact h.endFetch hf throws
              · next hnone =>
                  split at hstep
                  · next hfree =>
                      obtain rfl := Option.some.inj hstep
                      exact h.enterSection hthread hops hnone hfree
                  · cases hstep
      · cases hstep
  | wait time =>
      obtain rfl := Option.some.inj hstep
      exact h.wait time

theorem inv_init (hs : s ∈ init) : Inv s := by
  obtain ⟨cache_ttl, clock, rfl⟩ := hs
  exact
    { stored := fun d hvalid => absurd hvalid Bool.false_ne_true
      locked :=
        { fetching := fun t thread e hthread _ => by simp at hthread
          held := fun d t hd => by cases hd }
      dated :=
        { invalidated := fun _ => Nat.one_pos
          began := fun thread hthread => by cases hthread
          covers := fun thread hthread => by cases hthread
          all_le := fun _ => Nat.le_refl 0 }
      fresh := fun r hr => by cases hr }

theorem reachable_inv (hs : Transition.Reachable step init s) : Inv s :=
  hs.invariant (fun _ => inv_init) fun _ _ _ h _ hstep => h.preserved hstep

/-! ## Progress -/

/-- A bound on the steps that are left of a call. -/
def Thread.left (thread : Thread) : ℕ :=
  2 * thread.ops.length + if thread.fetching.isSome then 0 else 1

/-- A bound on the steps that are left of all calls. -/
def State.left (s : State) : ℕ :=
  Roster.tally Thread.left s.threads

theorem left_beginFetch (hnone : thread.fetching = none) (e : Entry) :
    Thread.left { thread with fetching := some e } < thread.left := by
  simp [Thread.left, hnone]

theorem left_goOn (hops : thread.ops = op :: rest) {ops : List Op}
    (hle : ops.length ≤ rest.length) :
    Thread.left { thread with ops := ops, fetching := none } < thread.left := by
  simp only [Thread.left, hops, List.length_cons, Option.isSome_none,
    Bool.false_eq_true, if_false]
  split <;> omega

/-- A step of a thread changes that thread, and less is left of it. -/
theorem exists_set_of_run {throws : Bool}
    (hstep : step s (.run t throws) = some s') :
    ∃ thread thread', s.threads[t]? = some thread ∧
      s'.threads = s.threads.set t thread' ∧ thread'.left < thread.left := by
  unfold step at hstep
  dsimp only at hstep
  split at hstep
  · next thread hthread =>
      refine ⟨thread, ?_⟩
      split at hstep
      · cases hstep
      · next op rest hops =>
          have hrest := left_goOn hops (Nat.le_refl rest.length)
          split at hstep
          · next e hfetching =>
              obtain rfl := Option.some.inj hstep
              cases throws with
              | true =>
                  exact ⟨_, hthread, rfl, left_goOn hops (Nat.zero_le _)⟩
              | false =>
                  refine ⟨_, hthread, ?_, hrest⟩
                  cases op <;> rfl
          · next hnone =>
              have hfetch := left_beginFetch hnone (s.entry op.domain)
              split at hstep
              · obtain rfl := Option.some.inj hstep
                unfold enterSection
                cases op with
                | get d =>
                    dsimp only
                    split
                    · exact ⟨_, hthread, rfl, hfetch⟩
                    · exact ⟨_, hthread, rfl, hrest⟩
                | usage =>
                    dsimp only
                    split
                    · exact ⟨_, hthread, rfl, hrest⟩
                    · exact ⟨_, hthread, rfl, hfetch⟩
                | refresh d => exact ⟨_, hthread, rfl, hfetch⟩
                | invalidate d => exact ⟨_, hthread, rfl, hrest⟩
              · cases hstep
  · cases hstep

theorem left_lt_of_run {throws : Bool}
    (hstep : step s (.run t throws) = some s') : s'.left < s.left := by
  obtain ⟨thread, thread', hthread, hthreads, hlt⟩ := exists_set_of_run hstep
  have hset := Roster.tally_set (f := Thread.left) hthread thread'
  rw [State.left, State.left, hthreads]
  omega

/-- However the threads take turns, they take no more steps than are left. -/
theorem length_le_left {acts : List Action}
    (hacts : ∀ a ∈ acts, ∃ t throws, a = .run t throws)
    (hrun : Transition.run step s acts = some s') : acts.length ≤ s.left := by
  induction acts generalizing s with
  | nil => exact Nat.zero_le _
  | cons a acts ih =>
      obtain ⟨mid, hmid, hrest⟩ := Option.bind_eq_some_iff.mp hrun
      obtain ⟨t, throws, rfl⟩ := hacts a List.mem_cons_self
      have hle := ih (fun a' ha' => hacts a' (List.mem_cons_of_mem _ ha')) hrest
      rw [List.length_cons]
      exact Nat.succ_le_of_lt (hle.trans_lt (left_lt_of_run hmid))

/-- While a call is under way, some thread can go on: the sections never wait
for one another in a circle. -/
theorem Inv.exists_run (h : Inv s) (hthread : s.threads[t]? = some thread)
    (hne : thread.ops ≠ []) : ∃ t', (step s (.run t' false)).isSome := by
  obtain ⟨op, rest, hops⟩ := List.exists_cons_of_ne_nil hne
  cases hfetching : thread.fetching with
  | some e => exact ⟨t, by simp [Caches.step, hthread, hops, hfetching]⟩
  | none =>
      cases hmutex : s.mutexes op.domain with
      | none =>
          exact ⟨t, by simp [Caches.step, hthread, hops, hfetching, hmutex]⟩
      | some t' =>
          obtain ⟨thread', e', op', rest', hf, -⟩ :=
            h.locked.held op.domain t' hmutex
          exact ⟨t', by simp [Caches.step, hf.found, hf.ops, hf.fetching]⟩

/-- A fetch that an invalidation has to wait for, and a later reply. -/
def overlappingRun : List Action :=
  [.begin (.Get .memory), .begin (.InvalidateDomain "memory"), .run 0 false,
    .wait 20, .run 0 false, .run 1 false, .begin (.Get .memory), .wait 5,
    .run 2 false, .run 2 false, .begin (.Get .memory), .run 3 false]

theorem isSome_overlappingRun :
    (Transition.run step { cache_ttl := 100, clock := 0 }
      overlappingRun).isSome = true := by
  decide

def overlappingState : State :=
  (Transition.run step { cache_ttl := 100, clock := 0 } overlappingRun).get
    isSome_overlappingRun

theorem reachable_overlappingState :
    Transition.Reachable step init overlappingState :=
  Transition.reachable_get_run (show _ ∈ init from ⟨100, 0, rfl⟩)
    isSome_overlappingRun

end Caches
end SystemInfo
end Yacul
