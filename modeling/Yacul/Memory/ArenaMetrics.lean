import Yacul.Memory.ArenaRegions
import Mathlib.Algebra.Order.BigOperators.Group.List

/-!
# The figures of an arena

`total_allocated_` is raised by every allocation and cleared by a reset, and
nothing but a reset writes `total_wasted_`.  So the figures are right as long
as nothing is skipped to align an allocation, a block is full when the arena
grows, and a rewind undoes no allocation.
-/

namespace Yacul
namespace Memory

/-- `Arena::reserved_bytes`. -/
def Arena.reservedBytes (a : Arena) : ℕ :=
  a.blocks.foldl (fun total b => addSize total b.capacity) 0

/-- The current block when a call makes the arena grow, as the call leaves
it. -/
def Arena.retiring (a : Arena) (size align : ℕ) : Option Block :=
  match a.blocks with
  | [] => none
  | cur :: _ =>
      match cur.tryAllocPtr size align with
      | (some _, _) => none
      | (none, cur) => some cur

namespace Session

/-- What a call makes of the paddings of the live allocations, newest
first. -/
def observePaddings (s : Session) (call : Call) (paddings : List ℕ) :
    List ℕ :=
  match call with
  | .allocBytes size align raw =>
      if size = 0 then paddings
      else
        match s.arena.servingBlock size align raw with
        | none => paddings
        | some b => b.padding align :: paddings
  | .reset _ => []
  | .rewind =>
      match s.scopes with
      | [] => paddings
      | scope :: _ => paddings.drop (s.live.length - scope.live)
  | .setGrowthFactor _ | .mark => paddings

/-- Sizes are `std::size_t`. -/
def Sized : Call → Prop
  | .allocBytes size _ _ => size < sizeModulus
  | _ => True

/-- A call the counters follow: an allocation skips nothing, and if the arena
grows for it, leaves a full block behind and reserves no more than a
`std::size_t` can count; a rewind undoes no allocation. -/
def Tidy (s : Session) : Call → Prop
  | .allocBytes size align raw => size = 0 ∨
      (∀ b ∈ s.arena.servingBlock size align raw, b.padding align = 0) ∧
        ∀ cur ∈ s.arena.retiring size align, cur.used = cur.capacity ∧
          s.arena.newCap cur size align +
            (s.arena.blocks.map Block.capacity).sum < sizeModulus
  | .rewind => ∀ scope ∈ s.scopes.head?, scope.live = s.live.length
  | _ => True

instance (call : Call) : Decidable (Sized call) :=
  match call with
  | .allocBytes size _ _ => inferInstanceAs (Decidable (size < sizeModulus))
  | .setGrowthFactor _ | .reset _ | .mark | .rewind => isTrue trivial

instance (s : Session) (call : Call) : Decidable (s.Tidy call) :=
  match call with
  | .allocBytes size align raw => inferInstanceAs (Decidable (size = 0 ∨
      (∀ b ∈ s.arena.servingBlock size align raw, b.padding align = 0) ∧
        ∀ cur ∈ s.arena.retiring size align, cur.used = cur.capacity ∧
          s.arena.newCap cur size align +
            (s.arena.blocks.map Block.capacity).sum < sizeModulus))
  | .rewind => inferInstanceAs
      (Decidable (∀ scope ∈ s.scopes.head?, scope.live = s.live.length))
  | .setGrowthFactor _ | .reset _ | .mark => isTrue trivial

end Session

/-- A session, with the paddings of its live allocations. -/
abbrev Metered := Session × List ℕ

namespace Metered

abbrev step : Metered → Call → Option Metered :=
  Transition.watch Session.step Session.observePaddings

/-- A new arena. -/
def Opened (m : Metered) : Prop := m.1.Opened ∧ m.2 = []

/-- The figures mean what they say. -/
structure MetricsOk (m : Metered) : Prop where
  allocated :
    m.1.arena.totalAllocated = (m.1.live.map Allocation.size).sum
  wasted :
    m.1.arena.totalWasted = m.2.sum +
      (m.1.arena.blocks.tail.map fun b => b.capacity - b.used).sum
  reserved :
    m.1.arena.totalAllocated + m.1.arena.totalWasted ≤
      m.1.arena.reservedBytes

end Metered

/-- The used parts pay for the live allocations, every block but the current
one is full, and the capacities can be added up. -/
structure Accounts (blocks : List Block) (live : List Allocation) : Prop where
  live : (live.map Allocation.size).sum ≤ (blocks.map Block.used).sum
  full : ∀ b ∈ blocks.tail, b.used = b.capacity
  capacity : (blocks.map Block.capacity).sum < sizeModulus

section Metrics

variable {a a' : Arena} {b b' cur : Block} {blocks older : List Block}
  {live : List Allocation} {s s' : Session} {m m' : Metered} {call : Call}
  {size align ptr : ℕ} {raw : Option ℕ}

theorem foldl_addSize_capacity (blocks : List Block) (start : ℕ) :
    blocks.foldl (fun total b => addSize total b.capacity)
        (start % sizeModulus) =
      (start + (blocks.map Block.capacity).sum) % sizeModulus := by
  induction blocks generalizing start with
  | nil => rfl
  | cons b blocks ih =>
      have hadd : addSize (start % sizeModulus) b.capacity =
          (start + b.capacity) % sizeModulus := by
        rw [addSize, Nat.mod_add_mod]
      rw [List.foldl_cons, hadd, ih, List.map_cons, List.sum_cons,
        Nat.add_assoc]

theorem Accounts.reservedBytes_eq (h : Accounts a.blocks live) :
    a.reservedBytes = (a.blocks.map Block.capacity).sum := by
  have hfold := foldl_addSize_capacity a.blocks 0
  rw [Nat.zero_mod, Nat.zero_add, Nat.mod_eq_of_lt h.capacity] at hfold
  exact hfold

theorem sum_used_le (hcut : ∀ b ∈ blocks, b.Cut) :
    (blocks.map Block.used).sum ≤ (blocks.map Block.capacity).sum :=
  List.sum_le_sum fun b hb => (hcut b hb).used

/-- An allocation that skips nothing takes its size. -/
theorem tryAlloc_of_padding (hb : b.Cut) (hsize : size < sizeModulus)
    (hpadding : b.padding align = 0)
    (h : b.tryAlloc size align = some (ptr, b')) :
    b' = { b with used := b.used + size } ∧ b.used + size ≤ b.capacity := by
  have htotal : addSize (b.padding align) size = size := by
    rw [hpadding, addSize, Nat.zero_add, Nat.mod_eq_of_lt hsize]
  simp only [Block.tryAlloc, htotal, Option.ite_none_left_eq_some,
    Nat.not_lt, Option.some.injEq, Prod.mk.injEq] at h
  obtain ⟨hfits, -, rfl⟩ := h
  rw [Block.remaining_eq hb.used hb.capacity] at hfits
  have hle : b.used + size ≤ b.capacity := by
    have hused := hb.used
    omega
  refine ⟨?_, hle⟩
  rw [addSize, Nat.mod_eq_of_lt (hle.trans_lt hb.capacity)]

/-! ## One block and the next -/

/-- The current block pays for the allocation. -/
theorem Accounts.bump (h : Accounts (cur :: older) live) (p : Allocation) :
    Accounts ({ cur with used := cur.used + p.size } :: older)
      (p :: live) := by
  refine ⟨?_, h.full, h.capacity⟩
  have hlive := h.live
  simp only [List.map_cons, List.sum_cons] at hlive ⊢
  omega

/-- A full block is left behind. -/
theorem Accounts.push (h : Accounts (cur :: older) live)
    (hfull : cur.used = cur.capacity)
    (hcapacity : b.capacity + ((cur :: older).map Block.capacity).sum <
      sizeModulus) :
    Accounts (b :: cur :: older) live := by
  refine ⟨?_, List.forall_mem_cons.mpr ⟨hfull, h.full⟩, hcapacity⟩
  rw [List.map_cons, List.sum_cons]
  exact h.live.trans (Nat.le_add_left _ _)

/-- What a failed `TryAlloc` may use up. -/
theorem Accounts.used {n : ℕ} (h : Accounts (cur :: older) live)
    (hn : cur.used ≤ n) :
    Accounts ({ cur with used := n } :: older) live := by
  refine ⟨?_, h.full, h.capacity⟩
  have hlive := h.live
  simp only [List.map_cons, List.sum_cons] at hlive ⊢
  omega

theorem accounts_makeBlock {cap r : ℕ} (hcap : cap < sizeModulus) :
    Accounts [makeBlock cap r] [] := by
  refine ⟨Nat.zero_le _, nofun, ?_⟩
  simp only [List.map_cons, List.map_nil, List.sum_cons, List.sum_nil,
    makeBlock_capacity hcap]
  exact hcap

/-! ## Calls -/

/-- What the tidy allocation takes, the current block pays for. -/
theorem allocBytes_accounts (hcut : ∀ b ∈ s.arena.blocks, b.Cut)
    (haccounts : Accounts s.arena.blocks s.live)
    (hsized : size < sizeModulus)
    (htidy : s.Tidy (.allocBytes size align raw))
    (hanswers : Answers s.arena.blocks (s.arena.request size align) raw)
    (h : s.arena.allocBytes size align raw = .ok (some ptr, a')) :
    Accounts a'.blocks (⟨ptr, size, align⟩ :: s.live) ∧
      (∀ paddings, s.observePaddings (.allocBytes size align raw) paddings =
        0 :: paddings) ∧
      a'.totalAllocated = addSize s.arena.totalAllocated size := by
  obtain ⟨hpos, -, -, b, b', -, hserving, hb, htry⟩ :=
    servingBlock_spec hcut hanswers h
  obtain ⟨hpaddings, hretiring⟩ := htidy.resolve_left hpos.ne'
  have hpadding := hpaddings b hserving
  have hobserve : ∀ paddings,
      s.observePaddings (.allocBytes size align raw) paddings =
        0 :: paddings := by
    intro paddings
    simp only [Session.observePaddings, if_neg hpos.ne', hserving, hpadding]
  obtain ⟨-, -, cur, older, hblocks, top, below, top', htry', hnull, rfl,
    hchain⟩ := allocBytes_eq_ok h
  refine ⟨?_, hobserve, rfl⟩
  rw [hblocks] at haccounts
  rcases hchain with hsame | ⟨r, hr, cur', hfailed, hnew⟩
  · obtain ⟨rfl, rfl⟩ := List.cons.inj hsame
    have hptr := tryAllocPtr_of_ne htry' hnull
    obtain rfl : top = b := by
      simp only [Arena.servingBlock, hblocks, hptr] at hserving
      exact Option.some.inj hserving
    obtain ⟨rfl, -⟩ := tryAlloc_of_padding hb hsized hpadding htry'
    exact haccounts.bump ⟨ptr, size, align⟩
  · obtain ⟨rfl, rfl⟩ := List.cons.inj hnew
    obtain rfl : raw = some r := hr
    obtain rfl : makeBlock (s.arena.newCap cur' size align) r = b := by
      simp only [Arena.servingBlock, hblocks, hfailed] at hserving
      exact Option.some.inj hserving
    obtain ⟨hfull, hcapacity⟩ := hretiring cur' (by
      simp only [Arena.retiring, hblocks, hfailed, Option.mem_some])
    have hcur : cur.Cut := hcut cur (by simp [hblocks])
    obtain ⟨n, rfl, hle, -⟩ :=
      tryAllocPtr_used hcur.used hcur.capacity hfailed
    obtain ⟨rfl, -⟩ := tryAlloc_of_padding hb hsized hpadding htry'
    rw [hblocks] at hcapacity
    have hpushed := (haccounts.used hle).push hfull
      (b := makeBlock
        (s.arena.newCap { cur with used := n } size align) r)
      (by rwa [makeBlock_capacity (newCap_lt _ _ _ _)])
    exact hpushed.bump ⟨ptr, size, align⟩

/-- No call raises `total_wasted_`. -/
theorem Session.step_totalWasted (hwasted : s.arena.totalWasted = 0)
    (h : s.step call = some s') : s'.arena.totalWasted = 0 := by
  cases call with
  | allocBytes size align raw =>
      obtain ⟨-, ⟨-, rfl⟩ | ⟨ptr, a', halloc, rfl⟩⟩ :=
        Session.step_allocBytes h
      · exact hwasted
      · obtain ⟨-, -, _, _, -, _, _, _, -, -, rfl, -⟩ :=
          allocBytes_eq_ok halloc
        exact hwasted
  | setGrowthFactor factor =>
      obtain rfl := Option.some.inj h
      exact hwasted
  | reset raw =>
      obtain ⟨r, -, rfl⟩ := Session.step_reset h
      rfl
  | mark =>
      obtain ⟨harena, -⟩ := Session.step_mark h
      rwa [harena]
  | rewind =>
      obtain ⟨scope, outer, blocks, -, -, rfl⟩ := Session.step_rewind h
      exact hwasted

/-- A rewind that undoes no allocation changes neither them nor their
paddings. -/
theorem rewind_of_tidy (htidy : s.Tidy .rewind)
    (h : s.step .rewind = some s') (paddings : List ℕ) :
    s'.live = s.live ∧ s.observePaddings .rewind paddings = paddings ∧
      s'.arena.totalAllocated = s.arena.totalAllocated := by
  obtain ⟨scope, outer, blocks, hscopes, -, rfl⟩ := Session.step_rewind h
  have hlive : scope.live = s.live.length :=
    htidy scope (by simp [hscopes])
  simp only [Session.observePaddings, hscopes, hlive, Nat.sub_self,
    List.drop_zero, and_self]

/-! ## Sessions -/

/-- The invariant of tidy sessions. -/
structure Metered.Balanced (m : Metered) : Prop where
  nested : m.1.Nested
  accounts : Accounts m.1.arena.blocks m.1.live
  scopes : Nests Accounts m.1.arena.blocks m.1.live m.1.scopes
  allocated :
    m.1.arena.totalAllocated = (m.1.live.map Allocation.size).sum
  wasted : m.1.arena.totalWasted = 0
  paddings : ∀ n ∈ m.2, n = 0

theorem Metered.Balanced.metricsOk (hm : m.Balanced) : m.MetricsOk := by
  have hpaddings : m.2.sum = 0 := List.sum_eq_zero hm.paddings
  have hunused : (m.1.arena.blocks.tail.map
      fun b => b.capacity - b.used).sum = 0 := by
    refine List.sum_eq_zero ?_
    simp only [List.mem_map, forall_exists_index, and_imp]
    rintro _ b hb rfl
    rw [hm.accounts.full b hb, Nat.sub_self]
  refine ⟨hm.allocated, ?_, ?_⟩
  · rw [hm.wasted, hpaddings, hunused]
  · rw [hm.allocated, hm.wasted, Nat.add_zero, hm.accounts.reservedBytes_eq]
    exact hm.accounts.live.trans (sum_used_le hm.nested.cut)

/-- A new block, before anything is allocated. -/
theorem balanced_makeBlock {r : ℕ} (hnested : Session.Nested ⟨a, [], []⟩)
    (hblocks : a.blocks = [makeBlock a.initialBlockSize r])
    (hallocated : a.totalAllocated = 0) (hwasted : a.totalWasted = 0) :
    Metered.Balanced (⟨a, [], []⟩, []) := by
  refine ⟨hnested, ?_, trivial, hallocated, hwasted, nofun⟩
  rw [hblocks]
  exact accounts_makeBlock hnested.initial

theorem Metered.Opened.balanced (h : m.Opened) : m.Balanced := by
  obtain ⟨s, paddings⟩ := m
  obtain ⟨hopened, rfl⟩ := h
  have hnested := Session.Opened.nested hopened
  obtain ⟨size, r, -, -, rfl⟩ := hopened.exists_block
  exact balanced_makeBlock hnested rfl rfl rfl

/-- The chain, the allocations and the figures after a tidy call. -/
theorem Metered.Balanced.figures (hm : m.Balanced)
    (hsized : Session.Sized call) (htidy : m.1.Tidy call)
    (hreset : ∀ raw, call ≠ .reset raw) (hrewind : call ≠ .rewind)
    (hcut : ∀ b ∈ s'.arena.blocks, b.Cut) (h : m.1.step call = some s') :
    Accounts s'.arena.blocks s'.live ∧
      s'.arena.totalAllocated = (s'.live.map Allocation.size).sum ∧
      ∀ n ∈ m.1.observePaddings call m.2, n = 0 := by
  cases call with
  | allocBytes size align raw =>
      obtain ⟨hanswers, ⟨hzero, rfl⟩ | ⟨ptr, a', halloc, rfl⟩⟩ :=
        Session.step_allocBytes h
      · simp only [Session.observePaddings, if_pos hzero]
        exact ⟨hm.accounts, hm.allocated, hm.paddings⟩
      · obtain ⟨haccounts, hobserve, htotal⟩ := allocBytes_accounts
          hm.nested.cut hm.accounts hsized htidy hanswers halloc
        refine ⟨haccounts, ?_, ?_⟩
        · have hlive := haccounts.live.trans (sum_used_le hcut)
          have hfits := hlive.trans_lt haccounts.capacity
          rw [List.map_cons, List.sum_cons, Nat.add_comm] at hfits
          rw [htotal, hm.allocated, addSize, Nat.mod_eq_of_lt hfits,
            List.map_cons, List.sum_cons, Nat.add_comm]
        · rw [hobserve]
          exact List.forall_mem_cons.mpr ⟨rfl, hm.paddings⟩
  | setGrowthFactor factor =>
      obtain rfl := Option.some.inj h
      exact ⟨hm.accounts, hm.allocated, hm.paddings⟩
  | reset raw => exact absurd rfl (hreset raw)
  | mark =>
      obtain ⟨harena, hlive, -⟩ := Session.step_mark h
      rw [harena, hlive]
      exact ⟨hm.accounts, hm.allocated, hm.paddings⟩
  | rewind => exact absurd rfl hrewind

theorem Metered.Balanced.step (hm : m.Balanced)
    (hsized : Session.Sized call) (htidy : m.1.Tidy call)
    (h : Metered.step m call = some m') : m'.Balanced := by
  obtain ⟨s', paddings'⟩ := m'
  obtain ⟨hstep, hpaddings⟩ := Transition.watch_eq_some.mp h
  simp only at hstep hpaddings
  have hnested := hm.nested.step hstep
  have hwasted := Session.step_totalWasted hm.wasted hstep
  by_cases hreset : ∃ raw, call = .reset raw
  · obtain ⟨raw, rfl⟩ := hreset
    obtain ⟨r, -, rfl⟩ := Session.step_reset hstep
    rw [hpaddings]
    exact balanced_makeBlock hnested rfl rfl rfl
  · have hcall : (∀ raw, call ≠ .reset raw) ∧
        (call = .rewind → m.1.scopes ≠ []) := by
      refine ⟨fun raw heq => hreset ⟨raw, heq⟩, ?_⟩
      rintro rfl
      exact Session.scopes_ne_nil hstep
    obtain ⟨⟨inner, hscopes, hnests⟩, hrewound⟩ := Session.step_nests
      hm.nested.cut (List.append_nil _).symm hm.accounts hm.scopes hcall
      hstep
    rw [List.append_nil] at hscopes
    rw [← hscopes] at hnests
    by_cases hrewind : call = .rewind
    · subst hrewind
      obtain ⟨hlive, hobserve, htotal⟩ :=
        rewind_of_tidy htidy hstep m.2
      refine ⟨hnested, (hrewound rfl).1, hnests, ?_, hwasted, ?_⟩
      · rw [hlive, htotal]
        exact hm.allocated
      · rw [hpaddings, hobserve]
        exact hm.paddings
    · obtain ⟨haccounts, htotal, hnone⟩ :=
        hm.figures hsized htidy hcall.1 hrewind hnested.cut hstep
      refine ⟨hnested, haccounts, hnests, htotal, hwasted, ?_⟩
      rw [hpaddings]
      exact hnone

/-- In every state reached by tidy calls the figures of the arena mean what
they say. -/
theorem reachable_metricsOk
    (hm : Transition.ReachableVia Metered.step
      (fun m call => Session.Sized call ∧ m.1.Tidy call)
      {m | m.Opened} m) :
    m.MetricsOk := by
  have hbalanced : m.Balanced :=
    Transition.ReachableVia.invariant (fun _ h => Metered.Opened.balanced h)
      (fun _ _ _ hm hcall h => hm.step hcall.1 hcall.2 h) hm
  exact hbalanced.metricsOk

end Metrics

/-- A block is filled before the arena grows, and a scope is closed in which
nothing was allocated. -/
def tidyCalls : List Call :=
  [.allocBytes 64 8 none, .allocBytes 64 8 (some 8192), .mark, .rewind]

theorem tidyCalls_runs :
    (Transition.run Metered.step (smallSession, []) tidyCalls).isSome =
      true := by
  decide

theorem opened_smallMetered :
    (smallSession, []) ∈ {m : Metered | m.Opened} :=
  ⟨opened_smallSession, rfl⟩

/-- Of 192 bytes 128 are in use, and none are wasted. -/
theorem reachable_metricsOk_tidyCalls :
    ((Transition.run Metered.step (smallSession, []) tidyCalls).get
      tidyCalls_runs).MetricsOk := by
  have htidy : Transition.AllSteps Metered.step
      (fun m call => Session.Sized call ∧ m.1.Tidy call)
      (smallSession, []) tidyCalls := by decide
  exact reachable_metricsOk (.run (.start opened_smallMetered) htidy
    (Option.some_get tidyCalls_runs).symm)

/-- Seven bytes are skipped between two allocations. -/
def skipsSeven : List Call := [.allocBytes 1 1 none, .allocBytes 8 8 none]

theorem skipsSeven_runs :
    (Transition.run Metered.step (smallSession, []) skipsSeven).isSome =
      true := by
  decide

/-- The seven bytes are not counted as wasted. -/
theorem exists_uncounted :
    ¬ ∀ m, Transition.ReachableVia Metered.step
      (fun _ call => Session.Sized call) {m | m.Opened} m →
      m.MetricsOk := by
  intro hall
  have hsized : Transition.AllSteps Metered.step
      (fun _ call => Session.Sized call) (smallSession, []) skipsSeven := by
    decide
  have hok := hall _ (.run (.start opened_smallMetered) hsized
    (Option.some_get skipsSeven_runs).symm)
  exact absurd hok.wasted (by decide)

end Memory
end Yacul
