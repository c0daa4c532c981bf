import Yacul.Memory.ArenaLayout
import Yacul.Memory.ArenaMarks

/-!
# Scopes are snapshots

An allocation moves `used` of the current block forward or puts a block in
front of the chain, and nothing else happens to a chain between a mark and its
rewind.  So the chain of a mark can be found again in the chain it has grown
into, and the rewind gives it back.  No size is bounded here.
-/

namespace Yacul
namespace Memory

/-- What `malloc` and `MakeBlock` make of a block, and its used part. -/
structure Block.Cut (b : Block) : Prop where
  raw : b.raw < sizeModulus
  inMemory : b.raw + b.region ≤ sizeModulus
  region : b.region = mallocSize b.capacity
  capacity : b.capacity < sizeModulus
  used : b.used ≤ b.capacity

/-- The second chain is what the first one can become without a rewind. -/
inductive Grows (blocks : List Block) : List Block → Prop
  | refl : Grows blocks blocks
  | bump {cur : Block} {older : List Block} (n : ℕ)
      (h : Grows blocks (cur :: older)) (hn : cur.used ≤ n)
      (hcap : n ≤ cur.capacity) :
      Grows blocks ({ cur with used := n } :: older)
  | push {b : Block} {newer : List Block} (h : Grows blocks newer)
      (hcut : b.Cut) (hnew : ∀ c ∈ newer, b.address ≠ c.address) :
      Grows blocks (b :: newer)

/-- Where an allocation ends, counted from the data of the block. -/
def Block.endOf (b : Block) (p : Allocation) : ℕ :=
  subSize (addSize p.addr p.size) b.data

/-- Every allocation ends in the used part of some block. -/
def Ends (blocks : List Block) (live : List Allocation) : Prop :=
  ∀ p ∈ live, ∃ b ∈ blocks, b.endOf p ≤ b.used

/-- Each scope remembers a chain that has grown into the present one, and the
scopes around it had been opened on that chain.  `I` holds of each of these
chains and the allocations live at the time. -/
def Nests (I : List Block → List Allocation → Prop) :
    List Block → List Allocation → List Scope → Prop
  | _, _, [] => True
  | blocks, live, scope :: outer =>
      ∃ cur older, cur.address = scope.block ∧ cur.used = scope.used ∧
        Grows (cur :: older) blocks ∧ scope.live ≤ live.length ∧
        I (cur :: older) (live.drop (live.length - scope.live)) ∧
        Nests I (cur :: older) (live.drop (live.length - scope.live)) outer

section Grows

variable {blocks blocks' blocks'' older : List Block} {b b' cur : Block}
  {live : List Allocation} {scopes outer : List Scope} {scope : Scope}
  {I : List Block → List Allocation → Prop} {p : Allocation}

theorem Grows.trans (h : Grows blocks blocks') (h' : Grows blocks' blocks'') :
    Grows blocks blocks'' := by
  induction h' with
  | refl => exact h
  | bump n _ hn hcap ih => exact ih.bump n hn hcap
  | push _ hcut hnew ih => exact ih.push hcut hnew

/-- Every block is still there, and used as far or further. -/
theorem Grows.exists_of_mem (h : Grows blocks blocks') (hb : b ∈ blocks) :
    ∃ n, b.used ≤ n ∧ ({ b with used := n } : Block) ∈ blocks' := by
  induction h with
  | refl => exact ⟨b.used, le_rfl, hb⟩
  | bump n _ hn _ ih =>
      obtain ⟨m, hm, hmem⟩ := ih
      rcases List.mem_cons.mp hmem with rfl | hmem
      · exact ⟨n, hm.trans hn, List.mem_cons_self⟩
      · exact ⟨m, hm, List.mem_cons_of_mem _ hmem⟩
  | push _ _ _ ih =>
      obtain ⟨m, hm, hmem⟩ := ih
      exact ⟨m, hm, List.mem_cons_of_mem _ hmem⟩

theorem Block.Cut.used_le {n : ℕ} (h : b.Cut) (hn : n ≤ b.capacity) :
    ({ b with used := n } : Block).Cut :=
  ⟨h.raw, h.inMemory, h.region, h.capacity, hn⟩

theorem Grows.cut (h : Grows blocks blocks') (hcut : ∀ b ∈ blocks, b.Cut) :
    ∀ b ∈ blocks', b.Cut := by
  induction h with
  | refl => exact hcut
  | bump n _ _ hcap ih =>
      obtain ⟨hcur, holder⟩ := List.forall_mem_cons.mp ih
      exact List.forall_mem_cons.mpr ⟨hcur.used_le hcap, holder⟩
  | push _ hb _ ih => exact List.forall_mem_cons.mpr ⟨hb, ih⟩

/-- The blocks of a chain were cut already before it grew. -/
theorem Grows.cut_of_cut (h : Grows blocks blocks')
    (hcut : ∀ b ∈ blocks', b.Cut) : ∀ b ∈ blocks, b.Cut := by
  intro b hb
  obtain ⟨n, hn, hmem⟩ := h.exists_of_mem hb
  have hlater := hcut _ hmem
  exact hlater.used_le (n := b.used) (hn.trans hlater.used)

/-- The rewind finds the block of the mark behind the newer ones, and what was
behind it has not changed. -/
theorem rewindTo_of_grows (h : Grows (cur :: older) blocks) :
    Arena.rewindTo blocks cur.address cur.used = some (cur :: older) := by
  induction h with
  | refl => exact rewindTo_self cur older
  | bump n _ _ _ ih => exact (rewindTo_used _ _ _ n _).trans ih
  | push _ _ hnew ih =>
      obtain ⟨c, hc, heq⟩ := mem_of_rewindTo ih
      have hne := hnew c hc
      rw [heq] at hne
      rw [Arena.rewindTo, if_neg hne, ih]

theorem Grows.ends (h : Grows blocks blocks') (hends : Ends blocks live) :
    Ends blocks' live := by
  intro p hp
  obtain ⟨b, hb, hend⟩ := hends p hp
  obtain ⟨n, hn, hmem⟩ := h.exists_of_mem hb
  exact ⟨_, hmem, hend.trans hn⟩

/-! ## Scopes -/

theorem Nests.grow (h : Nests I blocks live scopes)
    (hgrows : Grows blocks blocks') : Nests I blocks' live scopes := by
  cases scopes with
  | nil => trivial
  | cons scope outer =>
      obtain ⟨cur, older, haddr, hused, hgrown, hrest⟩ := h
      exact ⟨cur, older, haddr, hused, hgrown.trans hgrows, hrest⟩

theorem Nests.alloc (h : Nests I blocks live scopes) (p : Allocation) :
    Nests I blocks (p :: live) scopes := by
  cases scopes with
  | nil => trivial
  | cons scope outer =>
      obtain ⟨cur, older, haddr, hused, hgrown, hlive, hrest⟩ := h
      have hlength : (p :: live).length - scope.live =
          live.length - scope.live + 1 := by
        rw [List.length_cons]
        omega
      refine ⟨cur, older, haddr, hused, hgrown,
        hlive.trans (Nat.le_succ _), ?_⟩
      rw [hlength, List.drop_succ_cons]
      exact hrest

theorem Nests.mark (h : Nests I (cur :: older) live scopes)
    (hI : I (cur :: older) live) :
    Nests I (cur :: older) live
      (⟨cur.address, cur.used, live.length⟩ :: scopes) := by
  refine ⟨cur, older, rfl, rfl, .refl, le_rfl, ?_⟩
  rw [Nat.sub_self, List.drop_zero]
  exact ⟨hI, h⟩

/-- A rewind gives back the chain of its mark. -/
theorem Nests.rewind (h : Nests I blocks live (scope :: outer)) :
    ∃ blocks', Arena.rewindTo blocks scope.block scope.used = some blocks' ∧
      Grows blocks' blocks ∧
      I blocks' (live.drop (live.length - scope.live)) ∧
      Nests I blocks' (live.drop (live.length - scope.live)) outer := by
  obtain ⟨cur, older, haddr, hused, hgrown, -, hI, hrest⟩ := h
  rw [← haddr, ← hused]
  exact ⟨_, rewindTo_of_grows hgrown, hgrown, hI, hrest⟩

end Grows

/-! ## Allocations -/

section Allocations

variable {a a' : Arena} {b b' : Block} {size align ptr : ℕ}
  {raw result : Option ℕ}

theorem cut_makeBlock {heap : List Block} {cap r : ℕ}
    (hcap : cap < sizeModulus) (hfresh : Fresh heap r (mallocSize cap)) :
    (makeBlock cap r).Cut := by
  refine ⟨hfresh.address, hfresh.inMemory, ?_, ?_, Nat.zero_le _⟩
  · rw [makeBlock_capacity hcap]
    rfl
  · rw [makeBlock_capacity hcap]
    exact hcap

theorem newCap_lt (a : Arena) (cur : Block) (size align : ℕ) :
    a.newCap cur size align < sizeModulus :=
  max_lt (Nat.mod_lt _ (by decide)) (Nat.mod_lt _ (by decide))

/-- An allocation ends where it leaves the used part of its block. -/
theorem endOf_tryAlloc (h : b.tryAlloc size align = some (ptr, b')) :
    b'.endOf ⟨ptr, size, align⟩ = b'.used := by
  simp only [Block.tryAlloc, Option.ite_none_left_eq_some, Option.some.injEq,
    Prod.mk.injEq] at h
  obtain ⟨-, hptr, rfl⟩ := h
  have hdata : b.data < sizeModulus := Nat.mod_lt _ (by decide)
  have hsame : ∀ n, ({ b with used := n } : Block).data = b.data :=
    fun _ => rfl
  simp only [Block.endOf, hsame, ← hptr]
  generalize b.data = data at *
  generalize b.padding align = padding
  simp only [addSize, subSize, sizeModulus] at *
  omega

/-- A call of `AllocBytes` lets the chain grow, and what it allocates ends in
the used part of a block. -/
theorem allocBytes_grows (hcut : ∀ b ∈ a.blocks, b.Cut)
    (hanswers : Answers a.blocks (a.request size align) raw)
    (h : a.allocBytes size align raw = .ok (some ptr, a')) :
    Grows a.blocks a'.blocks ∧
      ∃ b ∈ a'.blocks, b.endOf ⟨ptr, size, align⟩ = b.used := by
  obtain ⟨-, -, cur, older, hblocks, top, below, top', htry, -, rfl,
    hchain⟩ := allocBytes_eq_ok h
  have hend := endOf_tryAlloc htry
  refine ⟨?_, top', List.mem_cons_self, hend⟩
  have hcur : cur.Cut := hcut cur (by simp [hblocks])
  rw [hblocks]
  rcases hchain with hsame | ⟨r, hr, cur', hnull, hnew⟩
  · obtain ⟨rfl, rfl⟩ := List.cons.inj hsame
    obtain ⟨n, rfl, hle, hn⟩ := tryAlloc_used hcur.used hcur.capacity htry
    exact Grows.refl.bump n hle hn
  · have hfresh := fresh_of_answers hblocks hanswers hr
    obtain ⟨n, rfl, hle, hn⟩ :=
      tryAllocPtr_used hcur.used hcur.capacity hnull
    obtain ⟨rfl, rfl⟩ := List.cons.inj hnew
    have hmade := cut_makeBlock (newCap_lt a cur size align) hfresh
    obtain ⟨m, rfl, hle', hm⟩ :=
      tryAlloc_used hmade.used hmade.capacity htry
    -- The new region is none of those the blocks were cut out of.
    have hapart : ∀ c ∈ cur :: older,
        (makeBlock (a.newCap cur size align) r).address ≠ c.address := by
      intro c hc heq
      rw [← hblocks] at hc
      exact hfresh.distinct c hc
        (address_inj hmade.raw (hcut c hc).raw heq)
    obtain ⟨hfirst, hrest⟩ := List.forall_mem_cons.mp hapart
    exact ((Grows.refl.bump n hle hn).push hmade
      (List.forall_mem_cons.mpr ⟨hfirst, hrest⟩)).bump m hle' hm

end Allocations

/-! ## Sessions -/

/-- The invariant of a session, without bounds on sizes. -/
structure Session.Nested (s : Session) : Prop where
  initial : s.arena.initialBlockSize < sizeModulus
  cut : ∀ b ∈ s.arena.blocks, b.Cut
  ends : Ends s.arena.blocks s.live
  scopes : Nests Ends s.arena.blocks s.live s.scopes

section Sessions

variable {s s' s₁ t : Session} {call : Call} {size align ptr : ℕ}
  {raw : Option ℕ}

/-- A mark stores the current block and its `used`. -/
theorem Session.step_mark (h : s.step .mark = some s') :
    s'.arena = s.arena ∧ s'.live = s.live ∧
      ∃ cur older, s.arena.blocks = cur :: older ∧
        s'.scopes = ⟨cur.address, cur.used, s.live.length⟩ :: s.scopes := by
  simp only [Session.step] at h
  split at h
  · cases h
  · next block used hmark =>
      obtain rfl := Option.some.inj h
      refine ⟨rfl, rfl, ?_⟩
      cases hblocks : s.arena.blocks with
      | nil => simp [Arena.mark, hblocks] at hmark
      | cons cur older =>
          simp only [Arena.mark, hblocks, Except.ok.injEq,
            Prod.mk.injEq] at hmark
          obtain ⟨rfl, rfl⟩ := hmark
          exact ⟨cur, older, rfl, rfl⟩

/-- A call other than a reset or a rewind lets the chain grow and keeps the
scopes, but for the one a mark opens on the chain as it is. -/
theorem Session.step_grows (hcut : ∀ b ∈ s.arena.blocks, b.Cut)
    (hcall : (∀ raw, call ≠ .reset raw) ∧ call ≠ .rewind)
    (h : s.step call = some s') :
    Grows s.arena.blocks s'.arena.blocks ∧
      (s'.live = s.live ∨ ∃ p, s'.live = p :: s.live ∧
        ∃ b ∈ s'.arena.blocks, b.endOf p = b.used) ∧
      (s'.scopes = s.scopes ∨ s'.arena = s.arena ∧ s'.live = s.live ∧
        ∃ cur older, s.arena.blocks = cur :: older ∧
          s'.scopes = ⟨cur.address, cur.used, s.live.length⟩ :: s.scopes) := by
  cases call with
  | allocBytes size align raw =>
      obtain ⟨hanswers, ⟨-, rfl⟩ | ⟨ptr, a', halloc, rfl⟩⟩ :=
        Session.step_allocBytes h
      · exact ⟨.refl, Or.inl rfl, Or.inl rfl⟩
      · obtain ⟨hgrows, hend⟩ := allocBytes_grows hcut hanswers halloc
        exact ⟨hgrows, Or.inr ⟨_, rfl, hend⟩, Or.inl rfl⟩
  | setGrowthFactor factor =>
      obtain rfl := Option.some.inj h
      exact ⟨.refl, Or.inl rfl, Or.inl rfl⟩
  | reset raw => exact absurd rfl (hcall.1 raw)
  | mark =>
      obtain ⟨harena, hlive, hmark⟩ := Session.step_mark h
      rw [harena]
      exact ⟨.refl, Or.inl hlive, Or.inr ⟨rfl, hlive, hmark⟩⟩
  | rewind => exact absurd rfl hcall.2

/-- A call inside the scopes `outer` keeps the chains of the scopes opened
since.  A rewind ends on one of them. -/
theorem Session.step_nests {I : List Block → List Allocation → Prop}
    {inner outer : List Scope} (hcut : ∀ b ∈ s.arena.blocks, b.Cut)
    (hscopes : s.scopes = inner ++ outer)
    (hI : I s.arena.blocks s.live)
    (hnests : Nests I s.arena.blocks s.live inner)
    (hcall : (∀ raw, call ≠ .reset raw) ∧ (call = .rewind → inner ≠ []))
    (h : s.step call = some s') :
    (∃ inner', s'.scopes = inner' ++ outer ∧
      Nests I s'.arena.blocks s'.live inner') ∧
    (call = .rewind → I s'.arena.blocks s'.live ∧
      Grows s'.arena.blocks s.arena.blocks) := by
  by_cases hrewind : call = .rewind
  · subst hrewind
    cases inner with
    | nil => exact absurd rfl (hcall.2 rfl)
    | cons scope inner =>
        obtain ⟨blocks, hblocks, hgrows, hI', hnests'⟩ := hnests.rewind
        have hcons : s.scopes = scope :: (inner ++ outer) := hscopes
        simp only [Session.step, hcons, hblocks, Option.map_some] at h
        obtain rfl := Option.some.inj h
        exact ⟨⟨inner, rfl, hnests'⟩, fun _ => ⟨hI', hgrows⟩⟩
  · obtain ⟨hgrows, hlive, hopened⟩ :=
      Session.step_grows hcut ⟨hcall.1, hrewind⟩ h
    refine ⟨?_, fun heq => absurd heq hrewind⟩
    rcases hopened with hsame | ⟨harena, hlive', cur, older, hblocks, hmark⟩
    · refine ⟨inner, hsame.trans hscopes, ?_⟩
      have hgrown := hnests.grow hgrows
      rcases hlive with heq | ⟨p, heq, -⟩
      · rw [heq]
        exact hgrown
      · rw [heq]
        exact hgrown.alloc p
    · refine ⟨⟨cur.address, cur.used, s.live.length⟩ :: inner, ?_, ?_⟩
      · rw [hmark, hscopes]
        rfl
      · rw [harena, hlive', hblocks]
        rw [hblocks] at hI hnests
        exact hnests.mark hI

/-- An arena with one new block. -/
theorem nested_makeBlock {a : Arena} {r : ℕ}
    (hinitial : a.initialBlockSize < sizeModulus)
    (hfresh : Fresh [] r (mallocSize a.initialBlockSize))
    (hblocks : a.blocks = [makeBlock a.initialBlockSize r]) :
    Session.Nested ⟨a, [], []⟩ := by
  refine ⟨hinitial, ?_, nofun, trivial⟩
  rw [hblocks]
  exact List.forall_mem_singleton.mpr (cut_makeBlock hinitial hfresh)

theorem Session.step_initialBlockSize (h : s.step call = some s') :
    s'.arena.initialBlockSize = s.arena.initialBlockSize := by
  cases call with
  | allocBytes size align raw =>
      obtain ⟨-, ⟨-, rfl⟩ | ⟨ptr, a', halloc, rfl⟩⟩ :=
        Session.step_allocBytes h
      · rfl
      · obtain ⟨-, -, _, _, -, _, _, _, -, -, rfl, -⟩ :=
          allocBytes_eq_ok halloc
        rfl
  | setGrowthFactor factor =>
      obtain rfl := Option.some.inj h
      rfl
  | reset raw =>
      obtain ⟨r, -, rfl⟩ := Session.step_reset h
      rfl
  | mark =>
      obtain ⟨harena, -⟩ := Session.step_mark h
      rw [harena]
  | rewind =>
      obtain ⟨scope, outer, blocks, -, -, rfl⟩ := Session.step_rewind h
      rfl

theorem Session.scopes_ne_nil (h : s.step .rewind = some s') :
    s.scopes ≠ [] := by
  intro hnil
  simp [Session.step, hnil] at h

theorem Session.Nested.step (hs : s.Nested) (h : s.step call = some s') :
    s'.Nested := by
  by_cases hreset : ∃ raw, call = .reset raw
  · obtain ⟨raw, rfl⟩ := hreset
    obtain ⟨r, hfresh, rfl⟩ := Session.step_reset h
    exact nested_makeBlock hs.initial hfresh rfl
  · have hcall : (∀ raw, call ≠ .reset raw) ∧
        (call = .rewind → s.scopes ≠ []) := by
      refine ⟨fun raw heq => hreset ⟨raw, heq⟩, ?_⟩
      rintro rfl
      exact Session.scopes_ne_nil h
    have hinitial : s'.arena.initialBlockSize < sizeModulus := by
      rw [Session.step_initialBlockSize h]
      exact hs.initial
    obtain ⟨⟨inner, hscopes, hnests⟩, hrewound⟩ := Session.step_nests hs.cut
      (List.append_nil _).symm hs.ends hs.scopes hcall h
    rw [List.append_nil] at hscopes
    rw [← hscopes] at hnests
    by_cases hrewind : call = .rewind
    · obtain ⟨hends, hgrows⟩ := hrewound hrewind
      exact ⟨hinitial, hgrows.cut_of_cut hs.cut, hends, hnests⟩
    · obtain ⟨hgrows, hlive, -⟩ :=
        Session.step_grows hs.cut ⟨hcall.1, hrewind⟩ h
      refine ⟨hinitial, hgrows.cut hs.cut, ?_, hnests⟩
      have hends := hgrows.ends hs.ends
      rcases hlive with heq | ⟨p, heq, b, hb, hend⟩
      · rwa [heq]
      · rw [heq]
        exact List.forall_mem_cons.mpr ⟨⟨b, hb, hend.le⟩, hends⟩

theorem Session.Opened.nested (h : s.Opened) : s.Nested := by
  obtain ⟨size, r, hsize, hfresh, rfl⟩ := h.exists_block
  exact nested_makeBlock hsize hfresh rfl

/-- The sessions reached by any calls. -/
abbrev Session.Reachable : Session → Prop :=
  Transition.Reachable Session.step {s | s.Opened}

theorem Session.Reachable.nested (hs : s.Reachable) : s.Nested :=
  Transition.ReachableVia.invariant (fun _ h => Session.Opened.nested h)
    (fun _ _ _ hs _ h => hs.step h) hs

/-! ## Mark and rewind -/

/-- The calls between a mark and its rewind: no reset, and no rewind of an
outer scope. -/
def Session.Inside (depth : ℕ) (s : Session) : Call → Prop
  | .reset _ => False
  | .rewind => depth < s.scopes.length
  | _ => True

instance (depth : ℕ) (s : Session) (call : Call) :
    Decidable (s.Inside depth call) :=
  match call with
  | .reset _ => isFalse id
  | .rewind => inferInstanceAs (Decidable (depth < s.scopes.length))
  | .allocBytes _ _ _ | .setGrowthFactor _ | .mark => isTrue trivial

/-- What there was at the mark `s` is there in `t`: every block, used at least
as far, and every allocation, with the block it ends in. -/
structure Session.Survives (s t : Session) : Prop where
  blocks : ∀ b ∈ s.arena.blocks, ∃ n, b.used ≤ n ∧
    ({ b with used := n } : Block) ∈ t.arena.blocks
  allocations : ∀ p ∈ s.live, p ∈ t.live ∧ ∃ b ∈ s.arena.blocks,
    b.endOf p ≤ b.used ∧ ∃ n, b.endOf p ≤ n ∧
      ({ b with used := n } : Block) ∈ t.arena.blocks

/-- A state between the mark `s` and its rewind; `outer` are the scopes that
were open then, with the one of the mark. -/
structure Session.Within (s : Session) (outer : List Scope)
    (t : Session) : Prop where
  cut : ∀ b ∈ t.arena.blocks, b.Cut
  grows : Grows s.arena.blocks t.arena.blocks
  live : s.live <:+ t.live
  scopes : ∃ inner, t.scopes = inner ++ outer ∧
    Nests (fun blocks live => Grows s.arena.blocks blocks ∧ s.live <:+ live)
      t.arena.blocks t.live inner

theorem Session.Within.step {outer : List Scope} {t' : Session}
    (ht : s.Within outer t) (hcall : t.Inside outer.length call)
    (h : t.step call = some t') : s.Within outer t' := by
  obtain ⟨inner, hscopes, hnests⟩ := ht.scopes
  have hinside : (∀ raw, call ≠ .reset raw) ∧
      (call = .rewind → inner ≠ []) := by
    refine ⟨?_, ?_⟩
    · rintro raw rfl
      exact hcall
    · rintro rfl rfl
      have hdeep : outer.length < t.scopes.length := hcall
      rw [hscopes, List.nil_append] at hdeep
      exact absurd hdeep (Nat.lt_irrefl _)
  obtain ⟨hscopes', hrewound⟩ := Session.step_nests ht.cut hscopes
    ⟨ht.grows, ht.live⟩ hnests hinside h
  by_cases hrewind : call = .rewind
  · obtain ⟨⟨hgrows, hlive⟩, hback⟩ := hrewound hrewind
    exact ⟨hback.cut_of_cut ht.cut, hgrows, hlive, hscopes'⟩
  · obtain ⟨hgrows, hlive, -⟩ :=
      Session.step_grows ht.cut ⟨hinside.1, hrewind⟩ h
    refine ⟨hgrows.cut ht.cut, ht.grows.trans hgrows, ?_, hscopes'⟩
    rcases hlive with heq | ⟨p, heq, -⟩
    · rw [heq]
      exact ht.live
    · rw [heq]
      exact ht.live.trans (List.suffix_cons p t.live)

end Sessions

/-- The arena grows, and a scope is opened, used and closed. -/
def growsInMark : List Call :=
  [.allocBytes 100 64 (some 8192), .mark, .allocBytes 20 8 none, .rewind]

theorem growsInMark_runs :
    ((smallSession.step .mark).bind fun s =>
      Transition.run Session.step s growsInMark).isSome = true := by
  decide

theorem opened_smallSession : smallSession.Opened :=
  ⟨64, some 4096, _, by decide, by decide, rfl, rfl⟩

end Memory
end Yacul
