import Yacul.Memory.Arena
import Yacul.Support.Transition

/-!
# The layout of arena allocations

A session uses one arena: it allocates, resets, and opens and closes mark
scopes, each scope inside the one around it.  The live allocations are those
that no rewind and no reset has undone.  They are stacked in the used parts of
the blocks, and closing a scope cuts the stack where it was when the scope was
opened.
-/

namespace Yacul
namespace Memory

/-- The result of an allocation, with what was asked for. -/
structure Allocation where
  addr : ℕ
  size : ℕ
  align : ℕ
deriving DecidableEq, Repr

def Allocation.Disjoint (p q : Allocation) : Prop :=
  p.addr + p.size ≤ q.addr ∨ q.addr + q.size ≤ p.addr

/-- An open mark: what the mark stores, and the number of allocations live
when it was taken. -/
structure Scope where
  block : ℕ
  used : ℕ
  live : ℕ
deriving DecidableEq, Repr

/-- An arena, its live allocations, and its open marks, both newest first. -/
structure Session where
  arena : Arena
  live : List Allocation
  scopes : List Scope
deriving DecidableEq, Repr

/-- A call of a session, with what `malloc` answers if it is asked. -/
inductive Call
  | allocBytes (size align : ℕ) (raw : Option ℕ)
  | setGrowthFactor (factor : ℕ)
  | reset (raw : Option ℕ)
  | mark
  | rewind
deriving DecidableEq, Repr

namespace Session

/-- One call.  A rewind closes the innermost scope; a reset closes all of
them. -/
def step (s : Session) : Call → Option Session
  | .allocBytes size align raw =>
      if Answers s.arena.blocks (s.arena.request size align) raw then
        match s.arena.allocBytes size align raw with
        | .error _ => none
        | .ok (none, arena) => some { s with arena := arena }
        | .ok (some ptr, arena) =>
            some { s with
              arena := arena
              live := ⟨ptr, size, align⟩ :: s.live }
      else none
  | .setGrowthFactor factor =>
      some { s with arena := s.arena.setGrowthFactor factor }
  | .reset raw =>
      if Answers [] (mallocSize s.arena.initialBlockSize) raw then
        match s.arena.reset raw with
        | .error _ => none
        | .ok arena => some { arena := arena, live := [], scopes := [] }
      else none
  | .mark =>
      match s.arena.mark with
      | .error _ => none
      | .ok (block, used) =>
          some { s with scopes := ⟨block, used, s.live.length⟩ :: s.scopes }
  | .rewind =>
      match s.scopes with
      | [] => none
      | scope :: outer =>
          (Arena.rewindTo s.arena.blocks scope.block scope.used).map
            fun blocks =>
              { arena := { s.arena with blocks := blocks }
                live := s.live.drop (s.live.length - scope.live)
                scopes := outer }

/-- Sizes, and capacities times the growth factor, stay below the limit. -/
def Bounded (s : Session) : Call → Prop
  | .allocBytes size _ _ =>
      size < sizeLimit ∧ ∀ cur ∈ s.arena.blocks.head?,
        cur.capacity * s.arena.blockGrowthFactor < sizeLimit
  | _ => True

instance (s : Session) (call : Call) : Decidable (s.Bounded call) :=
  match call with
  | .allocBytes size _ _ =>
      inferInstanceAs (Decidable (size < sizeLimit ∧
        ∀ cur ∈ s.arena.blocks.head?,
          cur.capacity * s.arena.blockGrowthFactor < sizeLimit))
  | .setGrowthFactor _ | .reset _ | .mark | .rewind => isTrue trivial

/-- A session with a newly constructed arena. -/
def Opened (s : Session) : Prop :=
  ∃ initialSize raw arena, initialSize < sizeModulus ∧
    Answers [] (mallocSize (Arena.initialCapacity initialSize)) raw ∧
    Arena.construct initialSize raw = .ok arena ∧ s = ⟨arena, [], []⟩

/-- The layout of the live allocations. -/
structure LayoutOk (s : Session) : Prop where
  disjoint : s.live.Pairwise Allocation.Disjoint
  aligned : ∀ p ∈ s.live, p.align ∣ p.addr
  inside : ∀ p ∈ s.live, ∃ b ∈ s.arena.blocks,
    b.raw + overhead + blockHeader ≤ p.addr ∧
      p.addr + p.size ≤ b.raw + b.region

end Session

/-! ## Blocks -/

theorem overhead_eq : overhead = 16 := by decide

theorem blockHeader_eq : blockHeader = 32 := by decide

/-- The sizes of a block fit together. -/
structure Block.Ok (b : Block) : Prop where
  capacity : b.capacity < sizeModulus
  used : b.used ≤ b.capacity
  address : b.raw < sizeModulus
  inMemory : b.raw + b.region ≤ sizeModulus
  region : b.capacity < 2 ^ 63 → b.region = b.capacity + 48

/-- The block holds the allocation in its used part. -/
structure Block.Holds (b : Block) (p : Allocation) : Prop where
  start : b.raw + 48 ≤ p.addr
  used : p.addr + p.size ≤ b.raw + 48 + b.used
  region : p.addr + p.size ≤ b.raw + b.region

section Blocks

variable {b b' : Block} {heap : List Block} {size align ptr cap raw : ℕ}

theorem makeBlock_capacity (hcap : cap < sizeModulus) :
    (makeBlock cap raw).capacity = cap := by
  simp only [makeBlock, mallocSize, overhead_eq, blockHeader_eq, addSize,
    Basic.wrapSub, sizeModulus] at *
  omega

theorem makeBlock_region (hcap : cap < 2 ^ 63) :
    (makeBlock cap raw).region = cap + 48 := by
  simp only [makeBlock, mallocSize, overhead_eq, blockHeader_eq, addSize,
    sizeModulus]
  omega

theorem makeBlock_ok (hcap : cap < sizeModulus)
    (hfresh : Fresh heap raw (mallocSize cap)) : (makeBlock cap raw).Ok := by
  constructor
  · rw [makeBlock_capacity hcap]
    exact hcap
  · exact Nat.zero_le _
  · exact hfresh.address
  · exact hfresh.inMemory
  · rw [makeBlock_capacity hcap]
    exact makeBlock_region

theorem Block.Ok.data_eq (hb : b.Ok) (hcap : b.capacity < 2 ^ 63)
    (hpos : 0 < b.capacity) : b.data = b.raw + 48 := by
  have hregion := hb.region hcap
  have hmem := hb.inMemory
  simp only [Block.data, Block.address, overhead_eq, blockHeader_eq, addSize,
    sizeModulus] at *
  omega

theorem Block.remaining_eq (hused : b.used ≤ b.capacity)
    (hcap : b.capacity < sizeModulus) : b.remaining = b.capacity - b.used := by
  simp only [Block.remaining, Basic.wrapSub, sizeModulus] at *
  omega

/-- An accepted alignment. -/
theorem checkAlignment_spec (h : checkAlignment align = true) :
    Basic.isPowerOfTwo align = true ∧ align ≤ 4096 := by
  simp only [checkAlignment, Bool.and_eq_true, decide_eq_true_eq] at h
  exact ⟨h.1.2, h.2⟩

theorem padding_lt (halign : checkAlignment align = true) :
    b.padding align < align ∧
      align ∣ addSize b.data b.used + b.padding align := by
  obtain ⟨hpow, hle⟩ := checkAlignment_spec halign
  have hbase : addSize b.data b.used < 2 ^ 64 := Nat.mod_lt _ (by decide)
  exact Basic.padding_spec hpow (hle.trans (by decide)) hbase

/-- A successful `TryAlloc` takes the padding and the size from the block. -/
theorem tryAlloc_spec (hb : b.Ok) (hcap : b.capacity < 2 ^ 63)
    (halign : checkAlignment align = true) (hpos : 0 < size)
    (hsize : size < sizeLimit) (h : b.tryAlloc size align = some (ptr, b')) :
    align ∣ ptr ∧ b.raw + 48 + b.used ≤ ptr ∧
      ∃ used, b' = { b with used := used } ∧ used ≤ b.capacity ∧
        b.used ≤ used ∧ ptr + size = b.raw + 48 + used := by
  obtain ⟨hpad, hdvd⟩ := padding_lt (b := b) halign
  have halign' := (checkAlignment_spec halign).2
  have hused := hb.used
  have hmem := hb.inMemory
  have hregion := hb.region hcap
  simp only [Block.tryAlloc, Option.ite_none_left_eq_some, Nat.not_lt,
    Option.some.injEq, Prod.mk.injEq,
    Block.remaining_eq hb.used hb.capacity] at h
  obtain ⟨hfits, hptr, hb'⟩ := h
  have htotal : addSize (b.padding align) size = b.padding align + size := by
    simp only [addSize, sizeModulus, sizeLimit] at *
    omega
  rw [htotal] at hfits hb'
  have hdata : b.data = b.raw + 48 := hb.data_eq hcap (by omega)
  have hbase : addSize b.data b.used = b.raw + 48 + b.used := by
    rw [hdata]
    simp only [addSize, sizeModulus] at *
    omega
  rw [hbase] at hptr hdvd
  have hptr' : ptr = b.raw + 48 + b.used + b.padding align := by
    rw [← hptr]
    simp only [addSize, sizeModulus] at *
    omega
  have hused' : addSize b.used (b.padding align + size) =
      b.used + (b.padding align + size) := by
    simp only [addSize, sizeModulus] at *
    omega
  rw [hused'] at hb'
  refine ⟨hptr' ▸ hdvd, by omega, _, hb'.symm, by omega, by omega, by omega⟩

/-- A block that fits together returns null only when it is too small. -/
theorem tryAllocPtr_of_ok (hb : b.Ok) (hcap : b.capacity < 2 ^ 63)
    (halign : checkAlignment align = true) (hpos : 0 < size)
    (hsize : size < sizeLimit)
    (h : b.tryAllocPtr size align = (none, b')) :
    b.tryAlloc size align = none ∧ b' = b := by
  rcases tryAllocPtr_eq_none h with hnone | hzero
  · exact hnone
  · obtain ⟨-, hle, -⟩ := tryAlloc_spec hb hcap halign hpos hsize hzero
    omega

/-- A new block made for a request satisfies it. -/
theorem tryAlloc_makeBlock (halign : checkAlignment align = true)
    (hsize : size < sizeLimit) (hcap : cap < 2 ^ 63)
    (hroom : size + align ≤ cap) :
    (makeBlock cap raw).tryAlloc size align ≠ none := by
  obtain ⟨hpad, -⟩ := padding_lt (b := makeBlock cap raw) halign
  have hcapacity : (makeBlock cap raw).capacity = cap :=
    makeBlock_capacity (hcap.trans (by decide))
  have hremaining : (makeBlock cap raw).remaining = cap := by
    have hused : (makeBlock cap raw).used = 0 := rfl
    simp only [Block.remaining, hcapacity, hused, Basic.wrapSub]
    omega
  have hfits : ¬ (makeBlock cap raw).remaining <
      addSize ((makeBlock cap raw).padding align) size := by
    rw [hremaining]
    simp only [addSize, sizeModulus, sizeLimit] at *
    omega
  simp only [Block.tryAlloc, if_neg hfits, ne_eq, reduceCtorEq,
    not_false_eq_true]

end Blocks

/-- The capacity asked for when the arena grows has room for the request. -/
theorem newCap_spec {a : Arena} {cur : Block} {size align : ℕ}
    (halign : checkAlignment align = true) (hsize : size < sizeLimit)
    (hgrow : cur.capacity * a.blockGrowthFactor < sizeLimit) :
    size + align ≤ a.newCap cur size align ∧
      a.newCap cur size align < 2 ^ 63 := by
  obtain ⟨hpow, hle⟩ := checkAlignment_spec halign
  have hsum : addSize size blockHeader = size + 32 := by
    simp only [blockHeader_eq, addSize, sizeModulus, sizeLimit] at *
    omega
  have hbound : size + 32 + align ≤ 2 ^ 64 := by
    simp only [sizeLimit] at hsize
    omega
  obtain ⟨hup, hlt, -⟩ :=
    Basic.alignUp_spec (Basic.pos_of_isPowerOfTwo hpow) hbound
  have hmul : mulSize cur.capacity a.blockGrowthFactor =
      cur.capacity * a.blockGrowthFactor :=
    Nat.mod_eq_of_lt (hgrow.trans (by decide))
  have hadd : addSize (sizeAlignUp (addSize size blockHeader) align) align =
      Basic.alignUp 64 false (size + 32) align + align := by
    rw [hsum]
    simp only [sizeAlignUp, addSize, sizeModulus, sizeLimit] at *
    omega
  simp only [Arena.newCap, hmul, hadd, sizeLimit] at *
  omega

/-! ## Chains -/

/-- The blocks are different and their regions do not meet. -/
structure Block.Apart (b c : Block) : Prop where
  address : b.address ≠ c.address
  region : b.raw + b.region ≤ c.raw ∨ c.raw + c.region ≤ b.raw

structure ChainOk (blocks : List Block) : Prop where
  ok : ∀ b ∈ blocks, b.Ok
  apart : blocks.Pairwise Block.Apart

/-- Every allocation is held by a block of the chain. -/
def Held (blocks : List Block) (live : List Allocation) : Prop :=
  ∀ p ∈ live, ∃ b ∈ blocks, b.Holds p

/-- Each scope rewinds the chain to blocks that hold the allocations made
before it, and so do the scopes around it from there. -/
def ScopesOk : List Block → List Allocation → List Scope → Prop
  | _, _, [] => True
  | blocks, live, scope :: outer =>
      scope.live ≤ live.length ∧ ∃ blocks',
        Arena.rewindTo blocks scope.block scope.used = some blocks' ∧
          ChainOk blocks' ∧ Held blocks' (live.drop (live.length - scope.live)) ∧
          ScopesOk blocks' (live.drop (live.length - scope.live)) outer

section Chains

variable {b b' cur : Block} {blocks older : List Block}
  {live : List Allocation} {scopes : List Scope} {p : Allocation}

theorem Block.Holds.mono {used : ℕ} (h : b.Holds p) (hused : b.used ≤ used) :
    ({ b with used := used } : Block).Holds p := by
  have hend := h.used
  exact ⟨h.start, by simp only; omega, h.region⟩

/-- A rewind does not look at the used part of the block it ends in. -/
theorem rewindTo_used (cur : Block) (older : List Block) (block n used : ℕ) :
    Arena.rewindTo ({ cur with used := n } :: older) block used =
      Arena.rewindTo (cur :: older) block used := rfl

theorem mem_of_rewindTo {block used : ℕ} {blocks' : List Block}
    (h : Arena.rewindTo blocks block used = some blocks') :
    ∃ b ∈ blocks, b.address = block := by
  induction blocks with
  | nil => cases h
  | cons b older ih =>
      simp only [Arena.rewindTo] at h
      split_ifs at h with heq
      · exact ⟨b, List.mem_cons_self, heq⟩
      · obtain ⟨c, hc, heq⟩ := ih h
        exact ⟨c, List.mem_cons_of_mem b hc, heq⟩

/-- A new block is passed by every rewind to an older one. -/
theorem rewindTo_push {block used : ℕ} {blocks' : List Block}
    (hapart : ∀ c ∈ blocks, b.Apart c)
    (h : Arena.rewindTo blocks block used = some blocks') :
    Arena.rewindTo (b :: blocks) block used = some blocks' := by
  obtain ⟨c, hc, heq⟩ := mem_of_rewindTo h
  have hne : b.address ≠ block := heq ▸ (hapart c hc).address
  simp only [Arena.rewindTo, if_neg hne]
  exact h

theorem ScopesOk.push (hapart : ∀ c ∈ blocks, b.Apart c)
    (h : ScopesOk blocks live scopes) :
    ScopesOk (b :: blocks) live scopes := by
  cases scopes with
  | nil => exact h
  | cons scope outer =>
      obtain ⟨hlive, blocks', hrewind, hrest⟩ := h
      exact ⟨hlive, blocks', rewindTo_push hapart hrewind, hrest⟩

/-- A new allocation in the current block leaves the scopes as they are. -/
theorem ScopesOk.alloc {used : ℕ} (p : Allocation)
    (h : ScopesOk (cur :: older) live scopes) :
    ScopesOk ({ cur with used := used } :: older) (p :: live) scopes := by
  cases scopes with
  | nil => exact h
  | cons scope outer =>
      obtain ⟨hlive, blocks', hrewind, hrest⟩ := h
      have hlength : (p :: live).length - scope.live =
          live.length - scope.live + 1 := by
        rw [List.length_cons]
        omega
      refine ⟨hlive.trans (Nat.le_succ _), blocks', hrewind, ?_⟩
      rw [hlength, List.drop_succ_cons]
      exact hrest

theorem ChainOk.used {used : ℕ} (h : ChainOk (cur :: older))
    (hused : used ≤ cur.capacity) :
    ChainOk ({ cur with used := used } :: older) := by
  obtain ⟨hcur, holder⟩ := List.forall_mem_cons.mp h.ok
  obtain ⟨hapart, hrest⟩ := List.pairwise_cons.mp h.apart
  refine ⟨List.forall_mem_cons.mpr ⟨?_, holder⟩,
    List.pairwise_cons.mpr ⟨fun c hc => ?_, hrest⟩⟩
  · exact ⟨hcur.capacity, hused, hcur.address, hcur.inMemory, hcur.region⟩
  · exact ⟨(hapart c hc).address, (hapart c hc).region⟩

theorem Held.used {used : ℕ} (h : Held (cur :: older) live)
    (hused : cur.used ≤ used) :
    Held ({ cur with used := used } :: older) live := by
  intro p hp
  obtain ⟨b, hb, hholds⟩ := h p hp
  rcases List.mem_cons.mp hb with rfl | hb
  · exact ⟨_, List.mem_cons_self, hholds.mono hused⟩
  · exact ⟨b, List.mem_cons_of_mem _ hb, hholds⟩

/-- A fresh region is apart from the blocks of the chain. -/
theorem apart_makeBlock {cap raw : ℕ} (hok : ∀ c ∈ blocks, c.Ok)
    (hfresh : Fresh blocks raw (mallocSize cap)) :
    ∀ c ∈ blocks, (makeBlock cap raw).Apart c := by
  intro c hc
  refine ⟨fun heq => hfresh.distinct c hc ?_, hfresh.disjoint c hc⟩
  have hraw := hfresh.address
  have hcraw := (hok c hc).address
  simp only [Block.address, makeBlock, overhead_eq, addSize,
    sizeModulus] at *
  omega

theorem ChainOk.push (h : ChainOk blocks) (hb : b.Ok)
    (hapart : ∀ c ∈ blocks, b.Apart c) : ChainOk (b :: blocks) :=
  ⟨List.forall_mem_cons.mpr ⟨hb, h.ok⟩,
    List.pairwise_cons.mpr ⟨hapart, h.apart⟩⟩

theorem Held.push (h : Held blocks live) : Held (b :: blocks) live := by
  intro p hp
  obtain ⟨c, hc, hholds⟩ := h p hp
  exact ⟨c, List.mem_cons_of_mem b hc, hholds⟩

end Chains

/-! ## Sessions -/

/-- The invariant of a session. -/
structure Session.Sound (s : Session) : Prop where
  initial : s.arena.initialBlockSize < sizeModulus
  growth : 1 ≤ s.arena.blockGrowthFactor
  chain : ChainOk s.arena.blocks
  aligned : ∀ p ∈ s.live, p.align ∣ p.addr
  disjoint : s.live.Pairwise Allocation.Disjoint
  held : Held s.arena.blocks s.live
  scopes : ScopesOk s.arena.blocks s.live s.scopes

section Sessions

variable {s s' : Session} {a a' : Arena} {size align ptr : ℕ}
  {raw : Option ℕ}

theorem allocFresh_eq_ok {blk : Block}
    (h : a.allocFresh blk size align = .ok (some ptr, a')) :
    ∃ blk', blk.tryAlloc size align = some (ptr, blk') ∧ ptr ≠ 0 ∧
      a' = { a with
        blocks := blk' :: a.blocks
        totalAllocated := addSize a.totalAllocated size } := by
  unfold Arena.allocFresh at h
  split at h
  · cases h
  · next ptr' blk' htry =>
      obtain ⟨htry, hne⟩ := tryAllocPtr_eq_some htry
      simp only [Except.ok.injEq, Prod.mk.injEq, Option.some.injEq] at h
      obtain ⟨rfl, rfl⟩ := h
      exact ⟨blk', htry, hne, rfl⟩

/-- An allocation is cut from the top of a chain that is the arena's, or the
arena's behind a new block. -/
theorem allocBytes_eq_ok
    (h : a.allocBytes size align raw = .ok (some ptr, a')) :
    0 < size ∧ checkAlignment align = true ∧
      ∃ cur older, a.blocks = cur :: older ∧
        ∃ top below top', top.tryAlloc size align = some (ptr, top') ∧
          ptr ≠ 0 ∧
          a' = { a with
            blocks := top' :: below
            totalAllocated := addSize a.totalAllocated size } ∧
          (top :: below = cur :: older ∨ ∃ r ∈ raw, ∃ cur',
            cur.tryAllocPtr size align = (none, cur') ∧
            top :: below =
              makeBlock (a.newCap cur' size align) r :: cur' :: older) := by
  unfold Arena.allocBytes at h
  split_ifs at h with hzero halign
  · simp at h
  have halign' : checkAlignment align = true := by simpa using halign
  refine ⟨Nat.pos_of_ne_zero hzero, halign', ?_⟩
  cases hblocks : a.blocks with
  | nil => simp [hblocks] at h
  | cons cur older =>
      refine ⟨cur, older, rfl, ?_⟩
      simp only [hblocks] at h
      split at h
      · next ptr' cur' htry =>
          obtain ⟨htry, hne⟩ := tryAllocPtr_eq_some htry
          simp only [Except.ok.injEq, Prod.mk.injEq, Option.some.injEq] at h
          obtain ⟨rfl, rfl⟩ := h
          exact ⟨cur, older, cur', htry, hne, rfl, Or.inl rfl⟩
      · next cur' htry =>
          cases raw with
          | none => simp at h
          | some r =>
              obtain ⟨blk', hblk, hne, ha'⟩ := allocFresh_eq_ok h
              exact ⟨_, cur' :: older, blk', hblk, hne, ha',
                Or.inr ⟨r, rfl, cur', htry, rfl⟩⟩

/-- Bounds on the current block, from the bound on its growth. -/
theorem Session.Sound.capacity_lt (hs : s.Sound) {cur : Block}
    {older : List Block} (hblocks : s.arena.blocks = cur :: older)
    (hbounded : s.Bounded (.allocBytes size align raw)) :
    size < sizeLimit ∧
      cur.capacity * s.arena.blockGrowthFactor < sizeLimit ∧
      cur.capacity < 2 ^ 63 := by
  obtain ⟨hsize, hcap⟩ := hbounded
  have hgrow := hcap cur (by simp [hblocks])
  have hle : cur.capacity ≤ cur.capacity * s.arena.blockGrowthFactor :=
    Nat.le_mul_of_pos_right _ hs.growth
  exact ⟨hsize, hgrow, by simp only [sizeLimit] at *; omega⟩

/-- Allocating in the top block of a sound chain. -/
theorem Session.Sound.bump (hs : s.Sound) {top top' : Block}
    {below : List Block} (hblocks : s.arena.blocks = top :: below)
    (hcap : top.capacity < 2 ^ 63) (halign : checkAlignment align = true)
    (hpos : 0 < size) (hsize : size < sizeLimit)
    (h : top.tryAlloc size align = some (ptr, top')) (total : ℕ) :
    Session.Sound
      { arena := { s.arena with
          blocks := top' :: below
          totalAllocated := total }
        live := ⟨ptr, size, align⟩ :: s.live
        scopes := s.scopes } := by
  have hchain := hblocks ▸ hs.chain
  have hheld := hblocks ▸ hs.held
  have htop := hchain.ok top List.mem_cons_self
  obtain ⟨hdvd, hstart, used, rfl, hused, hmono, hend⟩ :=
    tryAlloc_spec htop hcap halign hpos hsize h
  have hregion := htop.region hcap
  refine ⟨hs.initial, hs.growth, hchain.used hused, ?_, ?_, ?_, ?_⟩
  · exact List.forall_mem_cons.mpr ⟨hdvd, hs.aligned⟩
  · refine List.pairwise_cons.mpr ⟨fun p hp => ?_, hs.disjoint⟩
    obtain ⟨b, hb, hholds⟩ := hheld p hp
    have hpused := hholds.used
    have hpstart := hholds.start
    have hpregion := hholds.region
    simp only [Allocation.Disjoint]
    rcases List.mem_cons.mp hb with rfl | hb
    · -- What the block holds already ends below its used part.
      omega
    · rcases ((List.pairwise_cons.mp hchain.apart).1 b hb).region with hr | hr
      · omega
      · omega
  · intro p hp
    rcases List.mem_cons.mp hp with rfl | hp
    · refine ⟨_, List.mem_cons_self, ?_, ?_, ?_⟩
      · simp only
        omega
      · exact hend.le
      · simp only
        omega
    · exact hheld.used hmono p hp
  · exact (hblocks ▸ hs.scopes).alloc _

/-- A new block in front of a sound chain. -/
theorem Session.Sound.push (hs : s.Sound) {cap r : ℕ}
    (hcap : cap < sizeModulus)
    (hfresh : Fresh s.arena.blocks r (mallocSize cap)) :
    Session.Sound { s with
      arena := { s.arena with
        blocks := makeBlock cap r :: s.arena.blocks } } := by
  have hapart := apart_makeBlock hs.chain.ok hfresh
  exact ⟨hs.initial, hs.growth,
    hs.chain.push (makeBlock_ok hcap hfresh) hapart, hs.aligned, hs.disjoint,
    hs.held.push, hs.scopes.push hapart⟩

/-- The region of a new block is a fresh one. -/
theorem fresh_of_answers {cur : Block} {older : List Block} {r : ℕ}
    (hblocks : a.blocks = cur :: older)
    (hanswers : Answers a.blocks (a.request size align) raw) (hr : r ∈ raw) :
    Fresh a.blocks r (mallocSize (a.newCap cur size align)) := by
  have hrequest := hanswers r hr
  simpa only [Arena.request, hblocks] using hrequest

theorem Session.Sound.allocBytes (hs : s.Sound)
    (hbounded : s.Bounded (.allocBytes size align raw))
    (hanswers : Answers s.arena.blocks (s.arena.request size align) raw)
    (h : s.arena.allocBytes size align raw = .ok (some ptr, a')) :
    Session.Sound
      { s with arena := a', live := ⟨ptr, size, align⟩ :: s.live } := by
  obtain ⟨hpos, halign, cur, older, hblocks, top, below, top', htry, -, rfl,
    hchain⟩ := allocBytes_eq_ok h
  obtain ⟨hsize, hgrow, hcap⟩ := hs.capacity_lt hblocks hbounded
  rcases hchain with hsame | ⟨r, hr, cur', hnull, hnew⟩
  · obtain ⟨rfl, rfl⟩ := List.cons.inj hsame
    exact hs.bump hblocks hcap halign hpos hsize htry _
  · obtain ⟨-, rfl⟩ := tryAllocPtr_of_ok
      (hs.chain.ok cur (by simp [hblocks])) hcap halign hpos hsize hnull
    obtain ⟨rfl, rfl⟩ := List.cons.inj hnew
    obtain ⟨-, hlt⟩ := newCap_spec (a := s.arena) halign hsize hgrow
    have hpushed := hs.push (hlt.trans (by decide))
      (fresh_of_answers hblocks hanswers hr)
    have hcapacity : (makeBlock (s.arena.newCap cur' size align) r).capacity <
        2 ^ 63 := by
      rw [makeBlock_capacity (hlt.trans (by decide))]
      exact hlt
    exact hpushed.bump (by rw [hblocks]) hcapacity halign hpos hsize htry _

/-- Only a request for nothing is answered by null, and changes nothing. -/
theorem allocBytes_eq_null (h : a.allocBytes size align raw = .ok (none, a')) :
    size = 0 ∧ a' = a := by
  unfold Arena.allocBytes at h
  split_ifs at h with hzero halign
  · exact ⟨hzero, (Prod.mk.inj (Except.ok.inj h)).2.symm⟩
  cases hblocks : a.blocks with
  | nil => simp [hblocks] at h
  | cons cur older =>
      simp only [hblocks] at h
      split at h
      · simp at h
      · cases raw with
        | none => simp at h
        | some r =>
            simp only [Arena.allocFresh] at h
            split at h <;> simp at h

/-- The check on a new block fires when its `TryAlloc` returns null. -/
theorem allocBytes_eq_freshBlock
    (h : a.allocBytes size align raw = .error .freshBlock) :
    0 < size ∧ checkAlignment align = true ∧
      ∃ cur older, a.blocks = cur :: older ∧ ∃ r ∈ raw, ∃ cur' blk',
        cur.tryAllocPtr size align = (none, cur') ∧
        (makeBlock (a.newCap cur' size align) r).tryAllocPtr size align =
          (none, blk') := by
  unfold Arena.allocBytes at h
  split_ifs at h with hzero halign
  · simp at h
  have halign' : checkAlignment align = true := by simpa using halign
  refine ⟨Nat.pos_of_ne_zero hzero, halign', ?_⟩
  cases hblocks : a.blocks with
  | nil => simp [hblocks] at h
  | cons cur older =>
      simp only [hblocks] at h
      split at h
      · simp at h
      · next cur' htry =>
          cases raw with
          | none => simp at h
          | some r =>
              simp only [Arena.allocFresh] at h
              split at h
              · next blk' hnew =>
                  exact ⟨cur, older, rfl, r, rfl, cur', blk', htry, hnew⟩
              · simp at h

/-- The check on a new block does not fire. -/
theorem Session.Sound.allocBytes_ne_freshBlock (hs : s.Sound)
    (hbounded : s.Bounded (.allocBytes size align raw))
    (hanswers : Answers s.arena.blocks (s.arena.request size align) raw) :
    s.arena.allocBytes size align raw ≠ .error .freshBlock := by
  intro h
  obtain ⟨hpos, halign, cur, older, hblocks, r, hr, cur', blk', hnull,
    hnew⟩ := allocBytes_eq_freshBlock h
  obtain ⟨hsize, hgrow, hcap⟩ := hs.capacity_lt hblocks hbounded
  obtain ⟨-, rfl⟩ := tryAllocPtr_of_ok
    (hs.chain.ok cur (by simp [hblocks])) hcap halign hpos hsize hnull
  obtain ⟨hroom, hlt⟩ := newCap_spec (a := s.arena) halign hsize hgrow
  have hok := makeBlock_ok (hlt.trans (by decide))
    (fresh_of_answers hblocks hanswers hr)
  have hcapacity : (makeBlock (s.arena.newCap cur' size align) r).capacity <
      2 ^ 63 := by
    rw [makeBlock_capacity (hlt.trans (by decide))]
    exact hlt
  obtain ⟨hnone, -⟩ :=
    tryAllocPtr_of_ok hok hcapacity halign hpos hsize hnew
  exact tryAlloc_makeBlock halign hsize hlt hroom hnone

theorem Session.Sound.rewind (hs : s.Sound) {scope : Scope}
    {outer : List Scope} (hscopes : s.scopes = scope :: outer)
    {blocks : List Block}
    (h : Arena.rewindTo s.arena.blocks scope.block scope.used =
      some blocks) :
    Session.Sound
      { arena := { s.arena with blocks := blocks }
        live := s.live.drop (s.live.length - scope.live)
        scopes := outer } := by
  obtain ⟨-, blocks', hrewind, hchain, hheld, houter⟩ :=
    hscopes ▸ hs.scopes
  obtain rfl := Option.some.inj (h.symm.trans hrewind)
  have hsub := List.drop_sublist (s.live.length - scope.live) s.live
  exact ⟨hs.initial, hs.growth, hchain,
    fun p hp => hs.aligned p (hsub.subset hp), hs.disjoint.sublist hsub,
    hheld, houter⟩

theorem rewindTo_self (cur : Block) (older : List Block) :
    Arena.rewindTo (cur :: older) cur.address cur.used =
      some (cur :: older) := by
  simp [Arena.rewindTo]

theorem Session.Sound.mark (hs : s.Sound) {block used : ℕ}
    (h : s.arena.mark = .ok (block, used)) :
    Session.Sound { s with
      scopes := ⟨block, used, s.live.length⟩ :: s.scopes } := by
  refine ⟨hs.initial, hs.growth, hs.chain, hs.aligned, hs.disjoint, hs.held,
    Nat.le_refl _, s.arena.blocks, ?_, hs.chain, ?_⟩
  · cases hblocks : s.arena.blocks with
    | nil => simp [Arena.mark, hblocks] at h
    | cons cur older =>
        simp only [Arena.mark, hblocks, Except.ok.injEq,
          Prod.mk.injEq] at h
        obtain ⟨rfl, rfl⟩ := h
        exact rewindTo_self cur older
  · simp only [Nat.sub_self, List.drop_zero]
    exact ⟨hs.held, hs.scopes⟩

/-- An arena with a single new block and no allocations. -/
theorem sound_makeBlock (hinitial : a.initialBlockSize < sizeModulus)
    (hgrowth : 1 ≤ a.blockGrowthFactor) {r : ℕ}
    (hfresh : Fresh [] r (mallocSize a.initialBlockSize))
    (hblocks : a.blocks = [makeBlock a.initialBlockSize r]) :
    Session.Sound ⟨a, [], []⟩ := by
  refine ⟨hinitial, hgrowth, ⟨?_, ?_⟩, by simp, List.Pairwise.nil,
    by simp [Held], trivial⟩
  · rw [hblocks]
    simpa using makeBlock_ok hinitial hfresh
  · rw [hblocks]
    exact List.pairwise_singleton _ _

/-! ### What each call is -/

theorem Session.step_allocBytes
    (h : s.step (.allocBytes size align raw) = some s') :
    Answers s.arena.blocks (s.arena.request size align) raw ∧
      (size = 0 ∧ s' = s ∨ ∃ ptr a',
        s.arena.allocBytes size align raw = .ok (some ptr, a') ∧
          s' = { s with
            arena := a'
            live := ⟨ptr, size, align⟩ :: s.live }) := by
  simp only [Session.step, Option.ite_none_right_eq_some] at h
  obtain ⟨hanswers, h⟩ := h
  refine ⟨hanswers, ?_⟩
  split at h
  · cases h
  · next arena halloc =>
    obtain ⟨hzero, rfl⟩ := allocBytes_eq_null halloc
    exact Or.inl ⟨hzero, (Option.some.inj h).symm⟩
  · next ptr arena halloc =>
    exact Or.inr ⟨ptr, arena, halloc, (Option.some.inj h).symm⟩

theorem Session.step_reset (h : s.step (.reset raw) = some s') :
    ∃ r, Fresh [] r (mallocSize s.arena.initialBlockSize) ∧
      s' = ⟨{ s.arena with
        blocks := [makeBlock s.arena.initialBlockSize r]
        totalAllocated := 0
        totalWasted := 0 }, [], []⟩ := by
  simp only [Session.step, Option.ite_none_right_eq_some] at h
  obtain ⟨hanswers, h⟩ := h
  cases raw with
  | none => simp [Arena.reset] at h
  | some r =>
      simp only [Arena.reset, Option.some.injEq] at h
      exact ⟨r, hanswers r rfl, h.symm⟩

theorem Session.step_rewind (h : s.step .rewind = some s') :
    ∃ scope outer blocks, s.scopes = scope :: outer ∧
      Arena.rewindTo s.arena.blocks scope.block scope.used = some blocks ∧
      s' = { arena := { s.arena with blocks := blocks }
             live := s.live.drop (s.live.length - scope.live)
             scopes := outer } := by
  simp only [Session.step] at h
  split at h
  · cases h
  · next scope outer hscopes =>
    obtain ⟨blocks, hrewind, rfl⟩ := Option.map_eq_some_iff.mp h
    exact ⟨scope, outer, blocks, hscopes, hrewind, rfl⟩

/-- A new session has one new block. -/
theorem Session.Opened.exists_block (h : s.Opened) :
    ∃ size r, size < sizeModulus ∧ Fresh [] r (mallocSize size) ∧
      s = ⟨{ blocks := [makeBlock size r], initialBlockSize := size },
        [], []⟩ := by
  obtain ⟨initialSize, raw, arena, hsize, hanswers, hconstruct, rfl⟩ := h
  simp only [Arena.construct] at hconstruct
  split_ifs at hconstruct
  cases raw with
  | none => cases hconstruct
  | some r =>
      obtain rfl := Except.ok.inj hconstruct
      exact ⟨_, r, max_lt hsize (by decide), hanswers r rfl, rfl⟩

theorem Session.step_sound (hs : s.Sound) {call : Call}
    (hbounded : s.Bounded call) (h : s.step call = some s') : s'.Sound := by
  cases call with
  | allocBytes size align raw =>
      obtain ⟨hanswers, ⟨-, rfl⟩ | ⟨ptr, a', halloc, rfl⟩⟩ :=
        Session.step_allocBytes h
      · exact hs
      · exact hs.allocBytes hbounded hanswers halloc
  | setGrowthFactor factor =>
      obtain rfl := Option.some.inj h
      refine ⟨hs.initial, ?_, hs.chain, hs.aligned, hs.disjoint, hs.held,
        hs.scopes⟩
      simp only [Arena.setGrowthFactor]
      split_ifs <;> omega
  | reset raw =>
      obtain ⟨r, hfresh, rfl⟩ := Session.step_reset h
      exact sound_makeBlock hs.initial hs.growth hfresh rfl
  | mark =>
      simp only [Session.step] at h
      split at h
      · cases h
      · next block used hmark =>
          obtain rfl := Option.some.inj h
          exact hs.mark hmark
  | rewind =>
      obtain ⟨scope, outer, blocks, hscopes, hrewind, rfl⟩ :=
        Session.step_rewind h
      exact hs.rewind hscopes hrewind

theorem Session.Opened.sound (h : s.Opened) : s.Sound := by
  obtain ⟨size, r, hsize, hfresh, rfl⟩ := h.exists_block
  exact sound_makeBlock hsize (by decide : 1 ≤ 2) hfresh rfl

/-- In every state of a session the live allocations are laid out well, and
no allocation fails the check on a new block. -/
theorem reachable_layoutOk
    (hs : Transition.ReachableVia Session.step Session.Bounded
      {s | s.Opened} s) :
    s.LayoutOk ∧ ∀ size align raw, s.Bounded (.allocBytes size align raw) →
      Answers s.arena.blocks (s.arena.request size align) raw →
      s.arena.allocBytes size align raw ≠ .error .freshBlock := by
  have hsound : s.Sound := hs.invariant
    (fun _ h => Session.Opened.sound h)
    fun _ _ _ hs hbounded h => Session.step_sound hs hbounded h
  refine ⟨⟨hsound.disjoint, hsound.aligned, fun p hp => ?_⟩, ?_⟩
  · obtain ⟨b, hb, hholds⟩ := hsound.held p hp
    refine ⟨b, hb, ?_, hholds.region⟩
    rw [overhead_eq, blockHeader_eq]
    have hstart := hholds.start
    omega
  · exact fun size align raw hbounded hanswers =>
      hsound.allocBytes_ne_freshBlock hbounded hanswers

end Sessions

/-- An arena that starts with a block at address `4096`. -/
def smallSession : Session where
  arena := { blocks := [makeBlock 64 4096], initialBlockSize := 64 }
  live := []
  scopes := []

/-- An allocation, a scope in which the arena grows, and one more allocation
after it. -/
def growsInScope : List Call :=
  [.allocBytes 10 16 none,
   .mark,
   .allocBytes 100 64 (some 8192),
   .rewind,
   .allocBytes 20 8 none]

theorem growsInScope_runs :
    (Transition.run Session.step smallSession growsInScope).isSome = true := by
  decide

theorem reachable_layoutOk_growsInScope :
    ((Transition.run Session.step smallSession growsInScope).get
        growsInScope_runs).live = [⟨4160, 20, 8⟩, ⟨4144, 10, 16⟩] ∧
      ((Transition.run Session.step smallSession growsInScope).get
        growsInScope_runs).LayoutOk := by
  have hopened : smallSession.Opened :=
    ⟨64, some 4096, _, by decide, by decide, rfl, rfl⟩
  have hbounded : Transition.AllSteps Session.step Session.Bounded
      smallSession growsInScope := by decide
  have hstart : Transition.ReachableVia Session.step Session.Bounded
      {s | s.Opened} smallSession := .start hopened
  have hreach := hstart.run hbounded (Option.some_get growsInScope_runs).symm
  exact ⟨by decide, (reachable_layoutOk hreach).1⟩

end Memory
end Yacul
