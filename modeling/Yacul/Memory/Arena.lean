import Yacul.Basic.Alignment
import Yacul.Memory.Buffer

/-!
# Arenas

An arena is a chain of blocks, each cut out of a region that `malloc`
returned; addresses are numbers below the modulus of `std::size_t`.  The
answers of `malloc` are arguments of the operations that call it.
-/

namespace Yacul
namespace Memory

open Basic (isPowerOfTwo alignUp wrapSub)

/-- `alignof(max_align_t)`. -/
abbrev maxAlign : ℕ := 16

/-- `sizeof(Block)`: a pointer and two sizes. -/
abbrev sizeofBlock : ℕ := 24

/-- `sizeof(detail::AllocHeader)`: a pointer. -/
abbrev sizeofAllocHeader : ℕ := 8

/-- `AlignUp` on sizes. -/
def sizeAlignUp (value align : ℕ) : ℕ := alignUp 64 false value align

/-- The space of a `Block` in front of its payload. -/
def blockHeader : ℕ := sizeAlignUp sizeofBlock maxAlign

/-- The space of the `AllocHeader` in front of the `Block`. -/
def overhead : ℕ := sizeAlignUp sizeofAllocHeader maxAlign

/-- `Block`, with what its `AllocHeader` says: `malloc` returned `region`
bytes at `raw`. -/
structure Block where
  raw : ℕ
  region : ℕ
  capacity : ℕ
  used : ℕ
deriving DecidableEq, Repr

namespace Block

/-- The address of the `Block` itself. -/
def address (b : Block) : ℕ := addSize b.raw overhead

/-- `Block::data`. -/
def data (b : Block) : ℕ := addSize b.address blockHeader

/-- `Block::remaining`. -/
def remaining (b : Block) : ℕ := wrapSub 64 b.capacity b.used

/-- The padding `Block::TryAlloc` puts in front of an allocation.  The check
of `detail::AlignUp` is the caller's. -/
def padding (b : Block) (align : ℕ) : ℕ :=
  wrapSub 64 (sizeAlignUp (addSize b.data b.used) align)
    (addSize b.data b.used)

/-- `Block::TryAlloc`, with the block it leaves. -/
def tryAlloc (b : Block) (size align : ℕ) : Option (ℕ × Block) :=
  let base := addSize b.data b.used
  let total := addSize (b.padding align) size
  if b.remaining < total then none
  else
    some (addSize base (b.padding align),
      { b with used := addSize b.used total })

/-- The pointer `Block::TryAlloc` returns, where null is `none`, and the block
it leaves.  A pointer to address 0 is null too, although the block has been
changed. -/
def tryAllocPtr (b : Block) (size align : ℕ) : Option ℕ × Block :=
  match b.tryAlloc size align with
  | none => (none, b)
  | some (ptr, b) => (if ptr = 0 then none else some ptr, b)

end Block

/-- `detail::CheckAlignment`. -/
def checkAlignment (align : ℕ) : Bool :=
  align ≠ 0 && isPowerOfTwo align && align ≤ 4096

/-- The bytes `Arena::MakeBlock` asks `malloc` for. -/
def mallocSize (minimumCapacity : ℕ) : ℕ :=
  addSize (addSize overhead blockHeader) minimumCapacity

/-- `Arena::MakeBlock`, over the region that starts at `raw`. -/
def makeBlock (minimumCapacity raw : ℕ) : Block where
  raw := raw
  region := mallocSize minimumCapacity
  capacity :=
    wrapSub 64 (wrapSub 64 (mallocSize minimumCapacity) overhead) blockHeader
  used := 0

/-- The failures of arena operations. -/
inductive Fault
  /-- `Arena: initial block size must be > 0`. -/
  | initialSize
  /-- `Arena: alignment must be a non-zero power-of-two <= 4096`. -/
  | alignment
  /-- `Arena: malloc failed`. -/
  | mallocFailed
  /-- `Arena: freshly-created block must satisfy allocation`. -/
  | freshBlock
  /-- `Arena: bad allocation`. -/
  | badAllocation
  /-- A null `current_` is followed. -/
  | nullBlock
deriving DecidableEq, Repr

/-- `Arena`: the chain from `current_` on, empty when `current_` is null. -/
structure Arena where
  blocks : List Block
  initialBlockSize : ℕ
  blockGrowthFactor : ℕ := 2
  totalAllocated : ℕ := 0
  totalWasted : ℕ := 0
deriving DecidableEq, Repr

namespace Arena

/-- The initial block size of `Arena(initial_size)`. -/
def initialCapacity (initialSize : ℕ) : ℕ :=
  max initialSize (mulSize sizeofBlock 2)

/-- `Arena::Arena(initial_size)`. -/
def construct (initialSize : ℕ) (raw : Option ℕ) : Except Fault Arena :=
  if initialSize = 0 then .error .initialSize
  else
    match raw with
    | none => .error .mallocFailed
    | some raw =>
        .ok {
          blocks := [makeBlock (initialCapacity initialSize) raw]
          initialBlockSize := initialCapacity initialSize }

/-- The capacity of the block that `AllocBytes` adds behind `cur`. -/
def newCap (a : Arena) (cur : Block) (size align : ℕ) : ℕ :=
  max (mulSize cur.capacity a.blockGrowthFactor)
    (addSize (sizeAlignUp (addSize size blockHeader) align) align)

/-- The end of `Arena::AllocBytes`, once the arena has grown by `blk`. -/
def allocFresh (a : Arena) (blk : Block) (size align : ℕ) :
    Except Fault (Option ℕ × Arena) :=
  match blk.tryAllocPtr size align with
  | (none, _) => .error .freshBlock
  | (some ptr, blk) =>
      .ok (some ptr,
        { a with
          blocks := blk :: a.blocks
          totalAllocated := addSize a.totalAllocated size })

/-- `Arena::AllocBytes`; a null result is `none`. -/
def allocBytes (a : Arena) (size align : ℕ) (raw : Option ℕ) :
    Except Fault (Option ℕ × Arena) :=
  if size = 0 then .ok (none, a)
  else if checkAlignment align = false then .error .alignment
  else
    match a.blocks with
    | [] => .error .nullBlock
    | cur :: older =>
        match cur.tryAllocPtr size align with
        | (some ptr, cur) =>
            .ok (some ptr,
              { a with
                blocks := cur :: older
                totalAllocated := addSize a.totalAllocated size })
        | (none, cur) =>
            match raw with
            | none => .error .mallocFailed
            | some raw =>
                let blk := makeBlock (a.newCap cur size align) raw
                { a with blocks := cur :: older }.allocFresh blk size align

/-- `Arena::Reset`. -/
def reset (a : Arena) (raw : Option ℕ) : Except Fault Arena :=
  match raw with
  | none => .error .mallocFailed
  | some raw =>
      .ok { a with
        blocks := [makeBlock a.initialBlockSize raw]
        totalAllocated := 0
        totalWasted := 0 }

/-- `Arena::set_growth_factor`. -/
def setGrowthFactor (a : Arena) (factor : ℕ) : Arena :=
  { a with blockGrowthFactor := if factor < 1 then 1 else factor }

/-- What `Arena::Mark` stores: the current block and its `used`. -/
def mark (a : Arena) : Except Fault (ℕ × ℕ) :=
  match a.blocks with
  | [] => .error .nullBlock
  | cur :: _ => .ok (cur.address, cur.used)

/-- The loop of `Arena::RewindTo`; `none` when it walks off the chain. -/
def rewindTo : List Block → ℕ → ℕ → Option (List Block)
  | [], _, _ => none
  | b :: older, block, used =>
      if b.address = block then some ({ b with used := used } :: older)
      else rewindTo older block used

/-- What a moved-from arena is left with. -/
def movedFrom (a : Arena) : Arena := { a with blocks := [] }

/-- The bytes `AllocBytes` asks `malloc` for, if it does. -/
def request (a : Arena) (size align : ℕ) : ℕ :=
  match a.blocks with
  | [] => 0
  | cur :: _ => mallocSize (a.newCap cur size align)

end Arena

section TryAlloc

variable {b b' : Block} {size align ptr : ℕ}

theorem tryAllocPtr_eq_some (h : b.tryAllocPtr size align = (some ptr, b')) :
    b.tryAlloc size align = some (ptr, b') ∧ ptr ≠ 0 := by
  unfold Block.tryAllocPtr at h
  cases htry : b.tryAlloc size align with
  | none => simp [htry] at h
  | some result =>
      simp only [htry, Prod.mk.injEq, Option.ite_none_left_eq_some,
        Option.some.injEq] at h
      obtain ⟨⟨hne, rfl⟩, rfl⟩ := h
      exact ⟨rfl, hne⟩

/-- A null pointer is the failure of `TryAlloc`, or address 0. -/
theorem tryAllocPtr_eq_none (h : b.tryAllocPtr size align = (none, b')) :
    b.tryAlloc size align = none ∧ b' = b ∨
      b.tryAlloc size align = some (0, b') := by
  unfold Block.tryAllocPtr at h
  cases htry : b.tryAlloc size align with
  | none =>
      simp only [htry, Prod.mk.injEq] at h
      exact Or.inl ⟨rfl, h.2.symm⟩
  | some result =>
      obtain ⟨ptr, c⟩ := result
      simp only [htry, Prod.mk.injEq, reduceCtorEq, ite_eq_left_iff,
        imp_false, not_not] at h
      obtain ⟨rfl, rfl⟩ := h
      exact Or.inr rfl

end TryAlloc

/-! ## `malloc` -/

/-- `malloc` may answer a request for `region` bytes by `raw` while the
regions of `heap` are live: pointers are aligned and distinct, and regions lie
in memory and do not meet. -/
structure Fresh (heap : List Block) (raw region : ℕ) : Prop where
  aligned : maxAlign ∣ raw
  address : raw < sizeModulus
  inMemory : raw + region ≤ sizeModulus
  distinct : ∀ b ∈ heap, raw ≠ b.raw
  disjoint : ∀ b ∈ heap, raw + region ≤ b.raw ∨ b.raw + b.region ≤ raw

instance (heap : List Block) (raw region : ℕ) :
    Decidable (Fresh heap raw region) :=
  decidable_of_iff (maxAlign ∣ raw ∧ raw < sizeModulus ∧
      raw + region ≤ sizeModulus ∧ (∀ b ∈ heap, raw ≠ b.raw) ∧
      ∀ b ∈ heap, raw + region ≤ b.raw ∨ b.raw + b.region ≤ raw)
    ⟨fun ⟨h₁, h₂, h₃, h₄, h₅⟩ => ⟨h₁, h₂, h₃, h₄, h₅⟩,
      fun h => ⟨h.aligned, h.address, h.inMemory, h.distinct, h.disjoint⟩⟩

/-- A null answer is always allowed. -/
def Answers (heap : List Block) (region : ℕ) (raw : Option ℕ) : Prop :=
  ∀ r ∈ raw, Fresh heap r region

instance (heap : List Block) (region : ℕ) (raw : Option ℕ) :
    Decidable (Answers heap region raw) :=
  inferInstanceAs (Decidable (∀ r ∈ raw, Fresh heap r region))

end Memory
end Yacul
