import Yacul.Memory.ArenaScopes

/-!
# What an arena hands out

`TryAlloc` compares the padding and the size, added in `size_t`, with what is
left of its block, and `MakeBlock` adds the headers to the capacity in
`size_t`.  An allocation lies in the region of its block exactly when the
first sum does not wrap and, up to a corner of memory, neither does the
second.
-/

namespace Yacul
namespace Memory

/-- The block an allocation is cut from, before it is cut. -/
def Arena.servingBlock (a : Arena) (size align : ℕ) (raw : Option ℕ) :
    Option Block :=
  match a.blocks with
  | [] => none
  | cur :: _ =>
      match cur.tryAllocPtr size align with
      | (some _, _) => some cur
      | (none, cur) => raw.map (makeBlock (a.newCap cur size align))

/-- All bytes of the allocation lie in the region `malloc` returned. -/
def Block.Provides (b : Block) (ptr size : ℕ) : Prop :=
  b.raw ≤ ptr ∧ ptr + size ≤ b.raw + b.region

/-- The sums behind an allocation.  The padding and the size are added without
a wrap, and so are the headers and the capacity of the block; where the latter
wrap, the pointer has wrapped as well, to the region in front of it. -/
def Block.SumsFit (b : Block) (size align : ℕ) : Prop :=
  b.padding align + size < sizeModulus ∧
    (b.capacity + (overhead + blockHeader) < sizeModulus ∨
      sizeModulus ≤ overhead + blockHeader + b.used + b.padding align)

instance (b : Block) (size align : ℕ) : Decidable (b.SumsFit size align) :=
  inferInstanceAs (Decidable (_ ∧ (_ ∨ _)))

section Regions

variable {s : Session} {a a' : Arena} {b b' : Block} {size align ptr : ℕ}
  {raw : Option ℕ}

/-- The padding does not lead past the end of memory. -/
theorem base_add_padding_le (halign : checkAlignment align = true) :
    addSize b.data b.used + b.padding align ≤ sizeModulus := by
  obtain ⟨hpow, hle⟩ := checkAlignment_spec halign
  obtain ⟨hlt, hdvd⟩ := padding_lt (b := b) halign
  have hbase : addSize b.data b.used < sizeModulus := Nat.mod_lt _ (by decide)
  have hmod : align ∣ sizeModulus :=
    Basic.dvd_two_pow hpow (hle.trans (by decide))
  obtain ⟨q, hq⟩ := hdvd
  obtain ⟨m, hm⟩ := hmod
  rw [hq, hm]
  apply Nat.mul_le_mul_left
  have hpos := Basic.pos_of_isPowerOfTwo hpow
  have hlt' : align * q < align * (m + 1) := by
    rw [Nat.mul_succ, ← hm, ← hq]
    omega
  exact Nat.le_of_lt_succ (Nat.lt_of_mul_lt_mul_left hlt')

/-- The region of a block is what its headers and its capacity leave after a
wrap. -/
theorem Block.Cut.region_cases (hb : b.Cut) :
    b.capacity + 48 < sizeModulus ∧ b.region = b.capacity + 48 ∨
      sizeModulus ≤ b.capacity + 48 ∧
        b.region + sizeModulus = b.capacity + 48 := by
  have hcap := hb.capacity
  rw [hb.region, mallocSize, overhead_eq, blockHeader_eq]
  simp only [addSize, sizeModulus] at *
  omega

theorem base_eq (b : Block) :
    addSize b.data b.used = (b.raw + 48 + b.used) % sizeModulus := by
  simp only [Block.data, Block.address, overhead_eq, blockHeader_eq, addSize,
    sizeModulus]
  omega

/-- Where the pointer of an allocation is. -/
theorem ptr_eq (hnull : ptr ≠ 0) (halign : checkAlignment align = true)
    (h : b.tryAlloc size align = some (ptr, b')) :
    ptr = (b.raw + 48 + b.used) % sizeModulus + b.padding align ∧
      ptr < sizeModulus ∧
      addSize (b.padding align) size ≤ b.remaining := by
  have hle := base_add_padding_le (b := b) halign
  simp only [Block.tryAlloc, Option.ite_none_left_eq_some, Nat.not_lt,
    Option.some.injEq, Prod.mk.injEq] at h
  obtain ⟨hfits, hptr, -⟩ := h
  rw [← base_eq]
  generalize addSize b.data b.used = base at *
  generalize b.padding align = padding at *
  refine ⟨?_, ?_, hfits⟩ <;> simp only [addSize, sizeModulus] at * <;> omega

/-- An allocation of a block lies in its region exactly when the sums behind
it are right. -/
theorem provides_iff (hb : b.Cut) (halign : checkAlignment align = true)
    (hpos : 0 < size) (hsize : size < sizeModulus)
    (h : b.tryAlloc size align = some (ptr, b')) (hnull : ptr ≠ 0) :
    b.Provides ptr size ↔ b.SumsFit size align := by
  obtain ⟨hpad, hdvd⟩ := padding_lt (b := b) halign
  have halign' := (checkAlignment_spec halign).2
  obtain ⟨hptr, hlt, hfits⟩ := ptr_eq hnull halign h
  -- At address 0 nothing is skipped.
  have hzero : (b.raw + 48 + b.used) % sizeModulus = 0 →
      b.padding align = 0 := by
    intro hbase
    rw [base_eq, hbase, Nat.zero_add] at hdvd
    exact Nat.eq_zero_of_dvd_of_lt hdvd hpad
  have hregion := hb.region_cases
  have hraw := hb.raw
  have hmem := hb.inMemory
  have hused := hb.used
  have hcap := hb.capacity
  rw [Block.remaining_eq hb.used hb.capacity] at hfits
  rw [Block.Provides, Block.SumsFit, overhead_eq, blockHeader_eq]
  generalize b.padding align = padding at *
  generalize b.raw = r at *
  generalize b.region = region at *
  generalize b.capacity = cap at *
  generalize b.used = used at *
  by_cases hwrap : padding + size < sizeModulus
  · have htotal : addSize padding size = padding + size :=
      Nat.mod_eq_of_lt hwrap
    rw [htotal] at hfits
    clear hdvd hzero halign h hb hnull htotal
    simp only [sizeModulus] at *
    omega
  · have htotal : addSize padding size = padding + size - sizeModulus := by
      rw [addSize, Nat.mod_eq_sub_mod (Nat.le_of_not_lt hwrap),
        Nat.mod_eq_of_lt (by simp only [sizeModulus] at *; omega)]
    rw [htotal] at hfits
    clear hdvd halign h hb hnull htotal
    simp only [sizeModulus] at *
    omega

theorem tryAllocPtr_of_ne (h : b.tryAlloc size align = some (ptr, b'))
    (hne : ptr ≠ 0) : b.tryAllocPtr size align = (some ptr, b') := by
  simp only [Block.tryAllocPtr, h, if_neg hne]

/-- An allocation is cut from the serving block, which is then the current
one. -/
theorem servingBlock_spec (hcut : ∀ b ∈ a.blocks, b.Cut)
    (hanswers : Answers a.blocks (a.request size align) raw)
    (h : a.allocBytes size align raw = .ok (some ptr, a')) :
    0 < size ∧ checkAlignment align = true ∧ ptr ≠ 0 ∧
      ∃ b b', a'.blocks.head? = some b' ∧
        a.servingBlock size align raw = some b ∧ b.Cut ∧
        b.tryAlloc size align = some (ptr, b') := by
  obtain ⟨hpos, halign, cur, older, hblocks, top, below, top', htry, hnull,
    rfl, hchain⟩ := allocBytes_eq_ok h
  refine ⟨hpos, halign, hnull, top, top', rfl, ?_⟩
  rcases hchain with hsame | ⟨r, hr, cur', hfailed, hnew⟩
  · obtain ⟨rfl, rfl⟩ := List.cons.inj hsame
    have hptr := tryAllocPtr_of_ne htry hnull
    exact ⟨by simp only [Arena.servingBlock, hblocks, hptr],
      hcut top (by simp [hblocks]), htry⟩
  · obtain ⟨rfl, rfl⟩ := List.cons.inj hnew
    obtain rfl : raw = some r := hr
    have hcur : cur.Cut := hcut cur (by simp [hblocks])
    obtain ⟨n, rfl, -, -⟩ :=
      tryAllocPtr_used hcur.used hcur.capacity hfailed
    refine ⟨by simp only [Arena.servingBlock, hblocks, hfailed,
      Option.map_some], ?_, htry⟩
    have hfresh : Fresh a.blocks r
        (mallocSize (a.newCap cur size align)) :=
      fresh_of_answers hblocks hanswers rfl
    exact cut_makeBlock (newCap_lt a cur size align) hfresh

/-- In every state of a session, and for every size, an allocation lies in the
region of the block it is cut from exactly when the sums behind it are
right. -/
theorem allocBytes_provides_iff (hs : s.Reachable)
    (hsize : size < sizeModulus)
    (hanswers : Answers s.arena.blocks (s.arena.request size align) raw)
    (h : s.arena.allocBytes size align raw = .ok (some ptr, a')) :
    ∃ b, s.arena.servingBlock size align raw = some b ∧
      (b.Provides ptr size ↔ b.SumsFit size align) := by
  obtain ⟨hpos, halign, hnull, b, b', -, hserving, hcut, htry⟩ :=
    servingBlock_spec hs.nested.cut hanswers h
  exact ⟨b, hserving, provides_iff hcut halign hpos hsize htry hnull⟩

end Regions

/-- Ten bytes of a new arena. -/
theorem allocBytes_provides_iff_ten :
    (makeBlock 64 4096).Provides 4144 10 := by
  obtain ⟨b, hserving, hiff⟩ := allocBytes_provides_iff
    (.start opened_smallSession) (show 10 < sizeModulus by decide)
    (show Answers smallSession.arena.blocks
      (smallSession.arena.request 10 16) none by decide)
    (show smallSession.arena.allocBytes 10 16 none = .ok (some 4144, _)
      from rfl)
  obtain rfl : makeBlock 64 4096 = b :=
    Option.some.inj (Eq.trans (by decide) hserving)
  exact hiff.mpr ⟨by decide, Or.inl (by decide)⟩

/-- One byte has been allocated. -/
def oneByte : List Call := [.allocBytes 1 1 none]

theorem oneByte_runs :
    (Transition.run Session.step smallSession oneByte).isSome = true := by
  decide

/-- Behind one byte there are `2 ^ 64 - 1` bytes for the next allocation, as
the padding of 15 wraps them to 14. -/
theorem exists_unprovided :
    ¬ ∀ (s : Session) size align raw ptr a' b, s.Reachable →
      size < sizeModulus →
      Answers s.arena.blocks (s.arena.request size align) raw →
      s.arena.allocBytes size align raw = .ok (some ptr, a') →
      s.arena.servingBlock size align raw = some b →
      b.Provides ptr size := by
  intro hall
  have hopened : smallSession ∈ {s : Session | s.Opened} :=
    opened_smallSession
  have hreach := Transition.reachable_get_run hopened oneByte_runs
  have hprovides := hall _ (2 ^ 64 - 1) 16 none 4160 _
    { makeBlock 64 4096 with used := 1 } hreach (by decide) (by decide) rfl
    (by decide)
  exact absurd hprovides.2 (by decide)

end Memory
end Yacul
