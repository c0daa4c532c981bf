import Yacul.Memory.ArenaRegions

/-!
# Arrays from an arena

`ArenaAllocator::allocate` and `Arena::AllocArray` both multiply in
`std::size_t` and go on to `AllocBytes`.  Only the second one checks first
that the product does not wrap.
-/

namespace Yacul
namespace Memory

namespace Arena

/-- `ArenaAllocator<T>::allocate`, by the size and the alignment of `T`. -/
def allocate (a : Arena) (sizeofT alignofT n : ℕ) (raw : Option ℕ) :
    Except Fault (Option ℕ × Arena) :=
  a.allocBytes (mulSize sizeofT n) alignofT raw

/-- `Arena::AllocArray<T>`, by the size and the alignment of `T`. -/
def allocArray (a : Arena) (sizeofT alignofT count : ℕ)
    (raw : Option ℕ) : Except Fault (Option ℕ × Arena) :=
  if count = 0 then .ok (none, a)
  else if count ≤ (sizeModulus - 1) / sizeofT then
    a.allocBytes (mulSize sizeofT count) alignofT raw
  else .error .badAllocation

/-- The call fails a check. -/
def Aborts (result : Except Fault (Option ℕ × Arena)) : Prop :=
  ∃ fault, result = .error fault

/-- The call returns storage of `bytes` bytes, in the region of the block
that is now the current one. -/
def Stores (result : Except Fault (Option ℕ × Arena)) (bytes : ℕ) : Prop :=
  ∃ ptr a', result = .ok (some ptr, a') ∧
    ∃ b ∈ a'.blocks.head?, b.Provides ptr bytes

/-- `allocate` and `AllocArray` both abort, or both return storage for `n`
elements. -/
def AgreeOn (a : Arena) (sizeofT alignofT n : ℕ) (raw : Option ℕ) : Prop :=
  Aborts (a.allocate sizeofT alignofT n raw) ∧
      Aborts (a.allocArray sizeofT alignofT n raw) ∨
    Stores (a.allocate sizeofT alignofT n raw) (sizeofT * n) ∧
      Stores (a.allocArray sizeofT alignofT n raw) (sizeofT * n)

end Arena

/-- What `TryAlloc` compares, and the address it does not return. -/
def Block.HasRoom (b : Block) (size align : ℕ) : Prop :=
  addSize (b.padding align) size ≤ b.remaining ∧
    addSize (addSize b.data b.used) (b.padding align) ≠ 0

instance (b : Block) (size align : ℕ) : Decidable (b.HasRoom size align) :=
  inferInstanceAs (Decidable (_ ∧ _))

section Arrays

variable {s : Session} {a a' : Arena} {b cur : Block} {older : List Block}
  {sizeofT alignofT n size align : ℕ} {raw : Option ℕ}

/-- The block has room exactly when `TryAlloc` returns a pointer. -/
theorem hasRoom_iff : b.HasRoom size align ↔
    ∃ ptr b', b.tryAllocPtr size align = (some ptr, b') := by
  simp only [Block.HasRoom, Block.tryAllocPtr, Block.tryAlloc]
  by_cases hfits : addSize (b.padding align) size ≤ b.remaining
  · rw [if_neg (Nat.not_lt.mpr hfits)]
    by_cases hzero : addSize (addSize b.data b.used) (b.padding align) = 0
    · simp [hzero]
    · simp [hfits, hzero]
  · rw [if_pos (Nat.not_le.mp hfits)]
    simp [hfits]

/-- A request for something is answered by a pointer or by an abort. -/
theorem allocBytes_cases (hsize : size ≠ 0) :
    Arena.Aborts (a.allocBytes size align raw) ∨
      ∃ ptr a', a.allocBytes size align raw = .ok (some ptr, a') := by
  cases h : a.allocBytes size align raw with
  | error fault => exact Or.inl ⟨fault, rfl⟩
  | ok result =>
      obtain ⟨answer, a'⟩ := result
      cases answer with
      | none => exact absurd (allocBytes_eq_null h).1 hsize
      | some ptr => exact Or.inr ⟨ptr, a', rfl⟩

/-- A pointer is returned exactly when the serving block has room. -/
theorem allocBytes_isOk_iff (a : Arena) (raw : Option ℕ)
    (hsize : size ≠ 0) (halign : checkAlignment align = true) :
    (∃ ptr a', a.allocBytes size align raw = .ok (some ptr, a')) ↔
      ∃ b ∈ a.servingBlock size align raw, b.HasRoom size align := by
  have hchecked : ¬ checkAlignment align = false := by simp [halign]
  cases hblocks : a.blocks with
  | nil =>
      simp [Arena.allocBytes, Arena.servingBlock, hblocks, hsize, hchecked]
  | cons cur older =>
      rcases htry : cur.tryAllocPtr size align with ⟨_ | ptr, cur'⟩
      · cases raw with
        | none =>
            simp [Arena.allocBytes, Arena.servingBlock, hblocks, hsize,
              hchecked, htry]
        | some r =>
            simp only [Arena.allocBytes, Arena.servingBlock, hblocks,
              if_neg hsize, if_neg hchecked, htry, Option.map_some,
              Option.mem_some, exists_eq_left', hasRoom_iff,
              Arena.allocFresh]
            rcases (makeBlock (a.newCap cur' size align) r).tryAllocPtr size
              align with ⟨_ | ptr, blk⟩
            · simp
            · simp
      · simp only [Arena.allocBytes, Arena.servingBlock, hblocks,
          if_neg hsize, if_neg hchecked, htry, Option.mem_some,
          exists_eq_left', hasRoom_iff, Except.ok.injEq, Prod.mk.injEq]
        simp

/-- A request is answered by storage of its size exactly when the serving
block has room and the sums behind the allocation are right. -/
theorem stores_allocBytes_iff (hs : s.Reachable) (hsize : size ≠ 0)
    (hlt : size < sizeModulus) (halign : checkAlignment align = true)
    (hanswers : Answers s.arena.blocks (s.arena.request size align) raw) :
    Arena.Stores (s.arena.allocBytes size align raw) size ↔
      ∃ b ∈ s.arena.servingBlock size align raw,
        b.HasRoom size align ∧ b.SumsFit size align := by
  have hok := allocBytes_isOk_iff s.arena raw hsize halign
  constructor
  · rintro ⟨ptr, a', h, b', hb', hprovides⟩
    obtain ⟨hpos, -, hnull, b, c, hhead, hserving, hcut, htry⟩ :=
      servingBlock_spec hs.nested.cut hanswers h
    obtain ⟨b₁, hb₁, hroom⟩ := hok.mp ⟨ptr, a', h⟩
    obtain rfl : b = b₁ := Option.some.inj (hserving.symm.trans hb₁)
    obtain rfl : c = b' := Option.some.inj (hhead.symm.trans hb')
    obtain ⟨m, rfl, -, -⟩ := tryAlloc_used hcut.used hcut.capacity htry
    exact ⟨b, hserving, hroom,
      (provides_iff hcut halign hpos hlt htry hnull).mp hprovides⟩
  · rintro ⟨b, hb, hroom, hsums⟩
    obtain ⟨ptr, a', h⟩ := hok.mpr ⟨b, hb, hroom⟩
    obtain ⟨hpos, -, hnull, b₁, c, hhead, hserving, hcut, htry⟩ :=
      servingBlock_spec hs.nested.cut hanswers h
    obtain rfl : b = b₁ := Option.some.inj (Eq.trans hb.symm hserving)
    obtain ⟨m, rfl, -, -⟩ := tryAlloc_used hcut.used hcut.capacity htry
    exact ⟨ptr, a', h, _, hhead,
      (provides_iff hcut halign hpos hlt htry hnull).mpr hsums⟩

/-- The check of `AllocArray` is on the product. -/
theorem allocArray_eq (a : Arena) (alignofT : ℕ) (raw : Option ℕ)
    (hsizeof : 0 < sizeofT) (hn : 0 < n) :
    a.allocArray sizeofT alignofT n raw =
      if sizeofT * n < sizeModulus then a.allocate sizeofT alignofT n raw
      else .error .badAllocation := by
  have hcheck : n ≤ (sizeModulus - 1) / sizeofT ↔
      sizeofT * n < sizeModulus := by
    rw [Nat.le_div_iff_mul_le hsizeof, Nat.mul_comm, ← Nat.lt_succ_iff]
    rfl
  simp only [Arena.allocArray, Arena.allocate, if_neg hn.ne', hcheck]

theorem not_aborts_ok {result : Option ℕ × Arena} :
    ¬ Arena.Aborts (.ok result) := by
  rintro ⟨fault, h⟩
  cases h

/-- A request for something aborts when there is no room for it. -/
theorem aborts_allocBytes_iff (hsize : size ≠ 0)
    (halign : checkAlignment align = true) :
    Arena.Aborts (a.allocBytes size align raw) ↔
      ∀ b ∈ a.servingBlock size align raw, ¬ b.HasRoom size align := by
  have hok := allocBytes_isOk_iff a raw hsize halign
  constructor
  · rintro habort b hb hroom
    obtain ⟨ptr, a', h⟩ := hok.mpr ⟨b, hb, hroom⟩
    rw [h] at habort
    exact not_aborts_ok habort
  · intro hnone
    rcases allocBytes_cases (a := a) hsize with habort | hpointer
    · exact habort
    · obtain ⟨b, hb, hroom⟩ := hok.mp hpointer
      exact absurd hroom (hnone b hb)

/-- In every state of a session, `allocate` and `AllocArray` agree on `n`
elements exactly when the product wraps to a size, not 0, that there is no
room for, or does not wrap and the sums behind the allocation are right, if
there is room for it. -/
theorem agreeOn_iff (hs : s.Reachable) (hsizeof : 0 < sizeofT)
    (halign : checkAlignment alignofT = true) (hn : 0 < n)
    (hanswers : Answers s.arena.blocks
      (s.arena.request (mulSize sizeofT n) alignofT) raw) :
    s.arena.AgreeOn sizeofT alignofT n raw ↔
      (mulSize sizeofT n ≠ 0 ∧
        ∀ b ∈ s.arena.servingBlock (mulSize sizeofT n) alignofT raw,
          ¬ b.HasRoom (mulSize sizeofT n) alignofT) ∨
      (sizeofT * n < sizeModulus ∧
        ∀ b ∈ s.arena.servingBlock (mulSize sizeofT n) alignofT raw,
          b.SumsFit (mulSize sizeofT n) alignofT) := by
  by_cases hlt : sizeofT * n < sizeModulus
  · have harray := allocArray_eq s.arena alignofT raw hsizeof hn
    rw [if_pos hlt] at harray
    have hsize : mulSize sizeofT n = sizeofT * n := Nat.mod_eq_of_lt hlt
    have hne : sizeofT * n ≠ 0 := (Nat.mul_pos hsizeof hn).ne'
    rw [Arena.AgreeOn, harray, and_self, and_self, Arena.allocate, hsize]
    rw [hsize] at hanswers
    rw [aborts_allocBytes_iff hne halign,
      stores_allocBytes_iff hs hne hlt halign hanswers]
    cases s.arena.servingBlock (sizeofT * n) alignofT raw with
    | none => simp [hne]
    | some b =>
        simp only [Option.mem_some, forall_eq', exists_eq_left', hne, hlt,
          ne_eq, not_false_eq_true, true_and]
        tauto
  · have harray := allocArray_eq s.arena alignofT raw hsizeof hn
    rw [if_neg hlt] at harray
    have hstores : ¬ Arena.Stores
        (s.arena.allocArray sizeofT alignofT n raw) (sizeofT * n) := by
      rintro ⟨ptr, a', h, -⟩
      rw [harray] at h
      cases h
    have haborts :
        Arena.Aborts (s.arena.allocArray sizeofT alignofT n raw) :=
      ⟨_, harray⟩
    simp only [Arena.AgreeOn, haborts, hstores, hlt, and_true, and_false,
      or_false, false_and, Arena.allocate]
    by_cases hzero : mulSize sizeofT n = 0
    · have hnull : s.arena.allocBytes 0 alignofT raw =
          .ok (none, s.arena) := by
        rw [Arena.allocBytes, if_pos rfl]
      simp [hzero, hnull, not_aborts_ok]
    · rw [aborts_allocBytes_iff hzero halign]
      simp only [hzero, ne_eq, not_false_eq_true, true_and]

end Arrays

/-- Four elements of two bytes from a new arena. -/
theorem agreeOn_iff_four :
    smallSession.arena.AgreeOn 2 2 4 none :=
  (agreeOn_iff (.start opened_smallSession) (by decide) (by decide)
    (by decide) (by decide)).mpr (Or.inr ⟨by decide, by decide⟩)

/-- The size of `2 ^ 60 + 1` elements of 16 bytes wraps to 16: `AllocArray`
aborts, `allocate` does not. -/
theorem exists_disagreement :
    ¬ ∀ (s : Session) sizeofT alignofT n raw, s.Reachable →
      0 < sizeofT → sizeofT < sizeModulus →
      checkAlignment alignofT = true → 0 < n → n < sizeModulus →
      Answers s.arena.blocks
        (s.arena.request (mulSize sizeofT n) alignofT) raw →
      s.arena.AgreeOn sizeofT alignofT n raw := by
  intro hall
  have hagree := hall smallSession 16 16 (2 ^ 60 + 1) none
    (.start opened_smallSession) (by decide) (by decide) (by decide)
    (by decide) (by decide) (by decide)
  rcases hagree with ⟨⟨fault, habort⟩, -⟩ | ⟨-, ptr, a', harray, -⟩
  · cases habort
  · cases harray

end Memory
end Yacul
