import Yacul.Memory.Arena
import Yacul.Support.Transition
import Mathlib.Data.List.Nodup
import Mathlib.Data.Set.Insert

/-!
# Marks on arenas

Arenas and marks are objects of the caller: they are created, moved, assigned
and destroyed in any order.  A mark stores a pointer to a block, and every
rewind of another mark, every reset and every move of the arena may free that
block or take it elsewhere.
-/

namespace Yacul
namespace Memory

/-- `ArenaMark`. -/
structure ArenaMark where
  arena : ℕ
  block : ℕ
  used : ℕ
  valid : Bool
deriving DecidableEq, Repr

/-- The objects of the caller; a destroyed one is `none`. -/
structure World where
  arenas : List (Option Arena)
  marks : List (Option ArenaMark)
deriving DecidableEq, Repr

/-- An operation on arenas and marks, with what `malloc` answers if it is
asked. -/
inductive Operation
  | construct (initialSize : ℕ) (raw : Option ℕ)
  | moveConstruct (k : ℕ)
  | moveAssign (k other : ℕ)
  | destroy (k : ℕ)
  | allocBytes (k size align : ℕ) (raw : Option ℕ)
  | setGrowthFactor (k factor : ℕ)
  | reset (k : ℕ) (raw : Option ℕ)
  | mark (k : ℕ)
  | rewind (i : ℕ)
  | moveConstructMark (i : ℕ)
  | moveAssignMark (i other : ℕ)
  | destroyMark (i : ℕ)
deriving DecidableEq, Repr

namespace World

def arena? (w : World) (k : ℕ) : Option Arena := w.arenas[k]?.join

def mark? (w : World) (i : ℕ) : Option ArenaMark := w.marks[i]?.join

def setArena (w : World) (k : ℕ) (a : Arena) : World :=
  { w with arenas := w.arenas.set k (some a) }

def setMark (w : World) (i : ℕ) (m : ArenaMark) : World :=
  { w with marks := w.marks.set i (some m) }

/-- The live blocks. -/
def heap (w : World) : List Block :=
  w.arenas.flatMap fun slot => (slot.map Arena.blocks).getD []

/-- `ArenaMark::Rewind`. -/
def rewindMark (w : World) (i : ℕ) : Option World := do
  let m ← w.mark? i
  if m.valid then
    let a ← w.arena? m.arena
    let blocks ← Arena.rewindTo a.blocks m.block m.used
    some ((w.setArena m.arena { a with blocks := blocks }).setMark i
      { m with valid := false })
  else some w

/-- One operation; `none` where the code would follow a null or dangling
pointer, fail a check, or get an answer that `malloc` cannot give. -/
def step (w : World) : Operation → Option World
  | .construct initialSize raw =>
      if Answers w.heap (mallocSize (Arena.initialCapacity initialSize)) raw
      then
        (Arena.construct initialSize raw).toOption.map fun a =>
          { w with arenas := w.arenas ++ [some a] }
      else none
  | .moveConstruct k =>
      (w.arena? k).map fun a =>
        { w.setArena k a.movedFrom with
          arenas := (w.setArena k a.movedFrom).arenas ++ [some a] }
  | .moveAssign k other => do
      let _ ← w.arena? k
      let a ← w.arena? other
      if k = other then some w
      else some ((w.setArena k a).setArena other a.movedFrom)
  | .destroy k =>
      (w.arena? k).map fun _ => { w with arenas := w.arenas.set k none }
  | .allocBytes k size align raw => do
      let a ← w.arena? k
      if Answers w.heap (a.request size align) raw then
        (a.allocBytes size align raw).toOption.map fun result =>
          w.setArena k result.2
      else none
  | .setGrowthFactor k factor =>
      (w.arena? k).map fun a => w.setArena k (a.setGrowthFactor factor)
  | .reset k raw => do
      let a ← w.arena? k
      -- The blocks of the arena are free when `malloc` is called.
      if Answers (w.setArena k a.movedFrom).heap
          (mallocSize a.initialBlockSize) raw then
        (a.reset raw).toOption.map fun a => w.setArena k a
      else none
  | .mark k => do
      let a ← w.arena? k
      a.mark.toOption.map fun position =>
        { w with marks := w.marks ++
          [some ⟨k, position.1, position.2, true⟩] }
  | .rewind i => w.rewindMark i
  | .moveConstructMark i =>
      (w.mark? i).map fun m =>
        { w.setMark i { m with valid := false } with
          marks := (w.setMark i { m with valid := false }).marks ++ [some m] }
  | .moveAssignMark i other => do
      let _ ← w.mark? i
      let _ ← w.mark? other
      if i = other then some w
      else
        let w ← w.rewindMark i
        let m ← w.mark? other
        some ((w.setMark i m).setMark other { m with valid := false })
  | .destroyMark i => do
      let w ← w.rewindMark i
      some { w with marks := w.marks.set i none }

/-- No objects. -/
def init : World := ⟨[], []⟩

/-! ## What marks promise -/

/-- The mark refers to a block of its arena that is used at least as far as
the mark says, and a rewind finds it. -/
structure MarkSound (w : World) (m : ArenaMark) (a : Arena) : Prop where
  arena : w.arena? m.arena = some a
  block : ∃ b ∈ a.blocks, b.address = m.block ∧ m.used ≤ b.used
  found : (Arena.rewindTo a.blocks m.block m.used).isSome = true

/-- Every valid mark keeps its promise. -/
def MarksSound (w : World) : Prop :=
  ∀ i m, w.mark? i = some m → m.valid = true → ∃ a, w.MarkSound m a

/-- No mark on arena `k` is valid. -/
def Unmarked (w : World) (k : ℕ) : Prop :=
  ∀ i m, w.mark? i = some m → m.valid = true → m.arena ≠ k

/-- The blocks behind the one at `block`. -/
def behind (blocks : List Block) (block : ℕ) : List Block :=
  (blocks.dropWhile fun b => b.address ≠ block).tail

/-- `m` was taken no further than `limit`: in the same block where no more was
used, or in an older block. -/
def NoFurther (a : Arena) (m limit : ArenaMark) : Prop :=
  m.block = limit.block ∧ m.used ≤ limit.used ∨
    ∃ b ∈ behind a.blocks limit.block, b.address = m.block

/-- Every other valid mark on the arena of mark `i` was taken no further. -/
def Innermost (w : World) (i : ℕ) : Prop :=
  ∀ limit a, w.mark? i = some limit → limit.valid = true →
    w.arena? limit.arena = some a →
      ∀ j m, j ≠ i → w.mark? j = some m → m.valid = true →
        m.arena = limit.arena → NoFurther a m limit

/-- Arenas lose blocks only while no mark on them is valid, or by the rewind
of an innermost mark. -/
def Careful (w : World) : Operation → Prop
  | .moveConstruct k | .destroy k | .reset k _ => w.Unmarked k
  | .moveAssign k other => k = other ∨ w.Unmarked k ∧ w.Unmarked other
  | .rewind i | .destroyMark i => w.Innermost i
  | .moveAssignMark i other => i = other ∨ w.Innermost i
  | _ => True

end World

/-! ## Chains -/

/-- The addresses of the blocks differ, and their sizes fit together. -/
structure Arena.Ok (a : Arena) : Prop where
  addresses : (a.blocks.map Block.address).Nodup
  raw : ∀ b ∈ a.blocks, b.raw < sizeModulus
  used : ∀ b ∈ a.blocks, b.used ≤ b.capacity
  capacity : ∀ b ∈ a.blocks, b.capacity < sizeModulus

/-- Every block of `a` is still in `a'`, and used at least as far. -/
def Arena.Keeps (a a' : Arena) : Prop :=
  ∀ b ∈ a.blocks, ∃ b' ∈ a'.blocks, b'.address = b.address ∧ b.used ≤ b'.used

section Chains

variable {a a' : Arena} {b b' : Block} {blocks blocks' : List Block}
  {block used size align ptr : ℕ}

theorem address_inj (hb : b.raw < sizeModulus) (hb' : b'.raw < sizeModulus)
    (h : b.address = b'.address) : b.raw = b'.raw := by
  have hoverhead : overhead = 16 := by decide
  simp only [Block.address, hoverhead, addSize, sizeModulus] at *
  omega

/-- A successful `TryAlloc` moves `used` forward within the capacity. -/
theorem tryAlloc_used (hused : b.used ≤ b.capacity)
    (hcap : b.capacity < sizeModulus)
    (h : b.tryAlloc size align = some (ptr, b')) :
    ∃ n, b' = { b with used := n } ∧ b.used ≤ n ∧ n ≤ b.capacity := by
  simp only [Block.tryAlloc, Option.ite_none_left_eq_some, Nat.not_lt,
    Option.some.injEq, Prod.mk.injEq] at h
  obtain ⟨hfits, -, hb'⟩ := h
  refine ⟨_, hb'.symm, ?_⟩
  generalize addSize (b.padding align) size = total at hfits
  simp only [Block.remaining, Basic.wrapSub, addSize, sizeModulus] at *
  omega

theorem tryAllocPtr_used (hused : b.used ≤ b.capacity)
    (hcap : b.capacity < sizeModulus) {result : Option ℕ}
    (h : b.tryAllocPtr size align = (result, b')) :
    ∃ n, b' = { b with used := n } ∧ b.used ≤ n ∧ n ≤ b.capacity := by
  cases result with
  | none =>
      rcases tryAllocPtr_eq_none h with ⟨-, rfl⟩ | hzero
      · exact ⟨b'.used, rfl, le_rfl, hused⟩
      · exact tryAlloc_used hused hcap hzero
  | some ptr =>
      exact tryAlloc_used hused hcap (tryAllocPtr_eq_some h).1

theorem Arena.Ok.of_used {cur : Block} {older : List Block} {n : ℕ}
    (h : Arena.Ok { a with blocks := cur :: older }) (hn : n ≤ cur.capacity) :
    Arena.Ok { a with blocks := { cur with used := n } :: older } := by
  obtain ⟨hcur, holder⟩ := List.forall_mem_cons.mp h.used
  refine ⟨h.addresses, ?_, List.forall_mem_cons.mpr ⟨hn, holder⟩, ?_⟩
  · exact List.forall_mem_cons.mpr (List.forall_mem_cons.mp h.raw)
  · exact List.forall_mem_cons.mpr (List.forall_mem_cons.mp h.capacity)

theorem Arena.Ok.push {cap raw : ℕ} (h : a.Ok) (hraw : raw < sizeModulus)
    (hdistinct : ∀ c ∈ a.blocks, raw ≠ c.raw) :
    Arena.Ok { a with blocks := makeBlock cap raw :: a.blocks } := by
  refine ⟨List.nodup_cons.mpr ⟨fun hmem => ?_, h.addresses⟩,
    List.forall_mem_cons.mpr ⟨hraw, h.raw⟩,
    List.forall_mem_cons.mpr ⟨Nat.zero_le _, h.used⟩,
    List.forall_mem_cons.mpr ⟨Nat.mod_lt _ (by decide), h.capacity⟩⟩
  obtain ⟨c, hc, heq⟩ := List.mem_map.mp hmem
  exact hdistinct c hc (address_inj (h.raw c hc) hraw heq).symm

theorem keeps_used {c : Arena} {cur : Block} {older : List Block} {n : ℕ}
    (hn : cur.used ≤ n) :
    Arena.Keeps { a with blocks := cur :: older }
      { c with blocks := { cur with used := n } :: older } := by
  intro b hb
  rcases List.mem_cons.mp hb with rfl | hb
  · exact ⟨_, List.mem_cons_self, rfl, hn⟩
  · exact ⟨b, List.mem_cons_of_mem _ hb, rfl, le_rfl⟩

theorem Arena.Keeps.trans {c : Arena} (h : a.Keeps a') (h' : a'.Keeps c) :
    a.Keeps c := by
  intro b hb
  obtain ⟨b', hb', haddr, hused⟩ := h b hb
  obtain ⟨b'', hb'', haddr', hused'⟩ := h' b' hb'
  exact ⟨b'', hb'', haddr'.trans haddr, hused.trans hused'⟩

theorem allocFresh_keeps {blk : Block}
    (h : Arena.Ok { a with blocks := blk :: a.blocks }) {result : Option ℕ}
    (halloc : a.allocFresh blk size align = .ok (result, a')) :
    a'.Ok ∧ a.Keeps a' := by
  unfold Arena.allocFresh at halloc
  split at halloc
  · cases halloc
  · next ptr blk' htry =>
      simp only [Except.ok.injEq, Prod.mk.injEq] at halloc
      obtain ⟨-, rfl⟩ := halloc
      obtain ⟨n, rfl, -, hn⟩ :=
        tryAllocPtr_used (h.used blk List.mem_cons_self)
          (h.capacity blk List.mem_cons_self) htry
      have hok := h.of_used hn
      refine ⟨⟨hok.addresses, hok.raw, hok.used, hok.capacity⟩, ?_⟩
      exact fun b hb => ⟨b, List.mem_cons_of_mem _ hb, rfl, le_rfl⟩

/-- An allocation keeps the blocks of its arena. -/
theorem allocBytes_keeps (h : a.Ok) {raw result : Option ℕ}
    (hanswers : Answers a.blocks (a.request size align) raw)
    (halloc : a.allocBytes size align raw = .ok (result, a')) :
    a'.Ok ∧ a.Keeps a' := by
  unfold Arena.allocBytes at halloc
  split_ifs at halloc with hzero halign
  · obtain ⟨-, rfl⟩ := Prod.mk.inj (Except.ok.inj halloc)
    exact ⟨h, fun b hb => ⟨b, hb, rfl, le_rfl⟩⟩
  cases hblocks : a.blocks with
  | nil => simp [hblocks] at halloc
  | cons cur older =>
      have hcons : Arena.Ok { a with blocks := cur :: older } := by
        rw [← hblocks]
        exact h
      have hbump : ∀ {result : Option ℕ} {cur' : Block},
          cur.tryAllocPtr size align = (result, cur') →
          cur'.raw = cur.raw ∧
            Arena.Ok { a with blocks := cur' :: older } ∧
            a.Keeps { a with blocks := cur' :: older } := by
        intro result cur' htry
        obtain ⟨n, rfl, hle, hn⟩ :=
          tryAllocPtr_used (hcons.used cur List.mem_cons_self)
            (hcons.capacity cur List.mem_cons_self) htry
        refine ⟨rfl, hcons.of_used hn, fun b hb => ?_⟩
        rw [hblocks] at hb
        exact keeps_used (a := a) (c := a) hle b hb
      simp only [hblocks] at halloc
      split at halloc
      · next ptr cur' htry =>
          simp only [Except.ok.injEq, Prod.mk.injEq] at halloc
          obtain ⟨-, rfl⟩ := halloc
          obtain ⟨-, hok, hkeeps⟩ := hbump htry
          exact ⟨⟨hok.addresses, hok.raw, hok.used, hok.capacity⟩, hkeeps⟩
      · next cur' htry =>
          obtain ⟨hraw, hok, hkeeps⟩ := hbump htry
          cases raw with
          | none => simp at halloc
          | some r =>
              have hfresh := hanswers r rfl
              have hdistinct : ∀ c ∈ cur' :: older, r ≠ c.raw := by
                rw [hblocks] at hfresh
                obtain ⟨hcur, hold⟩ := List.forall_mem_cons.mp hfresh.distinct
                exact List.forall_mem_cons.mpr ⟨hraw ▸ hcur, hold⟩
              obtain ⟨hok', hkeeps'⟩ := allocFresh_keeps
                (hok.push hfresh.address hdistinct) halloc
              exact ⟨hok', hkeeps.trans hkeeps'⟩

/-- A rewind ends in the block of the mark, with what was behind it. -/
theorem rewindTo_eq_some
    (h : Arena.rewindTo blocks block used = some blocks') :
    ∃ newer b, blocks = newer ++ b :: World.behind blocks block ∧
      b.address = block ∧
      blocks' = { b with used := used } :: World.behind blocks block := by
  induction blocks with
  | nil => cases h
  | cons c older ih =>
      simp only [Arena.rewindTo] at h
      split_ifs at h with heq
      · have hbehind : World.behind (c :: older) block = older := by
          simp [World.behind, heq]
        rw [hbehind]
        exact ⟨[], c, rfl, heq, (Option.some.inj h).symm⟩
      · have hbehind : World.behind (c :: older) block =
            World.behind older block := by
          simp [World.behind, heq]
        obtain ⟨newer, b, hblocks, hb, hblocks'⟩ := ih h
        rw [hbehind]
        exact ⟨c :: newer, b, by rw [List.cons_append, ← hblocks], hb,
          hblocks'⟩

theorem rewindTo_isSome (h : ∃ b ∈ blocks, b.address = block) :
    (Arena.rewindTo blocks block used).isSome = true := by
  induction blocks with
  | nil =>
      obtain ⟨b, hb, -⟩ := h
      cases hb
  | cons c older ih =>
      simp only [Arena.rewindTo]
      split_ifs with heq
      · rfl
      · obtain ⟨b, hb, hbeq⟩ := h
        rcases List.mem_cons.mp hb with rfl | hb
        · exact absurd hbeq heq
        · exact ih ⟨b, hb, hbeq⟩

/-- Blocks of one arena are told apart by their addresses. -/
theorem Arena.Ok.eq_of_address (h : a.Ok) (hb : b ∈ a.blocks)
    (hb' : b' ∈ a.blocks) (heq : b.address = b'.address) : b = b' :=
  List.inj_on_of_nodup_map h.addresses hb hb' heq

/-- What a rewind keeps of its arena. -/
theorem rewindTo_ok (h : a.Ok)
    (hused : ∃ b ∈ a.blocks, b.address = block ∧ used ≤ b.used)
    (hrewind : Arena.rewindTo a.blocks block used = some blocks') :
    Arena.Ok { a with blocks := blocks' } := by
  obtain ⟨newer, b, hblocks, hb, rfl⟩ := rewindTo_eq_some hrewind
  have hmem : b ∈ a.blocks := by
    rw [hblocks]
    simp
  obtain ⟨c, hc, hcblock, hle⟩ := hused
  obtain rfl := h.eq_of_address hmem hc (hb.trans hcblock.symm)
  have hsub : (b :: World.behind a.blocks block).Sublist a.blocks := by
    conv_rhs => rw [hblocks]
    exact List.sublist_append_right newer _
  have hrest : Arena.Ok { a with
      blocks := b :: World.behind a.blocks block } :=
    ⟨h.addresses.sublist (hsub.map Block.address),
      fun c hc => h.raw c (hsub.subset hc),
      fun c hc => h.used c (hsub.subset hc),
      fun c hc => h.capacity c (hsub.subset hc)⟩
  exact hrest.of_used (hle.trans (h.used b hmem))

/-- A mark taken no further than the one rewound keeps its block. -/
theorem rewindTo_noFurther (h : a.Ok) {m limit : ArenaMark}
    (hm : ∃ b ∈ a.blocks, b.address = m.block ∧ m.used ≤ b.used)
    (hlimit : World.NoFurther a m limit)
    (hrewind : Arena.rewindTo a.blocks limit.block limit.used =
      some blocks') :
    ∃ b ∈ blocks', b.address = m.block ∧ m.used ≤ b.used := by
  obtain ⟨newer, b, hblocks, hb, rfl⟩ := rewindTo_eq_some hrewind
  rcases hlimit with ⟨hsame, hle⟩ | ⟨c, hc, hcblock⟩
  · exact ⟨_, List.mem_cons_self, hb.trans hsame.symm, hle⟩
  · obtain ⟨d, hd, hdblock, hle⟩ := hm
    have hmem : c ∈ a.blocks := by
      rw [hblocks]
      simp [hc]
    obtain rfl := h.eq_of_address hmem hd (hcblock.trans hdblock.symm)
    exact ⟨c, List.mem_cons_of_mem _ hc, hcblock, hle⟩

theorem Answers.of_subset {heap heap' : List Block} {region : ℕ}
    {raw : Option ℕ} (h : Answers heap' region raw)
    (hsub : ∀ b ∈ heap, b ∈ heap') : Answers heap region raw := by
  intro r hr
  have hfresh := h r hr
  exact ⟨hfresh.aligned, hfresh.address, hfresh.inMemory,
    fun b hb => hfresh.distinct b (hsub b hb),
    fun b hb => hfresh.disjoint b (hsub b hb)⟩

theorem ok_movedFrom (a : Arena) : a.movedFrom.Ok :=
  ⟨List.nodup_nil, by simp [Arena.movedFrom], by simp [Arena.movedFrom],
    by simp [Arena.movedFrom]⟩

/-- A single new block. -/
theorem ok_makeBlock {cap r : ℕ} (hraw : r < sizeModulus)
    (hblocks : a.blocks = [makeBlock cap r]) : a.Ok := by
  refine ⟨?_, ?_, ?_, ?_⟩
  · rw [hblocks]
    simp
  · rw [hblocks]
    simpa [makeBlock] using hraw
  · rw [hblocks]
    simp [makeBlock]
  · intro b hb
    rw [hblocks] at hb
    rw [List.mem_singleton.mp hb]
    exact Nat.mod_lt _ (by decide)

end Chains

/-! ## Worlds -/

namespace World

/-- The arenas are in order and the valid marks keep their promise. -/
structure Ok (w : World) : Prop where
  arenas : ∀ k a, w.arena? k = some a → a.Ok
  marks : w.MarksSound

section Worlds

variable {w w' : World} {a a' : Arena} {k other i : ℕ} {m : ArenaMark}

theorem arena?_setArena (h : w.arena? k = some a') (j : ℕ) :
    (w.setArena k a).arena? j = if j = k then some a else w.arena? j := by
  have hlt : k < w.arenas.length := by
    by_contra hge
    simp [arena?, List.getElem?_eq_none (Nat.le_of_not_lt hge)] at h
  by_cases hj : j = k
  · subst hj
    simp [arena?, setArena, List.getElem?_set_self hlt]
  · simp [arena?, setArena, List.getElem?_set_ne (Ne.symm hj), hj]

theorem mark?_setMark {m' : ArenaMark} (h : w.mark? i = some m') (j : ℕ) :
    (w.setMark i m).mark? j = if j = i then some m else w.mark? j := by
  have hlt : i < w.marks.length := by
    by_contra hge
    simp [mark?, List.getElem?_eq_none (Nat.le_of_not_lt hge)] at h
  by_cases hj : j = i
  · subst hj
    simp [mark?, setMark, List.getElem?_set_self hlt]
  · simp [mark?, setMark, List.getElem?_set_ne (Ne.symm hj), hj]

/-- The slot after the last one is the new one. -/
theorem join_append {α : Type*} (l : List (Option α)) (x : α) (j : ℕ) :
    (l ++ [some x])[j]?.join =
      if j = l.length then some x else l[j]?.join := by
  rw [List.getElem?_append]
  by_cases hlt : j < l.length
  · simp [hlt, Nat.ne_of_lt hlt]
  · by_cases hj : j = l.length
    · simp [hj]
    · have hnone : l[j]? = none := List.getElem?_eq_none (by omega)
      have hsing : j - l.length ≠ 0 := by omega
      simp [hlt, hj, hsing]

theorem join_set_none {α : Type*} (l : List (Option α)) (k j : ℕ) :
    (l.set k none)[j]?.join = if j = k then none else l[j]?.join := by
  by_cases hj : j = k
  · subst hj
    rw [if_pos rfl, List.getElem?_set_self']
    cases l[j]? <;> rfl
  · simp [List.getElem?_set_ne (Ne.symm hj), hj]

theorem mem_heap (h : w.arena? k = some a) {b : Block} (hb : b ∈ a.blocks) :
    b ∈ w.heap := by
  rw [arena?, Option.join_eq_some_iff] at h
  have hmem : some a ∈ w.arenas := List.mem_of_getElem? h
  exact List.mem_flatMap.mpr ⟨some a, hmem, hb⟩

/-- A mark whose block is found keeps its promise. -/
theorem markSound_of_block (harena : w.arena? m.arena = some a)
    (hblock : ∃ b ∈ a.blocks, b.address = m.block ∧ m.used ≤ b.used) :
    w.MarkSound m a := by
  obtain ⟨b, hb, heq, hle⟩ := hblock
  exact ⟨harena, ⟨b, hb, heq, hle⟩, rewindTo_isSome ⟨b, hb, heq⟩⟩

/-- Marks stay as they are, and an arena with valid marks keeps its blocks. -/
theorem Ok.of_arenas (hs : w.Ok) (hmarks : w'.marks = w.marks)
    (harenas : ∀ k a', w'.arena? k = some a' → a'.Ok)
    (hkeeps : ∀ i m a, w.mark? i = some m → m.valid = true →
      w.arena? m.arena = some a →
        ∃ a', w'.arena? m.arena = some a' ∧ a.Keeps a') : w'.Ok := by
  refine ⟨harenas, fun i m hm hvalid => ?_⟩
  have hm' : w.mark? i = some m := by
    rw [mark?, hmarks] at hm
    exact hm
  obtain ⟨a, ha⟩ := hs.marks i m hm' hvalid
  obtain ⟨a', ha', hkeep⟩ := hkeeps i m a hm' hvalid ha.arena
  obtain ⟨b, hb, heq, hle⟩ := ha.block
  obtain ⟨b', hb', heq', hle'⟩ := hkeep b hb
  exact ⟨a', markSound_of_block ha'
    ⟨b', hb', heq'.trans heq, hle.trans hle'⟩⟩

/-- Arenas stay as they are, and every valid mark was there, or is new and
keeps its promise. -/
theorem Ok.of_marks (hs : w.Ok) (harenas : w'.arenas = w.arenas)
    (hmarks : ∀ i m, w'.mark? i = some m → m.valid = true →
      (∃ j, w.mark? j = some m) ∨ ∃ a, w.MarkSound m a) : w'.Ok := by
  have harena : ∀ k, w'.arena? k = w.arena? k := by
    intro k
    rw [arena?, harenas, arena?]
  refine ⟨fun k a ha => hs.arenas k a (harena k ▸ ha), ?_⟩
  intro i m hm hvalid
  have hsound : ∃ a, w.MarkSound m a := by
    rcases hmarks i m hm hvalid with ⟨j, hj⟩ | hnew
    · exact hs.marks j m hj hvalid
    · exact hnew
  obtain ⟨a, ha⟩ := hsound
  exact ⟨a, ⟨(harena m.arena).trans ha.arena, ha.block, ha.found⟩⟩

/-- One arena changes and keeps its blocks. -/
theorem Ok.setArena (hs : w.Ok) (ha : w.arena? k = some a) (hok : a'.Ok)
    (hkeeps : w.Unmarked k ∨ a.Keeps a') : (w.setArena k a').Ok := by
  have hget := arena?_setArena (a := a') ha
  refine hs.of_arenas rfl (fun j c hc => ?_) fun i m c hm hvalid hc => ?_
  · rw [hget] at hc
    split_ifs at hc
    · obtain rfl := Option.some.inj hc
      exact hok
    · exact hs.arenas j c hc
  · rw [hget]
    split_ifs with hk
    · rw [hk, ha] at hc
      obtain rfl := Option.some.inj hc
      refine ⟨a', rfl, ?_⟩
      exact hkeeps.resolve_left fun hun => hun i m hm hvalid hk
    · exact ⟨c, hc, fun b hb => ⟨b, hb, rfl, le_rfl⟩⟩

theorem Ok.appendArena (hs : w.Ok) (hok : a.Ok) :
    Ok { w with arenas := w.arenas ++ [some a] } := by
  have hget : ∀ j, arena? { w with arenas := w.arenas ++ [some a] } j =
      if j = w.arenas.length then some a else w.arena? j :=
    fun j => join_append w.arenas a j
  refine hs.of_arenas rfl (fun j c hc => ?_) fun i m c hm hvalid hc => ?_
  · rw [hget] at hc
    split_ifs at hc
    · obtain rfl := Option.some.inj hc
      exact hok
    · exact hs.arenas j c hc
  · refine ⟨c, ?_, fun b hb => ⟨b, hb, rfl, le_rfl⟩⟩
    rw [hget, if_neg, hc]
    intro heq
    rw [heq] at hc
    simp [arena?] at hc

/-- A careful rewind. -/
theorem Ok.rewindMark (hs : w.Ok) (hinner : w.Innermost i)
    (h : w.rewindMark i = some w') :
    w'.Ok ∧ ∃ m, w.mark? i = some m ∧
      ∀ j, w'.mark? j =
        if j = i then some { m with valid := false } else w.mark? j := by
  simp only [World.rewindMark, Option.bind_eq_bind,
    Option.bind_eq_some_iff] at h
  obtain ⟨m, hm, h⟩ := h
  by_cases hvalid : m.valid = true
  · rw [if_pos hvalid] at h
    simp only [Option.bind_eq_some_iff] at h
    obtain ⟨a, ha, blocks, hrewind, h⟩ := h
    obtain rfl := Option.some.inj h
    obtain ⟨c, hsound⟩ := hs.marks i m hm hvalid
    obtain rfl := Option.some.inj (ha.symm.trans hsound.arena)
    have haok := hs.arenas m.arena a ha
    have hmark : (w.setArena m.arena { a with blocks := blocks }).mark? i =
        some m := hm
    have hget := mark?_setMark (m := { m with valid := false }) hmark
    have hgetArena := arena?_setArena (a := { a with blocks := blocks }) ha
    refine ⟨⟨fun k c hc => ?_, fun j m' hj hvalid' => ?_⟩, m, hm, hget⟩
    · have hc' : (w.setArena m.arena { a with blocks := blocks }).arena? k =
          some c := hc
      rw [hgetArena] at hc'
      split_ifs at hc'
      · rw [← Option.some.inj hc']
        exact rewindTo_ok haok hsound.block hrewind
      · exact hs.arenas k c hc'
    · rw [hget] at hj
      split_ifs at hj with hji
      · rw [← Option.some.inj hj] at hvalid'
        cases hvalid'
      · have hj' : w.mark? j = some m' := hj
        obtain ⟨c, hc⟩ := hs.marks j m' hj' hvalid'
        by_cases hsame : m'.arena = m.arena
        · -- The mark is on the arena that is rewound.
          have hac : a = c := by
            rw [← hsame] at ha
            exact Option.some.inj (ha.symm.trans hc.arena)
          have hnot := hinner m a hm hvalid ha j m' hji hj' hvalid' hsame
          have hblock := rewindTo_noFurther haok (hac ▸ hc.block) hnot hrewind
          refine ⟨{ a with blocks := blocks }, markSound_of_block ?_ hblock⟩
          exact (hgetArena m'.arena).trans (if_pos hsame)
        · refine ⟨c, markSound_of_block ?_ hc.block⟩
          exact ((hgetArena m'.arena).trans (if_neg hsame)).trans hc.arena
  · rw [if_neg hvalid] at h
    obtain rfl := Option.some.inj h
    refine ⟨hs, m, hm, fun j => ?_⟩
    split_ifs with hji
    · have hfalse : m.valid = false := by simpa using hvalid
      rw [hji, hm, ← hfalse]
    · rfl

theorem Ok.moveConstruct (hs : w.Ok) (ha : w.arena? k = some a)
    (hunmarked : w.Unmarked k) :
    Ok { w.setArena k a.movedFrom with
      arenas := (w.setArena k a.movedFrom).arenas ++ [some a] } := by
  have haok := hs.arenas k a ha
  exact (hs.setArena ha (ok_movedFrom a) (Or.inl hunmarked)).appendArena haok

theorem Ok.moveAssign (hs : w.Ok) (hk : w.arena? k = some a')
    (ha : w.arena? other = some a) (hne : k ≠ other)
    (hunmarked : w.Unmarked k ∧ w.Unmarked other) :
    ((w.setArena k a).setArena other a.movedFrom).Ok := by
  have haok := hs.arenas other a ha
  have hfirst := hs.setArena hk haok (Or.inl hunmarked.1)
  have hother : (w.setArena k a).arena? other = some a := by
    rw [arena?_setArena hk, if_neg hne.symm]
    exact ha
  exact hfirst.setArena hother (ok_movedFrom a) (Or.inl hunmarked.2)

theorem Ok.destroy (hs : w.Ok) (hunmarked : w.Unmarked k) :
    Ok { w with arenas := w.arenas.set k none } := by
  have hget : ∀ j, arena? { w with arenas := w.arenas.set k none } j =
      if j = k then none else w.arena? j := fun j => join_set_none _ k j
  refine hs.of_arenas rfl (fun j c hc => ?_) fun i m c hm hvalid hc => ?_
  · rw [hget, Option.ite_none_left_eq_some] at hc
    exact hs.arenas j c hc.2
  · refine ⟨c, ?_, fun b hb => ⟨b, hb, rfl, le_rfl⟩⟩
    rw [hget, if_neg (hunmarked i m hm hvalid)]
    exact hc

theorem Ok.mark (hs : w.Ok) (ha : w.arena? k = some a) {block used : ℕ}
    (h : a.mark = .ok (block, used)) :
    Ok { w with marks := w.marks ++ [some ⟨k, block, used, true⟩] } := by
  refine hs.of_marks rfl fun i m hm _ => ?_
  have hget : mark? { w with
      marks := w.marks ++ [some ⟨k, block, used, true⟩] } i =
      if i = w.marks.length then some ⟨k, block, used, true⟩
      else w.mark? i := join_append _ _ i
  rw [hget] at hm
  split_ifs at hm
  · obtain rfl := Option.some.inj hm
    refine Or.inr ⟨a, markSound_of_block ha ?_⟩
    cases hblocks : a.blocks with
    | nil => simp [Arena.mark, hblocks] at h
    | cons cur older =>
        simp only [Arena.mark, hblocks, Except.ok.injEq, Prod.mk.injEq] at h
        exact ⟨cur, List.mem_cons_self, h.1, h.2.ge⟩
  · exact Or.inl ⟨i, hm⟩

theorem Ok.moveConstructMark (hs : w.Ok) (hm : w.mark? i = some m) :
    Ok { w.setMark i { m with valid := false } with
      marks := (w.setMark i { m with valid := false }).marks ++ [some m] } := by
  refine hs.of_marks rfl fun j m' hm' hvalid => Or.inl ?_
  have hget : mark? { w.setMark i { m with valid := false } with
      marks := (w.setMark i { m with valid := false }).marks ++ [some m] } j =
      if j = (w.setMark i { m with valid := false }).marks.length then some m
      else (w.setMark i { m with valid := false }).mark? j :=
    join_append _ _ j
  rw [hget, mark?_setMark hm] at hm'
  split_ifs at hm' with hnew hj
  · exact ⟨i, hm'.symm ▸ hm⟩
  · rw [← Option.some.inj hm'] at hvalid
    cases hvalid
  · exact ⟨j, hm'⟩

theorem Ok.moveAssignMark (hs : w.Ok) (hi : ∃ m', w.mark? i = some m')
    (hm : w.mark? other = some m) :
    ((w.setMark i m).setMark other { m with valid := false }).Ok := by
  obtain ⟨m', hm'⟩ := hi
  refine hs.of_marks rfl fun j c hc hvalid => Or.inl ?_
  have hother : ∃ c, (w.setMark i m).mark? other = some c := by
    rw [mark?_setMark hm']
    split_ifs
    · exact ⟨m, rfl⟩
    · exact ⟨m, hm⟩
  obtain ⟨c', hc'⟩ := hother
  rw [mark?_setMark hc', mark?_setMark hm'] at hc
  split_ifs at hc
  · rw [← Option.some.inj hc] at hvalid
    cases hvalid
  · exact ⟨other, hc ▸ hm⟩
  · exact ⟨j, hc⟩

theorem Ok.destroyMark (hs : w.Ok) :
    Ok { w with marks := w.marks.set i none } := by
  refine hs.of_marks rfl fun j m hm _ => Or.inl ⟨j, ?_⟩
  have hget : mark? { w with marks := w.marks.set i none } j =
      if j = i then none else w.mark? j := join_set_none _ i j
  rw [hget, Option.ite_none_left_eq_some] at hm
  exact hm.2

theorem toOption_eq_some {α : Type*} {x : Except Fault α} {y : α}
    (h : x.toOption = some y) : x = .ok y := by
  cases x with
  | error e => cases h
  | ok z => exact congrArg Except.ok (Option.some.inj h)

/-- A careful operation keeps every promise. -/
theorem step_ok (hs : w.Ok) {op : Operation} (hcareful : w.Careful op)
    (h : w.step op = some w') : w'.Ok := by
  cases op with
  | construct initialSize raw =>
      simp only [step, Option.ite_none_right_eq_some,
        Option.map_eq_some_iff] at h
      obtain ⟨hanswers, a, ha, rfl⟩ := h
      have hconstruct := toOption_eq_some ha
      unfold Arena.construct at hconstruct
      split_ifs at hconstruct
      cases raw with
      | none => cases hconstruct
      | some r =>
          have haok : a.Ok := by
            rw [← Except.ok.inj hconstruct]
            exact ok_makeBlock (hanswers r rfl).address rfl
          exact hs.appendArena haok
  | moveConstruct k =>
      obtain ⟨a, ha, rfl⟩ := Option.map_eq_some_iff.mp h
      exact hs.moveConstruct ha hcareful
  | moveAssign k other =>
      simp only [step, Option.bind_eq_bind, Option.bind_eq_some_iff] at h
      obtain ⟨a', hk, a, ha, h⟩ := h
      split_ifs at h with hne
      · obtain rfl := Option.some.inj h
        exact hs
      · obtain rfl := Option.some.inj h
        exact hs.moveAssign hk ha hne (hcareful.resolve_left hne)
  | destroy k =>
      obtain ⟨a, -, rfl⟩ := Option.map_eq_some_iff.mp h
      exact hs.destroy hcareful
  | allocBytes k size align raw =>
      simp only [step, Option.bind_eq_bind, Option.bind_eq_some_iff,
        Option.ite_none_right_eq_some, Option.map_eq_some_iff] at h
      obtain ⟨a, ha, hanswers, ⟨result, a'⟩, halloc, rfl⟩ := h
      have hown := hanswers.of_subset fun b hb => mem_heap ha hb
      obtain ⟨hok, hkeeps⟩ := allocBytes_keeps (hs.arenas k a ha) hown
        (toOption_eq_some halloc)
      exact hs.setArena ha hok (Or.inr hkeeps)
  | setGrowthFactor k factor =>
      obtain ⟨a, ha, rfl⟩ := Option.map_eq_some_iff.mp h
      have hok := hs.arenas k a ha
      exact hs.setArena ha ⟨hok.addresses, hok.raw, hok.used, hok.capacity⟩
        (Or.inr fun b hb => ⟨b, hb, rfl, le_rfl⟩)
  | reset k raw =>
      simp only [step, Option.bind_eq_bind, Option.bind_eq_some_iff,
        Option.ite_none_right_eq_some, Option.map_eq_some_iff] at h
      obtain ⟨a, ha, hanswers, a', hreset, rfl⟩ := h
      have hreset' := toOption_eq_some hreset
      cases raw with
      | none => cases hreset'
      | some r =>
          have hok : a'.Ok := by
            rw [← Except.ok.inj hreset']
            exact ok_makeBlock (hanswers r rfl).address rfl
          exact hs.setArena ha hok (Or.inl hcareful)
  | mark k =>
      simp only [step, Option.bind_eq_bind, Option.bind_eq_some_iff,
        Option.map_eq_some_iff] at h
      obtain ⟨a, ha, ⟨block, used⟩, hmark, rfl⟩ := h
      exact hs.mark ha (toOption_eq_some hmark)
  | rewind i => exact (hs.rewindMark hcareful h).1
  | moveConstructMark i =>
      obtain ⟨m, hm, rfl⟩ := Option.map_eq_some_iff.mp h
      exact hs.moveConstructMark hm
  | moveAssignMark i other =>
      simp only [step, Option.bind_eq_bind, Option.bind_eq_some_iff] at h
      obtain ⟨mi, hi, mo, ho, h⟩ := h
      split_ifs at h with hne
      · obtain rfl := Option.some.inj h
        exact hs
      · simp only [Option.bind_eq_some_iff] at h
        obtain ⟨w₁, h₁, m, hm, h⟩ := h
        obtain rfl := Option.some.inj h
        obtain ⟨hok, m', -, hmarks⟩ :=
          hs.rewindMark (hcareful.resolve_left hne) h₁
        have hi₁ := hmarks i
        rw [if_pos rfl] at hi₁
        exact hok.moveAssignMark ⟨_, hi₁⟩ hm
  | destroyMark i =>
      simp only [step, Option.bind_eq_bind, Option.bind_eq_some_iff] at h
      obtain ⟨w₁, h₁, h⟩ := h
      obtain rfl := Option.some.inj h
      exact (hs.rewindMark hcareful h₁).1.destroyMark

theorem init_ok : Ok init :=
  ⟨fun k a ha => by simp [arena?, init] at ha,
    fun i m hm => by simp [mark?, init] at hm⟩

end Worlds

/-- A mark, an allocation that makes the arena grow, and a mark inside. -/
def marksNested : List Operation :=
  [.construct 64 (some 4096),
   .mark 0,
   .allocBytes 0 100 64 (some 8192),
   .mark 0]

theorem marksNested_runs :
    (Transition.run World.step init marksNested).isSome = true := by decide

/-- The state with both marks valid. -/
def nestedState : World :=
  (Transition.run World.step init marksNested).get marksNested_runs

theorem reachableVia_nestedState :
    Transition.ReachableVia World.step World.Careful {init} nestedState := by
  have hcareful : Transition.AllSteps World.step Careful init marksNested := by
    simp [Transition.AllSteps, marksNested, Careful]
  have hstart : Transition.ReachableVia World.step Careful {init} init :=
    .start (Set.mem_singleton init)
  exact hstart.run hcareful (Option.some_get marksNested_runs).symm

theorem outerRewound_runs :
    (nestedState.step (.rewind 0)).isSome = true := by decide

end World

end Memory
end Yacul
