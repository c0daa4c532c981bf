import Mathlib.Data.Int.GCD
import Mathlib.Data.Nat.ModEq
import Mathlib.Data.Nat.Prime.Basic
import Mathlib.Logic.Function.Basic
import Yacul.Support.Bytes

/-!
# Mixing words

Hash functions mix a state with the words of their input.  The operations they
are made of are injective: an exclusive or or a sum with a given word, a product
with an odd one, a rotation, and a word combined with itself shifted.  A
function that absorbs one block after the other, and is injective in the state
and in the block, is injective in the first state and in each of the blocks.
-/

namespace Yacul.WordMixing

open Function

variable {w : ℕ}

/-! ## Operations on words -/

/-- A rotation to the left. -/
def rotl (x : BitVec w) (r : ℕ) : BitVec w :=
  x <<< r ||| x >>> (w - r)

/-- A word combined with itself, shifted to the right. -/
def xorShift (x : BitVec w) (s : ℕ) : BitVec w :=
  x ^^^ x >>> s

theorem xor_left_injective (k : BitVec w) :
    Injective fun x : BitVec w => x ^^^ k :=
  fun _ _ h => (BitVec.xor_left_inj k).mp h

theorem xor_right_injective (k : BitVec w) :
    Injective fun x : BitVec w => k ^^^ x :=
  fun _ _ h => (BitVec.xor_right_inj k).mp h

theorem add_left_injective (k : BitVec w) :
    Injective fun x : BitVec w => x + k :=
  fun _ _ h => (BitVec.add_left_inj k).mp h

theorem mul_injective {c : BitVec w} (hc : c.toNat % 2 = 1) :
    Injective fun x : BitVec w => x * c := by
  intro x y h
  have hcoprime : (2 ^ w).gcd c.toNat = 1 :=
    (Nat.coprime_two_left.mpr (Nat.odd_iff.mpr hc)).pow_left w
  have hproduct := congrArg BitVec.toNat h
  simp only [BitVec.toNat_mul] at hproduct
  have hmod : x.toNat * c.toNat ≡ y.toNat * c.toNat [MOD 2 ^ w] := hproduct
  have hcancel := Nat.ModEq.cancel_right_of_coprime hcoprime hmod
  apply BitVec.eq_of_toNat_eq
  rwa [Nat.ModEq, Nat.mod_eq_of_lt x.isLt, Nat.mod_eq_of_lt y.isLt] at hcancel

/-- A bit of a rotated word. -/
theorem getLsbD_rotl {x : BitVec w} {r i : ℕ} (hr : r < w) (hi : i < w) :
    (rotl x r).getLsbD i =
      if i < r then x.getLsbD (w - r + i) else x.getLsbD (i - r) := by
  rw [rotl, BitVec.getLsbD_or, BitVec.getLsbD_shiftLeft,
    BitVec.getLsbD_ushiftRight]
  by_cases hir : i < r
  · simp [hi, hir]
  · have hhigh : x.getLsbD (w - r + i) = false :=
      BitVec.getLsbD_of_ge _ _ (by omega)
    simp [hi, hir, hhigh]

theorem rotl_injective {r : ℕ} (hr : r < w) :
    Injective fun x : BitVec w => rotl x r := by
  intro x y h
  apply BitVec.eq_of_getLsbD_eq
  intro i hi
  -- Where the bit has gone.
  by_cases hlow : i + r < w
  · have hbit := congrArg (fun z : BitVec w => z.getLsbD (i + r)) h
    simpa [getLsbD_rotl hr hlow, show ¬ i + r < r by omega] using hbit
  · have hbit := congrArg (fun z : BitVec w => z.getLsbD (i + r - w)) h
    have hback : w - r + (i + r - w) = i := by omega
    have hlt : i + r - w < r := by omega
    simpa [getLsbD_rotl hr (show i + r - w < w by omega), hlt, hback] using hbit

/-- The highest bits are as they were, and each of the others is told by
higher ones. -/
theorem xorShift_injective {s : ℕ} (hs : 0 < s) :
    Injective fun x : BitVec w => xorShift x s := by
  intro x y h
  have hbit : ∀ n i, w - i = n → x.getLsbD i = y.getLsbD i := by
    intro n
    induction n using Nat.strong_induction_on with
    | _ n ih =>
        intro i hn
        by_cases hi : i < w
        · have hhigher := ih (w - (s + i)) (by omega) (s + i) rfl
          have hmixed := congrArg (fun z : BitVec w => z.getLsbD i) h
          simpa [xorShift, hhigher] using hmixed
        · rw [BitVec.getLsbD_of_ge _ _ (by omega),
            BitVec.getLsbD_of_ge _ _ (by omega)]
  exact BitVec.eq_of_getLsbD_eq fun i _ => hbit _ i rfl

/-! ## Words from bytes -/

/-- The bytes of a word, the lowest first, from bit `shift` on.  The highest is
taken first. -/
def assemble (w : ℕ) : ℕ → ByteBuffer → BitVec w
  | _, [] => 0
  | shift, b :: bytes =>
      assemble w (shift + 8) bytes ^^^ b.toBitVec.setWidth w <<< shift

theorem getLsbD_assemble {bytes : ByteBuffer} {shift : ℕ}
    (hw : shift + 8 * bytes.length ≤ w) (i : ℕ) :
    (assemble w shift bytes).getLsbD i =
      (decide (shift ≤ i) &&
        (bytes.getD ((i - shift) / 8) 0).toBitVec.getLsbD ((i - shift) % 8)) := by
  induction bytes generalizing shift with
  | nil => simp [assemble]
  | cons b bytes ih =>
      rw [List.length_cons] at hw
      rw [assemble, BitVec.getLsbD_xor, ih (by omega), BitVec.getLsbD_shiftLeft,
        BitVec.getLsbD_setWidth]
      by_cases hlow : i < shift
      · simp [hlow, show ¬ shift + 8 ≤ i by omega, show ¬ shift ≤ i by omega]
      · by_cases hbyte : i < shift + 8
        · have hdiv : (i - shift) / 8 = 0 := by omega
          have hmod : (i - shift) % 8 = i - shift := by omega
          simp [hlow, show ¬ shift + 8 ≤ i by omega, show shift ≤ i by omega,
            hdiv, hmod, show i < w by omega, show i - shift < w by omega]
        · have hdiv : (i - shift) / 8 = (i - (shift + 8)) / 8 + 1 := by omega
          have hmod : (i - shift) % 8 = (i - (shift + 8)) % 8 := by omega
          have hnone : b.toBitVec.getLsbD (i - shift) = false :=
            BitVec.getLsbD_of_ge _ _ (by omega)
          simp [show shift + 8 ≤ i by omega, show shift ≤ i by omega, hdiv,
            hmod, hnone]

/-- As many bytes as fit are told by their word. -/
theorem assemble_injective {bytes bytes' : ByteBuffer}
    (hlength : bytes.length = bytes'.length) (hw : 8 * bytes.length ≤ w)
    (h : assemble w 0 bytes = assemble w 0 bytes') : bytes = bytes' := by
  apply List.ext_getElem hlength
  intro k hk hk'
  apply UInt8.toBitVec_inj.mp
  apply BitVec.eq_of_getLsbD_eq
  intro i hi
  have hdiv : (8 * k + i) / 8 = k := by omega
  have hmod : (8 * k + i) % 8 = i := by omega
  have hbit := congrArg (fun z : BitVec w => z.getLsbD (8 * k + i)) h
  simp only [getLsbD_assemble (show 0 + 8 * bytes.length ≤ w by omega),
    getLsbD_assemble (show 0 + 8 * bytes'.length ≤ w by omega), Nat.zero_le,
    decide_true, Bool.true_and, Nat.sub_zero, hdiv, hmod] at hbit
  simpa [List.getElem?_eq_getElem hk, List.getElem?_eq_getElem hk'] using hbit

/-! ## Absorbing blocks -/

section Absorbing

variable {σ β : Type*} {absorb : σ → β → σ}

/-- A step is injective in the state and in the block. -/
structure Mixes (absorb : σ → β → σ) : Prop where
  state : ∀ b, Injective fun s => absorb s b
  block : ∀ s, Injective (absorb s)

theorem Mixes.foldl_injective (h : Mixes absorb) (blocks : List β) :
    Injective fun s => blocks.foldl absorb s := by
  induction blocks with
  | nil => exact fun _ _ heq => heq
  | cons b blocks ih => exact fun _ _ heq => h.state b (ih heq)

end Absorbing

/-! ## Hashing in blocks -/

/-- The whole blocks of `n` bytes. -/
def chunks (n : ℕ) (data : ByteBuffer) : List ByteBuffer :=
  (List.range (data.length / n)).map fun i => (data.drop (n * i)).take n

/-- The bytes after the last whole block of `n` bytes. -/
def tail (n : ℕ) (data : ByteBuffer) : ByteBuffer :=
  data.drop (data.length / n * n)

section Blocks

variable {n : ℕ} {u : ByteBuffer}

theorem length_div_append (hu : n ∣ u.length) (v : ByteBuffer) :
    (u ++ v).length / n = u.length / n + v.length / n := by
  rw [List.length_append, Nat.add_div_of_dvd_right hu]

theorem chunks_append (hn : 0 < n) (hu : n ∣ u.length) (v : ByteBuffer) :
    chunks n (u ++ v) = chunks n u ++ chunks n v := by
  have hwhole : n * (u.length / n) = u.length := Nat.mul_div_cancel' hu
  rw [chunks, length_div_append hu, List.range_add, List.map_append,
    List.map_map]
  congr 1
  · apply List.map_congr_left
    intro i hi
    have hlt : i + 1 ≤ u.length / n := List.mem_range.mp hi
    have hfits : n * i + n ≤ u.length := by
      rw [← Nat.mul_succ, ← hwhole]
      exact Nat.mul_le_mul_left n hlt
    rw [List.drop_append_of_le_length (by omega),
      List.take_append_of_le_length (by simp only [List.length_drop]; omega)]
  · apply List.map_congr_left
    intro i _
    simp only [Function.comp_apply, Nat.mul_add, hwhole,
      List.drop_length_add_append]

theorem chunks_of_length_eq (hn : 0 < n) (hu : u.length = n) :
    chunks n u = [u] := by
  rw [chunks, hu, Nat.div_self hn]
  simp [← hu]

theorem chunks_of_length_lt (hu : u.length < n) : chunks n u = [] := by
  rw [chunks, Nat.div_eq_of_lt hu]
  rfl

theorem tail_append (hu : n ∣ u.length) (v : ByteBuffer) :
    tail n (u ++ v) = tail n v := by
  rw [tail, length_div_append hu, Nat.add_mul, Nat.div_mul_cancel hu,
    List.drop_length_add_append]
  rfl

theorem tail_of_length_lt (hu : u.length < n) : tail n u = u := by
  rw [tail, Nat.div_eq_of_lt hu, Nat.zero_mul, List.drop_zero]

/-- Two inputs that differ inside one whole block of `n` bytes, or in the bytes
after the last one. -/
def DifferInBlock (n : ℕ) (data data' : ByteBuffer) : Prop :=
  ∃ before block block' after,
    before ++ (block ++ after) = data ∧ before ++ (block' ++ after) = data' ∧
    n ∣ before.length ∧ block.length = block'.length ∧
    (block.length = n ∨ block.length < n ∧ after = [])

theorem DifferInBlock.length_eq {data data' : ByteBuffer}
    (h : DifferInBlock n data data') : data.length = data'.length := by
  obtain ⟨before, block, block', after, rfl, rfl, -, hlength, -⟩ := h
  simp [hlength]

variable {σ β : Type*} {absorb : σ → β → σ} {word : ByteBuffer → β}
  {mixTail : σ → ByteBuffer → σ}

/-- A hash function that absorbs whole blocks, each made a word, and then the
bytes left over. -/
structure MixesBlocks (n : ℕ) (absorb : σ → β → σ) (word : ByteBuffer → β)
    (mixTail : σ → ByteBuffer → σ) : Prop where
  pos : 0 < n
  absorb : Mixes absorb
  word : ∀ c c', c.length = n → c'.length = n → word c = word c' → c = c'
  tailState : ∀ t, Injective fun s => mixTail s t
  tail : ∀ s t t', t.length = t'.length → t.length < n →
    mixTail s t = mixTail s t' → t = t'

/-- The state after the whole input. -/
def absorbed (n : ℕ) (absorb : σ → β → σ) (word : ByteBuffer → β)
    (mixTail : σ → ByteBuffer → σ) (data : ByteBuffer) (s : σ) : σ :=
  mixTail (((chunks n data).map word).foldl absorb s) (tail n data)

theorem MixesBlocks.state_injective
    (h : MixesBlocks n absorb word mixTail) (data : ByteBuffer) :
    Injective (absorbed n absorb word mixTail data) :=
  (h.tailState _).comp (h.absorb.foldl_injective _)

/-- Inputs that differ inside one block are told apart. -/
theorem MixesBlocks.eq_of_differInBlock
    (h : MixesBlocks n absorb word mixTail) {data data' : ByteBuffer}
    (hdiffer : DifferInBlock n data data') {s : σ}
    (heq : absorbed n absorb word mixTail data s =
      absorbed n absorb word mixTail data' s) : data = data' := by
  obtain ⟨before, block, block', after, rfl, rfl, hbefore, hlength, hblock⟩ :=
    hdiffer
  simp only [absorbed, chunks_append h.pos hbefore, tail_append hbefore,
    List.map_append, List.foldl_append] at heq
  rcases hblock with hwhole | ⟨hshort, rfl⟩
  · have hwhole' : block'.length = n := hlength ▸ hwhole
    have hdvd : n ∣ block.length := hwhole ▸ dvd_refl n
    have hdvd' : n ∣ block'.length := hwhole' ▸ dvd_refl n
    simp only [chunks_append h.pos hdvd, chunks_append h.pos hdvd',
      chunks_of_length_eq h.pos hwhole, chunks_of_length_eq h.pos hwhole',
      tail_append hdvd, tail_append hdvd', List.map_append, List.map_cons,
      List.map_nil, List.foldl_append, List.foldl_cons, List.foldl_nil] at heq
    have hstates := h.absorb.foldl_injective _ (h.tailState _ heq)
    rw [h.word _ _ hwhole hwhole' (h.absorb.block _ hstates)]
  · have hshort' : block'.length < n := hlength ▸ hshort
    simp only [List.append_nil, chunks_of_length_lt hshort,
      chunks_of_length_lt hshort', tail_of_length_lt hshort,
      tail_of_length_lt hshort'] at heq
    rw [h.tail _ _ _ hlength hshort heq]

end Blocks

end Yacul.WordMixing
