import Mathlib.Data.FinEnum
import Yacul.Hashing.MurmurHash3

/-!
# What MurmurHash3 tells apart

Every operation that the variants apply to their state is injective, so for a
given key different seeds give different hashes, and for a given seed two keys
of one length that differ inside one block do too.
-/

namespace Yacul
namespace Hashing

open Function WordMixing

/-! ## The operations -/

theorem fmix32_injective : Injective fmix32 := by
  have hshift16 := xorShift_injective (w := 32) (s := 16) (by decide)
  have hshift13 := xorShift_injective (w := 32) (s := 13) (by decide)
  have hmul := mul_injective (c := (0x85ebca6b : BitVec 32)) (by decide)
  have hmul' := mul_injective (c := (0xc2b2ae35 : BitVec 32)) (by decide)
  exact hshift16.comp (hmul'.comp (hshift13.comp (hmul.comp hshift16)))

theorem fmix64_injective : Injective fmix64 := by
  have hshift := xorShift_injective (w := 64) (s := 33) (by decide)
  have hmul := mul_injective (c := (0xff51afd7ed558ccd : BitVec 64))
    (by decide)
  have hmul' := mul_injective (c := (0xc4ceb9fe1a85ec53 : BitVec 64))
    (by decide)
  exact hshift.comp (hmul'.comp (hshift.comp (hmul.comp hshift)))

section Words

variable {w r : ℕ} {c c' : BitVec w}

theorem scramble_injective (hc : c.toNat % 2 = 1) (hr : r < w)
    (hc' : c'.toNat % 2 = 1) : Injective (scramble c r c') :=
  (mul_injective hc').comp ((rotl_injective hr).comp (mul_injective hc))

theorem mixTail_injective (bytes : ByteBuffer) :
    Injective fun h => mixTail c r c' h bytes := by
  intro h h' heq
  simp only [mixTail] at heq
  split at heq
  · exact heq
  · exact xor_left_injective _ heq

theorem mixTail_bytes (hscramble : Injective (scramble c r c')) {h : BitVec w}
    {bytes bytes' : ByteBuffer} (hlength : bytes.length = bytes'.length)
    (hw : 8 * bytes.length ≤ w)
    (heq : mixTail c r c' h bytes = mixTail c r c' h bytes') :
    bytes = bytes' := by
  cases bytes with
  | nil => exact (List.eq_nil_of_length_eq_zero hlength.symm).symm
  | cons b bytes =>
      cases bytes' with
      | nil => cases hlength
      | cons b' bytes' =>
          simp only [mixTail, List.isEmpty_cons, Bool.false_eq_true,
            if_false] at heq
          exact assemble_injective hlength hw
            (hscramble (xor_right_injective h heq))

/-- The last steps of a lane: a rotation, a sum, a product and a sum. -/
theorem lane_injective (hr : r < w) (next n : BitVec w)
    (hfive : (5 : BitVec w).toNat % 2 = 1) :
    Injective fun h : BitVec w => (rotl h r + next) * 5 + n :=
  (WordMixing.add_left_injective n).comp
    ((mul_injective hfive).comp
      ((WordMixing.add_left_injective next).comp (rotl_injective hr)))

end Words

/-! ## 32 bits -/

namespace X86_32

theorem scramble_injective' : Injective (scramble c1 15 c2) :=
  scramble_injective (by decide) (by decide) (by decide)

theorem mixesBlocks :
    MixesBlocks 4 mix (assemble 32 0) (mixTail c1 15 c2) where
  pos := by decide
  absorb := by
    have hfive := mul_injective (c := (5 : BitVec 32)) (by decide)
    have hrotl := rotl_injective (w := 32) (r := 13) (by decide)
    have hlane := (WordMixing.add_left_injective (0xe6546b64 : BitVec 32)).comp
      (hfive.comp hrotl)
    constructor
    · intro k1
      exact hlane.comp (xor_left_injective _)
    · intro h1
      exact hlane.comp ((xor_right_injective h1).comp scramble_injective')
  word c c' hc hc' h := assemble_injective (hc.trans hc'.symm) (by omega) h
  tailState := mixTail_injective
  tail _ t t' hlength hshort h :=
    mixTail_bytes scramble_injective' hlength (by omega) h

theorem body_eq (data : ByteBuffer) (seed : BitVec 32) :
    body data seed =
      ((chunks 4 data).map (assemble 32 0)).foldl mix seed := by
  simp only [body, chunks, List.map_map, List.foldl_map]
  rfl

end X86_32

open X86_32 in
theorem murmurHash3_x86_32_eq (key : Key) (seed : BitVec 32) :
    murmurHash3_x86_32 key seed =
      fmix32 (absorbed 4 mix (assemble 32 0) (mixTail c1 15 c2) key.data seed
        ^^^ BitVec.ofNat 32 key.data.length) := by
  simp only [murmurHash3_x86_32, body_eq, absorbed]

/-! ## The words of a block of 16 bytes -/

/-- A word of a block is four of its bytes. -/
theorem getblock_eq_chunk {w n : ℕ} (data : ByteBuffer) (i j k : ℕ)
    (hj : w / 8 * (j + 1) ≤ n) (hk : w / 8 * k = n * i + w / 8 * j) :
    getblock w data k =
      assemble w 0
        ((((data.drop (n * i)).take n).drop (w / 8 * j)).take (w / 8)) := by
  have hsize : min (w / 8) (n - w / 8 * j) = w / 8 :=
    Nat.min_eq_left (by rw [Nat.mul_succ] at hj; omega)
  rw [getblock, hk, List.drop_take, List.take_take, List.drop_drop, hsize]

/-- Bytes in two parts. -/
theorem eq_of_take_drop {u v : ByteBuffer} {n : ℕ} (htake : u.take n = v.take n)
    (hdrop : u.drop n = v.drop n) : u = v := by
  rw [← List.take_append_drop n u, htake, hdrop, List.take_append_drop]

/-! ## 128 bits, in words of 32 -/

namespace X86_128

/-- The four words of a block. -/
def quad (c : ByteBuffer) : Quad where
  h1 := assemble 32 0 (c.take 4)
  h2 := assemble 32 0 ((c.drop 4).take 4)
  h3 := assemble 32 0 ((c.drop 8).take 4)
  h4 := assemble 32 0 ((c.drop 12).take 4)

theorem block_eq (data : ByteBuffer) (i : ℕ) :
    block data i = quad ((data.drop (16 * i)).take 16) := by
  have hword := fun j (hj : j < 4) =>
    getblock_eq_chunk (w := 32) (n := 16) data i j (i * 4 + j) (by omega)
      (by omega)
  simp only [block, quad, hword 0 (by decide), hword 1 (by decide),
    hword 2 (by decide), hword 3 (by decide)]
  rfl

theorem body_eq (data : ByteBuffer) (seed : BitVec 32) :
    body data seed =
      ((chunks 16 data).map quad).foldl mix ⟨seed, seed, seed, seed⟩ := by
  simp only [body, chunks, List.map_map, List.foldl_map, block_eq]
  rfl

/-- Bytes in four parts, the last shorter than four or not. -/
theorem eq_of_quarters {t t' : ByteBuffer} (h1 : t.take 4 = t'.take 4)
    (h2 : (t.drop 4).take 4 = (t'.drop 4).take 4)
    (h3 : (t.drop 8).take 4 = (t'.drop 8).take 4)
    (h4 : t.drop 12 = t'.drop 12) : t = t' := by
  refine eq_of_take_drop h1 (eq_of_take_drop h2 ?_)
  rw [List.drop_drop, List.drop_drop]
  refine eq_of_take_drop h3 ?_
  rwa [List.drop_drop, List.drop_drop]

theorem quad_injective {c c' : ByteBuffer} (hc : c.length = 16)
    (hc' : c'.length = 16) (h : quad c = quad c') : c = c' := by
  obtain ⟨h1, h2, h3, h4⟩ := Quad.ext_iff.mp h
  have hlength : ∀ k, (c.drop k).length = (c'.drop k).length := by
    simp [hc, hc']
  refine eq_of_quarters (assemble_injective (by simp [hc, hc']) ?_ h1)
    (assemble_injective (by simp [hc, hc']) ?_ h2)
    (assemble_injective (by simp [hc, hc']) ?_ h3) ?_
  · simp only [List.length_take]
    omega
  · simp only [List.length_take]
    omega
  · simp only [List.length_take]
    omega
  · have hlast : ∀ u : ByteBuffer, u.length = 16 →
        (u.drop 12).take 4 = u.drop 12 := fun u hu =>
      List.take_of_length_le (by simp [hu])
    have hwords := assemble_injective (by simp [hc, hc'])
      (by simp only [List.length_take]; omega) h4
    rwa [hlast c hc, hlast c' hc'] at hwords

theorem scramble1_injective : Injective (scramble c1 15 c2) :=
  scramble_injective (by decide) (by decide) (by decide)

theorem scramble2_injective : Injective (scramble c2 16 c3) :=
  scramble_injective (by decide) (by decide) (by decide)

theorem scramble3_injective : Injective (scramble c3 17 c4) :=
  scramble_injective (by decide) (by decide) (by decide)

theorem scramble4_injective : Injective (scramble c4 18 c1) :=
  scramble_injective (by decide) (by decide) (by decide)

/-- The new state tells the old one when the block is known, and the block when
the old state is.  The lanes are solved in the order in which nothing but
what is known already comes in. -/
theorem mixes : Mixes mix := by
  have hlane := fun r (hr : r < 32) next n =>
    lane_injective (w := 32) hr next n (by decide)
  constructor
  · intro k h h' heq
    obtain ⟨e1, e2, e3, e4⟩ := Quad.ext_iff.mp heq
    simp only [mix] at e1 e2 e3 e4
    rw [e1] at e4
    have h4 := xor_left_injective _ (hlane 13 (by decide) _ _ e4)
    rw [h4] at e3
    have h3 := xor_left_injective _ (hlane 15 (by decide) _ _ e3)
    rw [h3] at e2
    have h2 := xor_left_injective _ (hlane 17 (by decide) _ _ e2)
    rw [h2] at e1
    have h1 := xor_left_injective _ (hlane 19 (by decide) _ _ e1)
    exact Quad.ext h1 h2 h3 h4
  · intro h k k' heq
    obtain ⟨e1, e2, e3, e4⟩ := Quad.ext_iff.mp heq
    simp only [mix] at e1 e2 e3 e4
    rw [e1] at e4
    have k1 := scramble1_injective
      (xor_right_injective _ (hlane 19 (by decide) _ _ e1))
    have k2 := scramble2_injective
      (xor_right_injective _ (hlane 17 (by decide) _ _ e2))
    have k3 := scramble3_injective
      (xor_right_injective _ (hlane 15 (by decide) _ _ e3))
    have k4 := scramble4_injective
      (xor_right_injective _ (hlane 13 (by decide) _ _ e4))
    exact Quad.ext k1 k2 k3 k4

theorem mixesBlocks : MixesBlocks 16 mix quad mixTails where
  pos := by decide
  absorb := mixes
  word c c' := quad_injective
  tailState t h h' heq := by
    obtain ⟨e1, e2, e3, e4⟩ := Quad.ext_iff.mp heq
    exact Quad.ext (mixTail_injective _ e1) (mixTail_injective _ e2)
      (mixTail_injective _ e3) (mixTail_injective _ e4)
  tail h t t' hlength hshort heq := by
    obtain ⟨e1, e2, e3, e4⟩ := Quad.ext_iff.mp heq
    refine eq_of_quarters
      (mixTail_bytes scramble1_injective (by simp [hlength]) ?_ e1)
      (mixTail_bytes scramble2_injective (by simp [hlength]) ?_ e2)
      (mixTail_bytes scramble3_injective (by simp [hlength]) ?_ e3)
      (mixTail_bytes scramble4_injective (by simp [hlength]) ?_ e4)
    · simp only [List.length_take]
      omega
    · simp only [List.length_take]
      omega
    · simp only [List.length_take]
      omega
    · simp only [List.length_drop]
      omega

theorem spread_injective : Injective spread := by
  intro h h' heq
  obtain ⟨e1, e2, e3, e4⟩ := Quad.ext_iff.mp heq
  simp only [spread] at e1 e2 e3 e4
  rw [e1] at e2 e3 e4
  have h2 := WordMixing.add_left_injective _ e2
  have h3 := WordMixing.add_left_injective _ e3
  have h4 := WordMixing.add_left_injective _ e4
  rw [h2, h3, h4] at e1
  have h1 := WordMixing.add_left_injective _
    (WordMixing.add_left_injective _ (WordMixing.add_left_injective _ e1))
  exact Quad.ext h1 h2 h3 h4

theorem map_injective {f : BitVec 32 → BitVec 32} (hf : Injective f) :
    Injective (Quad.map f) := by
  intro h h' heq
  obtain ⟨e1, e2, e3, e4⟩ := Quad.ext_iff.mp heq
  exact Quad.ext (hf e1) (hf e2) (hf e3) (hf e4)

/-- The last part of the function, for a length. -/
theorem finish_injective (len : BitVec 32) :
    Injective fun h : Quad =>
      spread ((spread (h.map (· ^^^ len))).map fmix32) :=
  spread_injective.comp ((map_injective fmix32_injective).comp
    (spread_injective.comp (map_injective (xor_left_injective len))))

end X86_128

open X86_128 in
theorem murmurHash3_x86_128_eq (key : Key) (seed : BitVec 32) :
    murmurHash3_x86_128 key seed =
      spread ((spread
        ((absorbed 16 mix quad mixTails key.data ⟨seed, seed, seed, seed⟩).map
          (· ^^^ BitVec.ofNat 32 key.data.length))).map fmix32) := by
  simp only [murmurHash3_x86_128, body_eq, absorbed]

/-! ## 128 bits, in words of 64 -/

namespace X64_128

/-- The two words of a block. -/
def pair (c : ByteBuffer) : Pair where
  h1 := assemble 64 0 (c.take 8)
  h2 := assemble 64 0 ((c.drop 8).take 8)

theorem block_eq (data : ByteBuffer) (i : ℕ) :
    block data i = pair ((data.drop (16 * i)).take 16) := by
  have hword := fun j (hj : j < 2) =>
    getblock_eq_chunk (w := 64) (n := 16) data i j (i * 2 + j) (by omega)
      (by omega)
  simp only [block, pair, hword 0 (by decide), hword 1 (by decide)]
  rfl

theorem body_eq (data : ByteBuffer) (seed : BitVec 32) :
    body data seed =
      ((chunks 16 data).map pair).foldl mix
        ⟨seed.setWidth 64, seed.setWidth 64⟩ := by
  simp only [body, chunks, List.map_map, List.foldl_map, block_eq]
  rfl

theorem pair_injective {c c' : ByteBuffer} (hc : c.length = 16)
    (hc' : c'.length = 16) (h : pair c = pair c') : c = c' := by
  obtain ⟨h1, h2⟩ := Pair.ext_iff.mp h
  refine eq_of_take_drop (assemble_injective (by simp [hc, hc']) ?_ h1) ?_
  · simp only [List.length_take]
    omega
  · have hlast : ∀ u : ByteBuffer, u.length = 16 →
        (u.drop 8).take 8 = u.drop 8 := fun u hu =>
      List.take_of_length_le (by simp [hu])
    have hwords := assemble_injective (by simp [hc, hc'])
      (by simp only [List.length_take]; omega) h2
    rwa [hlast c hc, hlast c' hc'] at hwords

theorem scramble1_injective : Injective (scramble c1 31 c2) :=
  scramble_injective (by decide) (by decide) (by decide)

theorem scramble2_injective : Injective (scramble c2 33 c1) :=
  scramble_injective (by decide) (by decide) (by decide)

theorem mixes : Mixes mix := by
  have hlane := fun r (hr : r < 64) next n =>
    lane_injective (w := 64) hr next n (by decide)
  constructor
  · intro k h h' heq
    obtain ⟨e1, e2⟩ := Pair.ext_iff.mp heq
    simp only [mix] at e1 e2
    rw [e1] at e2
    have h2 := xor_left_injective _ (hlane 31 (by decide) _ _ e2)
    rw [h2] at e1
    have h1 := xor_left_injective _ (hlane 27 (by decide) _ _ e1)
    exact Pair.ext h1 h2
  · intro h k k' heq
    obtain ⟨e1, e2⟩ := Pair.ext_iff.mp heq
    simp only [mix] at e1 e2
    rw [e1] at e2
    have k1 := scramble1_injective
      (xor_right_injective _ (hlane 27 (by decide) _ _ e1))
    have k2 := scramble2_injective
      (xor_right_injective _ (hlane 31 (by decide) _ _ e2))
    exact Pair.ext k1 k2

theorem mixesBlocks : MixesBlocks 16 mix pair mixTails where
  pos := by decide
  absorb := mixes
  word c c' := pair_injective
  tailState t h h' heq := by
    obtain ⟨e1, e2⟩ := Pair.ext_iff.mp heq
    exact Pair.ext (mixTail_injective _ e1) (mixTail_injective _ e2)
  tail h t t' hlength hshort heq := by
    obtain ⟨e1, e2⟩ := Pair.ext_iff.mp heq
    refine eq_of_take_drop
      (mixTail_bytes scramble1_injective (by simp [hlength]) ?_ e1)
      (mixTail_bytes scramble2_injective (by simp [hlength]) ?_ e2)
    · simp only [List.length_take]
      omega
    · simp only [List.length_drop]
      omega

theorem spread_injective : Injective spread := by
  intro h h' heq
  obtain ⟨e1, e2⟩ := Pair.ext_iff.mp heq
  simp only [spread] at e1 e2
  rw [e1] at e2
  have h2 := WordMixing.add_left_injective _ e2
  rw [h2] at e1
  exact Pair.ext (WordMixing.add_left_injective _ e1) h2

theorem map_injective {f : BitVec 64 → BitVec 64} (hf : Injective f) :
    Injective (Pair.map f) := by
  intro h h' heq
  obtain ⟨e1, e2⟩ := Pair.ext_iff.mp heq
  exact Pair.ext (hf e1) (hf e2)

/-- The last part of the function, for a length. -/
theorem finish_injective (len : BitVec 64) :
    Injective fun h : Pair =>
      spread ((spread (h.map (· ^^^ len))).map fmix64) :=
  spread_injective.comp ((map_injective fmix64_injective).comp
    (spread_injective.comp (map_injective (xor_left_injective len))))

theorem setWidth_injective :
    Injective fun seed : BitVec 32 => seed.setWidth 64 := by
  intro seed seed' h
  apply BitVec.eq_of_toNat_eq
  have hval := congrArg BitVec.toNat h
  simp only [BitVec.toNat_setWidth] at hval
  have hlt := seed.isLt
  have hlt' := seed'.isLt
  omega

end X64_128

open X64_128 in
theorem murmurHash3_x64_128_eq (key : Key) (seed : BitVec 32) :
    murmurHash3_x64_128 key seed =
      spread ((spread
        ((absorbed 16 mix pair mixTails key.data
            ⟨seed.setWidth 64, seed.setWidth 64⟩).map
          (· ^^^ BitVec.ofNat 64 key.data.length))).map fmix64) := by
  simp only [murmurHash3_x64_128, body_eq, absorbed]

/-! ## Seeds and blocks -/

theorem murmurHash3_x86_32_injective (key : Key) :
    Injective (murmurHash3_x86_32 key) := by
  intro seed seed' heq
  rw [murmurHash3_x86_32_eq, murmurHash3_x86_32_eq] at heq
  exact X86_32.mixesBlocks.state_injective key.data
    (xor_left_injective _ (fmix32_injective heq))

theorem eq_of_murmurHash3_x86_32_eq {key key' : Key}
    (hdiffer : DifferInBlock 4 key.data key'.data) {seed : BitVec 32}
    (heq : murmurHash3_x86_32 key seed = murmurHash3_x86_32 key' seed) :
    key.data = key'.data := by
  rw [murmurHash3_x86_32_eq, murmurHash3_x86_32_eq, hdiffer.length_eq] at heq
  exact X86_32.mixesBlocks.eq_of_differInBlock hdiffer
    (xor_left_injective _ (fmix32_injective heq))

/-- For every key, different seeds give different hashes; the hash of 32 bits
takes every value. -/
theorem murmurHash3_seed_injective (key : Key) :
    Bijective (murmurHash3_x86_32 key) ∧
      Injective (murmurHash3_x86_128 key) ∧
        Injective (murmurHash3_x64_128 key) := by
  refine ⟨Finite.injective_iff_bijective.mp (murmurHash3_x86_32_injective key),
    fun seed seed' heq => ?_, fun seed seed' heq => ?_⟩
  · rw [murmurHash3_x86_128_eq, murmurHash3_x86_128_eq] at heq
    have hstates := X86_128.mixesBlocks.state_injective key.data
      (X86_128.finish_injective _ heq)
    exact congrArg X86_128.Quad.h1 hstates
  · rw [murmurHash3_x64_128_eq, murmurHash3_x64_128_eq] at heq
    have hstates := X64_128.mixesBlocks.state_injective key.data
      (X64_128.finish_injective _ heq)
    exact X64_128.setWidth_injective (congrArg X64_128.Pair.h1 hstates)

/-- Keys that differ inside one block have different hashes, with every
seed. -/
theorem murmurHash3_block_separated {key key' : Key}
    (hne : key.data ≠ key'.data) (seed : BitVec 32) :
    (DifferInBlock 4 key.data key'.data →
      murmurHash3_x86_32 key seed ≠ murmurHash3_x86_32 key' seed) ∧
    (DifferInBlock 16 key.data key'.data →
      murmurHash3_x86_128 key seed ≠ murmurHash3_x86_128 key' seed ∧
      murmurHash3_x64_128 key seed ≠ murmurHash3_x64_128 key' seed) := by
  refine ⟨fun hdiffer heq => hne (eq_of_murmurHash3_x86_32_eq hdiffer heq),
    fun hdiffer => ⟨fun heq => hne ?_, fun heq => hne ?_⟩⟩
  · rw [murmurHash3_x86_128_eq, murmurHash3_x86_128_eq,
      hdiffer.length_eq] at heq
    exact X86_128.mixesBlocks.eq_of_differInBlock hdiffer
      (X86_128.finish_injective _ heq)
  · rw [murmurHash3_x64_128_eq, murmurHash3_x64_128_eq,
      hdiffer.length_eq] at heq
    exact X64_128.mixesBlocks.eq_of_differInBlock hdiffer
      (X64_128.finish_injective _ heq)

/-- Two keys of 21 bytes, which differ in the second block of four. -/
theorem murmurHash3_block_separated_example :
    let data : ByteBuffer := (List.range 21).map UInt8.ofNat
    let key : Key := ⟨data, by decide⟩
    let key' : Key := ⟨data.set 5 0xff, by decide⟩
    murmurHash3_x86_32 key 1234 ≠ murmurHash3_x86_32 key' 1234 ∧
      murmurHash3_x86_128 key 1234 ≠ murmurHash3_x86_128 key' 1234 ∧
        murmurHash3_x64_128 key 1234 ≠ murmurHash3_x64_128 key' 1234 := by
  intro data key key'
  have hne : key.data ≠ key'.data := by decide
  have h := murmurHash3_block_separated hne 1234
  refine ⟨h.1 ?_, h.2 ?_⟩
  · exact ⟨data.take 4, (data.drop 4).take 4, (key'.data.drop 4).take 4,
      data.drop 8, by decide⟩
  · exact ⟨[], data.take 16, key'.data.take 16, data.drop 16, by decide⟩

end Hashing
end Yacul
