import Yacul.Support.Bytes
import Mathlib.Algebra.Group.Nat.Defs
import Mathlib.Data.Int.Notation
import Mathlib.Data.List.TakeDrop

/-!
# The compressors

`Lz4Compressor`, `ZstdCompressor` and `SnappyCompressor` adapt three C
libraries to `ICompressor`.  The libraries are parameters; what the adapters
rely on is stated of each of them.  The adapters are proved to return what was
compressed exactly when the buffer for the output is large enough and not
larger than a vector can be.
-/

namespace Yacul
namespace Transformation

/-- What a call returns: its status and the new contents of the caller's
vector; `none` is an exception. -/
abbrev Outcome := Option (Bool × ByteBuffer)

/-- `ICompressor`: both operations get the caller's vector. -/
structure ICompressor where
  Compress : ByteBuffer → ByteBuffer → Outcome
  Decompress : ByteBuffer → ByteBuffer → UInt64 → Outcome

/-- The vector is resized to what was written, and the call succeeds. -/
def succeed (limit : ByteBuffer.Limit) (dst written : ByteBuffer) : Outcome :=
  (ByteBuffer.resize limit (dst.overwrite written) written.length).map
    fun dst => (true, dst)

theorem succeed_eq (limit : ByteBuffer.Limit) (dst written : ByteBuffer) :
    succeed limit dst written = some (true, written) := by
  rw [succeed, ByteBuffer.resize_overwrite, Option.map_some]

/-! ## LZ4 -/

/-- What `LZ4F_decompress` reports: the bytes it stored, and its return value,
which is `none` for an error code. -/
structure Lz4Result where
  produced : ByteBuffer
  ret : Option UInt64

/-- The functions of the LZ4 frame library. -/
structure Lz4Library where
  /-- `LZ4F_compressFrameBound` at a source size and a level. -/
  compressFrameBound : ℕ → ℤ → ℕ
  /-- `LZ4F_compressFrame` at a capacity, a source, the content size and the
  level of the preferences; `none` is an error code. -/
  compressFrame : ℕ → ByteBuffer → UInt64 → ℤ → Option ByteBuffer
  /-- `LZ4F_createDecompressionContext` succeeds. -/
  createDecompressionContext : Bool
  /-- `LZ4F_decompress` on a new context at a capacity and a source. -/
  decompress : ℕ → ByteBuffer → Lz4Result

/-- What the adapter relies on: contexts can be created, and decompressing a
frame stores its content up to the capacity, reports no error, and reports
the end of the frame only after all of the content. -/
structure Lz4Library.Spec (lib : Lz4Library) : Prop where
  create : lib.createDecompressionContext = true
  produced : ∀ bound src size level frame capacity,
    lib.compressFrame bound src size level = some frame →
      (lib.decompress capacity frame).produced = src.take capacity
  noError : ∀ bound src size level frame capacity,
    lib.compressFrame bound src size level = some frame →
      (lib.decompress capacity frame).ret ≠ none
  complete : ∀ bound src size level frame capacity,
    lib.compressFrame bound src size level = some frame →
      (lib.decompress capacity frame).ret = some 0 → src.length ≤ capacity

/-- The capacity that `Lz4Compressor::Decompress` offers: the hint, or four
times the size of the frame in 64-bit arithmetic. -/
def lz4OutCapacity (src : ByteBuffer) (original_size : UInt64) : ℕ :=
  if 0 < original_size then original_size.toNat
  else src.length * 4 % 2 ^ 64

/-- `Lz4Compressor`. -/
def lz4Compressor (lib : Lz4Library) (limit : ByteBuffer.Limit) (level : ℤ) :
    ICompressor where
  Compress src dst := do
    let bound := lib.compressFrameBound src.length level
    let dst ← ByteBuffer.resize limit dst bound
    match lib.compressFrame dst.length src (UInt64.ofNat src.length) level with
    | none => some (false, dst)
    | some written => succeed limit dst written
  Decompress src dst original_size :=
    if lib.createDecompressionContext then do
      let dst ← ByteBuffer.resize limit dst (lz4OutCapacity src original_size)
      let result := lib.decompress dst.length src
      -- A positive value means that more output is waiting.
      match result.ret with
      | none => some (false, dst.overwrite result.produced)
      | some _ => succeed limit dst result.produced
    else some (false, dst)

/-! ## Zstandard -/

/-- The functions of the Zstandard library. -/
structure ZstdLibrary where
  /-- `ZSTD_compressBound`. -/
  compressBound : ℕ → ℕ
  /-- `ZSTD_compressCCtx` at a capacity, a source and a level. -/
  compressCCtx : ℕ → ByteBuffer → ℤ → Option ByteBuffer
  /-- `ZSTD_getFrameContentSize`. -/
  getFrameContentSize : ByteBuffer → UInt64
  /-- `ZSTD_decompressDCtx` at a capacity and a source. -/
  decompressDCtx : ℕ → ByteBuffer → Option ByteBuffer

/-- `ZSTD_CONTENTSIZE_UNKNOWN`. -/
def ZSTD_CONTENTSIZE_UNKNOWN : UInt64 := 0 - 1

/-- `ZSTD_CONTENTSIZE_ERROR`. -/
def ZSTD_CONTENTSIZE_ERROR : UInt64 := 0 - 2

/-- What the adapter relies on: a frame embeds the size of its content, and a
frame decompresses to its content when the capacity suffices. -/
structure ZstdLibrary.Spec (lib : ZstdLibrary) : Prop where
  contentSize : ∀ bound src level frame,
    lib.compressCCtx bound src level = some frame →
      (lib.getFrameContentSize frame).toNat = src.length ∧
      lib.getFrameContentSize frame ≠ ZSTD_CONTENTSIZE_UNKNOWN ∧
      lib.getFrameContentSize frame ≠ ZSTD_CONTENTSIZE_ERROR
  decompress : ∀ bound src level frame capacity,
    lib.compressCCtx bound src level = some frame →
      src.length ≤ capacity → lib.decompressDCtx capacity frame = some src

/-- The capacity that `ZstdCompressor::Decompress` offers. -/
def zstdCapacity (lib : ZstdLibrary) (src : ByteBuffer)
    (original_size : UInt64) : ℕ :=
  let hint := lib.getFrameContentSize src
  if hint ≠ ZSTD_CONTENTSIZE_UNKNOWN ∧ hint ≠ ZSTD_CONTENTSIZE_ERROR then
    hint.toNat
  else if 0 < original_size then original_size.toNat
  else src.length * 4 % 2 ^ 64

/-- `ZstdCompressor`. -/
def zstdCompressor (lib : ZstdLibrary) (limit : ByteBuffer.Limit) (level : ℤ) :
    ICompressor where
  Compress src dst := do
    let dst ← ByteBuffer.resize limit dst (lib.compressBound src.length)
    match lib.compressCCtx dst.length src level with
    | none => some (false, dst)
    | some written => succeed limit dst written
  Decompress src dst original_size := do
    let dst ← ByteBuffer.resize limit dst (zstdCapacity lib src original_size)
    match lib.decompressDCtx dst.length src with
    | none => some (false, dst)
    | some written => succeed limit dst written

/-! ## Snappy -/

/-- The functions of the Snappy library. -/
structure SnappyLibrary where
  /-- `snappy::MaxCompressedLength`. -/
  maxCompressedLength : ℕ → ℕ
  /-- `snappy::RawCompress`. -/
  rawCompress : ByteBuffer → ByteBuffer
  /-- `snappy::GetUncompressedLength`. -/
  getUncompressedLength : ByteBuffer → Option ℕ
  /-- `snappy::RawUncompress`: its status and the bytes it stored. -/
  rawUncompress : ByteBuffer → Bool × ByteBuffer

/-- What the adapter relies on: Snappy round-trips. -/
structure SnappyLibrary.Spec (lib : SnappyLibrary) : Prop where
  length : ∀ src, 0 < (lib.rawCompress src).length →
    lib.getUncompressedLength (lib.rawCompress src) = some src.length
  roundTrip : ∀ src, 0 < (lib.rawCompress src).length →
    lib.rawUncompress (lib.rawCompress src) = (true, src)

/-- `SnappyCompressor`. -/
def snappyCompressor (lib : SnappyLibrary) (limit : ByteBuffer.Limit) :
    ICompressor where
  Compress src dst := do
    let dst ← ByteBuffer.resize limit dst (lib.maxCompressedLength src.length)
    let written := lib.rawCompress src
    let dst ← ByteBuffer.resize limit (dst.overwrite written) written.length
    some (0 < written.length, dst)
  Decompress src dst _ :=
    match lib.getUncompressedLength src with
    | none => some (false, dst)
    | some uncompressed_len => do
        let dst ← ByteBuffer.resize limit dst uncompressed_len
        let (ok, bytes) := lib.rawUncompress src
        some (ok, dst.overwrite bytes)

/-! ## The three implementations -/

/-- The libraries the adapters are linked with, and the vectors of the
machine. -/
structure Libraries where
  limit : ByteBuffer.Limit
  lz4 : Lz4Library
  zstd : ZstdLibrary
  snappy : SnappyLibrary

/-- What the adapters rely on. -/
structure Libraries.Spec (libs : Libraries) : Prop where
  lz4 : libs.lz4.Spec
  zstd : libs.zstd.Spec
  snappy : libs.snappy.Spec

/-- `CompressorType`. -/
inductive CompressorType
  | kLZ4
  | kZstd
  | kSnappy
deriving DecidableEq, Repr

/-- The compressor object of a type whose `level_` is `level`. -/
def compressor (libs : Libraries) (type : CompressorType) (level : ℤ) :
    ICompressor :=
  match type with
  | .kLZ4 => lz4Compressor libs.lz4 libs.limit level
  | .kZstd => zstdCompressor libs.zstd libs.limit level
  | .kSnappy => snappyCompressor libs.snappy libs.limit

/-- The law of a compressor at an input and a hint.  After a successful
`Compress`, `Decompress` fails or yields the input; without a hint, and with
the right one, it yields the input. -/
def RoundTrips (c : ICompressor) (input : ByteBuffer) (hint : UInt64) :
    Prop :=
  ∀ dst frame dst', c.Compress input dst = some (true, frame) →
    ((∃ out, c.Decompress frame dst' hint = some (false, out)) ∨
      c.Decompress frame dst' hint = some (true, input)) ∧
    (hint = 0 ∨ hint.toNat = input.length →
      c.Decompress frame dst' hint = some (true, input))

/-- The size to which `Decompress` resizes the output.  The frames of
Zstandard and Snappy tell the size of the input. -/
def outCapacity (type : CompressorType) (input frame : ByteBuffer)
    (hint : UInt64) : ℕ :=
  match type with
  | .kLZ4 => lz4OutCapacity frame hint
  | .kZstd | .kSnappy => input.length

/-- The output holds the whole input, and a vector can be that large. -/
def OutputFits (libs : Libraries) (type : CompressorType) (level : ℤ)
    (input : ByteBuffer) (hint : UInt64) : Prop :=
  ∀ dst frame,
    (compressor libs type level).Compress input dst = some (true, frame) →
      input.length ≤ outCapacity type input frame hint ∧
        outCapacity type input frame hint ≤ libs.limit.size

/-! ## Round trips -/

/-- What `Decompress` makes of the output that it resizes to `capacity`: the
content up to there, or an exception. -/
structure Fills (decompress : ByteBuffer → Outcome)
    (limit : ByteBuffer.Limit) (input : ByteBuffer) (capacity : ℕ) : Prop where
  fits : capacity ≤ limit.size → ∀ dst,
    decompress dst = some (true, input.take capacity)
  throws : limit.size < capacity → decompress [] = none

theorem zstdCapacity_of_frame {lib : ZstdLibrary} (hlib : lib.Spec)
    {bound : ℕ} {src frame : ByteBuffer} {level : ℤ}
    (hframe : lib.compressCCtx bound src level = some frame)
    (original_size : UInt64) :
    zstdCapacity lib frame original_size = src.length := by
  obtain ⟨hsize, hknown, hvalid⟩ := hlib.contentSize bound src level frame hframe
  simp only [zstdCapacity]
  rw [if_pos ⟨hknown, hvalid⟩, hsize]

section Adapters

variable {limit : ByteBuffer.Limit} {level : ℤ} {input dst frame : ByteBuffer}

theorem lz4_compress_eq {lib : Lz4Library}
    (h : (lz4Compressor lib limit level).Compress input dst =
      some (true, frame)) :
    ∃ bound, lib.compressFrame bound input (UInt64.ofNat input.length) level =
      some frame := by
  obtain ⟨resized, -, h⟩ := Option.bind_eq_some_iff.mp h
  split at h
  · cases h
  · next written hwritten =>
    rw [succeed_eq] at h
    obtain rfl := (Prod.mk.inj (Option.some.inj h)).2
    exact ⟨_, hwritten⟩

/-- LZ4 hands back the content up to the capacity, always with success. -/
theorem lz4_fills {lib : Lz4Library} (hlib : lib.Spec) {bound : ℕ}
    {size : UInt64}
    (hframe : lib.compressFrame bound input size level = some frame)
    (hint : UInt64) :
    Fills (fun dst => (lz4Compressor lib limit level).Decompress frame dst hint)
      limit input (lz4OutCapacity frame hint) := by
  have hproduced := hlib.produced bound input size level frame
    (lz4OutCapacity frame hint) hframe
  have hret := hlib.noError bound input size level frame
    (lz4OutCapacity frame hint) hframe
  constructor
  · intro hfits dst
    obtain ⟨resized, hresize, hlength⟩ := ByteBuffer.exists_resize hfits dst
    simp only [lz4Compressor, hlib.create, if_true, hresize,
      Option.bind_eq_bind, Option.bind_some, hlength]
    split
    · next herror => exact absurd herror hret
    · rw [succeed_eq, hproduced]
  · intro hlarge
    simp only [lz4Compressor, hlib.create, if_true,
      ByteBuffer.resize_nil_of_lt hlarge, Option.bind_eq_bind,
      Option.bind_none]

theorem zstd_compress_eq {lib : ZstdLibrary}
    (h : (zstdCompressor lib limit level).Compress input dst =
      some (true, frame)) :
    ∃ bound, lib.compressCCtx bound input level = some frame := by
  obtain ⟨resized, -, h⟩ := Option.bind_eq_some_iff.mp h
  split at h
  · cases h
  · next written hwritten =>
    rw [succeed_eq] at h
    obtain rfl := (Prod.mk.inj (Option.some.inj h)).2
    exact ⟨_, hwritten⟩

theorem zstd_fills {lib : ZstdLibrary} (hlib : lib.Spec) {bound : ℕ}
    (hframe : lib.compressCCtx bound input level = some frame)
    (hint : UInt64) :
    Fills (fun dst =>
        (zstdCompressor lib limit level).Decompress frame dst hint)
      limit input input.length := by
  have hcapacity := zstdCapacity_of_frame hlib hframe hint
  constructor
  · intro hfits dst
    obtain ⟨resized, hresize, hlength⟩ := ByteBuffer.exists_resize hfits dst
    simp only [zstdCompressor, hcapacity, hresize, Option.bind_eq_bind,
      Option.bind_some, hlength,
      hlib.decompress bound input level frame _ hframe (Nat.le_refl _),
      succeed_eq, List.take_length]
  · intro hlarge
    simp only [zstdCompressor, hcapacity, ByteBuffer.resize_nil_of_lt hlarge,
      Option.bind_eq_bind, Option.bind_none]

theorem snappy_compress_eq {lib : SnappyLibrary}
    (h : (snappyCompressor lib limit).Compress input dst =
      some (true, frame)) :
    0 < (lib.rawCompress input).length ∧ lib.rawCompress input = frame := by
  obtain ⟨resized, -, h⟩ := Option.bind_eq_some_iff.mp h
  simp only [ByteBuffer.resize_overwrite, Option.bind_eq_bind,
    Option.bind_some, Option.some.injEq, Prod.mk.injEq,
    decide_eq_true_eq] at h
  exact h

theorem snappy_fills {lib : SnappyLibrary} (hlib : lib.Spec)
    (hpos : 0 < (lib.rawCompress input).length) (hint : UInt64) :
    Fills (fun dst => (snappyCompressor lib limit).Decompress
      (lib.rawCompress input) dst hint) limit input input.length := by
  constructor
  · intro hfits dst
    obtain ⟨resized, hresize, hlength⟩ := ByteBuffer.exists_resize hfits dst
    simp only [snappyCompressor, hlib.length input hpos,
      hlib.roundTrip input hpos, hresize, Option.bind_eq_bind,
      Option.bind_some, List.take_length]
    rw [ByteBuffer.overwrite_of_length_eq hlength]
  · intro hlarge
    simp only [snappyCompressor, hlib.length input hpos,
      ByteBuffer.resize_nil_of_lt hlarge, Option.bind_eq_bind,
      Option.bind_none]

end Adapters

/-- All three adapters fill the output that they ask for. -/
theorem compressor_fills {libs : Libraries} (hlibs : libs.Spec)
    {type : CompressorType} {level : ℤ} {input dst frame : ByteBuffer}
    (h : (compressor libs type level).Compress input dst = some (true, frame))
    (hint : UInt64) :
    Fills (fun dst' => (compressor libs type level).Decompress frame dst' hint)
      libs.limit input (outCapacity type input frame hint) := by
  cases type with
  | kLZ4 =>
      obtain ⟨bound, hframe⟩ := lz4_compress_eq h
      exact lz4_fills hlibs.lz4 hframe hint
  | kZstd =>
      obtain ⟨bound, hframe⟩ := zstd_compress_eq h
      exact zstd_fills hlibs.zstd hframe hint
  | kSnappy =>
      obtain ⟨hpos, rfl⟩ := snappy_compress_eq h
      exact snappy_fills hlibs.snappy hpos hint

/-- The compressors round-trip exactly when the output is large enough and can
be allocated. -/
theorem roundTrips_iff {libs : Libraries} (hlibs : libs.Spec)
    (type : CompressorType) (level : ℤ) (input : ByteBuffer)
    (hint : UInt64) :
    RoundTrips (compressor libs type level) input hint ↔
      OutputFits libs type level input hint := by
  constructor
  · intro hlaw dst frame hcompress
    have hfills := compressor_fills hlibs hcompress hint
    obtain ⟨hreturns, -⟩ := hlaw dst frame [] hcompress
    by_cases hlimit : outCapacity type input frame hint ≤ libs.limit.size
    · rw [hfills.fits hlimit []] at hreturns
      obtain ⟨out, hfail⟩ | hsame := hreturns
      · cases hfail
      · have htake := (Prod.mk.inj (Option.some.inj hsame)).2
        exact ⟨(List.take_eq_self_iff input).mp htake, hlimit⟩
    · rw [hfills.throws (Nat.lt_of_not_le hlimit)] at hreturns
      obtain ⟨out, hfail⟩ | hsame := hreturns
      · cases hfail
      · cases hsame
  · intro hfits dst frame dst' hcompress
    obtain ⟨hwhole, hlimit⟩ := hfits dst frame hcompress
    have heq := (compressor_fills hlibs hcompress hint).fits hlimit dst'
    rw [List.take_of_length_le hwhole] at heq
    exact ⟨.inr heq, fun _ => heq⟩

/-! ## Two bytes through the libraries -/

/-- The input `ab`. -/
def ab : ByteBuffer := [0x61, 0x62]

/-- The LZ4 frame of `ab`: header with content size, one stored block, end
mark. -/
def lz4Frame : ByteBuffer :=
  [0x04, 0x22, 0x4D, 0x18, 0x68, 0x40,
   0x02, 0x00, 0x00, 0x00, 0x00, 0x00, 0x00, 0x00, 0xA0,
   0x02, 0x00, 0x00, 0x80, 0x61, 0x62, 0x00, 0x00, 0x00, 0x00]

/-- The Zstandard frame of `ab`: header with content size, one raw block. -/
def zstdFrame : ByteBuffer :=
  [0x28, 0xB5, 0x2F, 0xFD, 0x20, 0x02, 0x11, 0x00, 0x00, 0x61, 0x62]

/-- The Snappy stream of `ab`: the length and one literal. -/
def snappyStream : ByteBuffer := [0x02, 0x04, 0x61, 0x62]

/-- The libraries on the input `ab`; every other input is an error. -/
def abLibraries : Libraries where
  limit := { size := 2 ^ 40, size_le := by decide }
  lz4 :=
    { compressFrameBound := fun n _ => n + 65600
      compressFrame := fun bound src _ _ =>
        if src = ab ∧ lz4Frame.length ≤ bound then some lz4Frame else none
      createDecompressionContext := true
      -- The hint counts the rest of the block and the next block header.
      decompress := fun capacity src =>
        { produced := if src = lz4Frame then ab.take capacity else []
          ret :=
            if src = lz4Frame then
              some (if 2 ≤ capacity then 0 else UInt64.ofNat (6 - capacity))
            else none } }
  zstd :=
    { compressBound := fun n => n + 128
      compressCCtx := fun bound src _ =>
        if src = ab ∧ zstdFrame.length ≤ bound then some zstdFrame else none
      getFrameContentSize := fun src =>
        if src = zstdFrame then 2 else ZSTD_CONTENTSIZE_ERROR
      decompressDCtx := fun capacity src =>
        if src = zstdFrame ∧ 2 ≤ capacity then some ab else none }
  snappy :=
    { maxCompressedLength := fun n => 32 + n + n / 6
      rawCompress := fun src => if src = ab then snappyStream else []
      getUncompressedLength := fun src =>
        if src = snappyStream then some 2 else none
      rawUncompress := fun src =>
        if src = snappyStream then (true, ab) else (false, []) }

theorem abLibraries_spec : abLibraries.Spec where
  lz4 := by
    refine ⟨rfl, ?_, ?_, ?_⟩
    all_goals
      intro bound src size level frame capacity hframe
      simp only [abLibraries, Option.ite_none_right_eq_some,
        Option.some.injEq] at hframe
      obtain ⟨⟨rfl, -⟩, rfl⟩ := hframe
    · simp [abLibraries]
    · simp [abLibraries]
    · intro hret
      by_contra hsmall
      have hcap : capacity = 0 ∨ capacity = 1 := by
        simp only [ab, List.length_cons, List.length_nil] at hsmall
        omega
      rcases hcap with rfl | rfl <;> revert hret <;> decide
  zstd := by
    refine ⟨?_, ?_⟩
    · intro bound src level frame hframe
      simp only [abLibraries, Option.ite_none_right_eq_some,
        Option.some.injEq] at hframe
      obtain ⟨⟨rfl, -⟩, rfl⟩ := hframe
      decide
    · intro bound src level frame capacity hframe hcap
      simp only [abLibraries, Option.ite_none_right_eq_some,
        Option.some.injEq] at hframe
      obtain ⟨⟨rfl, -⟩, rfl⟩ := hframe
      exact if_pos ⟨rfl, hcap⟩
  snappy := by
    refine ⟨?_, ?_⟩
    all_goals
      intro src hpos
      simp only [abLibraries] at hpos ⊢
      split at hpos
      · next hsrc =>
        subst hsrc
        rfl
      · cases hpos

theorem lz4_compress_ab (dst : ByteBuffer) :
    (compressor abLibraries .kLZ4 0).Compress ab dst =
      some (true, lz4Frame) := by
  have hbound : ab.length + 65600 ≤ abLibraries.limit.size := by decide
  obtain ⟨resized, hresize, hlength⟩ := ByteBuffer.exists_resize hbound dst
  have hfits : True ∧ lz4Frame.length ≤ ab.length + 65600 := by decide
  show (ByteBuffer.resize abLibraries.limit dst (ab.length + 65600)).bind _ = _
  rw [hresize, Option.bind_some]
  simp only [abLibraries, hlength, succeed_eq]
  rw [if_pos hfits]

/-- With the hint equal to the size `ab` comes back. -/
theorem roundTrips_iff_ab :
    RoundTrips (compressor abLibraries .kLZ4 0) ab 2 := by
  refine (roundTrips_iff abLibraries_spec .kLZ4 0 ab 2).mpr ?_
  intro dst frame hcompress
  rw [lz4_compress_ab, Option.some.injEq, Prod.mk.injEq] at hcompress
  obtain ⟨-, rfl⟩ := hcompress
  decide

/-- A hint that no vector can have is an exception. -/
example : (compressor abLibraries .kLZ4 0).Decompress lz4Frame []
    0x8000000000000000 = none := by decide

/-- With hint 1 LZ4 reports success and returns the first byte only. -/
theorem not_roundTrips : ¬ ∀ libs : Libraries, libs.Spec →
    ∀ type level input hint,
      RoundTrips (compressor libs type level) input hint := by
  intro hall
  obtain ⟨hreturns, -⟩ := hall abLibraries abLibraries_spec .kLZ4 0 ab 1
    [] lz4Frame [] (lz4_compress_ab [])
  have hout : (compressor abLibraries .kLZ4 0).Decompress lz4Frame [] 1 =
      some (true, [0x61]) := by decide
  rw [hout] at hreturns
  obtain ⟨out, hfail⟩ | hsame := hreturns
  · cases hfail
  · revert hsame
    decide

end Transformation
end Yacul
