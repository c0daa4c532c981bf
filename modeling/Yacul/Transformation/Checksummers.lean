import Yacul.Support.Bytes
import Yacul.Support.Transition
import Mathlib.Algebra.Group.Nat.Defs

/-!
# The checksummers

`XxHashChecksummer` and `Crc32cChecksummer` adapt two C libraries to
`IChecksummer`.  The libraries are parameters; what the adapters rely on is
that a library's update function is an incremental form of its one-shot
function, for the same variant and seed.
-/

namespace Yacul
namespace Transformation

/-- `IChecksummer`: an object with its state, its one-shot function, which only
reads the state, and its streaming functions. -/
structure IChecksummer where
  State : Type
  construct : State
  Compute : State → ByteBuffer → ByteBuffer
  Reset : State → State
  Update : State → ByteBuffer → State
  Finalize : State → ByteBuffer × State

/-- The bytes of a number in memory, the lowest first. -/
def littleEndian (size h : ℕ) : ByteBuffer :=
  (List.range size).map fun i => UInt8.ofNat (h >>> (8 * i))

/-! ## xxHash -/

/-- `XxHashVariant`. -/
inductive XxHashVariant
  | kXXH32
  | kXXH64
  | kXXH3_64
  | kXXH3_128
deriving DecidableEq, Repr

/-- `XXH128_hash_t`. -/
structure XXH128Hash where
  low64 : UInt64
  high64 : UInt64
deriving DecidableEq, Repr

/-- The functions of the xxHash library. -/
structure XxHashLibrary where
  XXH32State : Type
  XXH64State : Type
  XXH3State : Type
  XXH32_createState : XXH32State
  XXH64_createState : XXH64State
  XXH3_createState : XXH3State
  XXH32_reset : XXH32State → UInt32 → XXH32State
  XXH64_reset : XXH64State → UInt64 → XXH64State
  XXH3_64bits_reset_withSeed : XXH3State → UInt64 → XXH3State
  XXH3_128bits_reset_withSeed : XXH3State → UInt64 → XXH3State
  XXH32_update : XXH32State → ByteBuffer → XXH32State
  XXH64_update : XXH64State → ByteBuffer → XXH64State
  XXH3_64bits_update : XXH3State → ByteBuffer → XXH3State
  XXH3_128bits_update : XXH3State → ByteBuffer → XXH3State
  XXH32_digest : XXH32State → UInt32
  XXH64_digest : XXH64State → UInt64
  XXH3_64bits_digest : XXH3State → UInt64
  XXH3_128bits_digest : XXH3State → XXH128Hash
  XXH32 : ByteBuffer → UInt32 → UInt32
  XXH64 : ByteBuffer → UInt64 → UInt64
  XXH3_64bits_withSeed : ByteBuffer → UInt64 → UInt64
  XXH3_128bits_withSeed : ByteBuffer → UInt64 → XXH128Hash

/-- What the adapter relies on: for each variant, the digest of a state that
has been reset with a seed and updated in chunks is the one-shot hash of the
concatenation with that seed. -/
structure XxHashLibrary.Spec (lib : XxHashLibrary) : Prop where
  XXH32 : ∀ st seed (chunks : List ByteBuffer),
    lib.XXH32_digest (chunks.foldl lib.XXH32_update (lib.XXH32_reset st seed)) =
      lib.XXH32 chunks.flatten seed
  XXH64 : ∀ st seed (chunks : List ByteBuffer),
    lib.XXH64_digest (chunks.foldl lib.XXH64_update (lib.XXH64_reset st seed)) =
      lib.XXH64 chunks.flatten seed
  XXH3_64 : ∀ st seed (chunks : List ByteBuffer),
    lib.XXH3_64bits_digest
        (chunks.foldl lib.XXH3_64bits_update
          (lib.XXH3_64bits_reset_withSeed st seed)) =
      lib.XXH3_64bits_withSeed chunks.flatten seed
  XXH3_128 : ∀ st seed (chunks : List ByteBuffer),
    lib.XXH3_128bits_digest
        (chunks.foldl lib.XXH3_128bits_update
          (lib.XXH3_128bits_reset_withSeed st seed)) =
      lib.XXH3_128bits_withSeed chunks.flatten seed

/-- `DigestSizeFor`. -/
def XxHashVariant.digestSize : XxHashVariant → ℕ
  | .kXXH32 => 4
  | .kXXH64 => 8
  | .kXXH3_64 => 8
  | .kXXH3_128 => 16

/-- The bytes of an `XXH128_hash_t` in memory. -/
def XXH128Hash.bytes (h : XXH128Hash) : ByteBuffer :=
  littleEndian 8 h.low64.toNat ++ littleEndian 8 h.high64.toNat

namespace XxHashChecksummer

variable (lib : XxHashLibrary)

/-- What `state_` points to. -/
def State : XxHashVariant → Type
  | .kXXH32 => lib.XXH32State
  | .kXXH64 => lib.XXH64State
  | .kXXH3_64 => lib.XXH3State
  | .kXXH3_128 => lib.XXH3State

/-- `XxHashChecksummer::AllocState`. -/
def allocState (seed : UInt64) : (variant : XxHashVariant) → State lib variant
  | .kXXH32 => lib.XXH32_reset lib.XXH32_createState seed.toUInt32
  | .kXXH64 => lib.XXH64_reset lib.XXH64_createState seed
  | .kXXH3_64 => lib.XXH3_64bits_reset_withSeed lib.XXH3_createState seed
  | .kXXH3_128 => lib.XXH3_128bits_reset_withSeed lib.XXH3_createState seed

/-- `XxHashChecksummer::Reset`. -/
def reset (seed : UInt64) :
    (variant : XxHashVariant) → State lib variant → State lib variant
  | .kXXH32, st => lib.XXH32_reset st seed.toUInt32
  | .kXXH64, st => lib.XXH64_reset st seed
  | .kXXH3_64, st => lib.XXH3_64bits_reset_withSeed st seed
  | .kXXH3_128, st => lib.XXH3_128bits_reset_withSeed st seed

/-- `XxHashChecksummer::Update`. -/
def update : (variant : XxHashVariant) → State lib variant → ByteBuffer →
    State lib variant
  | .kXXH32, st, data => lib.XXH32_update st data
  | .kXXH64, st, data => lib.XXH64_update st data
  | .kXXH3_64, st, data => lib.XXH3_64bits_update st data
  | .kXXH3_128, st, data => lib.XXH3_128bits_update st data

/-- What `XxHashChecksummer::Finalize` copies to the vector. -/
def digest : (variant : XxHashVariant) → State lib variant → ByteBuffer
  | .kXXH32, st => littleEndian 4 (lib.XXH32_digest st).toNat
  | .kXXH64, st => littleEndian 8 (lib.XXH64_digest st).toNat
  | .kXXH3_64, st => littleEndian 8 (lib.XXH3_64bits_digest st).toNat
  | .kXXH3_128, st => (lib.XXH3_128bits_digest st).bytes

/-- What `XxHashChecksummer::Compute` copies to the vector. -/
def oneShot (seed : UInt64) (data : ByteBuffer) : XxHashVariant → ByteBuffer
  | .kXXH32 => littleEndian 4 (lib.XXH32 data seed.toUInt32).toNat
  | .kXXH64 => littleEndian 8 (lib.XXH64 data seed).toNat
  | .kXXH3_64 => littleEndian 8 (lib.XXH3_64bits_withSeed data seed).toNat
  | .kXXH3_128 => (lib.XXH3_128bits_withSeed data seed).bytes

end XxHashChecksummer

open XxHashChecksummer in
/-- `XxHashChecksummer`. -/
def xxHashChecksummer (lib : XxHashLibrary) (variant : XxHashVariant)
    (seed : UInt64) : IChecksummer where
  State := State lib variant
  construct := allocState lib seed variant
  Compute _ data :=
    let out := ByteBuffer.resized [] variant.digestSize
    out.overwrite (oneShot lib seed data variant)
  Reset := reset lib seed variant
  Update := update lib variant
  Finalize st :=
    let out := ByteBuffer.resized [] variant.digestSize
    (out.overwrite (digest lib variant st), reset lib seed variant st)

/-! ## CRC32C -/

/-- The functions of the crc32c library. -/
structure Crc32cLibrary where
  Extend : UInt32 → ByteBuffer → UInt32
  Crc32c : ByteBuffer → UInt32

/-- What the adapter relies on: extending 0 in chunks is the one-shot value of
the concatenation. -/
structure Crc32cLibrary.Spec (lib : Crc32cLibrary) : Prop where
  incremental : ∀ chunks : List ByteBuffer,
    chunks.foldl lib.Extend 0 = lib.Crc32c chunks.flatten

/-- `Crc32cChecksummer`; its state is `state_`. -/
def crc32cChecksummer (lib : Crc32cLibrary) : IChecksummer where
  State := UInt32
  construct := 0
  Compute _ data :=
    let out := ByteBuffer.resized [] 4
    out.overwrite (littleEndian 4 (lib.Crc32c data).toNat)
  Reset _ := 0
  Update state data := lib.Extend state data
  Finalize state :=
    let out := ByteBuffer.resized [] 4
    (out.overwrite (littleEndian 4 state.toNat), 0)

/-! ## Streaming -/

/-- From a state that has just been reset, `Finalize` returns what `Compute`
returns for the chunks given to `Update`. -/
structure IChecksummer.Incremental (c : IChecksummer)
    (fresh : c.State → Prop) : Prop where
  construct : fresh c.construct
  reset : ∀ s, fresh (c.Reset s)
  finalize : ∀ s, fresh (c.Finalize s).2
  digest : ∀ s (chunks : List ByteBuffer), fresh s →
    (c.Finalize (chunks.foldl c.Update s)).1 =
      c.Compute (chunks.foldl c.Update s) chunks.flatten

/-- The calls of a client. -/
inductive ChecksummerCall
  | Reset
  | Update (data : ByteBuffer)
  | Finalize
deriving DecidableEq, Repr

/-- A checksummer in use, with the chunks given since it was constructed or the
last `Reset` or `Finalize`. -/
structure ChecksumStream (c : IChecksummer) where
  checksummer : c.State
  chunks : List ByteBuffer

namespace ChecksumStream

variable {c : IChecksummer}

/-- A new object. -/
def construct (c : IChecksummer) : ChecksumStream c where
  checksummer := c.construct
  chunks := []

/-- One call. -/
def call (s : ChecksumStream c) : ChecksummerCall → ChecksumStream c
  | .Reset => { checksummer := c.Reset s.checksummer, chunks := [] }
  | .Update data =>
      { checksummer := c.Update s.checksummer data
        chunks := s.chunks ++ [data] }
  | .Finalize => { checksummer := (c.Finalize s.checksummer).2, chunks := [] }

/-- Every call returns. -/
def step (s : ChecksumStream c) (k : ChecksummerCall) :
    Option (ChecksumStream c) :=
  some (s.call k)

/-- A `Finalize` returns the one-shot value of the concatenation of the
chunks. -/
def MatchesCompute (s : ChecksumStream c) : ChecksummerCall → Prop
  | .Finalize =>
      (c.Finalize s.checksummer).1 = c.Compute s.checksummer s.chunks.flatten
  | .Reset | .Update _ => True

/-- The chunks have been given to an object that had just been reset. -/
def Collects (fresh : c.State → Prop) (s : ChecksumStream c) : Prop :=
  ∃ start, fresh start ∧ s.checksummer = s.chunks.foldl c.Update start

variable {fresh : c.State → Prop} {s : ChecksumStream c}

theorem Collects.call (hc : c.Incremental fresh) (hs : s.Collects fresh)
    (k : ChecksummerCall) : (s.call k).Collects fresh := by
  cases k with
  | Reset => exact ⟨_, hc.reset s.checksummer, rfl⟩
  | Update data =>
      obtain ⟨start, hstart, hcollected⟩ := hs
      refine ⟨start, hstart, ?_⟩
      simp only [ChecksumStream.call, List.foldl_append, hcollected]
      rfl
  | Finalize => exact ⟨_, hc.finalize s.checksummer, rfl⟩

theorem Collects.matchesCompute (hc : c.Incremental fresh)
    (hs : s.Collects fresh) (k : ChecksummerCall) : s.MatchesCompute k := by
  cases k with
  | Reset | Update => trivial
  | Finalize =>
      obtain ⟨start, hstart, hcollected⟩ := hs
      simp only [MatchesCompute, hcollected]
      exact hc.digest start s.chunks hstart

/-- An incremental checksummer returns one-shot values in any sequence of
calls. -/
theorem allMatchCompute_of_incremental (hc : c.Incremental fresh)
    (calls : List ChecksummerCall) :
    Transition.AllSteps step MatchesCompute (construct c) calls := by
  refine Transition.allSteps_of_invariant (I := Collects fresh) ?_
    ⟨_, hc.construct, rfl⟩ calls
  intro s k s' hs hstep
  obtain rfl : s.call k = s' := Option.some.inj hstep
  exact ⟨hs.call hc k, hs.matchesCompute hc k⟩

end ChecksumStream

/-! ## The two implementations -/

/-- The states of a variant that have just been reset with the seed. -/
def XxHashChecksummer.Fresh (lib : XxHashLibrary) (seed : UInt64)
    (variant : XxHashVariant)
    (st : (xxHashChecksummer lib variant seed).State) : Prop :=
  ∃ st', st = reset lib seed variant st'

theorem xxHashChecksummer_incremental {lib : XxHashLibrary} (hlib : lib.Spec)
    (variant : XxHashVariant) (seed : UInt64) :
    (xxHashChecksummer lib variant seed).Incremental
      (XxHashChecksummer.Fresh lib seed variant) where
  construct := by
    cases variant with
    | kXXH32 => exact ⟨lib.XXH32_createState, rfl⟩
    | kXXH64 => exact ⟨lib.XXH64_createState, rfl⟩
    | kXXH3_64 => exact ⟨lib.XXH3_createState, rfl⟩
    | kXXH3_128 => exact ⟨lib.XXH3_createState, rfl⟩
  reset st := ⟨st, rfl⟩
  finalize st := ⟨st, rfl⟩
  digest := by
    rintro _ chunks ⟨st, rfl⟩
    refine congrArg
      ((ByteBuffer.resized [] variant.digestSize).overwrite ·) ?_
    cases variant with
    | kXXH32 =>
        exact congrArg (fun h => littleEndian 4 h.toNat)
          (hlib.XXH32 st seed.toUInt32 chunks)
    | kXXH64 =>
        exact congrArg (fun h => littleEndian 8 h.toNat)
          (hlib.XXH64 st seed chunks)
    | kXXH3_64 =>
        exact congrArg (fun h => littleEndian 8 h.toNat)
          (hlib.XXH3_64 st seed chunks)
    | kXXH3_128 =>
        exact congrArg XXH128Hash.bytes (hlib.XXH3_128 st seed chunks)

theorem crc32cChecksummer_incremental {lib : Crc32cLibrary}
    (hlib : lib.Spec) :
    (crc32cChecksummer lib).Incremental fun st => st = (0 : UInt32) where
  construct := rfl
  reset _ := rfl
  finalize _ := rfl
  digest := by
    rintro _ chunks rfl
    exact congrArg
      (fun crc => (ByteBuffer.resized [] 4).overwrite
        (littleEndian 4 (UInt32.toNat crc)))
      (hlib.incremental chunks)

/-- The libraries the checksummers are linked with. -/
structure ChecksumLibraries where
  xxHash : XxHashLibrary
  crc32c : Crc32cLibrary

/-- What the checksummers rely on. -/
structure ChecksumLibraries.Spec (libs : ChecksumLibraries) : Prop where
  xxHash : libs.xxHash.Spec
  crc32c : libs.crc32c.Spec

/-- The classes that implement `IChecksummer`, with the arguments of their
constructors. -/
inductive ChecksummerType
  | xxHash (variant : XxHashVariant) (seed : UInt64)
  | crc32c
deriving DecidableEq, Repr

/-- The object of a type. -/
def checksummer (libs : ChecksumLibraries) : ChecksummerType → IChecksummer
  | .xxHash variant seed => xxHashChecksummer libs.xxHash variant seed
  | .crc32c => crc32cChecksummer libs.crc32c

/-- In any sequence of calls, with any chunks, every `Finalize` returns the
one-shot value of the concatenation. -/
theorem allMatchCompute {libs : ChecksumLibraries} (hlibs : libs.Spec)
    (type : ChecksummerType) (calls : List ChecksummerCall) :
    Transition.AllSteps ChecksumStream.step ChecksumStream.MatchesCompute
      (ChecksumStream.construct (checksummer libs type)) calls := by
  cases type with
  | xxHash variant seed =>
      exact ChecksumStream.allMatchCompute_of_incremental
        (xxHashChecksummer_incremental hlibs.xxHash variant seed) calls
  | crc32c =>
      exact ChecksumStream.allMatchCompute_of_incremental
        (crc32cChecksummer_incremental hlibs.crc32c) calls

/-! ## Sample libraries -/

section SampleLibraries

/-- One bit of the CRC, with the reflected Castagnoli polynomial. -/
def crcBit (crc : UInt32) : UInt32 :=
  if crc &&& 1 = 1 then (crc >>> 1) ^^^ 0x82f63b78 else crc >>> 1

def crcByte (crc : UInt32) (b : UInt8) : UInt32 :=
  Nat.repeat crcBit 8 (crc ^^^ b.toUInt32)

def crcExtend (crc : UInt32) (data : ByteBuffer) : UInt32 :=
  ~~~(data.foldl crcByte (~~~crc))

/-- XXH32 of `"abc"` with the seed 0; other values are zero. -/
def sampleXXH32 (data : ByteBuffer) (seed : UInt32) : UInt32 :=
  if data = [97, 98, 99] ∧ seed = 0 then 0x32d153ff else 0

/-- XXH64 of `"abc"` with the seed 0; other values are zero. -/
def sampleXXH64 (data : ByteBuffer) (seed : UInt64) : UInt64 :=
  if data = [97, 98, 99] ∧ seed = 0 then 0x44bc2cf5ad770999 else 0

/-- Libraries that collect the data and hash it at the end. -/
def sampleChecksumLibraries : ChecksumLibraries where
  xxHash :=
    { XXH32State := UInt32 × ByteBuffer
      XXH64State := UInt64 × ByteBuffer
      XXH3State := UInt64 × ByteBuffer
      XXH32_createState := (0, [])
      XXH64_createState := (0, [])
      XXH3_createState := (0, [])
      XXH32_reset := fun _ seed => (seed, [])
      XXH64_reset := fun _ seed => (seed, [])
      XXH3_64bits_reset_withSeed := fun _ seed => (seed, [])
      XXH3_128bits_reset_withSeed := fun _ seed => (seed, [])
      XXH32_update := fun st data => (st.1, st.2 ++ data)
      XXH64_update := fun st data => (st.1, st.2 ++ data)
      XXH3_64bits_update := fun st data => (st.1, st.2 ++ data)
      XXH3_128bits_update := fun st data => (st.1, st.2 ++ data)
      XXH32_digest := fun st => sampleXXH32 st.2 st.1
      XXH64_digest := fun st => sampleXXH64 st.2 st.1
      XXH3_64bits_digest := fun _ => 0
      XXH3_128bits_digest := fun _ => ⟨0, 0⟩
      XXH32 := sampleXXH32
      XXH64 := sampleXXH64
      XXH3_64bits_withSeed := fun _ _ => 0
      XXH3_128bits_withSeed := fun _ _ => ⟨0, 0⟩ }
  crc32c := { Extend := crcExtend, Crc32c := crcExtend 0 }

theorem crcExtend_append (crc : UInt32) (data data' : ByteBuffer) :
    crcExtend (crcExtend crc data) data' = crcExtend crc (data ++ data') := by
  simp [crcExtend, List.foldl_append]

theorem foldl_crcExtend (crc : UInt32) (chunks : List ByteBuffer) :
    chunks.foldl crcExtend crc = crcExtend crc chunks.flatten := by
  induction chunks generalizing crc with
  | nil => simp [crcExtend]
  | cons chunk chunks ih =>
      rw [List.foldl_cons, ih, crcExtend_append, List.flatten_cons]

theorem sampleChecksumLibraries_spec : sampleChecksumLibraries.Spec where
  xxHash :=
    { XXH32 := fun _ seed chunks => by
        have hfold := ByteBuffer.foldl_collect seed [] chunks
        simp only [sampleChecksumLibraries, hfold, List.nil_append]
      XXH64 := fun _ seed chunks => by
        have hfold := ByteBuffer.foldl_collect seed [] chunks
        simp only [sampleChecksumLibraries, hfold, List.nil_append]
      XXH3_64 := fun _ _ _ => rfl
      XXH3_128 := fun _ _ _ => rfl }
  crc32c := { incremental := foldl_crcExtend 0 }

/-- `"abc"` in two chunks, after a chunk that is discarded. -/
theorem allMatchCompute_twoChunks :
    Transition.AllSteps ChecksumStream.step ChecksumStream.MatchesCompute
        (ChecksumStream.construct
          (checksummer sampleChecksumLibraries (.xxHash .kXXH32 0)))
        [.Update [120], .Reset, .Update [97], .Update [98, 99], .Finalize] ∧
      Transition.AllSteps ChecksumStream.step ChecksumStream.MatchesCompute
        (ChecksumStream.construct (checksummer sampleChecksumLibraries .crc32c))
        [.Update [120], .Reset, .Update [97], .Update [98, 99], .Finalize] :=
  ⟨allMatchCompute sampleChecksumLibraries_spec _ _,
    allMatchCompute sampleChecksumLibraries_spec _ _⟩

/-- CRC32C of `"abc"`. -/
example :
    (checksummer sampleChecksumLibraries .crc32c).Compute (0 : UInt32)
      [97, 98, 99] = [0xb7, 0x3f, 0x4b, 0x36] := by
  decide +kernel

end SampleLibraries

end Transformation
end Yacul
