import Yacul.Support.WordMixing

/-!
# MurmurHash3

The three variants of `os_murmur_hash3.cc` on a machine that stores the lowest
byte of a word first.  Each absorbs the whole blocks of the key, then the bytes
left over, then the length, and mixes the state once more.
-/

namespace Yacul
namespace Hashing

open WordMixing

/-- What is hashed.  Its length is passed as an `int`. -/
@[ext]
structure Key where
  data : ByteBuffer
  length_lt : data.length < 2 ^ 31

/-- `getblock32` and `getblock64`. -/
def getblock (w : ℕ) (p : ByteBuffer) (i : ℕ) : BitVec w :=
  assemble w 0 ((p.drop (w / 8 * i)).take (w / 8))

/-- What is done to a word before the state takes it in. -/
def scramble {w : ℕ} (c : BitVec w) (r : ℕ) (c' k : BitVec w) : BitVec w :=
  rotl (k * c) r * c'

/-- The bytes of one word of the tail.  The cases of the `switch` that take
them in are the ones below the number of bytes; without a byte the state stays
as it is. -/
def mixTail {w : ℕ} (c : BitVec w) (r : ℕ) (c' h : BitVec w)
    (bytes : ByteBuffer) : BitVec w :=
  if bytes.isEmpty then h else h ^^^ scramble c r c' (assemble w 0 bytes)

/-- `fmix32`. -/
def fmix32 (h : BitVec 32) : BitVec 32 :=
  let h := xorShift h 16
  let h := h * 0x85ebca6b
  let h := xorShift h 13
  let h := h * 0xc2b2ae35
  xorShift h 16

/-- `fmix64`. -/
def fmix64 (k : BitVec 64) : BitVec 64 :=
  let k := xorShift k 33
  let k := k * 0xff51afd7ed558ccd
  let k := xorShift k 33
  let k := k * 0xc4ceb9fe1a85ec53
  xorShift k 33

/-! ## 32 bits -/

namespace X86_32

def c1 : BitVec 32 := 0xcc9e2d51

def c2 : BitVec 32 := 0x1b873593

/-- The loop over the blocks, for one of them. -/
def mix (h1 k1 : BitVec 32) : BitVec 32 :=
  let h1 := h1 ^^^ scramble c1 15 c2 k1
  let h1 := rotl h1 13
  h1 * 5 + 0xe6546b64

/-- The loop over the blocks. -/
def body (data : ByteBuffer) (seed : BitVec 32) : BitVec 32 :=
  (List.range (data.length / 4)).foldl
    (fun h1 i => mix h1 (getblock 32 data i)) seed

end X86_32

open X86_32 in
/-- `MurmurHash3_x86_32`. -/
def murmurHash3_x86_32 (key : Key) (seed : BitVec 32) : BitVec 32 :=
  let h1 := body key.data seed
  let h1 := mixTail c1 15 c2 h1 (tail 4 key.data)
  let h1 := h1 ^^^ BitVec.ofNat 32 key.data.length
  fmix32 h1

/-! ## 128 bits, in words of 32 -/

namespace X86_128

/-- Four words: the state, or a block. -/
@[ext]
structure Quad where
  h1 : BitVec 32
  h2 : BitVec 32
  h3 : BitVec 32
  h4 : BitVec 32
deriving DecidableEq, Repr

def c1 : BitVec 32 := 0x239b961b

def c2 : BitVec 32 := 0xab0e9789

def c3 : BitVec 32 := 0x38b34ae5

def c4 : BitVec 32 := 0xa1e38b93

/-- The four words of block `i`. -/
def block (data : ByteBuffer) (i : ℕ) : Quad where
  h1 := getblock 32 data (i * 4 + 0)
  h2 := getblock 32 data (i * 4 + 1)
  h3 := getblock 32 data (i * 4 + 2)
  h4 := getblock 32 data (i * 4 + 3)

/-- The loop over the blocks, for one of them. -/
def mix (h k : Quad) : Quad :=
  let h1 := h.h1 ^^^ scramble c1 15 c2 k.h1
  let h1 := (rotl h1 19 + h.h2) * 5 + 0x561ccd1b
  let h2 := h.h2 ^^^ scramble c2 16 c3 k.h2
  let h2 := (rotl h2 17 + h.h3) * 5 + 0x0bcaa747
  let h3 := h.h3 ^^^ scramble c3 17 c4 k.h3
  let h3 := (rotl h3 15 + h.h4) * 5 + 0x96cd1c35
  let h4 := h.h4 ^^^ scramble c4 18 c1 k.h4
  let h4 := (rotl h4 13 + h1) * 5 + 0x32ac3b17
  { h1, h2, h3, h4 }

/-- The `switch` over the bytes left. -/
def mixTails (h : Quad) (tail : ByteBuffer) : Quad where
  h4 := mixTail c4 18 c1 h.h4 (tail.drop 12)
  h3 := mixTail c3 17 c4 h.h3 ((tail.drop 8).take 4)
  h2 := mixTail c2 16 c3 h.h2 ((tail.drop 4).take 4)
  h1 := mixTail c1 15 c2 h.h1 (tail.take 4)

/-- Each word is added to the first, and the first to the others. -/
def spread (h : Quad) : Quad :=
  let h1 := h.h1 + h.h2 + h.h3 + h.h4
  { h1 := h1, h2 := h.h2 + h1, h3 := h.h3 + h1, h4 := h.h4 + h1 }

/-- An operation on each of the words. -/
def Quad.map (f : BitVec 32 → BitVec 32) (h : Quad) : Quad :=
  { h1 := f h.h1, h2 := f h.h2, h3 := f h.h3, h4 := f h.h4 }

/-- The loop over the blocks. -/
def body (data : ByteBuffer) (seed : BitVec 32) : Quad :=
  (List.range (data.length / 16)).foldl (fun h i => mix h (block data i))
    { h1 := seed, h2 := seed, h3 := seed, h4 := seed }

end X86_128

open X86_128 in
/-- `MurmurHash3_x86_128`. -/
def murmurHash3_x86_128 (key : Key) (seed : BitVec 32) : Quad :=
  let h := body key.data seed
  let h := mixTails h (tail 16 key.data)
  let h := h.map (· ^^^ BitVec.ofNat 32 key.data.length)
  let h := spread h
  let h := h.map fmix32
  spread h

/-! ## 128 bits, in words of 64 -/

namespace X64_128

/-- Two words: the state, or a block. -/
@[ext]
structure Pair where
  h1 : BitVec 64
  h2 : BitVec 64
deriving DecidableEq, Repr

def c1 : BitVec 64 := 0x87c37b91114253d5

def c2 : BitVec 64 := 0x4cf5ad432745937f

/-- The two words of block `i`. -/
def block (data : ByteBuffer) (i : ℕ) : Pair where
  h1 := getblock 64 data (i * 2 + 0)
  h2 := getblock 64 data (i * 2 + 1)

/-- The loop over the blocks, for one of them. -/
def mix (h k : Pair) : Pair :=
  let h1 := h.h1 ^^^ scramble c1 31 c2 k.h1
  let h1 := (rotl h1 27 + h.h2) * 5 + 0x52dce729
  let h2 := h.h2 ^^^ scramble c2 33 c1 k.h2
  let h2 := (rotl h2 31 + h1) * 5 + 0x38495ab5
  { h1, h2 }

/-- The `switch` over the bytes left. -/
def mixTails (h : Pair) (tail : ByteBuffer) : Pair where
  h2 := mixTail c2 33 c1 h.h2 (tail.drop 8)
  h1 := mixTail c1 31 c2 h.h1 (tail.take 8)

/-- The second word is added to the first, and the first to the second. -/
def spread (h : Pair) : Pair :=
  let h1 := h.h1 + h.h2
  { h1 := h1, h2 := h.h2 + h1 }

/-- An operation on each of the words. -/
def Pair.map (f : BitVec 64 → BitVec 64) (h : Pair) : Pair :=
  { h1 := f h.h1, h2 := f h.h2 }

/-- The loop over the blocks. -/
def body (data : ByteBuffer) (seed : BitVec 32) : Pair :=
  (List.range (data.length / 16)).foldl (fun h i => mix h (block data i))
    { h1 := seed.setWidth 64, h2 := seed.setWidth 64 }

end X64_128

open X64_128 in
/-- `MurmurHash3_x64_128`. -/
def murmurHash3_x64_128 (key : Key) (seed : BitVec 32) : Pair :=
  let h := body key.data seed
  let h := mixTails h (tail 16 key.data)
  let h := h.map (· ^^^ BitVec.ofNat 64 key.data.length)
  let h := spread h
  let h := h.map fmix64
  spread h

end Hashing
end Yacul
