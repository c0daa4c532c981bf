import Yacul.Hashing.Collisions

/-!
# The hash of a value

`Hash<T, HashType>` hands the bytes of a value to one of three functions.  Only
MurmurHash3 takes the seed, and a pair or a tuple is hashed by giving the hash
of an element to the next one as its seed.
-/

namespace Yacul
namespace Hashing

open Function WordMixing

/-- `HashType`. -/
inductive HashType
  | kStdHash
  | kMurmurHashx86_32
  | kAbseilHash
deriving DecidableEq, Repr

/-- A value of an integral type of `size` bytes. -/
structure Integral where
  size : ℕ
  value : BitVec (8 * size)
  size_le : size ≤ 16

/-- The bytes of a number in memory, the lowest first. -/
def memory (size : ℕ) (value : BitVec (8 * size)) : ByteBuffer :=
  (List.range size).map fun i => .ofBitVec (value.extractLsb' (8 * i) 8)

/-- The bytes from the address of an integer. -/
def Integral.key (n : Integral) : Key where
  data := memory n.size n.value
  length_lt := by
    have hle := n.size_le
    simp only [memory, List.length_map, List.length_range]
    omega

/-- What `HashElement` accepts.  A `char *` is made a string first. -/
inductive Element
  | integral (n : Integral)
  | string (s : Key)

/-- The bytes of an element. -/
def Element.key : Element → Key
  | .integral n => n.key
  | .string s => s

/-- `std::hash` and `absl::Hash`; their results are cut to 32 bits. -/
structure HashLibrary where
  stdHash : Element → BitVec 64
  abslHash : Element → BitVec 64
  abslHashPair : Element → Element → BitVec 64
  abslHashTuple : List Element → BitVec 64

section

variable (lib : HashLibrary)

/-- `Hash::HashString` and `Hash::HashInt`. -/
def hashScalar (type : HashType) (e : Element) (seed : BitVec 32) : BitVec 32 :=
  match type with
  | .kMurmurHashx86_32 => murmurHash3_x86_32 e.key seed
  | .kAbseilHash => (lib.abslHash e).setWidth 32
  | .kStdHash => (lib.stdHash e).setWidth 32

/-- `Hash::HashElement`. -/
def hashElement (type : HashType) (e : Element) (seed : BitVec 32) : BitVec 32 :=
  hashScalar lib type e seed

/-- `Hash::HashPair`; with `std::hash` it does not compile. -/
def hashPair (type : HashType) (first second : Element) (seed : BitVec 32) :
    Option (BitVec 32) :=
  match type with
  | .kMurmurHashx86_32 =>
      let hash := hashElement lib type first seed
      some (hashElement lib type second hash)
  | .kAbseilHash => some ((lib.abslHashPair first second).setWidth 32)
  | .kStdHash => none

/-- `Hash::HashTuple`; with `std::hash` it does not compile. -/
def hashTuple (type : HashType) (args : List Element) (seed : BitVec 32) :
    Option (BitVec 32) :=
  match type with
  | .kMurmurHashx86_32 =>
      some (args.foldl (fun hash ele => hashElement lib type ele hash) seed)
  | .kAbseilHash => some ((lib.abslHashTuple args).setWidth 32)
  | .kStdHash => none

/-! ## Integers -/

theorem length_memory (size : ℕ) (value : BitVec (8 * size)) :
    (memory size value).length = size := by
  simp [memory]

theorem memory_injective (size : ℕ) : Injective (memory size) := by
  intro v v' h
  apply BitVec.eq_of_getLsbD_eq
  intro i hi
  have hlt : i / 8 < size := by omega
  have hmod : i % 8 < 8 := Nat.mod_lt _ (by decide)
  have hsplit : 8 * (i / 8) + i % 8 = i := Nat.div_add_mod i 8
  have hbyte := congrArg (fun bytes : ByteBuffer => bytes[i / 8]?) h
  simp only [memory, List.getElem?_map, List.getElem?_range hlt,
    Option.map_some, Option.some.injEq] at hbyte
  have hbits := congrArg UInt8.toBitVec hbyte
  have hbit := congrArg (fun z : BitVec 8 => z.getLsbD (i % 8)) hbits
  simpa only [BitVec.getLsbD_extractLsb', hmod, hsplit, decide_true,
    Bool.true_and] using hbit

/-- Integers of at most four bytes are one block or less. -/
theorem differInBlock_memory {size : ℕ} (hsize : size ≤ 4)
    (v v' : BitVec (8 * size)) :
    DifferInBlock 4 (memory size v) (memory size v') := by
  refine ⟨[], memory size v, memory size v', [], by simp, by simp, by simp,
    by simp [length_memory], ?_⟩
  rw [length_memory]
  exact hsize.eq_or_lt.imp_right fun hlt => ⟨hlt, rfl⟩

/-! ## Tuples -/

/-- An element makes its seed another one. -/
theorem mixes_hashElement_injective (e : Element) :
    Injective (hashElement lib .kMurmurHashx86_32 e) :=
  murmurHash3_x86_32_injective e.key

theorem foldl_hashElement_injective (args : List Element) :
    Injective fun seed => args.foldl
      (fun hash ele => hashElement lib .kMurmurHashx86_32 ele hash) seed := by
  induction args with
  | nil => exact fun _ _ h => h
  | cons e args ih => exact ih.comp (mixes_hashElement_injective lib e)

end

end Hashing
end Yacul
