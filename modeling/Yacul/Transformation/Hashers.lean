import Yacul.Support.Bytes
import Yacul.Support.Transition
import Mathlib.Algebra.Group.Nat.Defs
import Mathlib.Data.Int.Notation

/-!
# The hashers

`OpensslShaHasher` and `Blake3Hasher` adapt two C libraries to `IHasher`.  The
libraries are parameters; what the adapters rely on is that incremental
hashing depends on the concatenation of the chunks only.  A streaming session
is compared with the one-shot functions at each `Finalize`.
-/

namespace Yacul
namespace Transformation

/-- `IHasher`: an object with its state, its one-shot functions, which only
read the state, and its streaming functions.  The flag of `InitKeyed` says
whether memory can be allocated in the call; the first component of its result
is the status. -/
structure IHasher where
  State : Type
  construct : State
  Hash : State → ByteBuffer → ByteBuffer
  HashKeyed : State → ByteBuffer → ByteBuffer → Option ByteBuffer
  Init : State → State
  InitKeyed : State → ByteBuffer → Bool → Bool × State
  Update : State → ByteBuffer → State
  Finalize : State → ByteBuffer × State

/-! ## The SHA family of OpenSSL -/

/-- `ShaAlgorithm`. -/
inductive ShaAlgorithm
  | kSHA256
  | kSHA384
  | kSHA512
  | kSHA3_256
  | kSHA3_384
  | kSHA3_512
deriving DecidableEq, Repr

/-- The functions of the OpenSSL library. -/
structure OpensslLibrary where
  /-- `EVP_MD`. -/
  MD : Type
  EVP_sha256 : MD
  EVP_sha384 : MD
  EVP_sha512 : MD
  EVP_sha3_256 : MD
  EVP_sha3_384 : MD
  EVP_sha3_512 : MD
  /-- `EVP_MD_size`. -/
  MD_size : MD → ℕ
  /-- `EVP_MD_CTX`. -/
  MD_CTX : Type
  /-- `EVP_MD_CTX_new`. -/
  MD_CTX_new : MD_CTX
  /-- `EVP_DigestInit_ex` on a context that may have been used before. -/
  DigestInit : MD_CTX → MD → MD_CTX
  /-- `EVP_DigestUpdate`. -/
  DigestUpdate : MD_CTX → ByteBuffer → MD_CTX
  /-- `EVP_DigestFinal_ex`: the digest it writes, and the context after it. -/
  DigestFinal : MD_CTX → ByteBuffer × MD_CTX
  /-- `EVP_Digest`. -/
  Digest : ByteBuffer → MD → ByteBuffer
  /-- `HMAC` at a key, a null pointer being `none`, at the key length it is
  told, and at a message; `none` is the null result. -/
  HMAC : MD → Option ByteBuffer → ℤ → ByteBuffer → Option ByteBuffer

/-- What the adapter relies on: digests and codes have the size of the
algorithm, and a digest computed in chunks is the digest of the whole. -/
structure OpensslLibrary.Spec (lib : OpensslLibrary) : Prop where
  size_pos : ∀ md, 0 < lib.MD_size md
  length_HMAC : ∀ md key len data code,
    lib.HMAC md key len data = some code → code.length = lib.MD_size md
  incremental : ∀ ctx md (chunks : List ByteBuffer),
    (lib.DigestFinal
      (chunks.foldl lib.DigestUpdate (lib.DigestInit ctx md))).1 =
      lib.Digest chunks.flatten md

/-- `MdFor`. -/
def mdFor (lib : OpensslLibrary) : ShaAlgorithm → lib.MD
  | .kSHA256 => lib.EVP_sha256
  | .kSHA384 => lib.EVP_sha384
  | .kSHA512 => lib.EVP_sha512
  | .kSHA3_256 => lib.EVP_sha3_256
  | .kSHA3_384 => lib.EVP_sha3_384
  | .kSHA3_512 => lib.EVP_sha3_512

/-- `DigestSizeFor`. -/
def digestSizeFor (lib : OpensslLibrary) (algo : ShaAlgorithm) : ℕ :=
  lib.MD_size (mdFor lib algo)

/-- `static_cast<int>` of a `size_t`. -/
def castInt (size : ℕ) : ℤ := Int.bmod size (2 ^ 32)

/-- The members of `OpensslShaHasher`. -/
structure OpensslShaHasher (lib : OpensslLibrary) where
  ctx : lib.MD_CTX
  hmac_key_data : Option ByteBuffer
  hmac_key_size : ℕ
  keyed_mode : Bool

/-- `OpensslShaHasher::Init`. -/
def OpensslShaHasher.init (lib : OpensslLibrary) (algo : ShaAlgorithm)
    (s : OpensslShaHasher lib) : OpensslShaHasher lib :=
  { s with
    keyed_mode := false
    ctx := lib.DigestInit s.ctx (mdFor lib algo) }

/-- `OpensslShaHasher::InitKeyed`. -/
def OpensslShaHasher.initKeyed (lib : OpensslLibrary) (algo : ShaAlgorithm)
    (s : OpensslShaHasher lib) (key : ByteBuffer) (allocated : Bool) :
    Bool × OpensslShaHasher lib :=
  if allocated then
    (true,
      { hmac_key_data := some key
        hmac_key_size := key.length
        keyed_mode := true
        ctx := lib.DigestInit s.ctx (mdFor lib algo) })
  else
    -- The old key is freed before `malloc` is asked for the new one.
    (false, { s with hmac_key_data := none })

/-- `OpensslShaHasher::Finalize`. -/
def OpensslShaHasher.finalize (lib : OpensslLibrary) (algo : ShaAlgorithm)
    (s : OpensslShaHasher lib) : ByteBuffer × OpensslShaHasher lib :=
  let out := ByteBuffer.resized [] (digestSizeFor lib algo)
  let (digest, ctx) := lib.DigestFinal s.ctx
  let written :=
    if s.keyed_mode then
      let inner := ByteBuffer.resized [] (digestSizeFor lib algo)
      let inner := (inner.overwrite digest).resized digest.length
      -- The result is not checked; a failed call leaves `len` at zero.
      (lib.HMAC (mdFor lib algo) s.hmac_key_data (castInt s.hmac_key_size)
        inner).getD []
    else digest
  ((out.overwrite written).resized written.length,
    OpensslShaHasher.init lib algo { s with ctx := ctx })

/-- `OpensslShaHasher`. -/
def opensslShaHasher (lib : OpensslLibrary) (algo : ShaAlgorithm) :
    IHasher where
  State := OpensslShaHasher lib
  construct :=
    { ctx := lib.DigestInit lib.MD_CTX_new (mdFor lib algo)
      hmac_key_data := none
      hmac_key_size := 0
      keyed_mode := false }
  Hash _ data :=
    let out := ByteBuffer.resized [] (digestSizeFor lib algo)
    let digest := lib.Digest data (mdFor lib algo)
    (out.overwrite digest).resized digest.length
  HashKeyed _ key data :=
    let out := ByteBuffer.resized [] (digestSizeFor lib algo)
    match lib.HMAC (mdFor lib algo) (some key) (castInt key.length) data with
    | none => none
    | some code => some ((out.overwrite code).resized code.length)
  Init := OpensslShaHasher.init lib algo
  InitKeyed := OpensslShaHasher.initKeyed lib algo
  Update s data := { s with ctx := lib.DigestUpdate s.ctx data }
  Finalize := OpensslShaHasher.finalize lib algo

/-! ## BLAKE3 -/

/-- The functions of the BLAKE3 library. -/
structure Blake3Library where
  /-- `blake3_hasher`. -/
  Hasher : Type
  /-- `blake3_hasher_init`. -/
  init : Hasher
  /-- `blake3_hasher_init_keyed`. -/
  initKeyed : ByteBuffer → Hasher
  /-- `blake3_hasher_update`. -/
  update : Hasher → ByteBuffer → Hasher
  /-- `blake3_hasher_finalize` at an output length; the hasher is not
  changed. -/
  finalize : Hasher → ℕ → ByteBuffer

/-- What the adapter relies on: updates in chunks are one update. -/
structure Blake3Library.Spec (lib : Blake3Library) : Prop where
  incremental : ∀ hasher (chunks : List ByteBuffer) length,
    lib.finalize (chunks.foldl lib.update hasher) length =
      lib.finalize (lib.update hasher chunks.flatten) length

/-- `BLAKE3_KEY_LEN`. -/
def BLAKE3_KEY_LEN : ℕ := 32

/-- The members of `Blake3Hasher`. -/
structure Blake3Hasher (lib : Blake3Library) where
  output_length : ℕ
  state : lib.Hasher

/-- `Blake3Hasher::Init`. -/
def Blake3Hasher.init {lib : Blake3Library} (s : Blake3Hasher lib) :
    Blake3Hasher lib :=
  { s with state := lib.init }

/-- `Blake3Hasher`. -/
def blake3Hasher (lib : Blake3Library) (output_length : ℕ) : IHasher where
  State := Blake3Hasher lib
  construct := { output_length := output_length, state := lib.init }
  Hash s data :=
    let out := ByteBuffer.resized [] s.output_length
    out.overwrite
      (lib.finalize (lib.update lib.init data) s.output_length)
  HashKeyed s key data :=
    if key.length ≠ BLAKE3_KEY_LEN then none
    else
      let out := ByteBuffer.resized [] s.output_length
      some (out.overwrite
        (lib.finalize (lib.update (lib.initKeyed key) data) s.output_length))
  Init := Blake3Hasher.init
  InitKeyed s key _ :=
    if key.length ≠ BLAKE3_KEY_LEN then (false, s)
    else (true, { s with state := lib.initKeyed key })
  Update s data := { s with state := lib.update s.state data }
  Finalize s :=
    let out := ByteBuffer.resized [] s.output_length
    (out.overwrite (lib.finalize s.state s.output_length), s.init)

/-! ## Sessions -/

/-- What the last `Init`, `InitKeyed` or `Finalize` announced; `failed` is an
`InitKeyed` that returned false. -/
inductive Mode
  | plain
  | keyed (key : ByteBuffer)
  | failed
deriving DecidableEq, Repr

/-- The streaming session a client is in: its mode, and the chunks given to
`Update` since it began. -/
structure Session where
  mode : Mode
  chunks : List ByteBuffer
deriving DecidableEq, Repr

/-- The concatenation of the data of the session. -/
def Session.data (w : Session) : ByteBuffer := w.chunks.flatten

/-- The calls of a client. -/
inductive HasherCall
  | Init
  | InitKeyed (key : ByteBuffer) (allocated : Bool)
  | Update (data : ByteBuffer)
  | Finalize
deriving DecidableEq, Repr

/-- A hasher object in use. -/
structure Stream (h : IHasher) where
  hasher : h.State
  session : Session

namespace Stream

variable {h : IHasher}

/-- A new object. -/
def construct (h : IHasher) : Stream h where
  hasher := h.construct
  session := { mode := .plain, chunks := [] }

/-- One call. -/
def call (s : Stream h) : HasherCall → Stream h
  | .Init =>
      { hasher := h.Init s.hasher
        session := { mode := .plain, chunks := [] } }
  | .InitKeyed key allocated =>
      let (ok, hasher) := h.InitKeyed s.hasher key allocated
      { hasher := hasher
        session :=
          { mode := if ok then .keyed key else .failed, chunks := [] } }
  | .Update data =>
      { hasher := h.Update s.hasher data
        session := { s.session with chunks := s.session.chunks ++ [data] } }
  | .Finalize =>
      { hasher := (h.Finalize s.hasher).2
        session := { mode := .plain, chunks := [] } }

/-- Every call returns. -/
def step (s : Stream h) (c : HasherCall) : Option (Stream h) :=
  some (s.call c)

/-- A `Finalize` returns the one-shot value of the data of the session; other
calls return no digest. -/
def MatchesOneShot (s : Stream h) : HasherCall → Prop
  | .Finalize =>
      match s.session.mode with
      | .plain =>
          (h.Finalize s.hasher).1 = h.Hash s.hasher s.session.data
      | .keyed key =>
          ∀ out, h.HashKeyed s.hasher key s.session.data = some out →
            (h.Finalize s.hasher).1 = out
      | .failed => True
  | _ => True

end Stream

/-! ## The two implementations -/

/-- The libraries the hashers are linked with. -/
structure HashLibraries where
  openssl : OpensslLibrary
  blake3 : Blake3Library

/-- What the hashers rely on. -/
structure HashLibraries.Spec (libs : HashLibraries) : Prop where
  openssl : libs.openssl.Spec
  blake3 : libs.blake3.Spec

/-- The classes that implement `IHasher`, with the arguments of their
constructors. -/
inductive HasherType
  | opensslSha (algo : ShaAlgorithm)
  | blake3 (output_length : ℕ)
deriving DecidableEq, Repr

/-- The object of a type. -/
def hasher (libs : HashLibraries) : HasherType → IHasher
  | .opensslSha algo => opensslShaHasher libs.openssl algo
  | .blake3 output_length => blake3Hasher libs.blake3 output_length

/-- The library gives the data and its digest the same code. -/
def HmacCollides (lib : OpensslLibrary) (algo : ShaAlgorithm)
    (key data : ByteBuffer) : Prop :=
  ∀ code,
    lib.HMAC (mdFor lib algo) (some key) (castInt key.length) data =
      some code →
    lib.HMAC (mdFor lib algo) (some key) (castInt key.length)
      (lib.Digest data (mdFor lib algo)) = some code

/-- No keyed session of the SHA family is finalized, unless its data collides
with its own digest. -/
def FinalizesPlain (libs : HashLibraries) (type : HasherType)
    (s : Stream (hasher libs type)) : HasherCall → Prop
  | .Finalize =>
      match type, s.session.mode with
      | .opensslSha algo, .keyed key =>
          HmacCollides libs.openssl algo key s.session.data
      | _, _ => True
  | _ => True

/-! ## The SHA family in a session -/

section Openssl

variable {lib : OpensslLibrary} {algo : ShaAlgorithm}
  {s : OpensslShaHasher lib} {w : Session}

/-- The object has digested the data of the session, and knows its mode and
key.  After a failed `InitKeyed` nothing is known. -/
structure OpensslShaHasher.Holds (algo : ShaAlgorithm)
    (s : OpensslShaHasher lib) (w : Session) : Prop where
  ctx : w.mode ≠ .failed → ∃ ctx,
    s.ctx = w.chunks.foldl lib.DigestUpdate
      (lib.DigestInit ctx (mdFor lib algo))
  plain : w.mode = .plain → s.keyed_mode = false
  keyed : ∀ key, w.mode = .keyed key →
    s.keyed_mode = true ∧ s.hmac_key_data = some key ∧
      s.hmac_key_size = key.length

theorem OpensslShaHasher.holds_init (s : OpensslShaHasher lib) :
    (init lib algo s).Holds algo { mode := .plain, chunks := [] } where
  ctx _ := ⟨s.ctx, rfl⟩
  plain _ := rfl
  keyed key h := by cases h

theorem OpensslShaHasher.holds_initKeyed (s : OpensslShaHasher lib)
    (key : ByteBuffer) (allocated : Bool) :
    (initKeyed lib algo s key allocated).2.Holds algo
      { mode :=
          if (initKeyed lib algo s key allocated).1 then .keyed key
          else .failed
        chunks := [] } := by
  cases allocated with
  | true =>
      refine ⟨fun _ => ⟨s.ctx, rfl⟩, fun h => Mode.noConfusion h, ?_⟩
      intro key' h
      obtain rfl : key = key' := Mode.keyed.inj h
      exact ⟨rfl, rfl, rfl⟩
  | false =>
      exact ⟨fun h => absurd rfl h, fun h => Mode.noConfusion h,
        fun _ h => Mode.noConfusion h⟩

theorem OpensslShaHasher.Holds.update (hs : s.Holds algo w)
    (data : ByteBuffer) :
    OpensslShaHasher.Holds algo
      { s with ctx := lib.DigestUpdate s.ctx data }
      { w with chunks := w.chunks ++ [data] } where
  ctx h := by
    obtain ⟨ctx, hctx⟩ := hs.ctx h
    refine ⟨ctx, ?_⟩
    rw [List.foldl_append, ← hctx]
    rfl
  plain := hs.plain
  keyed := hs.keyed

/-- The digest of the context is the digest of the data. -/
theorem OpensslShaHasher.Holds.digest_eq (hlib : lib.Spec)
    (hs : s.Holds algo w) (hmode : w.mode ≠ .failed) :
    (lib.DigestFinal s.ctx).1 = lib.Digest w.data (mdFor lib algo) := by
  obtain ⟨ctx, hctx⟩ := hs.ctx hmode
  rw [hctx]
  exact hlib.incremental ctx (mdFor lib algo) w.chunks

theorem OpensslShaHasher.finalize_plain (h : s.keyed_mode = false) :
    (finalize lib algo s).1 = (lib.DigestFinal s.ctx).1 := by
  simp only [finalize, h, Bool.false_eq_true, if_false]
  exact ByteBuffer.resized_overwrite _ _

/-- In keyed mode the code is that of the digest. -/
theorem OpensslShaHasher.finalize_keyed (h : s.keyed_mode = true) :
    (finalize lib algo s).1 =
      (lib.HMAC (mdFor lib algo) s.hmac_key_data (castInt s.hmac_key_size)
        (lib.DigestFinal s.ctx).1).getD [] := by
  simp only [finalize, h, if_true, ByteBuffer.resized_overwrite]

theorem opensslShaHasher_hash (s : OpensslShaHasher lib)
    (data : ByteBuffer) :
    (opensslShaHasher lib algo).Hash s data =
      lib.Digest data (mdFor lib algo) :=
  ByteBuffer.resized_overwrite _ _

theorem opensslShaHasher_hashKeyed (s : OpensslShaHasher lib)
    (key data : ByteBuffer) :
    (opensslShaHasher lib algo).HashKeyed s key data =
      lib.HMAC (mdFor lib algo) (some key) (castInt key.length) data := by
  simp only [opensslShaHasher]
  split
  · next hnone => exact hnone.symm
  · next code hcode => rw [ByteBuffer.resized_overwrite, hcode]

/-- A code is not empty, so a failed HMAC is never taken for one. -/
theorem getD_hmac_iff (hlib : lib.Spec) {md : lib.MD}
    {key key' : Option ByteBuffer} {len len' : ℤ}
    {data data' code : ByteBuffer}
    (hcode : lib.HMAC md key len data = some code) :
    (lib.HMAC md key' len' data').getD [] = code ↔
      lib.HMAC md key' len' data' = some code := by
  cases hother : lib.HMAC md key' len' data' with
  | some other => simp
  | none =>
      have hlength := hlib.length_HMAC md key len data code hcode
      have hpos := hlib.size_pos md
      have hne : code ≠ [] := by
        rintro rfl
        rw [← hlength] at hpos
        exact Nat.lt_irrefl 0 hpos
      simp [hne.symm]

/-- A keyed `Finalize` is right exactly at a collision. -/
theorem OpensslShaHasher.Holds.finalize_keyed_iff (hlib : lib.Spec)
    (hs : s.Holds algo w) {key : ByteBuffer} (hmode : w.mode = .keyed key) :
    (∀ out, (opensslShaHasher lib algo).HashKeyed s key w.data = some out →
      (finalize lib algo s).1 = out) ↔
      HmacCollides lib algo key w.data := by
  obtain ⟨hkeyed, hdata, hsize⟩ := hs.keyed key hmode
  have hdigest := hs.digest_eq hlib (by rw [hmode]; simp)
  rw [opensslShaHasher_hashKeyed, finalize_keyed hkeyed, hdata, hsize,
    hdigest]
  apply forall_congr'
  intro code
  apply imp_congr_right
  intro hcode
  exact getD_hmac_iff hlib hcode

end Openssl

/-! ## BLAKE3 in a session -/

section Blake3

variable {lib : Blake3Library} {s : Blake3Hasher lib} {w : Session}

/-- The library's hasher was given the data of the session after the
initialisation that its mode names. -/
structure Blake3Hasher.Holds (s : Blake3Hasher lib) (w : Session) :
    Prop where
  plain : w.mode = .plain → s.state = w.chunks.foldl lib.update lib.init
  keyed : ∀ key, w.mode = .keyed key →
    s.state = w.chunks.foldl lib.update (lib.initKeyed key)

theorem Blake3Hasher.holds_init (s : Blake3Hasher lib) :
    s.init.Holds { mode := .plain, chunks := [] } where
  plain _ := rfl
  keyed key h := by cases h

theorem Blake3Hasher.holds_initKeyed (output_length : ℕ)
    (s : Blake3Hasher lib) (key : ByteBuffer) (allocated : Bool) :
    Blake3Hasher.Holds
      ((blake3Hasher lib output_length).InitKeyed s key allocated).2
      { mode :=
          if ((blake3Hasher lib output_length).InitKeyed s key allocated).1
          then .keyed key else .failed
        chunks := [] } := by
  by_cases hsize : key.length ≠ BLAKE3_KEY_LEN
  · simp only [blake3Hasher, if_pos hsize]
    exact ⟨fun h => Mode.noConfusion h, fun _ h => Mode.noConfusion h⟩
  · simp only [blake3Hasher, if_neg hsize]
    refine ⟨fun h => Mode.noConfusion h, ?_⟩
    intro key' h
    obtain rfl : key = key' := Mode.keyed.inj h
    rfl

theorem Blake3Hasher.Holds.update (hs : s.Holds w) (data : ByteBuffer) :
    Blake3Hasher.Holds { s with state := lib.update s.state data }
      { w with chunks := w.chunks ++ [data] } where
  plain h := by
    rw [List.foldl_append, ← hs.plain h]
    rfl
  keyed key h := by
    rw [List.foldl_append, ← hs.keyed key h]
    rfl

theorem Blake3Hasher.Holds.finalize_plain {output_length : ℕ}
    (hlib : lib.Spec) (hs : s.Holds w) (hmode : w.mode = .plain) :
    ((blake3Hasher lib output_length).Finalize s).1 =
      (blake3Hasher lib output_length).Hash s w.data := by
  simp only [blake3Hasher]
  rw [hs.plain hmode, hlib.incremental]
  rfl

theorem Blake3Hasher.Holds.finalize_keyed {output_length : ℕ}
    (hlib : lib.Spec) (hs : s.Holds w) {key out : ByteBuffer}
    (hmode : w.mode = .keyed key)
    (hout : (blake3Hasher lib output_length).HashKeyed s key w.data =
      some out) :
    ((blake3Hasher lib output_length).Finalize s).1 = out := by
  simp only [blake3Hasher] at hout ⊢
  split_ifs at hout
  rw [hs.keyed key hmode, hlib.incremental]
  exact Option.some.inj hout

end Blake3

/-! ## Whole sessions -/

/-- The object and the session agree. -/
def Consistent (libs : HashLibraries) :
    (type : HasherType) → Stream (hasher libs type) → Prop
  | .opensslSha algo, s =>
      @OpensslShaHasher.Holds libs.openssl algo s.hasher s.session
  | .blake3 _, s =>
      @Blake3Hasher.Holds libs.blake3 s.hasher s.session

section Sessions

variable {libs : HashLibraries} {type : HasherType}

theorem consistent_construct (libs : HashLibraries) (type : HasherType) :
    Consistent libs type (Stream.construct (hasher libs type)) := by
  cases type with
  | opensslSha algo =>
      exact ⟨fun _ => ⟨libs.openssl.MD_CTX_new, rfl⟩, fun _ => rfl,
        fun _ h => Mode.noConfusion h⟩
  | blake3 output_length =>
      exact ⟨fun _ => rfl, fun _ h => Mode.noConfusion h⟩

/-- Every call keeps the agreement. -/
theorem consistent_call {s : Stream (hasher libs type)}
    (hs : Consistent libs type s) (c : HasherCall) :
    Consistent libs type (s.call c) := by
  cases type with
  | opensslSha algo =>
      cases c with
      | Init => exact OpensslShaHasher.holds_init _
      | InitKeyed key allocated =>
          exact OpensslShaHasher.holds_initKeyed _ key allocated
      | Update data => exact OpensslShaHasher.Holds.update hs data
      | Finalize => exact OpensslShaHasher.holds_init _
  | blake3 output_length =>
      cases c with
      | Init => exact Blake3Hasher.holds_init _
      | InitKeyed key allocated =>
          exact Blake3Hasher.holds_initKeyed output_length _ key allocated
      | Update data => exact Blake3Hasher.Holds.update hs data
      | Finalize => exact Blake3Hasher.holds_init _

/-- One call meets the law exactly under the condition. -/
theorem matchesOneShot_iff (hlibs : libs.Spec)
    {s : Stream (hasher libs type)}
    (hs : Consistent libs type s) (c : HasherCall) :
    s.MatchesOneShot c ↔ FinalizesPlain libs type s c := by
  cases c with
  | Init | InitKeyed | Update => exact Iff.rfl
  | Finalize =>
      obtain ⟨object, mode, chunks⟩ := s
      cases type with
      | opensslSha algo =>
          cases mode with
          | plain =>
              refine iff_of_true ?_ trivial
              have hdigest := OpensslShaHasher.Holds.digest_eq
                hlibs.openssl hs Mode.noConfusion
              exact (OpensslShaHasher.finalize_plain (hs.plain rfl)).trans
                (hdigest.trans (opensslShaHasher_hash _ _).symm)
          | keyed key =>
              exact OpensslShaHasher.Holds.finalize_keyed_iff
                hlibs.openssl hs rfl
          | failed => exact Iff.rfl
      | blake3 output_length =>
          refine iff_of_true ?_ trivial
          cases mode with
          | plain =>
              exact Blake3Hasher.Holds.finalize_plain hlibs.blake3 hs rfl
          | keyed key =>
              intro out hout
              exact Blake3Hasher.Holds.finalize_keyed hlibs.blake3 hs rfl
                hout
          | failed => trivial

/-- In any sequence of calls the streaming results are the one-shot results
exactly when no keyed session of the SHA family is finalized, collisions
apart. -/
theorem allMatchOneShot_iff (hlibs : libs.Spec) (type : HasherType)
    (calls : List HasherCall) :
    Transition.AllSteps Stream.step Stream.MatchesOneShot
      (Stream.construct (hasher libs type)) calls ↔
    Transition.AllSteps Stream.step (FinalizesPlain libs type)
      (Stream.construct (hasher libs type)) calls := by
  refine Transition.allSteps_congr (I := Consistent libs type) ?_
    (fun s c hs => matchesOneShot_iff hlibs hs c)
    (consistent_construct libs type) calls
  intro s c s' hs hstep
  obtain rfl : s.call c = s' := Option.some.inj hstep
  exact consistent_call hs c

end Sessions

/-! ## A keyed session of the SHA family -/

section KeyedSession

/-- The bytes of `"abc"`. -/
def abc : ByteBuffer := [97, 98, 99]

/-- The key `"k"`. -/
def keyK : ByteBuffer := [107]

/-- SHA-256 of `"abc"`. -/
def sha256Abc : ByteBuffer :=
  [186, 120, 22, 191, 143, 1, 207, 234, 65, 65, 64, 222, 93, 174, 34, 35,
    176, 3, 97, 163, 150, 23, 122, 156, 180, 16, 255, 97, 242, 0, 21, 173]

/-- HMAC-SHA-256 of `"abc"` under `"k"`. -/
def hmacAbc : ByteBuffer :=
  [52, 46, 81, 156, 224, 173, 108, 3, 163, 107, 152, 238, 179, 241, 209, 48,
    219, 72, 19, 185, 223, 77, 17, 96, 237, 164, 136, 215, 18, 220, 120, 238]

/-- HMAC-SHA-256 of the digest of `"abc"` under `"k"`. -/
def hmacDigest : ByteBuffer :=
  [236, 160, 160, 250, 161, 30, 138, 22, 40, 29, 212, 154, 32, 19, 66, 171,
    0, 60, 134, 157, 155, 172, 18, 190, 226, 241, 54, 61, 173, 160, 96, 100]

/-- Digest sizes. -/
def sampleSize : ShaAlgorithm → ℕ
  | .kSHA256 | .kSHA3_256 => 32
  | .kSHA384 | .kSHA3_384 => 48
  | .kSHA512 | .kSHA3_512 => 64

/-- The digest of `"abc"` is SHA-256, other digests are zero. -/
def sampleDigest (data : ByteBuffer) (md : ShaAlgorithm) : ByteBuffer :=
  if md = .kSHA256 ∧ data = abc then sha256Abc
  else List.replicate (sampleSize md) 0

/-- The codes of `"abc"` and of its digest are HMAC-SHA-256, other codes are
zero. -/
def sampleHmac (md : ShaAlgorithm) (key : Option ByteBuffer) (len : ℤ)
    (data : ByteBuffer) : Option ByteBuffer :=
  if md = .kSHA256 ∧ key = some keyK ∧ len = 1 ∧ data = abc then
    some hmacAbc
  else if md = .kSHA256 ∧ key = some keyK ∧ len = 1 ∧ data = sha256Abc then
    some hmacDigest
  else some (List.replicate (sampleSize md) 0)

/-- Libraries that collect the data and hash it at the end. -/
def sampleLibraries : HashLibraries where
  openssl :=
    { MD := ShaAlgorithm
      EVP_sha256 := .kSHA256
      EVP_sha384 := .kSHA384
      EVP_sha512 := .kSHA512
      EVP_sha3_256 := .kSHA3_256
      EVP_sha3_384 := .kSHA3_384
      EVP_sha3_512 := .kSHA3_512
      MD_size := sampleSize
      MD_CTX := ShaAlgorithm × ByteBuffer
      MD_CTX_new := (.kSHA256, [])
      DigestInit := fun _ md => (md, [])
      DigestUpdate := fun ctx data => (ctx.1, ctx.2 ++ data)
      DigestFinal := fun ctx => (sampleDigest ctx.2 ctx.1, ctx)
      Digest := sampleDigest
      HMAC := sampleHmac }
  blake3 :=
    { Hasher := ByteBuffer
      init := []
      initKeyed := fun key => key
      update := fun hasher data => hasher ++ data
      finalize := fun _ length => List.replicate length 0 }

theorem length_sampleHmac {md : ShaAlgorithm} {key : Option ByteBuffer}
    {len : ℤ} {data code : ByteBuffer}
    (h : sampleHmac md key len data = some code) :
    code.length = sampleSize md := by
  unfold sampleHmac at h
  split_ifs at h with habc hdigest
  · obtain rfl := Option.some.inj h
    rw [habc.1]
    rfl
  · obtain rfl := Option.some.inj h
    rw [hdigest.1]
    rfl
  · obtain rfl := Option.some.inj h
    exact List.length_replicate

theorem sampleLibraries_spec : sampleLibraries.Spec where
  openssl :=
    { size_pos := fun md => by cases md <;> decide
      length_HMAC := fun _ _ _ _ _ h => length_sampleHmac h
      incremental := fun _ md chunks => by
        have hfold := ByteBuffer.foldl_collect md [] chunks
        exact congrArg (fun ctx => sampleDigest ctx.2 ctx.1) hfold }
  blake3 := { incremental := fun _ _ _ => rfl }

theorem allMatchOneShot_iff_streamsPlain :
    Transition.AllSteps Stream.step Stream.MatchesOneShot
      (Stream.construct (hasher sampleLibraries (.opensslSha .kSHA256)))
      [.InitKeyed keyK true, .Init, .Update [97], .Update [98, 99],
        .Finalize] := by
  refine (allMatchOneShot_iff sampleLibraries_spec _ _).mpr ?_
  simp only [Transition.AllSteps, Stream.step, Option.some.injEq,
    forall_eq']
  exact ⟨trivial, trivial, trivial, trivial, trivial, trivial⟩

/-- A keyed session over `"abc"` returns the code of the digest. -/
theorem exists_streamingMismatch :
    ¬ ∀ (libs : HashLibraries), libs.Spec →
      ∀ (type : HasherType) (calls : List HasherCall),
        Transition.AllSteps Stream.step Stream.MatchesOneShot
          (Stream.construct (hasher libs type)) calls := by
  intro hall
  have hsession := hall sampleLibraries sampleLibraries_spec
    (.opensslSha .kSHA256) [.InitKeyed keyK true, .Update abc, .Finalize]
  simp only [Transition.AllSteps, Stream.step, Option.some.injEq,
    forall_eq'] at hsession
  obtain ⟨-, -, hfinalize, -⟩ := hsession
  have hcode : hmacDigest = hmacAbc := hfinalize hmacAbc rfl
  exact absurd hcode (by decide)

end KeyedSession

end Transformation
end Yacul
