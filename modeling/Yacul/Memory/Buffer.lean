import Yacul.Support.Transition
import Yacul.Support.Bytes
import Mathlib.Algebra.Group.Nat.Defs

/-!
# Buffers as a step function

A `Buffer` is a view on a reference-counted `PhysicalBuffer` and a node of a
ring.  The state holds every physical buffer ever allocated, every buffer
object, and the cursors; pointers are indices into these lists.  A step is one
public operation whose own checks pass; an operation that fails a check or
follows a pointer to a destroyed object is not enabled.
-/

namespace Yacul
namespace Memory

/-! ## Sizes -/

/-- `std::size_t` arithmetic wraps at this modulus. -/
abbrev sizeModulus : ℕ := 2 ^ 64

/-- Sizes that the callers stay below. -/
abbrev sizeLimit : ℕ := 2 ^ 62

def addSize (a b : ℕ) : ℕ := (a + b) % sizeModulus

def subSize (a b : ℕ) : ℕ := (a + sizeModulus - b) % sizeModulus

def mulSize (a b : ℕ) : ℕ := a * b % sizeModulus

/-! ## Storage -/

/-- `PhysicalBuffer`.  A destroyed one keeps its record; `freed` counts the
calls of its `free_fn`. -/
structure PhysicalBuffer where
  refCount : UInt32
  capacity : ℕ
  external : Bool := false
  freeFn : Bool := false
  bytes : ℕ → UInt8
  destroyed : Bool := false
  freed : ℕ := 0

/-- `Buffer`: `data` is the offset of `data_` from the start of the storage. -/
structure Buffer where
  physical : Option ℕ := none
  data : ℕ := 0
  length : ℕ := 0
  next : ℕ
  prev : ℕ
deriving DecidableEq, Repr

/-- `BufferCursor` and `BufferRWCursor`. -/
structure Cursor where
  head : ℕ
  current : ℕ
  offset : ℕ := 0
deriving DecidableEq, Repr

structure State where
  phys : List PhysicalBuffer
  bufs : List (Option Buffer)
  cursors : List Cursor

/-- The buffer object `i`, while it is alive. -/
def State.buf? (s : State) (i : ℕ) : Option Buffer :=
  s.bufs[i]?.join

def State.setBuf (s : State) (i : ℕ) (b : Buffer) : State :=
  { s with bufs := s.bufs.set i (some b) }

def State.modifyBuf (s : State) (i : ℕ) (f : Buffer → Buffer) :
    Option State :=
  (s.buf? i).map fun b => s.setBuf i (f b)

def State.modifyPhys (s : State) (p : ℕ)
    (f : PhysicalBuffer → PhysicalBuffer) : State :=
  { s with phys := s.phys.modify p f }

/-- `PhysicalBuffer::Retain`. -/
def PhysicalBuffer.retain (ph : PhysicalBuffer) : PhysicalBuffer :=
  { ph with refCount := ph.refCount + 1 }

/-- `PhysicalBuffer::Release`, with `Destroy` on the last reference. -/
def PhysicalBuffer.release (ph : PhysicalBuffer) : PhysicalBuffer :=
  if ph.refCount = 1 then
    { ph with
      refCount := 0
      destroyed := true
      freed := ph.freed + if ph.external && ph.freeFn then 1 else 0 }
  else { ph with refCount := ph.refCount - 1 }

/-- The bytes `src` stored from offset `pos` on. -/
def PhysicalBuffer.store (ph : PhysicalBuffer) (pos : ℕ) (src : ℕ → UInt8)
    (len : ℕ) : PhysicalBuffer :=
  { ph with
    bytes := fun k =>
      if pos ≤ k ∧ k < pos + len then src (k - pos) else ph.bytes k }

/-- The bytes a buffer sees from its `data_` on. -/
def State.view (s : State) (b : Buffer) : ℕ → UInt8 := fun k =>
  match b.physical.bind fun p => s.phys[p]? with
  | none => 0
  | some ph => ph.bytes (b.data + k)

/-- `memcpy` into the storage of a buffer, from offset `pos` of its view. -/
def State.storeAt (s : State) (b : Buffer) (pos : ℕ) (src : ℕ → UInt8)
    (len : ℕ) : State :=
  match b.physical with
  | none => s
  | some p => s.modifyPhys p fun ph => ph.store (b.data + pos) src len

/-! ## Observers -/

/-- The storage of a buffer. -/
def State.storage (s : State) (b : Buffer) : Option PhysicalBuffer :=
  b.physical.bind fun p => s.phys[p]?

def headroom (b : Buffer) : ℕ :=
  if b.physical = none then 0 else b.data

def capacity (s : State) (b : Buffer) : ℕ :=
  ((s.storage b).map PhysicalBuffer.capacity).getD 0

def tailroom (s : State) (b : Buffer) : ℕ :=
  if b.physical = none then 0
  else subSize (subSize (capacity s b) (headroom b)) b.length

def isShared (s : State) (b : Buffer) : Bool :=
  ((s.storage b).map fun ph => decide (1 < ph.refCount)).getD false

/-- `is_chained` of the buffer object `i`. -/
def isChained (i : ℕ) (b : Buffer) : Bool :=
  b.next ≠ i

section Machine

-- The contents of the `k`-th allocation before anything is stored in it.
variable (uninit : ℕ → ℕ → UInt8)

/-! ## Allocation -/

/-- `PhysicalBuffer::Create`. -/
def createPhysical (s : State) (capacity : ℕ) : Option (ℕ × State) :=
  if capacity < sizeLimit then
    some (s.phys.length, { s with
      phys := s.phys ++
        [{ refCount := 1, capacity := capacity,
           bytes := uninit s.phys.length }] })
  else none

/-- `PhysicalBuffer::CreateExternal` over memory that holds `bytes`. -/
def createExternal (s : State) (bytes : ByteBuffer) (freeFn : Bool) :
    Option (ℕ × State) :=
  if bytes.length < sizeLimit then
    some (s.phys.length, { s with
      phys := s.phys ++
        [{ refCount := 1, capacity := bytes.length, external := true,
           freeFn := freeFn, bytes := fun k => bytes.getD k 0 }] })
  else none

/-- A new buffer object in a ring of its own. -/
def newBuffer (s : State) (physical : Option ℕ) (data length : ℕ) : State :=
  { s with
    bufs := s.bufs ++ [some
      { physical := physical, data := data, length := length
        next := s.bufs.length, prev := s.bufs.length }] }

/-- `Buffer::ReleasePhysical`. -/
def releasePhysical (s : State) (i : ℕ) : Option State :=
  (s.buf? i).map fun b =>
    match b.physical with
    | none => s
    | some p =>
        (s.modifyPhys p PhysicalBuffer.release).setBuf i
          { b with physical := none }

def retainPhysical (s : State) (physical : Option ℕ) : State :=
  match physical with
  | none => s
  | some p => s.modifyPhys p PhysicalBuffer.retain

/-! ## Rings -/

def setNext (s : State) (i next : ℕ) : Option State :=
  s.modifyBuf i fun b => { b with next := next }

def setPrev (s : State) (i prev : ℕ) : Option State :=
  s.modifyBuf i fun b => { b with prev := prev }

/-- `Buffer::MakeSelfRing`. -/
def makeSelfRing (s : State) (i : ℕ) : Option State :=
  s.modifyBuf i fun b => { b with next := i, prev := i }

/-- `Buffer::UnlinkFromRing`. -/
def unlinkFromRing (s : State) (i : ℕ) : Option State := do
  let b ← s.buf? i
  let s ← setNext s b.prev b.next
  let b ← s.buf? i
  setPrev s b.next b.prev

/-- `Buffer::StealRingPosition`. -/
def stealRingPosition (s : State) (i rhs : ℕ) : Option State := do
  let r ← s.buf? rhs
  if isChained rhs r then
    let s ← s.modifyBuf i fun b => { b with next := r.next, prev := r.prev }
    let s ← setPrev s r.next i
    let b ← s.buf? i
    setNext s b.prev i
  else makeSelfRing s i

/-- `Buffer::AppendChain`. -/
def appendChain (s : State) (i other : ℕ) : Option State :=
  if i = other then none
  else do
    let b ← s.buf? i
    let o ← s.buf? other
    let s ← setNext s b.prev other
    let s ← setPrev s other b.prev
    let s ← setNext s o.prev i
    setPrev s i o.prev

/-- `Buffer::PrependChain`. -/
def prependChain (s : State) (i other : ℕ) : Option State :=
  if i = other then none
  else do
    let o ← s.buf? other
    let s ← setNext s o.prev i
    let b ← s.buf? i
    let s ← setNext s b.prev other
    let s ← setPrev s other b.prev
    setPrev s i o.prev

/-- `Buffer::Unlink`. -/
def unlink (s : State) (i : ℕ) : Option State := do
  let b ← s.buf? i
  if isChained i b then
    let s ← unlinkFromRing s i
    makeSelfRing s i
  else some s

/-- `Buffer::SplitChainAfter`. -/
def splitChainAfter (s : State) (i : ℕ) : Option State := do
  let b ← s.buf? i
  if isChained i b then
    let lh ← s.buf? b.prev
    let s ← setNext s i b.prev
    let s ← setPrev s b.prev i
    let s ← setNext s lh.prev b.next
    setPrev s b.next lh.prev
  else some s

/-- The nodes met from `cur` on before `head` is met again. -/
def chainFrom (s : State) (head : ℕ) : ℕ → ℕ → Option (List ℕ)
  | _, 0 => none
  | cur, fuel + 1 =>
      if cur = head then some []
      else do
        let b ← s.buf? cur
        let rest ← chainFrom s head b.next fuel
        some (cur :: rest)

/-- The nodes of the chain read from `head`. -/
def chainOf (s : State) (head fuel : ℕ) : Option (List ℕ) := do
  let b ← s.buf? head
  let rest ← chainFrom s head b.next fuel
  some (head :: rest)

/-- `Buffer::ComputeChainDataLength` over the nodes of a chain. -/
def chainDataLength (s : State) (nodes : List ℕ) : ℕ :=
  nodes.foldl (fun total i =>
    addSize total (((s.buf? i).map Buffer.length).getD 0)) 0

/-! ## Constructors and assignments -/

/-- `Buffer::Create`. -/
def create (s : State) (capacity : ℕ) : Option State := do
  let (p, s) ← createPhysical uninit s capacity
  some (newBuffer s (some p) 0 0)

/-- `Buffer::CopyFrom`. -/
def copyFrom (s : State) (src : ℕ → UInt8) (len : ℕ) : Option State := do
  let (p, s) ← createPhysical uninit s len
  let s := s.modifyPhys p fun ph => ph.store 0 src len
  some (newBuffer s (some p) 0 len)

/-- `Buffer::WrapExternal`. -/
def wrapExternal (s : State) (bytes : ByteBuffer) (freeFn : Bool) :
    Option State := do
  let (p, s) ← createExternal s bytes freeFn
  some (newBuffer s (some p) 0 bytes.length)

/-- `Buffer(const Buffer &)`. -/
def copyConstruct (s : State) (rhs : ℕ) : Option State := do
  let r ← s.buf? rhs
  some (newBuffer (retainPhysical s r.physical) r.physical r.data r.length)

/-- What a move leaves behind. -/
def clearMoved (s : State) (i : ℕ) : Option State :=
  s.modifyBuf i fun _ => { next := i, prev := i }

/-- `Buffer(Buffer &&)`. -/
def moveConstruct (s : State) (rhs : ℕ) : Option State := do
  let r ← s.buf? rhs
  let i := s.bufs.length
  let s := newBuffer s r.physical r.data r.length
  let s ← stealRingPosition s i rhs
  clearMoved s rhs

/-- The view of `rhs` is written over the view of `i`. -/
def takeView (s : State) (i rhs : ℕ) : Option State := do
  let r ← s.buf? rhs
  s.modifyBuf i fun b =>
    { b with physical := r.physical, data := r.data, length := r.length }

/-- `operator=(const Buffer &)`. -/
def copyAssign (s : State) (i rhs : ℕ) : Option State :=
  if i = rhs then some s
  else do
    let s ← unlinkFromRing s i
    let s ← releasePhysical s i
    let s ← takeView s i rhs
    let b ← s.buf? i
    makeSelfRing (retainPhysical s b.physical) i

/-- `operator=(Buffer &&)`. -/
def moveAssign (s : State) (i rhs : ℕ) : Option State :=
  if i = rhs then some s
  else do
    let s ← unlinkFromRing s i
    let s ← releasePhysical s i
    let s ← takeView s i rhs
    let s ← stealRingPosition s i rhs
    clearMoved s rhs

/-- `~Buffer`. -/
def destroy (s : State) (i : ℕ) : Option State := do
  let s ← unlinkFromRing s i
  let s ← releasePhysical s i
  some { s with bufs := s.bufs.set i none }

/-- The loop of `Buffer::DestroyChain`. -/
def destroyChain (s : State) (head : ℕ) : ℕ → ℕ → Option State
  | _, 0 => none
  | cur, fuel + 1 => do
      let b ← s.buf? cur
      let s ← makeSelfRing s cur
      let s ← destroy s cur
      if b.next = head then some s else destroyChain s head b.next fuel

/-- The copies `Buffer::CoalesceChain` makes into the storage `p`. -/
def coalesceInto (s : State) (p : ℕ) : ℕ → List ℕ → Option State
  | _, [] => some s
  | pos, i :: rest => do
      let b ← s.buf? i
      let s' := s.modifyPhys p fun ph => ph.store pos (s.view b) b.length
      coalesceInto s' p (pos + b.length) rest

/-- `Buffer::CoalesceChain`. -/
def coalesceChain (s : State) (i fuel : ℕ) : Option State := do
  let nodes ← chainOf s i fuel
  let total := chainDataLength s nodes
  if total = 0 then some (newBuffer s none 0 0)
  else
    let (p, s) ← createPhysical uninit s total
    let s ← coalesceInto s p 0 nodes
    some (newBuffer s (some p) 0 total)

/-! ## Views -/

/-- The part `CowDetach` and `EnsureTailroom` have in common: buffer `i`, whose
fields are `b`, gets new storage and keeps its headroom. -/
def replaceStorage (s : State) (i : ℕ) (b : Buffer) (newCap : ℕ) :
    Option State := do
  let (p, s') ← createPhysical uninit s newCap
  let s' := s'.modifyPhys p fun ph =>
    ph.store (headroom b) (s.view b) b.length
  let s' ← releasePhysical s' i
  s'.modifyBuf i fun b' => { b' with physical := some p, data := headroom b }

/-- `Buffer::CowDetach`. -/
def cowDetach (s : State) (i : ℕ) : Option State := do
  let b ← s.buf? i
  if isShared s b then replaceStorage uninit s i b (capacity s b)
  else some s

/-- `writable_data`, followed by a store of the caller through the pointer. -/
def writableData (s : State) (i pos : ℕ) (bytes : ByteBuffer) :
    Option State := do
  let s ← cowDetach uninit s i
  let b ← s.buf? i
  if pos + bytes.length ≤ b.length then
    some (s.storeAt b pos (fun k => bytes.getD k 0) bytes.length)
  else none

/-- `TrimStart`. -/
def trimStart (s : State) (i n : ℕ) : Option State := do
  let b ← s.buf? i
  if n ≤ b.length then
    some (s.setBuf i { b with data := b.data + n, length := b.length - n })
  else none

/-- `TrimEnd`. -/
def trimEnd (s : State) (i n : ℕ) : Option State := do
  let b ← s.buf? i
  if n ≤ b.length then some (s.setBuf i { b with length := b.length - n })
  else none

/-- `Prepend`. -/
def prepend (s : State) (i n : ℕ) : Option State := do
  let b ← s.buf? i
  if n ≤ headroom b then
    some (s.setBuf i
      { b with data := b.data - n, length := addSize b.length n })
  else none

/-- `Append`. -/
def append (s : State) (i n : ℕ) : Option State := do
  let b ← s.buf? i
  if n ≤ tailroom s b then
    some (s.setBuf i { b with length := addSize b.length n })
  else none

/-- The capacity `EnsureTailroom` allocates. -/
def newCapacity (b : Buffer) (n : ℕ) : ℕ :=
  max (addSize b.length n)
    (addSize (mulSize (addSize b.length n) 3 / 2) 64)

/-- `EnsureTailroom` replaces the storage. -/
def reallocates (s : State) (b : Buffer) (n : ℕ) : Bool :=
  !(!isShared s b && n ≤ tailroom s b)

/-- `Buffer::EnsureTailroom`. -/
def ensureTailroom (s : State) (i n : ℕ) : Option State := do
  let b ← s.buf? i
  if reallocates s b n then replaceStorage uninit s i b (newCapacity b n)
  else some s

/-- `AppendData`. -/
def appendData (s : State) (i : ℕ) (bytes : ByteBuffer) : Option State := do
  let s ← ensureTailroom uninit s i bytes.length
  let b ← s.buf? i
  let s := s.storeAt b b.length (fun k => bytes.getD k 0) bytes.length
  some (s.setBuf i { b with length := addSize b.length bytes.length })

/-- The argument `Reserve` passes to `EnsureTailroom`. -/
def reserveTailroom (b : Buffer) (newCap : ℕ) : ℕ :=
  if b.length < newCap then newCap - b.length else 0

/-- `Buffer::Reserve`. -/
def reserve (s : State) (i newCap : ℕ) : Option State := do
  let b ← s.buf? i
  if newCap ≤ capacity s b ∧ isShared s b = false then some s
  else ensureTailroom uninit s i (reserveTailroom b newCap)

/-- `Buffer::Slice(offset, len)`. -/
def slice (s : State) (i offset len : ℕ) : Option State := do
  let b ← s.buf? i
  if addSize offset len ≤ b.length then
    some (newBuffer (retainPhysical s b.physical) b.physical
      (b.data + offset) len)
  else none

/-- `Buffer::Slice(offset)`. -/
def sliceFrom (s : State) (i offset : ℕ) : Option State := do
  let b ← s.buf? i
  slice s i offset (subSize b.length offset)

/-- `Buffer::Clone`. -/
def clone (s : State) (i : ℕ) : Option State := do
  let b ← s.buf? i
  if b.physical = none ∨ b.length = 0 then some (newBuffer s none 0 0)
  else copyFrom uninit s (s.view b) b.length

/-! ## Cursors -/

/-- `AtEnd`. -/
def atEnd (s : State) (c : Cursor) : Option Bool :=
  (s.buf? c.current).map fun b => c.offset = b.length && b.next = c.head

/-- `AdvanceIfExhausted`. -/
def advanceIfExhausted (s : State) (c : Cursor) : Option Cursor :=
  (s.buf? c.current).map fun b =>
    if c.offset = b.length ∧ b.next ≠ c.head then
      { c with current := b.next, offset := 0 }
    else c

/-- The loop of `Skip`. -/
def skip (s : State) (c : Cursor) : ℕ → ℕ → Option Cursor
  | _, 0 => none
  | 0, _ + 1 => some c
  | len, fuel + 1 => do
      if ← atEnd s c then some c
      else
        let b ← s.buf? c.current
        let chunk := min (subSize b.length c.offset) len
        let c ← advanceIfExhausted s { c with offset := c.offset + chunk }
        skip s c (len - chunk) fuel

/-- The loop of `Read`; the bytes come first to last. -/
def read (s : State) (c : Cursor) : ℕ → ℕ → Option (Cursor × ByteBuffer)
  | _, 0 => none
  | 0, _ + 1 => some (c, [])
  | len, fuel + 1 => do
      if ← atEnd s c then some (c, [])
      else
        let b ← s.buf? c.current
        let chunk := min (subSize b.length c.offset) len
        let bytes := (List.range chunk).map fun k => s.view b (c.offset + k)
        let c ← advanceIfExhausted s { c with offset := c.offset + chunk }
        let (c, rest) ← read s c (len - chunk) fuel
        some (c, bytes ++ rest)

/-- The loop of `BufferRWCursor::Write`. -/
def write (s : State) (c : Cursor) : ByteBuffer → ℕ → Option (State × Cursor)
  | _, 0 => none
  | [], _ + 1 => some (s, c)
  | src, fuel + 1 => do
      if ← atEnd s c then some (s, c)
      else
        let s ← cowDetach uninit s c.current
        let b ← s.buf? c.current
        let chunk := min (subSize b.length c.offset) src.length
        let s := s.storeAt b c.offset (fun k => src.getD k 0) chunk
        let c ← advanceIfExhausted s { c with offset := c.offset + chunk }
        write s c (src.drop chunk) fuel

/-! ## Steps -/

/-- A public operation.  `fuel` bounds the length of a walk along a ring. -/
inductive Action
  | default
  | create (capacity : ℕ)
  | copyFrom (bytes : ByteBuffer)
  | wrapExternal (bytes : ByteBuffer) (freeFn : Bool)
  | copyConstruct (rhs : ℕ)
  | moveConstruct (rhs : ℕ)
  | copyAssign (i rhs : ℕ)
  | moveAssign (i rhs : ℕ)
  | destroy (i : ℕ)
  | appendChain (i other : ℕ)
  | prependChain (i other : ℕ)
  | unlink (i : ℕ)
  | splitChainAfter (i : ℕ)
  | coalesceChain (i fuel : ℕ)
  | destroyChain (head fuel : ℕ)
  | writableData (i pos : ℕ) (bytes : ByteBuffer)
  | trimStart (i n : ℕ)
  | trimEnd (i n : ℕ)
  | prepend (i n : ℕ)
  | append (i n : ℕ)
  | appendData (i : ℕ) (bytes : ByteBuffer)
  | ensureTailroom (i n : ℕ)
  | reserve (i newCap : ℕ)
  | slice (i offset len : ℕ)
  | sliceFrom (i offset : ℕ)
  | clone (i : ℕ)
  | newCursor (head : ℕ)
  | cursorReset (c : ℕ)
  | cursorSkip (c len fuel : ℕ)
  | cursorRead (c len fuel : ℕ)
  | cursorWrite (c : ℕ) (src : ByteBuffer) (fuel : ℕ)

/-- The sizes a caller passes stay below the limit, and slices are asked for
inside the view. -/
def Action.sizesOk (s : State) : Action → Bool
  | .create n | .prepend _ n | .append _ n | .trimStart _ n | .trimEnd _ n
  | .ensureTailroom _ n | .reserve _ n | .cursorSkip _ n _
  | .cursorRead _ n _ => n < sizeLimit
  | .copyFrom bytes | .wrapExternal bytes _ | .writableData _ _ bytes
  | .appendData _ bytes | .cursorWrite _ bytes _ => bytes.length < sizeLimit
  | .slice _ offset len => offset < sizeLimit && len < sizeLimit
  | .sliceFrom i offset =>
      ((s.buf? i).map fun b => decide (offset ≤ b.length)).getD false
  | _ => true

def State.setCursor (s : State) (k : ℕ) (c : Cursor) : State :=
  { s with cursors := s.cursors.set k c }

/-- The effect of an operation. -/
def perform (s : State) : Action → Option State
  | .default => some (newBuffer s none 0 0)
  | .create n => create uninit s n
  | .copyFrom bytes =>
      copyFrom uninit s (fun k => bytes.getD k 0) bytes.length
  | .wrapExternal bytes freeFn => wrapExternal s bytes freeFn
  | .copyConstruct rhs => copyConstruct s rhs
  | .moveConstruct rhs => moveConstruct s rhs
  | .copyAssign i rhs => copyAssign s i rhs
  | .moveAssign i rhs => moveAssign s i rhs
  | .destroy i => destroy s i
  | .appendChain i other => appendChain s i other
  | .prependChain i other => prependChain s i other
  | .unlink i => unlink s i
  | .splitChainAfter i => splitChainAfter s i
  | .coalesceChain i fuel => coalesceChain uninit s i fuel
  | .destroyChain head fuel => destroyChain s head head fuel
  | .writableData i pos bytes => writableData uninit s i pos bytes
  | .trimStart i n => trimStart s i n
  | .trimEnd i n => trimEnd s i n
  | .prepend i n => prepend s i n
  | .append i n => append s i n
  | .appendData i bytes => appendData uninit s i bytes
  | .ensureTailroom i n => ensureTailroom uninit s i n
  | .reserve i newCap => reserve uninit s i newCap
  | .slice i offset len => slice s i offset len
  | .sliceFrom i offset => sliceFrom s i offset
  | .clone i => clone uninit s i
  | .newCursor head =>
      (s.buf? head).map fun _ =>
        { s with cursors := s.cursors ++ [{ head := head, current := head }] }
  | .cursorReset k =>
      (s.cursors[k]?).map fun c =>
        s.setCursor k { c with current := c.head, offset := 0 }
  | .cursorSkip k len fuel => do
      let c ← s.cursors[k]?
      let c ← skip s c len fuel
      some (s.setCursor k c)
  | .cursorRead k len fuel => do
      let c ← s.cursors[k]?
      let (c, _) ← read s c len fuel
      some (s.setCursor k c)
  | .cursorWrite k src fuel => do
      let c ← s.cursors[k]?
      let (s, c) ← write uninit s c src fuel
      some (s.setCursor k c)

/-- One step; `none` when the operation is not enabled. -/
def step (s : State) (a : Action) : Option State :=
  if a.sizesOk s then perform uninit s a else none

/-- No storage, no buffers, no cursors. -/
def init : State := { phys := [], bufs := [], cursors := [] }

/-- The states reached from nothing by public operations. -/
abbrev Reachable : State → Prop :=
  Transition.Reachable (step uninit) {init}

end Machine

end Memory
end Yacul
