import Yacul.Memory.BufferBounds
import Yacul.Support.Ring

/-!
# The rings of buffers

The links of the buffers are read off the state, and every operation is one of
the edits of circular lists: a new node, a node taken out, two rings spliced,
a node that takes the place of another.  Everything else leaves the links
alone.
-/

namespace Yacul
namespace Memory

/-- The links of the live buffers. -/
def State.links (s : State) : Links ℕ where
  next i := (s.buf? i).map Buffer.next
  prev i := (s.buf? i).map Buffer.prev

section Links

variable {s s' : State} {uninit : ℕ → ℕ → UInt8}

theorem next_of_buf? {i : ℕ} {b : Buffer} (hb : s.buf? i = some b) :
    s.links.next i = some b.next := by
  simp [State.links, hb]

theorem prev_of_buf? {i : ℕ} {b : Buffer} (hb : s.buf? i = some b) :
    s.links.prev i = some b.prev := by
  simp [State.links, hb]

/-! ## Steps that leave the links alone -/

theorem links_of_bufs (h : s'.bufs = s.bufs) : s'.links = s.links := by
  simp only [State.links, State.buf?, h]

/-- One buffer changes in everything but its links. -/
theorem links_of_set {i : ℕ} {b c : Buffer} (hb : s.buf? i = some b)
    (hbufs : ∀ j, s'.buf? j = if j = i then some c else s.buf? j)
    (hnext : c.next = b.next) (hprev : c.prev = b.prev) :
    s'.links = s.links := by
  have hn : s'.links.next = s.links.next := by
    funext j
    simp only [State.links, hbufs]
    split_ifs with hj
    · simp [hj, hb, hnext]
    · rfl
  have hp : s'.links.prev = s.links.prev := by
    funext j
    simp only [State.links, hbufs]
    split_ifs with hj
    · simp [hj, hb, hprev]
    · rfl
  exact congrArg₂ Links.mk hn hp

theorem links_setBuf {i : ℕ} {b c : Buffer} (hb : s.buf? i = some b)
    (hnext : c.next = b.next) (hprev : c.prev = b.prev) :
    (s.setBuf i c).links = s.links :=
  links_of_set hb (fun j => buf?_setBuf hb c j) hnext hprev

theorem links_releasePhysical {i : ℕ} (h : releasePhysical s i = some s') :
    s'.links = s.links := by
  obtain ⟨-, b, hb, hbufs⟩ := releasePhysical_eq_some h
  exact links_of_set hb hbufs rfl rfl

theorem links_retainPhysical (s : State) (physical : Option ℕ) :
    (retainPhysical s physical).links = s.links := by
  cases physical <;> rfl

theorem links_takeView {i rhs : ℕ} (h : takeView s i rhs = some s') :
    s'.links = s.links := by
  simp only [takeView, Option.bind_eq_bind, Option.bind_eq_some_iff] at h
  obtain ⟨r, -, h⟩ := h
  obtain ⟨b, hb, rfl⟩ := modifyBuf_eq_some h
  exact links_setBuf hb rfl rfl

theorem links_storeAt (s : State) (b : Buffer) (pos : ℕ) (src : ℕ → UInt8)
    (len : ℕ) : (s.storeAt b pos src len).links = s.links := by
  unfold State.storeAt
  cases b.physical <;> rfl

theorem links_replaceStorage {i cap : ℕ} {b : Buffer}
    (hb : s.buf? i = some b)
    (h : replaceStorage uninit s i b cap = some s') : s'.links = s.links := by
  obtain ⟨-, -, p, -, hbufs⟩ := replaceStorage_eq_some hb h
  exact links_of_set hb hbufs rfl rfl

theorem links_cowDetach {i : ℕ} (h : cowDetach uninit s i = some s') :
    s'.links = s.links := by
  simp only [cowDetach, Option.bind_eq_bind, Option.bind_eq_some_iff] at h
  obtain ⟨b, hb, h⟩ := h
  split_ifs at h
  · exact links_replaceStorage hb h
  · rw [← Option.some.inj h]

theorem links_ensureTailroom {i n : ℕ}
    (h : ensureTailroom uninit s i n = some s') : s'.links = s.links := by
  simp only [ensureTailroom, Option.bind_eq_bind,
    Option.bind_eq_some_iff] at h
  obtain ⟨b, hb, h⟩ := h
  split_ifs at h
  · exact links_replaceStorage hb h
  · rw [← Option.some.inj h]

theorem links_write {c c' : Cursor} {src : ByteBuffer} {fuel : ℕ}
    (h : write uninit s c src fuel = some (s', c')) : s'.links = s.links := by
  induction fuel generalizing s c src with
  | zero => cases h
  | succ fuel ih =>
      cases src with
      | nil =>
          simp only [write, Option.some.injEq, Prod.mk.injEq] at h
          rw [h.1]
      | cons byte src =>
          simp only [write, Option.bind_eq_bind,
            Option.bind_eq_some_iff] at h
          obtain ⟨done, -, h⟩ := h
          split_ifs at h
          · rw [(Prod.mk.inj (Option.some.inj h)).1]
          · simp only [Option.bind_eq_some_iff] at h
            obtain ⟨s₁, h₁, b, -, c₁, -, h₂⟩ := h
            rw [ih h₂, links_storeAt, links_cowDetach h₁]

theorem links_writableData {i pos : ℕ} {bytes : ByteBuffer}
    (h : writableData uninit s i pos bytes = some s') :
    s'.links = s.links := by
  simp only [writableData, Option.bind_eq_bind,
    Option.bind_eq_some_iff, Option.ite_none_right_eq_some] at h
  obtain ⟨s₁, h₁, b, -, -, h⟩ := h
  rw [← Option.some.inj h, links_storeAt, links_cowDetach h₁]

theorem links_appendData {i : ℕ} {bytes : ByteBuffer}
    (h : appendData uninit s i bytes = some s') : s'.links = s.links := by
  simp only [appendData, Option.bind_eq_bind,
    Option.bind_eq_some_iff] at h
  obtain ⟨s₁, h₁, b, hb, h⟩ := h
  have hstored : (s₁.storeAt b b.length (fun k => bytes.getD k 0)
      bytes.length).buf? i = some b := by
    unfold State.storeAt
    cases b.physical <;> exact hb
  have hset := links_setBuf
    (c := { b with length := addSize b.length bytes.length }) hstored rfl rfl
  rw [← Option.some.inj h, hset, links_storeAt, links_ensureTailroom h₁]

theorem links_reserve {i newCap : ℕ}
    (h : reserve uninit s i newCap = some s') : s'.links = s.links := by
  simp only [reserve, Option.bind_eq_bind, Option.bind_eq_some_iff] at h
  obtain ⟨b, -, h⟩ := h
  split_ifs at h
  · rw [← Option.some.inj h]
  · exact links_ensureTailroom h

/-- Trimming and growing change the place and the length of a view only. -/
theorem links_resize {i : ℕ} {p : Buffer → Prop} [DecidablePred p]
    {f : Buffer → Buffer} (hnext : ∀ b, (f b).next = b.next)
    (hprev : ∀ b, (f b).prev = b.prev)
    (h : ((s.buf? i).bind fun b =>
      if p b then some (s.setBuf i (f b)) else none) = some s') :
    s'.links = s.links := by
  simp only [Option.bind_eq_some_iff, Option.ite_none_right_eq_some] at h
  obtain ⟨b, hb, -, h⟩ := h
  rw [← Option.some.inj h, links_setBuf hb (hnext b) (hprev b)]

/-! ## Edits of the links -/

theorem links_modifyBuf {i : ℕ} {f : Buffer → Buffer}
    (h : s.modifyBuf i f = some s') :
    ∃ b, s.buf? i = some b ∧
      s'.links.next = Function.update s.links.next i (some (f b).next) ∧
      s'.links.prev = Function.update s.links.prev i (some (f b).prev) := by
  obtain ⟨b, hb, rfl⟩ := modifyBuf_eq_some h
  refine ⟨b, hb, ?_, ?_⟩
  all_goals
    funext j
    simp only [State.links, buf?_setBuf hb]
    by_cases hj : j = i <;> simp [hj]

theorem links_setNext {i v : ℕ} (h : setNext s i v = some s') :
    s'.links.next = Function.update s.links.next i (some v) ∧
      s'.links.prev = s.links.prev := by
  obtain ⟨b, hb, hnext, hprev⟩ := links_modifyBuf h
  refine ⟨hnext, ?_⟩
  rw [hprev, Function.update_eq_self_iff]
  exact (prev_of_buf? hb).symm

theorem links_setPrev {i v : ℕ} (h : setPrev s i v = some s') :
    s'.links.next = s.links.next ∧
      s'.links.prev = Function.update s.links.prev i (some v) := by
  obtain ⟨b, hb, hnext, hprev⟩ := links_modifyBuf h
  refine ⟨?_, hprev⟩
  rw [hnext, Function.update_eq_self_iff]
  exact (next_of_buf? hb).symm

/-- Setting the two ends of a link. -/
theorem links_link {s₁ : State} {a b : ℕ} (h₁ : setNext s a b = some s₁)
    (h₂ : setPrev s₁ b a = some s') : s'.links = s.links.link a b := by
  obtain ⟨hn₁, hp₁⟩ := links_setNext h₁
  obtain ⟨hn₂, hp₂⟩ := links_setPrev h₂
  exact congrArg₂ Links.mk (hn₂.trans hn₁) (hp₂.trans (by rw [hp₁]))

theorem links_makeSelfRing {i : ℕ} (h : makeSelfRing s i = some s') :
    s'.links = s.links.link i i := by
  obtain ⟨b, -, hnext, hprev⟩ := links_modifyBuf h
  exact congrArg₂ Links.mk hnext hprev

theorem links_clearMoved {i : ℕ} (h : clearMoved s i = some s') :
    s'.links = s.links.link i i := by
  obtain ⟨b, -, hnext, hprev⟩ := links_modifyBuf h
  exact congrArg₂ Links.mk hnext hprev

theorem buf?_length (s : State) : s.buf? s.bufs.length = none := by
  simp [State.buf?]

theorem not_live_length (s : State) : ¬ s.links.Live s.bufs.length := by
  simp [Links.Live, State.links, buf?_length]

theorem links_newBuffer (s : State) (physical : Option ℕ)
    (data length : ℕ) :
    (newBuffer s physical data length).links =
      s.links.link s.bufs.length s.bufs.length := by
  have hbuf := buf?_newBuffer s physical data length
  have hnext : (newBuffer s physical data length).links.next =
      Function.update s.links.next s.bufs.length (some s.bufs.length) := by
    funext j
    simp only [State.links, hbuf]
    by_cases hj : j = s.bufs.length <;> simp [hj]
  have hprev : (newBuffer s physical data length).links.prev =
      Function.update s.links.prev s.bufs.length (some s.bufs.length) := by
    funext j
    simp only [State.links, hbuf]
    by_cases hj : j = s.bufs.length <;> simp [hj]
  exact congrArg₂ Links.mk hnext hprev

theorem links_erase (s : State) (i : ℕ) :
    { s with bufs := s.bufs.set i none }.links = s.links.clear i := by
  have hbuf : ∀ j, { s with bufs := s.bufs.set i none }.buf? j =
      if j = i then none else s.buf? j := by
    intro j
    by_cases hj : j = i
    · subst hj
      rw [if_pos rfl]
      simp only [State.buf?, List.getElem?_set_self']
      cases s.bufs[j]? <;> rfl
    · simp [State.buf?, List.getElem?_set_ne (Ne.symm hj), hj]
  have hnext : { s with bufs := s.bufs.set i none }.links.next =
      Function.update s.links.next i none := by
    funext j
    simp only [State.links, hbuf]
    by_cases hj : j = i <;> simp [hj]
  have hprev : { s with bufs := s.bufs.set i none }.links.prev =
      Function.update s.links.prev i none := by
    funext j
    simp only [State.links, hbuf]
    by_cases hj : j = i <;> simp [hj]
  exact congrArg₂ Links.mk hnext hprev

theorem links_unlinkFromRing {i : ℕ} (h : unlinkFromRing s i = some s') :
    ∃ b, s.buf? i = some b ∧ s'.links = s.links.link b.prev b.next := by
  simp only [unlinkFromRing, Option.bind_eq_bind,
    Option.bind_eq_some_iff] at h
  obtain ⟨b, hb, s₁, h₁, b', hb', h₂⟩ := h
  refine ⟨b, hb, ?_⟩
  obtain ⟨hn₁, hp₁⟩ := links_setNext h₁
  -- The buffer is read again, and still has its links.
  have hprev : b'.prev = b.prev := by
    have hread := prev_of_buf? hb'
    rw [hp₁, prev_of_buf? hb] at hread
    exact (Option.some.inj hread).symm
  have hnext : b'.next = b.next := by
    have hread := next_of_buf? hb'
    rw [hn₁] at hread
    by_cases hi : i = b.prev
    · rw [hi, Function.update_self] at hread
      exact (Option.some.inj hread).symm
    · rw [Function.update_of_ne hi, next_of_buf? hb] at hread
      exact (Option.some.inj hread).symm
  rw [hnext, hprev] at h₂
  exact links_link h₁ h₂

/-- What `StealRingPosition` makes of the links. -/
theorem links_stealRingPosition {i rhs : ℕ}
    (h : stealRingPosition s i rhs = some s') :
    ∃ r, s.buf? rhs = some r ∧
      (r.next = rhs → s'.links = s.links.link i i) ∧
      (r.next ≠ rhs → r.next ≠ i →
        s'.links = (s.links.link i r.next).link r.prev i) := by
  simp only [stealRingPosition, Option.bind_eq_bind,
    Option.bind_eq_some_iff] at h
  obtain ⟨r, hr, h⟩ := h
  refine ⟨r, hr, fun halone => ?_, fun hchained hne => ?_⟩
  · have hno : ¬ isChained rhs r = true := by simp [isChained, halone]
    rw [if_neg hno] at h
    exact links_makeSelfRing h
  · have hyes : isChained rhs r = true := by simp [isChained, hchained]
    rw [if_pos hyes] at h
    simp only [Option.bind_eq_some_iff] at h
    obtain ⟨s₁, h₁, s₂, h₂, b, hb, h₃⟩ := h
    obtain ⟨c, -, hn₁, hp₁⟩ := links_modifyBuf h₁
    obtain ⟨hn₂, hp₂⟩ := links_setPrev h₂
    obtain ⟨hn₃, hp₃⟩ := links_setNext h₃
    have hprev : b.prev = r.prev := by
      have hread := prev_of_buf? hb
      rw [hp₂, Function.update_of_ne (Ne.symm hne), hp₁,
        Function.update_self] at hread
      exact (Option.some.inj hread).symm
    rw [hprev, hn₂, hn₁] at hn₃
    rw [hp₂, hp₁, Function.update_comm (Ne.symm hne)] at hp₃
    exact congrArg₂ Links.mk hn₃ hp₃

theorem links_appendChain {i other : ℕ}
    (h : appendChain s i other = some s') :
    ∃ b o, s.buf? i = some b ∧ s.buf? other = some o ∧
      s'.links = (s.links.link b.prev other).link o.prev i := by
  simp only [appendChain, Option.bind_eq_bind,
    Option.ite_none_left_eq_some, Option.bind_eq_some_iff] at h
  obtain ⟨-, b, hb, o, ho, s₁, h₁, s₂, h₂, s₃, h₃, h₄⟩ := h
  refine ⟨b, o, hb, ho, ?_⟩
  rw [links_link h₃ h₄, links_link h₁ h₂]

theorem links_prependChain {i other : ℕ}
    (h : prependChain s i other = some s') :
    ∃ b o, s.buf? i = some b ∧ s.buf? other = some o ∧
      (b.prev ≠ o.prev →
        s'.links = (s.links.link b.prev other).link o.prev i) := by
  simp only [prependChain, Option.bind_eq_bind,
    Option.ite_none_left_eq_some, Option.bind_eq_some_iff] at h
  obtain ⟨-, o, ho, s₁, h₁, b, hb, s₂, h₂, s₃, h₃, h₄⟩ := h
  obtain ⟨hn₁, hp₁⟩ := links_setNext h₁
  obtain ⟨hn₂, hp₂⟩ := links_setNext h₂
  obtain ⟨hn₃, hp₃⟩ := links_setPrev h₃
  obtain ⟨hn₄, hp₄⟩ := links_setPrev h₄
  obtain ⟨b₀, hb₀⟩ : ∃ b₀, s.buf? i = some b₀ := by
    have hread := prev_of_buf? hb
    rw [hp₁, State.links, Option.map_eq_some_iff] at hread
    obtain ⟨b₀, hb₀, -⟩ := hread
    exact ⟨b₀, hb₀⟩
  have hprev : b.prev = b₀.prev := by
    have hread := prev_of_buf? hb
    rw [hp₁, prev_of_buf? hb₀] at hread
    exact (Option.some.inj hread).symm
  refine ⟨b₀, o, hb₀, ho, fun hne => ?_⟩
  rw [hprev] at hn₂ hp₃
  rw [hn₃, hn₂, hn₁, Function.update_comm (Ne.symm hne)] at hn₄
  rw [hp₃, hp₂, hp₁] at hp₄
  exact congrArg₂ Links.mk hn₄ hp₄

/-! ## New buffers -/

theorem live_iff {i : ℕ} : s.links.Live i ↔ ∃ b, s.buf? i = some b := by
  cases hb : s.buf? i <;> simp [Links.Live, State.links, hb]

/-- The links after a buffer is added to storage prepared for it. -/
theorem links_newBuffer_of_bufs {s₁ : State} (h : s₁.bufs = s.bufs)
    (physical : Option ℕ) (data length : ℕ) :
    (newBuffer s₁ physical data length).links =
      s.links.link s.bufs.length s.bufs.length := by
  rw [links_newBuffer, links_of_bufs h, h]

theorem links_create {cap : ℕ} (h : create uninit s cap = some s') :
    s'.links = s.links.link s.bufs.length s.bufs.length := by
  simp only [create, Option.bind_eq_bind, Option.bind_eq_some_iff] at h
  obtain ⟨⟨p, s₁⟩, hphys, h⟩ := h
  rw [← Option.some.inj h]
  exact links_newBuffer_of_bufs (createPhysical_eq_some hphys).2.1 _ _ _

theorem links_copyFrom {src : ℕ → UInt8} {len : ℕ}
    (h : copyFrom uninit s src len = some s') :
    s'.links = s.links.link s.bufs.length s.bufs.length := by
  simp only [copyFrom, Option.bind_eq_bind, Option.bind_eq_some_iff] at h
  obtain ⟨⟨p, s₁⟩, hphys, h⟩ := h
  rw [← Option.some.inj h]
  have hbufs : (s₁.modifyPhys p fun ph => ph.store 0 src len).bufs = s.bufs :=
    (createPhysical_eq_some hphys).2.1
  exact links_newBuffer_of_bufs hbufs _ _ _

theorem links_wrapExternal {bytes : ByteBuffer} {freeFn : Bool}
    (h : wrapExternal s bytes freeFn = some s') :
    s'.links = s.links.link s.bufs.length s.bufs.length := by
  simp only [wrapExternal, Option.bind_eq_bind,
    Option.bind_eq_some_iff] at h
  obtain ⟨⟨p, s₁⟩, hphys, h⟩ := h
  rw [← Option.some.inj h]
  exact links_newBuffer_of_bufs (createExternal_eq_some hphys).2.1 _ _ _

theorem retainPhysical_bufs (s : State) (physical : Option ℕ) :
    (retainPhysical s physical).bufs = s.bufs := by
  cases physical <;> rfl

theorem links_copyConstruct {rhs : ℕ}
    (h : copyConstruct s rhs = some s') :
    s'.links = s.links.link s.bufs.length s.bufs.length := by
  simp only [copyConstruct, Option.bind_eq_bind,
    Option.bind_eq_some_iff] at h
  obtain ⟨r, -, h⟩ := h
  rw [← Option.some.inj h]
  exact links_newBuffer_of_bufs (retainPhysical_bufs s r.physical) _ _ _

theorem links_slice {i offset len : ℕ}
    (h : slice s i offset len = some s') :
    s'.links = s.links.link s.bufs.length s.bufs.length := by
  simp only [slice, Option.bind_eq_bind, Option.bind_eq_some_iff,
    Option.ite_none_right_eq_some, Option.some.injEq] at h
  obtain ⟨b, -, -, h⟩ := h
  rw [← h]
  exact links_newBuffer_of_bufs (retainPhysical_bufs s b.physical) _ _ _

theorem links_sliceFrom {i offset : ℕ}
    (h : sliceFrom s i offset = some s') :
    s'.links = s.links.link s.bufs.length s.bufs.length := by
  simp only [sliceFrom, Option.bind_eq_bind, Option.bind_eq_some_iff] at h
  obtain ⟨b, -, h⟩ := h
  exact links_slice h

theorem links_clone {i : ℕ} (h : clone uninit s i = some s') :
    s'.links = s.links.link s.bufs.length s.bufs.length := by
  simp only [clone, Option.bind_eq_bind, Option.bind_eq_some_iff] at h
  obtain ⟨b, -, h⟩ := h
  split_ifs at h
  · rw [← Option.some.inj h, links_newBuffer]
  · exact links_copyFrom h

theorem links_coalesceChain {i fuel : ℕ}
    (h : coalesceChain uninit s i fuel = some s') :
    s'.links = s.links.link s.bufs.length s.bufs.length := by
  simp only [coalesceChain, Option.bind_eq_bind,
    Option.bind_eq_some_iff] at h
  obtain ⟨nodes, -, h⟩ := h
  split_ifs at h
  · rw [← Option.some.inj h, links_newBuffer]
  · simp only [Option.bind_eq_some_iff] at h
    obtain ⟨⟨p, s₁⟩, hphys, s₂, hinto, h⟩ := h
    rw [← Option.some.inj h]
    have hbufs : s₂.bufs = s.bufs :=
      (coalesceInto_eq_some hinto).1.trans (createPhysical_eq_some hphys).2.1
    exact links_newBuffer_of_bufs hbufs _ _ _

/-! ## Nodes taken out -/

theorem links_unlink {i : ℕ} (h : unlink s i = some s') :
    ∃ b, s.buf? i = some b ∧
      (b.next = i → s'.links = s.links) ∧
      (b.next ≠ i → s'.links = (s.links.link b.prev b.next).link i i) := by
  simp only [unlink, Option.bind_eq_bind, Option.bind_eq_some_iff] at h
  obtain ⟨b, hb, h⟩ := h
  refine ⟨b, hb, fun halone => ?_, fun hchained => ?_⟩
  · have hno : ¬ isChained i b = true := by simp [isChained, halone]
    rw [if_neg hno] at h
    rw [← Option.some.inj h]
  · have hyes : isChained i b = true := by simp [isChained, hchained]
    rw [if_pos hyes] at h
    obtain ⟨s₁, h₁, h₂⟩ := Option.bind_eq_some_iff.mp h
    obtain ⟨b', hb', hlinks⟩ := links_unlinkFromRing h₁
    obtain rfl := Option.some.inj (hb.symm.trans hb')
    rw [links_makeSelfRing h₂, hlinks]

theorem links_copyAssign {i rhs : ℕ} (hne : i ≠ rhs)
    (h : copyAssign s i rhs = some s') :
    ∃ b, s.buf? i = some b ∧
      s'.links = (s.links.link b.prev b.next).link i i := by
  simp only [copyAssign, if_neg hne, Option.bind_eq_bind,
    Option.bind_eq_some_iff] at h
  obtain ⟨s₁, h₁, s₂, h₂, s₃, h₃, c, -, h₄⟩ := h
  obtain ⟨b, hb, hlinks⟩ := links_unlinkFromRing h₁
  refine ⟨b, hb, ?_⟩
  rw [links_makeSelfRing h₄, links_retainPhysical, links_takeView h₃,
    links_releasePhysical h₂, hlinks]

theorem links_destroy {i : ℕ} (h : destroy s i = some s') :
    ∃ b, s.buf? i = some b ∧
      s'.links = (s.links.link b.prev b.next).clear i := by
  simp only [destroy, Option.bind_eq_bind, Option.bind_eq_some_iff] at h
  obtain ⟨s₁, h₁, s₂, h₂, h₃⟩ := h
  obtain ⟨b, hb, hlinks⟩ := links_unlinkFromRing h₁
  refine ⟨b, hb, ?_⟩
  rw [← Option.some.inj h₃, links_erase, links_releasePhysical h₂, hlinks]

/-! ## Nodes that take the place of others -/

/-- `StealRingPosition` and the clean-up of the source put `i` in the place
of `rhs`. -/
theorem seats_steal {s₁ : State} {i rhs : ℕ} {t : List ℕ}
    (hne : i ≠ rhs) (ht : s.links.IsRing rhs t) (hit : i ∉ rhs :: t)
    (h : stealRingPosition s i rhs = some s₁)
    (h' : clearMoved s₁ rhs = some s') :
    Links.Seats s.links s'.links i rhs ∧
      ∀ a, s'.links.Live a → a ≠ i → s.links.Live a := by
  obtain ⟨r, hr, halone, hchained⟩ := links_stealRingPosition h
  have hnext := next_of_buf? hr
  have hrhs : s.links.Live rhs := ht.live List.mem_cons_self
  rw [links_clearMoved h']
  cases t with
  | nil =>
      have hself := Option.some.inj (hnext.symm.trans ht.path.1)
      rw [halone hself]
      refine ⟨Links.seats_alone ht hne, fun a ha hai => ?_⟩
      rcases Links.live_link ha with rfl | rfl | ha
      · exact hrhs
      · exact hrhs
      · simpa [hai] using Links.live_link ha
  | cons x t =>
      obtain rfl := Option.some.inj (hnext.symm.trans ht.next_eq)
      have hx : r.next ≠ rhs := by
        intro heq
        exact (List.nodup_cons.mp ht.nodup).1 (by simp [heq])
      have hxi : r.next ≠ i := by
        intro heq
        exact hit (by simp [heq])
      rw [hchained hx hxi]
      refine ⟨Links.seats_replace ht hit (prev_of_buf? hr),
        fun a ha hai => ?_⟩
      rcases Links.live_link ha with rfl | rfl | ha
      · exact hrhs
      · exact hrhs
      · rcases Links.live_link ha with rfl | heq | ha
        · exact ht.live_prev (prev_of_buf? hr)
        · exact absurd heq hai
        · rcases Links.live_link ha with heq | rfl | ha
          · exact absurd heq hai
          · exact ht.live_next hnext
          · exact ha

end Links

/-! ## Effects on rings -/

/-- Rings that meet none of the nodes stay as they are. -/
def Spares (g g' : Links ℕ) (nodes : List ℕ) : Prop :=
  ∀ a t, g.IsRing a t → (∀ x ∈ nodes, x ∉ a :: t) → g'.IsRing a t

/-- Only a node of another ring is spliced, and no ring is split or destroyed
as a whole. -/
def KeepsRings (s : State) : Action → Prop
  | .appendChain i other | .prependChain i other =>
      ∀ l, s.links.IsRing i l → other ∉ i :: l
  | .splitChainAfter _ | .destroyChain _ _ => False
  | _ => True

/-- What an operation makes of the rings; the next new buffer is `n`. -/
def RingEffect (g g' : Links ℕ) (n : ℕ) : Action → Prop
  | .default | .create _ | .copyFrom _ | .wrapExternal _ _
  | .copyConstruct _ | .coalesceChain _ _ | .slice _ _ _ | .sliceFrom _ _
  | .clone _ => g'.IsRing n [] ∧ Spares g g' []
  | .moveConstruct rhs =>
      (∀ t, g.IsRing rhs t → g'.IsRing n t) ∧ g'.IsRing rhs [] ∧
        Spares g g' [rhs]
  | .copyAssign i rhs =>
      if i = rhs then g' = g else g'.IsRing i [] ∧ g.Removes g' i
  | .moveAssign i rhs =>
      if i = rhs then g' = g
      else
        (∀ t, g.IsRing rhs t → g'.IsRing i (t.erase i)) ∧ g'.IsRing rhs [] ∧
          ∀ a t, a ≠ i → g.IsRing a t → rhs ∉ a :: t →
            g'.IsRing a (t.erase i)
  | .destroy i => ¬ g'.Live i ∧ g.Removes g' i
  | .appendChain i other =>
      (∀ l m, g.IsRing i l → g.IsRing other m →
        g'.IsRing i (l ++ other :: m)) ∧ Spares g g' [i, other]
  | .prependChain i other =>
      (∀ l m, g.IsRing i l → g.IsRing other m →
        g'.IsRing other (m ++ i :: l)) ∧ Spares g g' [i, other]
  | .unlink i => g'.IsRing i [] ∧ g.Removes g' i
  | .splitChainAfter _ | .destroyChain _ _ => True
  | _ => g' = g

/-- The links of the live buffers are rings of live buffers. -/
structure RingsOk (s : State) : Prop where
  inverse : ∀ i j, s.links.next i = some j ↔ s.links.prev j = some i
  onOneRing : ∀ i b, s.buf? i = some b → ∃! l, s.links.IsRing i l
  alive : ∀ i l j, s.links.IsRing i l → j ∈ i :: l →
    ∃ b, s.buf? j = some b

section Effects

variable {s s' : State} {uninit : ℕ → ℕ → UInt8}

theorem ringsOk_of_rings (h : s.links.Rings) : RingsOk s := by
  refine ⟨fun i j => h.next_eq_some_iff, fun i b hb => ?_, ?_⟩
  · obtain ⟨l, hl⟩ := h i (live_iff.mpr ⟨b, hb⟩)
    exact ⟨l, hl, fun m hm => hm.unique hl⟩
  · intro i l j hl hj
    exact live_iff.mp (hl.live hj)

/-- A new buffer is a ring of its own. -/
theorem rings_new (hs : s.links.Rings)
    (h : s'.links = s.links.link s.bufs.length s.bufs.length) :
    s'.links.Rings ∧ s'.links.IsRing s.bufs.length [] ∧
      Spares s.links s'.links [] := by
  rw [h]
  refine ⟨hs.link_fresh (not_live_length s), Links.isRing_link_self _ _, ?_⟩
  exact fun a t ht _ => ht.link_fresh (not_live_length s)

theorem rings_moveConstruct (hs : s.links.Rings) {rhs : ℕ}
    (h : moveConstruct s rhs = some s') :
    s'.links.Rings ∧ RingEffect s.links s'.links s.bufs.length
      (.moveConstruct rhs) := by
  simp only [moveConstruct, Option.bind_eq_bind,
    Option.bind_eq_some_iff] at h
  obtain ⟨r, hr, s₂, h₂, h₃⟩ := h
  obtain ⟨t, ht⟩ := hs rhs (live_iff.mpr ⟨r, hr⟩)
  have hlinks := links_newBuffer s r.physical r.data r.length
  generalize hs₁ : newBuffer s r.physical r.data r.length = s₁ at h₂ hlinks
  obtain ⟨hrings, hself, hspares⟩ := rings_new hs hlinks
  have hfresh : ∀ a u, s.links.IsRing a u → s.bufs.length ∉ a :: u :=
    fun a u hu hmem => not_live_length s (hu.live hmem)
  have ht₁ := hspares rhs t ht (by simp)
  have hne : s.bufs.length ≠ rhs := fun heq => hfresh rhs t ht (by simp [heq])
  obtain ⟨hseats, hlive⟩ := seats_steal hne ht₁ (hfresh rhs t ht) h₂ h₃
  refine ⟨hseats.rings ht₁ fun a ha hne => ?_, ?_, hseats.left, ?_⟩
  · -- The new buffer is not on the ring of an old one.
    obtain ⟨u, hu⟩ := hrings a (hlive a ha hne)
    refine ⟨u, hu, fun hmem => ?_⟩
    have hin := hself.mem_of_mem hu List.mem_cons_self hmem
      List.mem_cons_self
    exact hne (by simpa using hin)
  · exact fun u hu => hseats.seat u (hspares rhs u hu (by simp))
  · intro a u hu hmem
    exact hseats.others a u (hspares a u hu (by simp)) (hmem rhs (by simp))
      (hfresh a u hu)

theorem rings_moveAssign (hs : s.links.Rings) {i rhs : ℕ}
    (h : moveAssign s i rhs = some s') :
    s'.links.Rings ∧ RingEffect s.links s'.links s.bufs.length
      (.moveAssign i rhs) := by
  by_cases hne : i = rhs
  · simp only [moveAssign, if_pos hne, Option.some.injEq] at h
    simp only [RingEffect, if_pos hne]
    exact ⟨h ▸ hs, by rw [h]⟩
  · simp only [moveAssign, if_neg hne, Option.bind_eq_bind,
      Option.bind_eq_some_iff] at h
    obtain ⟨s₁, h₁, s₂, h₂, s₃, h₃, s₄, h₄, h₅⟩ := h
    obtain ⟨b, hb, hlinks⟩ := links_unlinkFromRing h₁
    have hlinks₃ : s₃.links = s.links.link b.prev b.next := by
      rw [links_takeView h₃, links_releasePhysical h₂, hlinks]
    obtain ⟨l, hi⟩ := hs i (live_iff.mpr ⟨b, hb⟩)
    -- Once `i` is out of its ring, the others do not see it.
    have hout : ∀ a u, a ≠ i → s.links.IsRing a u →
        s₃.links.IsRing a (u.erase i) := by
      intro a u hai hu
      rw [hlinks₃]
      exact hu.unlink_erase hi hai (next_of_buf? hb) (prev_of_buf? hb)
    obtain ⟨r, hr⟩ : ∃ r, s.buf? rhs = some r := by
      simp only [takeView, Option.bind_eq_bind,
        Option.bind_eq_some_iff] at h₃
      obtain ⟨r, hr, -⟩ := h₃
      have hlive : s₂.links.Live rhs := live_iff.mpr ⟨r, hr⟩
      rw [links_releasePhysical h₂, hlinks] at hlive
      rcases Links.live_link hlive with rfl | rfl | hlive
      · exact live_iff.mp (hi.live_prev (prev_of_buf? hb))
      · exact live_iff.mp (hi.live_next (next_of_buf? hb))
      · exact live_iff.mp hlive
    obtain ⟨t, ht⟩ := hs rhs (live_iff.mpr ⟨r, hr⟩)
    have hit := ht.notMem_erase (Ne.symm hne)
    have ht₃ := hout rhs t (Ne.symm hne) ht
    obtain ⟨hseats, hlive⟩ := seats_steal hne ht₃ hit h₄ h₅
    refine ⟨hseats.rings ht₃ fun a ha hai => ?_, ?_⟩
    · have hlive₃ := hlive a ha hai
      rw [hlinks₃] at hlive₃
      have hlive₀ : s.links.Live a := by
        rcases Links.live_link hlive₃ with rfl | rfl | hlive
        · exact hi.live_prev (prev_of_buf? hb)
        · exact hi.live_next (next_of_buf? hb)
        · exact hlive
      obtain ⟨u, hu⟩ := hs a hlive₀
      exact ⟨u.erase i, hout a u hai hu, hu.notMem_erase hai⟩
    · simp only [RingEffect, if_neg hne]
      refine ⟨fun u hu => ?_, hseats.left, fun a u hai hu hmem => ?_⟩
      · exact hseats.seat _ (hout rhs u (Ne.symm hne) hu)
      · apply hseats.others a _ (hout a u hai hu)
        · intro hin
          apply hmem
          rcases List.mem_cons.mp hin with heq | hin
          · exact heq ▸ List.mem_cons_self
          · exact List.mem_cons_of_mem a (List.mem_of_mem_erase hin)
        · exact hu.notMem_erase hai

/-- A node linked out of its ring and to itself. -/
theorem rings_detach (hs : s.links.Rings) {i : ℕ} {b : Buffer}
    (hb : s.buf? i = some b)
    (h : s'.links = (s.links.link b.prev b.next).link i i) :
    s'.links.Rings ∧ s'.links.IsRing i [] ∧ s.links.Removes s'.links i := by
  obtain ⟨l, hi⟩ := hs i (live_iff.mpr ⟨b, hb⟩)
  rw [h]
  exact ⟨hs.link_self (next_of_buf? hb) (prev_of_buf? hb),
    Links.isRing_link_self _ i,
    Links.removes_link_self hi (next_of_buf? hb) (prev_of_buf? hb)⟩

theorem rings_unlink (hs : s.links.Rings) {i : ℕ}
    (h : unlink s i = some s') :
    s'.links.Rings ∧ s'.links.IsRing i [] ∧ s.links.Removes s'.links i := by
  obtain ⟨b, hb, halone, hchained⟩ := links_unlink h
  by_cases hnext : b.next = i
  · -- The node is alone already, so no other ring has it.
    have hself : s.links.IsRing i [] := by
      have hadj : s.links.next i = some i := by rw [next_of_buf? hb, hnext]
      exact Links.isRing_nil.mpr ⟨hadj, hs.next_eq_some_iff.mp hadj⟩
    rw [halone hnext]
    refine ⟨hs, hself, fun a t hai ht => ?_⟩
    have hmem : i ∉ t := by
      intro hin
      have hain := hself.mem_of_mem ht List.mem_cons_self
        (List.mem_cons_of_mem a hin) List.mem_cons_self
      exact hai (by simpa using hain)
    rw [List.erase_of_not_mem hmem]
    exact ht
  · exact rings_detach hs hb (hchained hnext)

theorem rings_copyAssign (hs : s.links.Rings) {i rhs : ℕ}
    (h : copyAssign s i rhs = some s') :
    s'.links.Rings ∧ RingEffect s.links s'.links s.bufs.length
      (.copyAssign i rhs) := by
  by_cases hne : i = rhs
  · simp only [copyAssign, if_pos hne, Option.some.injEq] at h
    simp only [RingEffect, if_pos hne]
    exact ⟨h ▸ hs, by rw [h]⟩
  · obtain ⟨b, hb, hlinks⟩ := links_copyAssign hne h
    simp only [RingEffect, if_neg hne]
    exact rings_detach hs hb hlinks

theorem rings_destroy (hs : s.links.Rings) {i : ℕ}
    (h : destroy s i = some s') :
    s'.links.Rings ∧ ¬ s'.links.Live i ∧ s.links.Removes s'.links i := by
  obtain ⟨b, hb, hlinks⟩ := links_destroy h
  obtain ⟨l, hi⟩ := hs i (live_iff.mpr ⟨b, hb⟩)
  rw [hlinks]
  refine ⟨hs.clear (next_of_buf? hb) (prev_of_buf? hb), ?_,
    Links.removes_clear hi (next_of_buf? hb) (prev_of_buf? hb)⟩
  exact fun hlive => (Links.live_clear hlive).1 rfl

/-- Both ways of splicing do the same to the rings. -/
theorem rings_splice (hs : s.links.Rings) {i other : ℕ} {b o : Buffer}
    (hb : s.buf? i = some b) (ho : s.buf? other = some o)
    (hdisj : ∀ l, s.links.IsRing i l → other ∉ i :: l)
    (h : s'.links = (s.links.link b.prev other).link o.prev i) :
    s'.links.Rings ∧
      (∀ l m, s.links.IsRing i l → s.links.IsRing other m →
        s'.links.IsRing i (l ++ other :: m)) ∧
      Spares s.links s'.links [i, other] := by
  obtain ⟨l, hi⟩ := hs i (live_iff.mpr ⟨b, hb⟩)
  obtain ⟨m, hj⟩ := hs other (live_iff.mpr ⟨o, ho⟩)
  have hp := prev_of_buf? hb
  have hq := prev_of_buf? ho
  rw [h]
  refine ⟨hs.splice hi hj (hdisj l hi) hp hq, fun l' m' hi' hj' => ?_, ?_⟩
  · have hapart : ∀ x ∈ i :: l', x ∉ other :: m' := fun x hx hx' =>
      hdisj l' hi' (hi'.mem_of_mem hj' hx hx' List.mem_cons_self)
    exact hi'.splice hj' hapart hp hq
  · intro a t ht hmem
    exact ht.splice_other hi hj (hmem i (by simp)) (hmem other (by simp)) hp hq

theorem rings_prependChain (hs : s.links.Rings) {i other : ℕ}
    (hdisj : ∀ l, s.links.IsRing i l → other ∉ i :: l)
    (h : prependChain s i other = some s') :
    s'.links.Rings ∧ RingEffect s.links s'.links s.bufs.length
      (.prependChain i other) := by
  obtain ⟨b, o, hb, ho, hlinks⟩ := links_prependChain h
  have hp := prev_of_buf? hb
  have hq := prev_of_buf? ho
  -- The rings are different, so their last nodes are.
  have hne : b.prev ≠ o.prev := by
    intro heq
    obtain ⟨l, hi⟩ := hs i (live_iff.mpr ⟨b, hb⟩)
    obtain ⟨m, hj⟩ := hs other (live_iff.mpr ⟨o, ho⟩)
    obtain ⟨p, hpl, hpp⟩ := hi.exists_prev
    obtain ⟨q, hqm, hqq⟩ := hj.exists_prev
    obtain rfl := Option.some.inj (hp.symm.trans hpp)
    obtain rfl := Option.some.inj (hq.symm.trans hqq)
    exact hdisj l hi (hi.mem_of_mem hj hpl (heq ▸ hqm) List.mem_cons_self)
  obtain ⟨hrings, hsplice, hspares⟩ :=
    rings_splice hs hb ho hdisj (hlinks hne)
  exact ⟨hrings, fun l m hi hj => (hsplice l m hi hj).rotate, hspares⟩

/-- An operation that does not touch the links. -/
theorem rings_same (hs : s.links.Rings) (h : s'.links = s.links) :
    s'.links.Rings ∧ s'.links = s.links :=
  ⟨h ▸ hs, h⟩

/-- One operation on rings. -/
theorem step_rings (hs : s.links.Rings) {a : Action} (ha : KeepsRings s a)
    (h : perform uninit s a = some s') :
    s'.links.Rings ∧ RingEffect s.links s'.links s.bufs.length a := by
  cases a with
  | default =>
      rw [← Option.some.inj h]
      exact rings_new hs (links_newBuffer s none 0 0)
  | create n => exact rings_new hs (links_create h)
  | copyFrom bytes => exact rings_new hs (links_copyFrom h)
  | wrapExternal bytes freeFn => exact rings_new hs (links_wrapExternal h)
  | copyConstruct rhs => exact rings_new hs (links_copyConstruct h)
  | moveConstruct rhs => exact rings_moveConstruct hs h
  | copyAssign i rhs => exact rings_copyAssign hs h
  | moveAssign i rhs => exact rings_moveAssign hs h
  | destroy i => exact rings_destroy hs h
  | appendChain i other =>
      obtain ⟨b, o, hb, ho, hlinks⟩ := links_appendChain h
      exact rings_splice hs hb ho ha hlinks
  | prependChain i other => exact rings_prependChain hs ha h
  | unlink i => exact rings_unlink hs h
  | splitChainAfter i => exact ha.elim
  | coalesceChain i fuel => exact rings_new hs (links_coalesceChain h)
  | destroyChain head fuel => exact ha.elim
  | writableData i pos bytes => exact rings_same hs (links_writableData h)
  | trimStart i n =>
      exact rings_same hs (links_resize (p := fun b => n ≤ b.length)
        (f := fun b =>
          { b with data := b.data + n, length := b.length - n })
        (fun _ => rfl) (fun _ => rfl) h)
  | trimEnd i n =>
      exact rings_same hs (links_resize (p := fun b => n ≤ b.length)
        (f := fun b => { b with length := b.length - n })
        (fun _ => rfl) (fun _ => rfl) h)
  | prepend i n =>
      exact rings_same hs (links_resize (p := fun b => n ≤ headroom b)
        (f := fun b =>
          { b with data := b.data - n, length := addSize b.length n })
        (fun _ => rfl) (fun _ => rfl) h)
  | append i n =>
      exact rings_same hs (links_resize (p := fun b => n ≤ tailroom s b)
        (f := fun b => { b with length := addSize b.length n })
        (fun _ => rfl) (fun _ => rfl) h)
  | appendData i bytes => exact rings_same hs (links_appendData h)
  | ensureTailroom i n => exact rings_same hs (links_ensureTailroom h)
  | reserve i n => exact rings_same hs (links_reserve h)
  | slice i offset len => exact rings_new hs (links_slice h)
  | sliceFrom i offset => exact rings_new hs (links_sliceFrom h)
  | clone i => exact rings_new hs (links_clone h)
  | newCursor head =>
      obtain ⟨b, -, rfl⟩ := Option.map_eq_some_iff.mp h
      exact rings_same hs rfl
  | cursorReset k =>
      obtain ⟨c, -, rfl⟩ := Option.map_eq_some_iff.mp h
      exact rings_same hs rfl
  | cursorSkip k len fuel =>
      simp only [perform, Option.bind_eq_bind, Option.bind_eq_some_iff] at h
      obtain ⟨c, -, c', -, h⟩ := h
      exact rings_same hs (by rw [← Option.some.inj h]; rfl)
  | cursorRead k len fuel =>
      simp only [perform, Option.bind_eq_bind, Option.bind_eq_some_iff] at h
      obtain ⟨c, -, ⟨c', bytes⟩, -, h⟩ := h
      exact rings_same hs (by rw [← Option.some.inj h]; rfl)
  | cursorWrite k src fuel =>
      simp only [perform, Option.bind_eq_bind, Option.bind_eq_some_iff] at h
      obtain ⟨c, -, ⟨s₁, c'⟩, hwrite, h⟩ := h
      have hlinks : s'.links = s₁.links := by rw [← Option.some.inj h]; rfl
      exact rings_same hs (hlinks.trans (links_write hwrite))

theorem init_rings : init.links.Rings := by
  intro a ha
  obtain ⟨b, hb⟩ := live_iff.mp ha
  simp [State.buf?, init] at hb

theorem reachable_rings
    (hs : Transition.ReachableVia (perform uninit) KeepsRings {init} s) :
    s.links.Rings := by
  apply hs.invariant (I := fun s => s.links.Rings)
  · rintro _ rfl
    exact init_rings
  · exact fun _ _ _ hrings ha h => (step_rings hrings ha h).1

end Effects

end Memory
end Yacul
