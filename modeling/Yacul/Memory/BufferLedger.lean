import Yacul.Memory.Sharing

/-!
# The reference ledger of buffers

Every public operation is a sequence of balanced edits of windows and counts:
ring operations are none, the others release, share, take over or replace
storage.  So the ledger holds in every state of a run, as long as no storage
gets as many references as its 32-bit count can tell apart.
-/

namespace Yacul
namespace Memory

/-- An operation seen from the storage. -/
abbrev Edits : Sharing → Sharing → Prop := Relation.ReflTransGen Edit

/-! ## Projections -/

theorem window?_sharing (s : State) (i : ℕ) :
    s.sharing.window? i = (s.buf? i).map Buffer.window := by
  simp only [Sharing.window?, State.sharing, State.buf?, List.getElem?_map]
  rcases s.bufs[i]? with _ | _ | b <;> rfl

theorem window?_of_buf? {s : State} {i : ℕ} {b : Buffer}
    (hb : s.buf? i = some b) : s.sharing.window? i = some b.window := by
  rw [window?_sharing, hb, Option.map_some]

@[simp] theorem sharing_setBuf (s : State) (i : ℕ) (b : Buffer) :
    (s.setBuf i b).sharing = s.sharing.setWindow i b.window := by
  simp [State.sharing, State.setBuf, Sharing.setWindow, List.map_set]

@[simp] theorem sharing_modifyPhys (s : State) (p : ℕ)
    (f : PhysicalBuffer → PhysicalBuffer) :
    (s.modifyPhys p f).sharing = s.sharing.update (some p) f := rfl

@[simp] theorem sharing_retainPhysical (s : State) (physical : Option ℕ) :
    (retainPhysical s physical).sharing =
      s.sharing.update physical PhysicalBuffer.retain := by
  cases physical <;> rfl

@[simp] theorem sharing_newBuffer (s : State) (physical : Option ℕ)
    (data length : ℕ) :
    (newBuffer s physical data length).sharing =
      s.sharing.push ⟨physical, data, length⟩ := by
  simp [State.sharing, newBuffer, Sharing.push, Buffer.window]

@[simp] theorem sharing_storeAt (s : State) (b : Buffer) (pos : ℕ)
    (src : ℕ → UInt8) (len : ℕ) :
    (s.storeAt b pos src len).sharing = s.sharing.update b.physical fun ph =>
      ph.store (b.data + pos) src len := by
  unfold State.storeAt
  cases b.physical <;> rfl

theorem Sharing.setWindow_self {t : Sharing} {i : ℕ} {w : Window}
    (hw : t.window? i = some w) : t.setWindow i w = t := by
  obtain ⟨hlt, hget⟩ := List.getElem?_eq_some_iff.mp (getElem?_of_window? hw)
  rw [setWindow, ← hget, List.set_getElem_self]

section Operations

variable {s s' : State} {uninit : ℕ → ℕ → UInt8}

/-! ## Rings -/

/-- Links are not seen from the storage. -/
theorem sharing_modifyLinks {i : ℕ} {f : Buffer → Buffer}
    (h : s.modifyBuf i f = some s') (hf : ∀ b, (f b).window = b.window) :
    s'.sharing = s.sharing := by
  obtain ⟨b, hb, rfl⟩ := modifyBuf_eq_some h
  rw [sharing_setBuf, hf]
  exact Sharing.setWindow_self (window?_of_buf? hb)

theorem sharing_setNext {i next : ℕ} (h : setNext s i next = some s') :
    s'.sharing = s.sharing := sharing_modifyLinks h fun _ => rfl

theorem sharing_setPrev {i prev : ℕ} (h : setPrev s i prev = some s') :
    s'.sharing = s.sharing := sharing_modifyLinks h fun _ => rfl

theorem sharing_makeSelfRing {i : ℕ} (h : makeSelfRing s i = some s') :
    s'.sharing = s.sharing := sharing_modifyLinks h fun _ => rfl

theorem sharing_unlinkFromRing {i : ℕ} (h : unlinkFromRing s i = some s') :
    s'.sharing = s.sharing := by
  simp only [unlinkFromRing, Option.bind_eq_bind,
    Option.bind_eq_some_iff] at h
  obtain ⟨b, -, s₁, h₁, b', -, h₂⟩ := h
  exact (sharing_setPrev h₂).trans (sharing_setNext h₁)

theorem sharing_stealRingPosition {i rhs : ℕ}
    (h : stealRingPosition s i rhs = some s') : s'.sharing = s.sharing := by
  simp only [stealRingPosition, Option.bind_eq_bind,
    Option.bind_eq_some_iff] at h
  obtain ⟨r, -, h⟩ := h
  split_ifs at h
  · simp only [Option.bind_eq_some_iff] at h
    obtain ⟨s₁, h₁, s₂, h₂, b, -, h₃⟩ := h
    have hs₁ : s₁.sharing = s.sharing := sharing_modifyLinks h₁ fun _ => rfl
    exact (sharing_setNext h₃).trans ((sharing_setPrev h₂).trans hs₁)
  · exact sharing_makeSelfRing h

theorem sharing_appendChain {i other : ℕ}
    (h : appendChain s i other = some s') : s'.sharing = s.sharing := by
  simp only [appendChain, Option.bind_eq_bind,
    Option.ite_none_left_eq_some, Option.bind_eq_some_iff] at h
  obtain ⟨-, b, -, o, -, s₁, h₁, s₂, h₂, s₃, h₃, h₄⟩ := h
  rw [sharing_setPrev h₄, sharing_setNext h₃, sharing_setPrev h₂,
    sharing_setNext h₁]

theorem sharing_prependChain {i other : ℕ}
    (h : prependChain s i other = some s') : s'.sharing = s.sharing := by
  simp only [prependChain, Option.bind_eq_bind,
    Option.ite_none_left_eq_some, Option.bind_eq_some_iff] at h
  obtain ⟨-, o, -, s₁, h₁, b, -, s₂, h₂, s₃, h₃, h₄⟩ := h
  rw [sharing_setPrev h₄, sharing_setPrev h₃, sharing_setNext h₂,
    sharing_setNext h₁]

theorem sharing_unlink {i : ℕ} (h : unlink s i = some s') :
    s'.sharing = s.sharing := by
  simp only [unlink, Option.bind_eq_bind, Option.bind_eq_some_iff] at h
  obtain ⟨b, -, h⟩ := h
  split_ifs at h
  · simp only [Option.bind_eq_some_iff] at h
    obtain ⟨s₁, h₁, h₂⟩ := h
    exact (sharing_makeSelfRing h₂).trans (sharing_unlinkFromRing h₁)
  · rw [← Option.some.inj h]

theorem sharing_splitChainAfter {i : ℕ}
    (h : splitChainAfter s i = some s') : s'.sharing = s.sharing := by
  simp only [splitChainAfter, Option.bind_eq_bind,
    Option.bind_eq_some_iff] at h
  obtain ⟨b, -, h⟩ := h
  split_ifs at h
  · simp only [Option.bind_eq_some_iff] at h
    obtain ⟨lh, -, s₁, h₁, s₂, h₂, s₃, h₃, h₄⟩ := h
    rw [sharing_setPrev h₄, sharing_setNext h₃, sharing_setPrev h₂,
      sharing_setNext h₁]
  · rw [← Option.some.inj h]

/-! ## Constructors and assignments -/

theorem sharing_releasePhysical {i : ℕ}
    (h : releasePhysical s i = some s') :
    ∃ b, s.buf? i = some b ∧ s'.sharing =
      (s.sharing.update b.physical PhysicalBuffer.release).setWindow i
        { b.window with physical := none } := by
  obtain ⟨b, hb, heq⟩ := Option.map_eq_some_iff.mp h
  refine ⟨b, hb, ?_⟩
  obtain ⟨physical, data, length, next, prev⟩ := b
  cases physical with
  | none =>
      obtain rfl : s = s' := heq
      exact (Sharing.setWindow_self (window?_of_buf? hb)).symm
  | some p =>
      obtain rfl : _ = s' := heq
      exact sharing_setBuf _ _ _

theorem edits_releasePhysical {i : ℕ} (h : releasePhysical s i = some s') :
    Edits s.sharing s'.sharing := by
  obtain ⟨b, hb, heq⟩ := sharing_releasePhysical h
  rw [heq]
  exact .single (.drop (window?_of_buf? hb))

theorem createPhysical_sharing {cap p : ℕ}
    (h : createPhysical uninit s cap = some (p, s')) :
    p = s.phys.length ∧ ∃ ph : PhysicalBuffer, ph.Fresh ∧
      ph = { refCount := 1, capacity := cap, bytes := uninit p } ∧
      s'.sharing = s.sharing.alloc ph := by
  simp only [createPhysical, Option.ite_none_right_eq_some, Option.some.injEq,
    Prod.mk.injEq] at h
  obtain ⟨hcap, rfl, rfl⟩ := h
  exact ⟨rfl, _, ⟨rfl, rfl, rfl, hcap⟩, rfl, rfl⟩

/-- Storing into the storage just allocated is allocating it filled. -/
theorem Sharing.update_alloc (t : Sharing) (ph : PhysicalBuffer)
    (f : PhysicalBuffer → PhysicalBuffer) :
    (t.alloc ph).update (some t.phys.length) f = t.alloc (f ph) := by
  have hmodify : (t.phys ++ [ph]).modify t.phys.length f =
      t.phys ++ [f ph] := by
    induction t.phys with
    | nil => rfl
    | cons q phys ih => simp [ih]
  simp only [alloc, update, hmodify]

theorem PhysicalBuffer.Fresh.store {ph : PhysicalBuffer} (h : ph.Fresh)
    (pos : ℕ) (src : ℕ → UInt8) (len : ℕ) : (ph.store pos src len).Fresh :=
  ⟨h.count, h.alive, h.unfreed, h.size⟩

theorem edits_create {cap : ℕ} (h : create uninit s cap = some s') :
    Edits s.sharing s'.sharing := by
  simp only [create, Option.bind_eq_bind, Option.bind_eq_some_iff] at h
  obtain ⟨⟨p, s₁⟩, hphys, h⟩ := h
  obtain ⟨rfl, ph, hfresh, -, hs₁⟩ := createPhysical_sharing hphys
  obtain rfl := Option.some.inj h
  rw [sharing_newBuffer, hs₁]
  exact .single (.create hfresh 0 0)

theorem edits_copyFrom {src : ℕ → UInt8} {len : ℕ}
    (h : copyFrom uninit s src len = some s') :
    Edits s.sharing s'.sharing := by
  simp only [copyFrom, Option.bind_eq_bind, Option.bind_eq_some_iff] at h
  obtain ⟨⟨p, s₁⟩, hphys, h⟩ := h
  obtain ⟨rfl, ph, hfresh, -, hs₁⟩ := createPhysical_sharing hphys
  obtain rfl := Option.some.inj h
  rw [sharing_newBuffer, sharing_modifyPhys, hs₁]
  have hfill := Sharing.update_alloc s.sharing ph fun ph => ph.store 0 src len
  exact hfill ▸ .single (.create (hfresh.store 0 src len) 0 len)

theorem edits_wrapExternal {bytes : ByteBuffer} {freeFn : Bool}
    (h : wrapExternal s bytes freeFn = some s') :
    Edits s.sharing s'.sharing := by
  simp only [wrapExternal, createExternal, Option.bind_eq_bind,
    Option.bind_eq_some_iff, Option.ite_none_right_eq_some] at h
  obtain ⟨⟨p, s₁⟩, ⟨hlen, hphys⟩, h⟩ := h
  obtain ⟨rfl, rfl⟩ := Prod.mk.inj (Option.some.inj hphys)
  obtain rfl := Option.some.inj h
  rw [sharing_newBuffer]
  exact .single (.create ⟨rfl, rfl, rfl, hlen⟩ 0 bytes.length)

theorem edits_copyConstruct {rhs : ℕ} (hfits : s'.sharing.Fits)
    (h : copyConstruct s rhs = some s') : Edits s.sharing s'.sharing := by
  simp only [copyConstruct, Option.bind_eq_bind,
    Option.bind_eq_some_iff] at h
  obtain ⟨r, hr, h⟩ := h
  obtain rfl := Option.some.inj h
  rw [sharing_newBuffer, sharing_retainPhysical] at hfits ⊢
  exact .single (.share (window?_of_buf? hr) r.data r.length hfits)

theorem sharing_clearMoved {i : ℕ} (h : clearMoved s i = some s') :
    s'.sharing = s.sharing.setWindow i {} := by
  obtain ⟨b, hb, rfl⟩ := modifyBuf_eq_some h
  exact sharing_setBuf s i _

theorem edits_moveConstruct {rhs : ℕ}
    (h : moveConstruct s rhs = some s') : Edits s.sharing s'.sharing := by
  simp only [moveConstruct, Option.bind_eq_bind,
    Option.bind_eq_some_iff] at h
  obtain ⟨r, hr, s₁, h₁, h₂⟩ := h
  rw [sharing_clearMoved h₂, sharing_stealRingPosition h₁,
    sharing_newBuffer]
  exact .single (.transfer (window?_of_buf? hr))

theorem sharing_takeView {i rhs : ℕ} (h : takeView s i rhs = some s') :
    ∃ b r, s.buf? i = some b ∧ s.buf? rhs = some r ∧
      s'.sharing = s.sharing.setWindow i r.window ∧
      ∃ c, s'.buf? i = some c ∧ c.window = r.window := by
  simp only [takeView, Option.bind_eq_bind, Option.bind_eq_some_iff] at h
  obtain ⟨r, hr, h⟩ := h
  obtain ⟨b, hb, rfl⟩ := modifyBuf_eq_some h
  refine ⟨b, r, hb, hr, sharing_setBuf s i _,
    { b with physical := r.physical, data := r.data, length := r.length },
    ?_, rfl⟩
  rw [buf?_setBuf hb, if_pos rfl]

/-- `ReleasePhysical` on `i` leaves `i` without storage and the other windows
alone. -/
theorem windows_releasePhysical {i : ℕ}
    (h : releasePhysical s i = some s') :
    (∃ w, s'.sharing.window? i = some w ∧ w.physical = none) ∧
      ∀ j, j ≠ i → s'.sharing.window? j = s.sharing.window? j := by
  obtain ⟨b, hb, heq⟩ := sharing_releasePhysical h
  have hlookup := fun j => Sharing.window?_setWindow
    (t := s.sharing.update b.physical PhysicalBuffer.release) (i := i)
    (w := b.window) (by rw [Sharing.window?_update, window?_of_buf? hb])
    { b.window with physical := none } j
  rw [heq]
  refine ⟨⟨_, (hlookup i).trans (if_pos rfl), rfl⟩, fun j hj => ?_⟩
  rw [hlookup j, if_neg hj, Sharing.window?_update]

theorem edits_copyAssign {i rhs : ℕ} (hfits : s'.sharing.Fits)
    (h : copyAssign s i rhs = some s') : Edits s.sharing s'.sharing := by
  unfold copyAssign at h
  split_ifs at h
  · rw [← Option.some.inj h]
  · simp only [Option.bind_eq_bind, Option.bind_eq_some_iff] at h
    obtain ⟨s₁, h₁, s₂, h₂, s₃, h₃, b, hb, h₄⟩ := h
    obtain ⟨⟨w, hw, hnone⟩, -⟩ := windows_releasePhysical h₂
    obtain ⟨-, r, -, hr, hs₃, c, hc, hcr⟩ := sharing_takeView h₃
    obtain rfl := Option.some.inj (hb.symm.trans hc)
    -- The count goes up before or after the window is set.
    have hjoin : s'.sharing = (s₂.sharing.update r.window.physical
        PhysicalBuffer.retain).setWindow i r.window := by
      rw [sharing_makeSelfRing h₄, sharing_retainPhysical, hs₃,
        show b.physical = r.window.physical from
          congrArg Window.physical hcr]
      cases r.window.physical <;> rfl
    have hdrop := edits_releasePhysical h₂
    rw [sharing_unlinkFromRing h₁] at hdrop
    rw [hjoin] at hfits ⊢
    exact hdrop.tail (.join hw hnone (window?_of_buf? hr) hfits)

theorem edits_moveAssign {i rhs : ℕ} (h : moveAssign s i rhs = some s') :
    Edits s.sharing s'.sharing := by
  unfold moveAssign at h
  split_ifs at h with hne
  · rw [← Option.some.inj h]
  · simp only [Option.bind_eq_bind, Option.bind_eq_some_iff] at h
    obtain ⟨s₁, h₁, s₂, h₂, s₃, h₃, s₄, h₄, h₅⟩ := h
    obtain ⟨⟨w, hw, hnone⟩, -⟩ := windows_releasePhysical h₂
    obtain ⟨-, r, -, hr, hs₃, -⟩ := sharing_takeView h₃
    have hdrop := edits_releasePhysical h₂
    rw [sharing_unlinkFromRing h₁] at hdrop
    rw [sharing_clearMoved h₅, sharing_stealRingPosition h₄, hs₃]
    exact hdrop.tail (.takeOver hne hw hnone (window?_of_buf? hr))

theorem edits_destroy {i : ℕ} (h : destroy s i = some s') :
    Edits s.sharing s'.sharing := by
  simp only [destroy, Option.bind_eq_bind, Option.bind_eq_some_iff] at h
  obtain ⟨s₁, h₁, s₂, h₂, h₃⟩ := h
  obtain ⟨⟨w, hw, hnone⟩, -⟩ := windows_releasePhysical h₂
  have hdrop := edits_releasePhysical h₂
  rw [sharing_unlinkFromRing h₁] at hdrop
  have herase : s'.sharing = s₂.sharing.erase i := by
    rw [← Option.some.inj h₃]
    simp [State.sharing, Sharing.erase, List.map_set]
  rw [herase]
  exact hdrop.tail (.vanish hw hnone)

theorem edits_destroyChain {head cur fuel : ℕ}
    (h : destroyChain s head cur fuel = some s') :
    Edits s.sharing s'.sharing := by
  induction fuel generalizing s cur with
  | zero => cases h
  | succ fuel ih =>
      simp only [destroyChain, Option.bind_eq_bind,
        Option.bind_eq_some_iff] at h
      obtain ⟨b, -, s₁, h₁, s₂, h₂, h₃⟩ := h
      have hdestroy := edits_destroy h₂
      rw [sharing_makeSelfRing h₁] at hdestroy
      split_ifs at h₃
      · exact Option.some.inj h₃ ▸ hdestroy
      · exact hdestroy.trans (ih h₃)

/-- The copies of `CoalesceChain` fill the new storage. -/
theorem sharing_coalesceInto {t : Sharing} {ph : PhysicalBuffer}
    {pos : ℕ} {nodes : List ℕ} (hph : ph.Fresh)
    (hs : s.sharing = t.alloc ph)
    (h : coalesceInto s t.phys.length pos nodes = some s') :
    ∃ ph' : PhysicalBuffer, ph'.Fresh ∧ s'.sharing = t.alloc ph' := by
  induction nodes generalizing s pos ph with
  | nil =>
      obtain rfl := Option.some.inj h
      exact ⟨ph, hph, hs⟩
  | cons i nodes ih =>
      simp only [coalesceInto, Option.bind_eq_bind,
        Option.bind_eq_some_iff] at h
      obtain ⟨b, -, h⟩ := h
      refine ih (hph.store pos (s.view b) b.length) ?_ h
      rw [sharing_modifyPhys, hs, Sharing.update_alloc]

theorem edits_coalesceChain {i fuel : ℕ}
    (h : coalesceChain uninit s i fuel = some s') :
    Edits s.sharing s'.sharing := by
  simp only [coalesceChain, Option.bind_eq_bind,
    Option.bind_eq_some_iff] at h
  obtain ⟨nodes, -, h⟩ := h
  split_ifs at h
  · obtain rfl := Option.some.inj h
    rw [sharing_newBuffer]
    exact .single (.add s.sharing)
  · simp only [Option.bind_eq_some_iff] at h
    obtain ⟨⟨p, s₁⟩, hphys, s₂, hinto, h⟩ := h
    obtain ⟨rfl, ph, hfresh, -, hs₁⟩ := createPhysical_sharing hphys
    obtain ⟨ph', hfresh', hs₂⟩ := sharing_coalesceInto hfresh hs₁ hinto
    obtain rfl := Option.some.inj h
    rw [sharing_newBuffer, hs₂]
    exact .single (.create hfresh' 0 _)

/-! ## Views -/

/-- The storage `replaceStorage` allocates, filled with the bytes of the
view. -/
def replacement (uninit : ℕ → ℕ → UInt8) (s : State) (b : Buffer)
    (cap : ℕ) : PhysicalBuffer :=
  { refCount := 1
    capacity := cap
    bytes := uninit s.phys.length : PhysicalBuffer }.store
      (headroom b) (s.view b) b.length

theorem sharing_replaceStorage {i cap : ℕ} {b : Buffer}
    (hb : s.buf? i = some b)
    (h : replaceStorage uninit s i b cap = some s') :
    cap < sizeLimit ∧ s'.sharing = ((s.sharing.alloc (replacement uninit s b
      cap)).update b.physical PhysicalBuffer.release).setWindow i
        ⟨some s.phys.length, headroom b, b.length⟩ := by
  simp only [replaceStorage, createPhysical, Option.bind_eq_bind,
    Option.bind_eq_some_iff, Option.ite_none_right_eq_some] at h
  obtain ⟨⟨p, s₁⟩, ⟨hcap, hphys⟩, s₂, hrelease, hmodify⟩ := h
  obtain ⟨rfl, rfl⟩ := Prod.mk.inj (Option.some.inj hphys)
  refine ⟨hcap, ?_⟩
  obtain ⟨b₁, hb₁, hs₂⟩ := sharing_releasePhysical hrelease
  obtain rfl : b = b₁ := Option.some.inj (hb.symm.trans hb₁)
  obtain ⟨b₂, hb₂, rfl⟩ := modifyBuf_eq_some hmodify
  have hfill := Sharing.update_alloc s.sharing
    { refCount := 1, capacity := cap, bytes := uninit s.phys.length }
    fun ph => ph.store (headroom b) (s.view b) b.length
  have hs₁ : (State.modifyPhys { s with phys := s.phys ++ [_] } s.phys.length
      fun ph => ph.store (headroom b) (s.view b) b.length).sharing =
        s.sharing.alloc (replacement uninit s b cap) := hfill
  rw [hs₁] at hs₂
  -- The length is the one `ReleasePhysical` left.
  have hlen : b₂.length = b.length := by
    have hw := window?_of_buf? hb₂
    rw [hs₂, Sharing.window?_setWindow (w := b.window)
      (by rw [Sharing.window?_update, Sharing.window?_alloc,
        window?_of_buf? hb]), if_pos rfl] at hw
    exact (congrArg Window.length (Option.some.inj hw)).symm
  rw [sharing_setBuf, hs₂]
  simp only [Sharing.setWindow, Buffer.window, hlen, List.set_set]

theorem edits_replaceStorage {i cap : ℕ} {b : Buffer}
    (hb : s.buf? i = some b)
    (h : replaceStorage uninit s i b cap = some s') :
    Edits s.sharing s'.sharing := by
  obtain ⟨hcap, heq⟩ := sharing_replaceStorage hb h
  rw [heq]
  exact .single (.replace (window?_of_buf? hb) ⟨rfl, rfl, rfl, hcap⟩
    (headroom b))

theorem edits_cowDetach {i : ℕ} (h : cowDetach uninit s i = some s') :
    Edits s.sharing s'.sharing := by
  simp only [cowDetach, Option.bind_eq_bind, Option.bind_eq_some_iff] at h
  obtain ⟨b, hb, h⟩ := h
  split_ifs at h
  · exact edits_replaceStorage hb h
  · rw [← Option.some.inj h]

theorem edits_writableData {i pos : ℕ} {bytes : ByteBuffer}
    (h : writableData uninit s i pos bytes = some s') :
    Edits s.sharing s'.sharing := by
  simp only [writableData, Option.bind_eq_bind, Option.bind_eq_some_iff,
    Option.ite_none_right_eq_some] at h
  obtain ⟨s₁, h₁, b, -, -, h₂⟩ := h
  obtain rfl := Option.some.inj h₂
  rw [sharing_storeAt]
  exact (edits_cowDetach h₁).tail (.store s₁.sharing _ _ _ _)

theorem edits_setBuf {i : ℕ} {b c : Buffer} (hb : s.buf? i = some b)
    (hc : c.physical = b.physical) :
    Edits s.sharing (s.setBuf i c).sharing := by
  have hframe := Edit.reframe (window?_of_buf? hb) c.data c.length
  rw [sharing_setBuf, Buffer.window, hc]
  exact .single hframe

theorem edits_trimStart {i n : ℕ} (h : trimStart s i n = some s') :
    Edits s.sharing s'.sharing := by
  simp only [trimStart, Option.bind_eq_bind, Option.bind_eq_some_iff,
    Option.ite_none_right_eq_some] at h
  obtain ⟨b, hb, -, h⟩ := h
  obtain rfl := Option.some.inj h
  exact edits_setBuf hb rfl

theorem edits_trimEnd {i n : ℕ} (h : trimEnd s i n = some s') :
    Edits s.sharing s'.sharing := by
  simp only [trimEnd, Option.bind_eq_bind, Option.bind_eq_some_iff,
    Option.ite_none_right_eq_some] at h
  obtain ⟨b, hb, -, h⟩ := h
  obtain rfl := Option.some.inj h
  exact edits_setBuf hb rfl

theorem edits_prepend {i n : ℕ} (h : prepend s i n = some s') :
    Edits s.sharing s'.sharing := by
  simp only [prepend, Option.bind_eq_bind, Option.bind_eq_some_iff,
    Option.ite_none_right_eq_some] at h
  obtain ⟨b, hb, -, h⟩ := h
  obtain rfl := Option.some.inj h
  exact edits_setBuf hb rfl

theorem edits_append {i n : ℕ} (h : append s i n = some s') :
    Edits s.sharing s'.sharing := by
  simp only [append, Option.bind_eq_bind, Option.bind_eq_some_iff,
    Option.ite_none_right_eq_some] at h
  obtain ⟨b, hb, -, h⟩ := h
  obtain rfl := Option.some.inj h
  exact edits_setBuf hb rfl

theorem edits_ensureTailroom {i n : ℕ}
    (h : ensureTailroom uninit s i n = some s') :
    Edits s.sharing s'.sharing := by
  simp only [ensureTailroom, Option.bind_eq_bind,
    Option.bind_eq_some_iff] at h
  obtain ⟨b, hb, h⟩ := h
  split_ifs at h
  · exact edits_replaceStorage hb h
  · rw [← Option.some.inj h]

theorem buf?_storeAt (s : State) (b : Buffer) (pos : ℕ) (src : ℕ → UInt8)
    (len j : ℕ) : (s.storeAt b pos src len).buf? j = s.buf? j := by
  unfold State.storeAt
  cases b.physical <;> rfl

theorem edits_appendData {i : ℕ} {bytes : ByteBuffer}
    (h : appendData uninit s i bytes = some s') :
    Edits s.sharing s'.sharing := by
  simp only [appendData, Option.bind_eq_bind, Option.bind_eq_some_iff] at h
  obtain ⟨s₁, h₁, b, hb, h₂⟩ := h
  obtain rfl := Option.some.inj h₂
  have hstore : Edits s₁.sharing (s₁.storeAt b b.length
      (fun k => bytes.getD k 0) bytes.length).sharing := by
    rw [sharing_storeAt]
    exact .single (.store s₁.sharing _ _ _ _)
  refine ((edits_ensureTailroom h₁).trans hstore).trans ?_
  exact edits_setBuf (b := b) ((buf?_storeAt s₁ b _ _ _ i).trans hb) rfl

theorem edits_reserve {i newCap : ℕ}
    (h : reserve uninit s i newCap = some s') :
    Edits s.sharing s'.sharing := by
  simp only [reserve, Option.bind_eq_bind, Option.bind_eq_some_iff] at h
  obtain ⟨b, -, h⟩ := h
  split_ifs at h
  · rw [← Option.some.inj h]
  · exact edits_ensureTailroom h

theorem edits_slice {i offset len : ℕ} (hfits : s'.sharing.Fits)
    (h : slice s i offset len = some s') : Edits s.sharing s'.sharing := by
  simp only [slice, Option.bind_eq_bind, Option.bind_eq_some_iff,
    Option.ite_none_right_eq_some] at h
  obtain ⟨b, hb, -, h⟩ := h
  obtain rfl := Option.some.inj h
  rw [sharing_newBuffer, sharing_retainPhysical] at hfits ⊢
  exact .single (.share (window?_of_buf? hb) (b.data + offset) len hfits)

theorem edits_sliceFrom {i offset : ℕ} (hfits : s'.sharing.Fits)
    (h : sliceFrom s i offset = some s') : Edits s.sharing s'.sharing := by
  simp only [sliceFrom, Option.bind_eq_bind, Option.bind_eq_some_iff] at h
  obtain ⟨b, -, h⟩ := h
  exact edits_slice hfits h

theorem edits_clone {i : ℕ} (h : clone uninit s i = some s') :
    Edits s.sharing s'.sharing := by
  simp only [clone, Option.bind_eq_bind, Option.bind_eq_some_iff] at h
  obtain ⟨b, -, h⟩ := h
  split_ifs at h
  · obtain rfl := Option.some.inj h
    rw [sharing_newBuffer]
    exact .single (.add s.sharing)
  · exact edits_copyFrom h

theorem edits_write {c c' : Cursor} {src : ByteBuffer} {fuel : ℕ}
    (h : write uninit s c src fuel = some (s', c')) :
    Edits s.sharing s'.sharing := by
  induction fuel generalizing s c src with
  | zero => cases h
  | succ fuel ih =>
      cases src with
      | nil =>
          simp only [write, Option.some.injEq, Prod.mk.injEq] at h
          rw [h.1]
      | cons byte src =>
          simp only [write, Option.bind_eq_bind,
            Option.bind_eq_some_iff] at h
          obtain ⟨done, -, h⟩ := h
          split_ifs at h
          · rw [(Prod.mk.inj (Option.some.inj h)).1]
          · simp only [Option.bind_eq_some_iff] at h
            obtain ⟨s₁, h₁, b, -, c₁, -, h₂⟩ := h
            have hrest := ih h₂
            rw [sharing_storeAt] at hrest
            exact ((edits_cowDetach h₁).tail
              (.store s₁.sharing _ _ _ _)).trans hrest

/-! ## Any operation -/

theorem sharing_setCursor (s : State) (k : ℕ) (c : Cursor) :
    (s.setCursor k c).sharing = s.sharing := rfl

/-- Every operation is a sequence of balanced edits, if no storage ends up
with too many references. -/
theorem perform_edits {a : Action} (hfits : s'.sharing.Fits)
    (h : perform uninit s a = some s') : Edits s.sharing s'.sharing := by
  cases a with
  | default =>
      obtain rfl := Option.some.inj h
      rw [sharing_newBuffer]
      exact .single (.add s.sharing)
  | create n => exact edits_create h
  | copyFrom bytes => exact edits_copyFrom h
  | wrapExternal bytes freeFn => exact edits_wrapExternal h
  | copyConstruct rhs => exact edits_copyConstruct hfits h
  | moveConstruct rhs => exact edits_moveConstruct h
  | copyAssign i rhs => exact edits_copyAssign hfits h
  | moveAssign i rhs => exact edits_moveAssign h
  | destroy i => exact edits_destroy h
  | appendChain i other => rw [sharing_appendChain h]
  | prependChain i other => rw [sharing_prependChain h]
  | unlink i => rw [sharing_unlink h]
  | splitChainAfter i => rw [sharing_splitChainAfter h]
  | coalesceChain i fuel => exact edits_coalesceChain h
  | destroyChain head fuel => exact edits_destroyChain h
  | writableData i pos bytes => exact edits_writableData h
  | trimStart i n => exact edits_trimStart h
  | trimEnd i n => exact edits_trimEnd h
  | prepend i n => exact edits_prepend h
  | append i n => exact edits_append h
  | appendData i bytes => exact edits_appendData h
  | ensureTailroom i n => exact edits_ensureTailroom h
  | reserve i n => exact edits_reserve h
  | slice i offset len => exact edits_slice hfits h
  | sliceFrom i offset => exact edits_sliceFrom hfits h
  | clone i => exact edits_clone h
  | newCursor head =>
      obtain ⟨b, -, rfl⟩ := Option.map_eq_some_iff.mp h
      exact .refl
  | cursorReset k =>
      obtain ⟨c, -, rfl⟩ := Option.map_eq_some_iff.mp h
      exact .refl
  | cursorSkip k len fuel =>
      simp only [perform, Option.bind_eq_bind, Option.bind_eq_some_iff] at h
      obtain ⟨c, -, c', -, h⟩ := h
      rw [← Option.some.inj h, sharing_setCursor]
  | cursorRead k len fuel =>
      simp only [perform, Option.bind_eq_bind, Option.bind_eq_some_iff] at h
      obtain ⟨c, -, ⟨c', bytes⟩, -, h⟩ := h
      rw [← Option.some.inj h, sharing_setCursor]
  | cursorWrite k src fuel =>
      simp only [perform, Option.bind_eq_bind, Option.bind_eq_some_iff] at h
      obtain ⟨c, -, ⟨s₁, c'⟩, hwrite, h⟩ := h
      rw [← Option.some.inj h, sharing_setCursor]
      exact edits_write hwrite

end Operations

/-! ## The ledger of a run -/

/-- The slot holds a live buffer on storage `p`. -/
def references (p : ℕ) (slot : Option Buffer) : Bool :=
  slot.any fun b => b.physical = some p

/-- The number of live buffers that reference storage `p`. -/
def State.refs (s : State) (p : ℕ) : ℕ := s.bufs.countP (references p)

/-- No storage has as many references as its count can tell apart. -/
def RefsFit (s : State) : Prop := ∀ p, s.refs p < UInt32.size

/-- The reference ledger: counts are numbers of buffers, storage is destroyed
exactly when its last buffer is gone, its `free_fn` is called once, and
sharing is seen. -/
structure LedgerOk (s : State) : Prop where
  count : ∀ (p : ℕ) (ph : PhysicalBuffer), s.phys[p]? = some ph → ph.refCount.toNat = s.refs p
  destroyed : ∀ (p : ℕ) (ph : PhysicalBuffer), s.phys[p]? = some ph →
    (ph.destroyed = true ↔ s.refs p = 0)
  freed : ∀ (p : ℕ) (ph : PhysicalBuffer), s.phys[p]? = some ph →
    ph.freed = if ph.destroyed && ph.external && ph.freeFn then 1 else 0
  alive : ∀ i b p, s.buf? i = some b → b.physical = some p →
    ∃ ph, s.phys[p]? = some ph ∧ ph.destroyed = false
  shared : ∀ i b, s.buf? i = some b →
    (isShared s b = true ↔ ∃ p, b.physical = some p ∧ 2 ≤ s.refs p)

theorem refs_sharing (s : State) (p : ℕ) : s.sharing.refs p = s.refs p := by
  simp only [Sharing.refs, State.sharing, State.refs, List.countP_map]
  congr 1
  funext slot
  cases slot <;> rfl

theorem fits_sharing {s : State} (h : RefsFit s) : s.sharing.Fits := by
  intro p
  rw [refs_sharing]
  exact h p

theorem ledgerOk_of_ledger {s : State} (h : s.sharing.Ledger) :
    LedgerOk s := by
  have hcounts : ∀ (p : ℕ) (ph : PhysicalBuffer), s.phys[p]? = some ph →
      ph.Counts (s.refs p) := by
    intro p ph hph
    have hbal := h p
    rw [show s.sharing.phys[p]? = some ph from hph, refs_sharing] at hbal
    exact hbal
  have halive : ∀ i b p, s.buf? i = some b → b.physical = some p →
      ∃ ph, s.phys[p]? = some ph ∧ ph.destroyed = false := by
    intro i b p hb hp
    exact h.window_lt (window?_of_buf? hb) hp
  refine ⟨fun p ph hph => (hcounts p ph hph).count,
    fun p ph hph => (hcounts p ph hph).destroyed,
    fun p ph hph => (hcounts p ph hph).freed, halive, ?_⟩
  intro i b hb
  cases hp : b.physical with
  | none => simp [isShared, State.storage, hp]
  | some p =>
      obtain ⟨ph, hph, -⟩ := halive i b p hb hp
      have hcount := (hcounts p ph hph).count
      simp only [isShared, State.storage, hp, hph, Option.bind_some,
        Option.map_some, Option.getD_some, decide_eq_true_eq,
        Option.some.injEq, exists_eq_left', UInt32.lt_iff_toNat_lt, hcount]
      rfl

theorem LedgerOk.refsFit {s : State} (h : LedgerOk s) : RefsFit s := by
  intro p
  rcases Nat.eq_zero_or_pos (s.refs p) with hzero | hpos
  · rw [hzero]
    decide
  · obtain ⟨slot, hslot, href⟩ := List.countP_pos_iff.mp hpos
    obtain ⟨i, hi⟩ := List.mem_iff_getElem?.mp hslot
    obtain ⟨b, rfl, hp⟩ := (Option.any_eq_true _ _).mp href
    have hb : s.buf? i = some b := by rw [State.buf?, hi, Option.join_some]
    obtain ⟨ph, hph, -⟩ := h.alive i b p hb (of_decide_eq_true hp)
    rw [← h.count p ph hph]
    exact ph.refCount.toNat_lt

theorem ledger_init : init.sharing.Ledger := fun _ => rfl

/-- One byte of storage shared by `n + 1` buffers. -/
def crowd (n : ℕ) : State where
  phys :=
    [{ refCount := UInt32.ofNat (n + 1), capacity := 1, bytes := fun _ => 0 }]
  bufs := (List.range (n + 1)).map fun i => some ⟨some 0, 0, 1, i, i⟩
  cursors := []

theorem buf?_crowd {n i : ℕ} {b : Buffer} :
    (crowd n).buf? i = some b ↔ i ≤ n ∧ b = ⟨some 0, 0, 1, i, i⟩ := by
  by_cases hi : i ≤ n
  · have hlt : i < n + 1 := Nat.lt_succ_of_le hi
    simp [State.buf?, crowd, hlt, hi, eq_comm]
  · have hge : ¬ i < n + 1 := fun hlt => hi (Nat.le_of_lt_succ hlt)
    simp [State.buf?, crowd, hge, hi]

theorem refs_crowd (n p : ℕ) :
    (crowd n).refs p = if p = 0 then n + 1 else 0 := by
  rw [State.refs, crowd, List.countP_map]
  split_ifs with hp
  · rw [List.countP_eq_length.mpr (by simp [references, hp]),
      List.length_range]
  · exact List.countP_eq_zero.mpr (by simp [references, Ne.symm hp])

theorem refsFit_crowd {n : ℕ} (hn : n + 1 < UInt32.size) :
    RefsFit (crowd n) := by
  intro p
  rw [refs_crowd]
  split_ifs
  · exact hn
  · exact Nat.zero_lt_of_lt hn

theorem perform_crowd (n : ℕ) :
    perform (fun _ _ => 0) (crowd n) (.copyConstruct 0) =
      some (crowd (n + 1)) := by
  have hbuf := buf?_crowd.mpr ⟨Nat.zero_le n, rfl⟩
  simp only [perform, copyConstruct, hbuf, Option.bind_eq_bind,
    Option.bind_some, Option.some.injEq]
  simp [newBuffer, retainPhysical, State.modifyPhys, crowd,
    PhysicalBuffer.retain, List.range_succ (n := n + 1)]

theorem perform_copyFrom_init :
    perform (fun _ _ => 0) init (.copyFrom [0]) = some (crowd 0) := by
  have hbytes : (fun k => if 0 ≤ k ∧ k < 0 + 1 then
      ([0] : ByteBuffer).getD (k - 0) 0 else 0) = fun _ => 0 := by
    funext k
    by_cases hk : k = 0 <;> simp [hk]
  have hcreate : perform (fun _ _ => 0) init (.copyFrom [0]) =
      some { crowd 0 with
        phys := [{ refCount := 1, capacity := 1, bytes := fun k =>
          if 0 ≤ k ∧ k < 0 + 1 then
            ([0] : ByteBuffer).getD (k - 0) 0 else 0 }] } := rfl
  rw [hcreate, hbytes]
  rfl

/-- Up to the last copy no count wraps. -/
theorem reachableVia_crowd {n : ℕ} (hn : n < UInt32.size) :
    Transition.ReachableVia (perform fun _ _ => 0) (fun s _ => RefsFit s)
      {init} (crowd n) := by
  induction n with
  | zero =>
      refine .next (.start rfl) ?_ perform_copyFrom_init
      intro p
      exact Nat.zero_lt_of_lt hn
  | succ n ih =>
      exact .next (ih (Nat.lt_of_succ_lt hn)) (refsFit_crowd hn)
        (perform_crowd n)

end Memory
end Yacul
