import Yacul.Memory.Buffer
import Mathlib.Data.Set.Insert
import Mathlib.Tactic.SplitIfs

/-!
# Views stay inside their storage

Every operation keeps each view inside the storage it refers to, with one
exception: `EnsureTailroom` chooses the size of the new storage without the
headroom in front of the view, and puts the view behind that headroom again.
The main theorem says for every run that the views stay inside exactly as long
as this never matters.
-/

namespace Yacul
namespace Memory

/-! ## Lookups -/

/-- The capacities of the physical buffers. -/
def State.caps (s : State) (p : ℕ) : Option ℕ :=
  (s.phys[p]?).map PhysicalBuffer.capacity

theorem buf?_setBuf {s : State} {i : ℕ} {b : Buffer}
    (h : s.buf? i = some b) (b' : Buffer) (j : ℕ) :
    (s.setBuf i b').buf? j = if j = i then some b' else s.buf? j := by
  have hlt : i < s.bufs.length := by
    by_contra hge
    have hnone : s.bufs[i]? = none := List.getElem?_eq_none (by omega)
    rw [State.buf?, hnone] at h
    cases h
  by_cases hj : j = i
  · subst hj
    simp [State.buf?, State.setBuf, hlt]
  · simp [State.buf?, State.setBuf, hj, List.getElem?_set_ne (Ne.symm hj)]

theorem buf?_newBuffer (s : State) (physical : Option ℕ) (data length : ℕ)
    (j : ℕ) :
    (newBuffer s physical data length).buf? j =
      if j = s.bufs.length then
        some ⟨physical, data, length, s.bufs.length, s.bufs.length⟩
      else s.buf? j := by
  simp only [State.buf?, newBuffer, List.getElem?_append]
  by_cases hj : j = s.bufs.length
  · simp [hj]
  · by_cases hlt : j < s.bufs.length
    · simp [hj, hlt]
    · have hsing : j - s.bufs.length ≠ 0 := by omega
      simp [hj, hlt, hsing]

theorem modifyBuf_eq_some {s s' : State} {i : ℕ} {f : Buffer → Buffer}
    (h : s.modifyBuf i f = some s') :
    ∃ b, s.buf? i = some b ∧ s' = s.setBuf i (f b) := by
  obtain ⟨b, hb, rfl⟩ := Option.map_eq_some_iff.mp h
  exact ⟨b, hb, rfl⟩

theorem caps_modifyPhys (s : State) (p : ℕ)
    {f : PhysicalBuffer → PhysicalBuffer}
    (hf : ∀ ph, (f ph).capacity = ph.capacity) :
    (s.modifyPhys p f).caps = s.caps := by
  funext q
  simp only [State.caps, State.modifyPhys, List.getElem?_modify]
  cases s.phys[q]? with
  | none => rfl
  | some ph =>
      by_cases hq : p = q
      · simp [hq, hf]
      · simp [hq]

theorem capacity_release (ph : PhysicalBuffer) :
    ph.release.capacity = ph.capacity := by
  unfold PhysicalBuffer.release
  split <;> rfl

theorem caps_retainPhysical (s : State) (physical : Option ℕ) :
    (retainPhysical s physical).caps = s.caps := by
  cases physical with
  | none => rfl
  | some p => exact caps_modifyPhys s p fun _ => rfl

theorem caps_storeAt (s : State) (b : Buffer) (pos : ℕ) (src : ℕ → UInt8)
    (len : ℕ) : (s.storeAt b pos src len).caps = s.caps := by
  unfold State.storeAt
  split
  · rfl
  · exact caps_modifyPhys s _ fun _ => rfl

/-- Nothing about the storage of a view that existed changes when storage is
added. -/
def Extends (caps caps' : ℕ → Option ℕ) : Prop :=
  ∀ p cap, caps p = some cap → caps' p = some cap

theorem caps_append (s : State) (ph : PhysicalBuffer) :
    Extends s.caps { s with phys := s.phys ++ [ph] }.caps ∧
      { s with phys := s.phys ++ [ph] }.caps s.phys.length =
        some ph.capacity := by
  constructor
  · intro p cap hcap
    obtain ⟨q, hq, rfl⟩ := Option.map_eq_some_iff.mp hcap
    have hlt := (List.getElem?_eq_some_iff.mp hq).1
    simp only [State.caps, List.getElem?_append_left hlt, hq, Option.map_some]
  · simp [State.caps]

/-! ## Views -/

/-- The view refers to storage of an admissible size. -/
def Stored (caps : ℕ → Option ℕ) (b : Buffer) : Prop :=
  ∀ p, b.physical = some p → ∃ cap, caps p = some cap ∧ cap < sizeLimit

/-- The view lies inside its storage: `headroom + size <= capacity`. -/
def Within (caps : ℕ → Option ℕ) (b : Buffer) : Prop :=
  ∀ p cap, b.physical = some p → caps p = some cap →
    b.data + b.length ≤ cap

/-- The view refers to storage of an admissible size and lies inside it. -/
def Good (caps : ℕ → Option ℕ) (b : Buffer) : Prop :=
  ∀ p, b.physical = some p →
    ∃ cap, caps p = some cap ∧ cap < sizeLimit ∧ b.data + b.length ≤ cap

/-- Every buffer refers to storage of an admissible size. -/
def AllStored (s : State) : Prop :=
  ∀ i b, s.buf? i = some b → Stored s.caps b

/-- Every buffer lies inside the storage it refers to. -/
def InBounds (s : State) : Prop :=
  ∀ i b, s.buf? i = some b → Within s.caps b

def AllGood (s : State) : Prop :=
  ∀ i b, s.buf? i = some b → Good s.caps b

theorem allGood_iff (s : State) : AllGood s ↔ AllStored s ∧ InBounds s := by
  constructor
  · intro h
    refine ⟨fun i b hb p hp => ?_, fun i b hb p cap hp hcap => ?_⟩
    · obtain ⟨cap, hcap, hlt, -⟩ := h i b hb p hp
      exact ⟨cap, hcap, hlt⟩
    · obtain ⟨cap', hcap', -, hle⟩ := h i b hb p hp
      obtain rfl : cap = cap' := Option.some.inj (hcap.symm.trans hcap')
      exact hle
  · rintro ⟨hstored, hin⟩ i b hb p hp
    obtain ⟨cap, hcap, hlt⟩ := hstored i b hb p hp
    exact ⟨cap, hcap, hlt, hin i b hb p cap hp hcap⟩

theorem Good.mono {caps caps' : ℕ → Option ℕ} (hext : Extends caps caps')
    {b : Buffer} (h : Good caps b) : Good caps' b := by
  intro p hp
  obtain ⟨cap, hcap, hlt, hle⟩ := h p hp
  exact ⟨cap, hext p cap hcap, hlt, hle⟩

theorem good_of_physical_none {caps : ℕ → Option ℕ} {b : Buffer}
    (h : b.physical = none) : Good caps b := by
  intro p hp
  rw [h] at hp
  cases hp

section Views

variable {s s' : State}

theorem AllGood.setBuf (hs : AllGood s) {i : ℕ} {b b' : Buffer}
    (hb : s.buf? i = some b) (hgood : Good s.caps b') :
    AllGood (s.setBuf i b') := by
  intro j c hc
  rw [buf?_setBuf hb] at hc
  split_ifs at hc
  · obtain rfl := Option.some.inj hc
    exact hgood
  · exact hs j c hc

theorem AllGood.newBuffer (hs : AllGood s) {physical : Option ℕ}
    {data length : ℕ}
    (hgood : ∀ p, physical = some p →
      ∃ cap, s.caps p = some cap ∧ cap < sizeLimit ∧ data + length ≤ cap) :
    AllGood (newBuffer s physical data length) := by
  intro j c hc
  rw [buf?_newBuffer] at hc
  split_ifs at hc
  · obtain rfl := Option.some.inj hc
    exact hgood
  · exact hs j c hc

/-- Changes of the storage other than its sizes. -/
theorem AllGood.of_caps (hs : AllGood s) (hbufs : s'.bufs = s.bufs)
    (hcaps : Extends s.caps s'.caps) : AllGood s' := by
  intro i b hb
  rw [State.buf?, hbufs] at hb
  exact (hs i b hb).mono hcaps

theorem AllGood.modifyPhys (hs : AllGood s) (p : ℕ)
    {f : PhysicalBuffer → PhysicalBuffer}
    (hf : ∀ ph, (f ph).capacity = ph.capacity) :
    AllGood (s.modifyPhys p f) := by
  refine hs.of_caps rfl ?_
  rw [caps_modifyPhys s p hf]
  exact fun _ _ h => h

theorem AllGood.retainPhysical (hs : AllGood s) (physical : Option ℕ) :
    AllGood (retainPhysical s physical) := by
  cases physical with
  | none => exact hs
  | some p => exact hs.modifyPhys p fun _ => rfl

theorem AllGood.storeAt (hs : AllGood s) (b : Buffer) (pos : ℕ)
    (src : ℕ → UInt8) (len : ℕ) : AllGood (s.storeAt b pos src len) := by
  unfold State.storeAt
  split
  · exact hs
  · exact hs.modifyPhys _ fun _ => rfl

/-! ## Rings -/

/-- Only the links of buffers change. -/
theorem AllGood.modifyLinks (hs : AllGood s) {i : ℕ} {f : Buffer → Buffer}
    (h : s.modifyBuf i f = some s')
    (hf : ∀ b, (f b).physical = b.physical ∧ (f b).data = b.data ∧
      (f b).length = b.length) : AllGood s' := by
  obtain ⟨b, hb, rfl⟩ := modifyBuf_eq_some h
  refine hs.setBuf hb fun p hp => ?_
  obtain ⟨hphysical, hdata, hlength⟩ := hf b
  rw [hdata, hlength]
  exact hs i b hb p (hphysical ▸ hp)

theorem AllGood.setNext (hs : AllGood s) {i next : ℕ}
    (h : setNext s i next = some s') : AllGood s' :=
  hs.modifyLinks h fun _ => ⟨rfl, rfl, rfl⟩

theorem AllGood.setPrev (hs : AllGood s) {i prev : ℕ}
    (h : setPrev s i prev = some s') : AllGood s' :=
  hs.modifyLinks h fun _ => ⟨rfl, rfl, rfl⟩

theorem AllGood.makeSelfRing (hs : AllGood s) {i : ℕ}
    (h : makeSelfRing s i = some s') : AllGood s' :=
  hs.modifyLinks h fun _ => ⟨rfl, rfl, rfl⟩

theorem AllGood.unlinkFromRing (hs : AllGood s) {i : ℕ}
    (h : unlinkFromRing s i = some s') : AllGood s' := by
  simp only [Memory.unlinkFromRing, Option.bind_eq_bind,
    Option.bind_eq_some_iff] at h
  obtain ⟨b, -, s₁, h₁, b', -, h₂⟩ := h
  exact (hs.setNext h₁).setPrev h₂

theorem AllGood.stealRingPosition (hs : AllGood s) {i rhs : ℕ}
    (h : stealRingPosition s i rhs = some s') : AllGood s' := by
  simp only [Memory.stealRingPosition, Option.bind_eq_bind,
    Option.bind_eq_some_iff] at h
  obtain ⟨r, -, h⟩ := h
  split_ifs at h
  · simp only [Option.bind_eq_some_iff] at h
    obtain ⟨s₁, h₁, s₂, h₂, b, -, h₃⟩ := h
    have hs₁ : AllGood s₁ := hs.modifyLinks h₁ fun _ => ⟨rfl, rfl, rfl⟩
    exact (hs₁.setPrev h₂).setNext h₃
  · exact hs.makeSelfRing h

theorem AllGood.appendChain (hs : AllGood s) {i other : ℕ}
    (h : appendChain s i other = some s') : AllGood s' := by
  simp only [Memory.appendChain, Option.bind_eq_bind,
    Option.ite_none_left_eq_some, Option.bind_eq_some_iff] at h
  obtain ⟨-, b, -, o, -, s₁, h₁, s₂, h₂, s₃, h₃, h₄⟩ := h
  exact (((hs.setNext h₁).setPrev h₂).setNext h₃).setPrev h₄

theorem AllGood.prependChain (hs : AllGood s) {i other : ℕ}
    (h : prependChain s i other = some s') : AllGood s' := by
  simp only [Memory.prependChain, Option.bind_eq_bind,
    Option.ite_none_left_eq_some, Option.bind_eq_some_iff] at h
  obtain ⟨-, o, -, s₁, h₁, b, -, s₂, h₂, s₃, h₃, h₄⟩ := h
  exact (((hs.setNext h₁).setNext h₂).setPrev h₃).setPrev h₄

theorem AllGood.unlink (hs : AllGood s) {i : ℕ}
    (h : unlink s i = some s') : AllGood s' := by
  simp only [Memory.unlink, Option.bind_eq_bind,
    Option.bind_eq_some_iff] at h
  obtain ⟨b, -, h⟩ := h
  split_ifs at h
  · simp only [Option.bind_eq_some_iff] at h
    obtain ⟨s₁, h₁, h₂⟩ := h
    exact (hs.unlinkFromRing h₁).makeSelfRing h₂
  · obtain rfl := Option.some.inj h
    exact hs

theorem AllGood.splitChainAfter (hs : AllGood s) {i : ℕ}
    (h : splitChainAfter s i = some s') : AllGood s' := by
  simp only [Memory.splitChainAfter, Option.bind_eq_bind,
    Option.bind_eq_some_iff] at h
  obtain ⟨b, -, h⟩ := h
  split_ifs at h
  · simp only [Option.bind_eq_some_iff] at h
    obtain ⟨lh, -, s₁, h₁, s₂, h₂, s₃, h₃, h₄⟩ := h
    exact (((hs.setNext h₁).setPrev h₂).setNext h₃).setPrev h₄
  · obtain rfl := Option.some.inj h
    exact hs

/-! ## Objects -/

/-- `ReleasePhysical` keeps every size and clears one view. -/
theorem releasePhysical_eq_some {i : ℕ} (h : releasePhysical s i = some s') :
    s'.caps = s.caps ∧
      ∃ b, s.buf? i = some b ∧
        ∀ j, s'.buf? j =
          if j = i then some { b with physical := none } else s.buf? j := by
  obtain ⟨b, hb, heq⟩ := Option.map_eq_some_iff.mp h
  obtain ⟨physical, data, length, next, prev⟩ := b
  cases physical with
  | none =>
      obtain rfl : s = s' := heq
      refine ⟨rfl, _, hb, fun j => ?_⟩
      split_ifs with hj
      · rw [hj, hb]
      · rfl
  | some p =>
      obtain rfl : _ = s' := heq
      have hcaps := caps_modifyPhys s p capacity_release
      have hb' : (s.modifyPhys p PhysicalBuffer.release).buf? i = _ := hb
      exact ⟨hcaps, _, hb, fun j => buf?_setBuf hb' _ j⟩

theorem AllGood.releasePhysical (hs : AllGood s) {i : ℕ}
    (h : releasePhysical s i = some s') : AllGood s' := by
  obtain ⟨hcaps, b, hb, hbufs⟩ := releasePhysical_eq_some h
  intro j c hc
  rw [hbufs] at hc
  rw [hcaps]
  split_ifs at hc
  · obtain rfl := Option.some.inj hc
    exact good_of_physical_none rfl
  · exact hs j c hc

theorem createPhysical_eq_some {uninit : ℕ → ℕ → UInt8} {cap p : ℕ}
    (h : createPhysical uninit s cap = some (p, s')) :
    cap < sizeLimit ∧ s'.bufs = s.bufs ∧ Extends s.caps s'.caps ∧
      s'.caps p = some cap := by
  simp only [createPhysical, Option.ite_none_right_eq_some, Option.some.injEq,
    Prod.mk.injEq] at h
  obtain ⟨hcap, rfl, rfl⟩ := h
  obtain ⟨hext, hnew⟩ := caps_append s
    { refCount := 1, capacity := cap, bytes := uninit s.phys.length }
  exact ⟨hcap, rfl, hext, hnew⟩

theorem AllGood.create (hs : AllGood s) {uninit : ℕ → ℕ → UInt8} {cap : ℕ}
    (h : create uninit s cap = some s') : AllGood s' := by
  simp only [Memory.create, Option.bind_eq_bind,
    Option.bind_eq_some_iff] at h
  obtain ⟨⟨p, s₁⟩, hphys, h⟩ := h
  obtain ⟨hcap, hbufs, hext, hnew⟩ := createPhysical_eq_some hphys
  obtain rfl := Option.some.inj h
  refine (hs.of_caps hbufs hext).newBuffer fun q hq => ?_
  obtain rfl := Option.some.inj hq
  exact ⟨cap, hnew, hcap, Nat.zero_le _⟩

theorem AllGood.copyFrom (hs : AllGood s) {uninit : ℕ → ℕ → UInt8}
    {src : ℕ → UInt8} {len : ℕ} (h : copyFrom uninit s src len = some s') :
    AllGood s' := by
  simp only [Memory.copyFrom, Option.bind_eq_bind,
    Option.bind_eq_some_iff] at h
  obtain ⟨⟨p, s₁⟩, hphys, h⟩ := h
  obtain ⟨hcap, hbufs, hext, hnew⟩ := createPhysical_eq_some hphys
  obtain rfl := Option.some.inj h
  have hstore : ∀ ph : PhysicalBuffer,
      (ph.store 0 src len).capacity = ph.capacity := fun _ => rfl
  refine ((hs.of_caps hbufs hext).modifyPhys p hstore).newBuffer fun q hq => ?_
  obtain rfl := Option.some.inj hq
  refine ⟨len, ?_, hcap, (Nat.zero_add len).le⟩
  rw [caps_modifyPhys s₁ p hstore, hnew]

theorem createExternal_eq_some {bytes : ByteBuffer} {freeFn : Bool} {p : ℕ}
    (h : createExternal s bytes freeFn = some (p, s')) :
    bytes.length < sizeLimit ∧ s'.bufs = s.bufs ∧ Extends s.caps s'.caps ∧
      s'.caps p = some bytes.length := by
  simp only [createExternal, Option.ite_none_right_eq_some, Option.some.injEq,
    Prod.mk.injEq] at h
  obtain ⟨hcap, rfl, rfl⟩ := h
  obtain ⟨hext, hnew⟩ := caps_append s
    { refCount := 1, capacity := bytes.length, external := true,
      freeFn := freeFn, bytes := fun k => bytes.getD k 0 }
  exact ⟨hcap, rfl, hext, hnew⟩

theorem AllGood.wrapExternal (hs : AllGood s) {bytes : ByteBuffer}
    {freeFn : Bool} (h : wrapExternal s bytes freeFn = some s') :
    AllGood s' := by
  simp only [Memory.wrapExternal, Option.bind_eq_bind,
    Option.bind_eq_some_iff] at h
  obtain ⟨⟨p, s₁⟩, hphys, h⟩ := h
  obtain ⟨hlen, hbufs, hext, hnew⟩ := createExternal_eq_some hphys
  obtain rfl := Option.some.inj h
  refine (hs.of_caps hbufs hext).newBuffer fun q hq => ?_
  obtain rfl := Option.some.inj hq
  exact ⟨bytes.length, hnew, hlen, (Nat.zero_add _).le⟩

theorem AllGood.copyConstruct (hs : AllGood s) {rhs : ℕ}
    (h : copyConstruct s rhs = some s') : AllGood s' := by
  simp only [Memory.copyConstruct, Option.bind_eq_bind,
    Option.bind_eq_some_iff] at h
  obtain ⟨r, hr, h⟩ := h
  obtain rfl := Option.some.inj h
  refine (hs.retainPhysical r.physical).newBuffer ?_
  rw [caps_retainPhysical]
  exact hs rhs r hr

theorem AllGood.clearMoved (hs : AllGood s) {i : ℕ}
    (h : clearMoved s i = some s') : AllGood s' := by
  obtain ⟨b, hb, rfl⟩ := modifyBuf_eq_some h
  exact hs.setBuf hb (good_of_physical_none rfl)

theorem AllGood.moveConstruct (hs : AllGood s) {rhs : ℕ}
    (h : moveConstruct s rhs = some s') : AllGood s' := by
  simp only [Memory.moveConstruct, Option.bind_eq_bind,
    Option.bind_eq_some_iff] at h
  obtain ⟨r, hr, s₁, h₁, h₂⟩ := h
  have hnew : AllGood (Memory.newBuffer s r.physical r.data r.length) :=
    hs.newBuffer (hs rhs r hr)
  exact (hnew.stealRingPosition h₁).clearMoved h₂

theorem AllGood.takeView (hs : AllGood s) {i rhs : ℕ}
    (h : takeView s i rhs = some s') : AllGood s' := by
  simp only [Memory.takeView, Option.bind_eq_bind,
    Option.bind_eq_some_iff] at h
  obtain ⟨r, hr, h⟩ := h
  obtain ⟨b, hb, rfl⟩ := modifyBuf_eq_some h
  exact hs.setBuf hb (hs rhs r hr)

theorem AllGood.copyAssign (hs : AllGood s) {i rhs : ℕ}
    (h : copyAssign s i rhs = some s') : AllGood s' := by
  unfold Memory.copyAssign at h
  split_ifs at h
  · obtain rfl := Option.some.inj h
    exact hs
  · simp only [Option.bind_eq_bind, Option.bind_eq_some_iff] at h
    obtain ⟨s₁, h₁, s₂, h₂, s₃, h₃, b, -, h₄⟩ := h
    have hs₃ := ((hs.unlinkFromRing h₁).releasePhysical h₂).takeView h₃
    exact (hs₃.retainPhysical b.physical).makeSelfRing h₄

theorem AllGood.moveAssign (hs : AllGood s) {i rhs : ℕ}
    (h : moveAssign s i rhs = some s') : AllGood s' := by
  unfold Memory.moveAssign at h
  split_ifs at h
  · obtain rfl := Option.some.inj h
    exact hs
  · simp only [Option.bind_eq_bind, Option.bind_eq_some_iff] at h
    obtain ⟨s₁, h₁, s₂, h₂, s₃, h₃, s₄, h₄, h₅⟩ := h
    have hs₃ := ((hs.unlinkFromRing h₁).releasePhysical h₂).takeView h₃
    exact (hs₃.stealRingPosition h₄).clearMoved h₅

theorem AllGood.destroy (hs : AllGood s) {i : ℕ}
    (h : destroy s i = some s') : AllGood s' := by
  simp only [Memory.destroy, Option.bind_eq_bind,
    Option.bind_eq_some_iff] at h
  obtain ⟨s₁, h₁, s₂, h₂, h₃⟩ := h
  obtain rfl := Option.some.inj h₃
  have hs₂ := (hs.unlinkFromRing h₁).releasePhysical h₂
  intro j c hc
  by_cases hj : i = j
  · subst hj
    simp only [State.buf?, List.getElem?_set_self'] at hc
    cases hk : s₂.bufs[i]? <;> simp [hk] at hc
  · refine hs₂ j c ?_
    simpa only [State.buf?, List.getElem?_set_ne hj] using hc

theorem AllGood.destroyChain (hs : AllGood s) {head cur fuel : ℕ}
    (h : destroyChain s head cur fuel = some s') : AllGood s' := by
  induction fuel generalizing s cur with
  | zero => cases h
  | succ fuel ih =>
      simp only [Memory.destroyChain, Option.bind_eq_bind,
        Option.bind_eq_some_iff] at h
      obtain ⟨b, -, s₁, h₁, s₂, h₂, h₃⟩ := h
      have hs₂ := (hs.makeSelfRing h₁).destroy h₂
      split_ifs at h₃
      · obtain rfl := Option.some.inj h₃
        exact hs₂
      · exact ih hs₂ h₃

theorem coalesceInto_eq_some {p pos : ℕ} {nodes : List ℕ}
    (h : coalesceInto s p pos nodes = some s') :
    s'.bufs = s.bufs ∧ s'.caps = s.caps := by
  induction nodes generalizing s pos with
  | nil =>
      obtain rfl := Option.some.inj h
      exact ⟨rfl, rfl⟩
  | cons i nodes ih =>
      simp only [coalesceInto, Option.bind_eq_bind,
        Option.bind_eq_some_iff] at h
      obtain ⟨b, -, h⟩ := h
      obtain ⟨hbufs, hcaps⟩ := ih h
      exact ⟨hbufs, hcaps.trans (caps_modifyPhys s p fun _ => rfl)⟩

theorem AllGood.coalesceChain (hs : AllGood s) {uninit : ℕ → ℕ → UInt8}
    {i fuel : ℕ} (h : coalesceChain uninit s i fuel = some s') :
    AllGood s' := by
  simp only [Memory.coalesceChain, Option.bind_eq_bind,
    Option.bind_eq_some_iff] at h
  obtain ⟨nodes, -, h⟩ := h
  split_ifs at h
  · obtain rfl := Option.some.inj h
    exact hs.newBuffer (by simp)
  · simp only [Option.bind_eq_some_iff] at h
    obtain ⟨⟨p, s₁⟩, hphys, s₂, hinto, h⟩ := h
    obtain ⟨hcap, hbufs, hext, hnew⟩ := createPhysical_eq_some hphys
    obtain ⟨hbufs₂, hcaps₂⟩ := coalesceInto_eq_some hinto
    obtain rfl := Option.some.inj h
    have hs₂ : AllGood s₂ := by
      refine hs.of_caps (hbufs₂.trans hbufs) ?_
      rw [hcaps₂]
      exact hext
    refine hs₂.newBuffer fun q hq => ?_
    obtain rfl := Option.some.inj hq
    exact ⟨_, hcaps₂ ▸ hnew, hcap, (Nat.zero_add _).le⟩

/-! ## Replacing the storage -/

theorem replaceStorage_eq_some {uninit : ℕ → ℕ → UInt8} {i cap : ℕ}
    {b : Buffer} (hb : s.buf? i = some b)
    (h : replaceStorage uninit s i b cap = some s') :
    cap < sizeLimit ∧ Extends s.caps s'.caps ∧
      ∃ p, s'.caps p = some cap ∧ ∀ j, s'.buf? j =
        if j = i then some { b with physical := some p, data := headroom b }
        else s.buf? j := by
  simp only [replaceStorage, Option.bind_eq_bind,
    Option.bind_eq_some_iff] at h
  obtain ⟨⟨p, s₁⟩, hphys, s₂, hrelease, hmodify⟩ := h
  obtain ⟨hcap, hbufs, hext, hnew⟩ := createPhysical_eq_some hphys
  obtain ⟨hcaps, b₁, hb₁, hbufs₂⟩ := releasePhysical_eq_some hrelease
  dsimp only at hcaps hb₁ hbufs₂ hmodify
  have hstore : ∀ ph : PhysicalBuffer,
      (ph.store (headroom b) (s.view b) b.length).capacity =
        ph.capacity := fun _ => rfl
  rw [caps_modifyPhys s₁ p hstore] at hcaps
  have hlookup : ∀ j, (s₁.modifyPhys p fun ph =>
      ph.store (headroom b) (s.view b) b.length).buf? j = s.buf? j := by
    intro j
    simp only [State.buf?, State.modifyPhys, hbufs]
  rw [hlookup, hb] at hb₁
  obtain rfl := Option.some.inj hb₁
  obtain ⟨b₂, hb₂, rfl⟩ := modifyBuf_eq_some hmodify
  have hself := hbufs₂ i
  rw [if_pos rfl, hb₂] at hself
  obtain rfl := Option.some.inj hself
  have hcaps' : (s₂.setBuf i { b with
      physical := some p, data := headroom b }).caps = s₁.caps := hcaps
  rw [hcaps']
  refine ⟨hcap, hext, p, hnew, fun j => ?_⟩
  rw [buf?_setBuf hb₂]
  split_ifs with hj
  · rfl
  · rw [hbufs₂, if_neg hj, hlookup]

/-- After a replacement the other views are as they were, and the view itself
refers to the new storage. -/
theorem AllGood.replaceStorage (hs : AllGood s) {uninit : ℕ → ℕ → UInt8}
    {i cap : ℕ} {b : Buffer} (hb : s.buf? i = some b)
    (h : replaceStorage uninit s i b cap = some s')
    (hfits : headroom b + b.length ≤ cap) : AllGood s' := by
  obtain ⟨hcap, hext, p, hp, hbufs⟩ := replaceStorage_eq_some hb h
  intro j c hc
  rw [hbufs] at hc
  split_ifs at hc
  · obtain rfl := Option.some.inj hc
    intro q hq
    obtain rfl := Option.some.inj hq
    exact ⟨cap, hp, hcap, hfits⟩
  · exact (hs j c hc).mono hext

theorem Good.capacity_eq {b : Buffer} (hb : Good s.caps b)
    (hsome : b.physical ≠ none) :
    headroom b + b.length ≤ capacity s b ∧ capacity s b < sizeLimit := by
  obtain ⟨p, hp⟩ := Option.ne_none_iff_exists'.mp hsome
  obtain ⟨cap, hcap, hlt, hle⟩ := hb p hp
  have heq : capacity s b = cap := by
    simp only [capacity, State.storage, hp, Option.bind_some]
    rw [State.caps] at hcap
    rw [hcap, Option.getD_some]
  rw [heq, headroom, if_neg hsome]
  exact ⟨hle, hlt⟩

theorem physical_ne_none_of_isShared {b : Buffer}
    (h : isShared s b = true) : b.physical ≠ none := by
  intro hnone
  simp [isShared, State.storage, hnone] at h

theorem AllGood.cowDetach (hs : AllGood s) {uninit : ℕ → ℕ → UInt8} {i : ℕ}
    (h : cowDetach uninit s i = some s') : AllGood s' := by
  simp only [Memory.cowDetach, Option.bind_eq_bind,
    Option.bind_eq_some_iff] at h
  obtain ⟨b, hb, h⟩ := h
  split_ifs at h with hshared
  · have hsome := physical_ne_none_of_isShared hshared
    exact hs.replaceStorage hb h ((hs i b hb).capacity_eq hsome).1
  · obtain rfl := Option.some.inj h
    exact hs

theorem AllGood.writableData (hs : AllGood s) {uninit : ℕ → ℕ → UInt8}
    {i pos : ℕ} {bytes : ByteBuffer}
    (h : writableData uninit s i pos bytes = some s') : AllGood s' := by
  simp only [Memory.writableData, Option.bind_eq_bind,
    Option.bind_eq_some_iff, Option.ite_none_right_eq_some] at h
  obtain ⟨s₁, h₁, b, -, -, h₂⟩ := h
  obtain rfl := Option.some.inj h₂
  exact (hs.cowDetach h₁).storeAt b _ _ _

theorem AllGood.write (hs : AllGood s) {uninit : ℕ → ℕ → UInt8}
    {c c' : Cursor} {src : ByteBuffer} {fuel : ℕ}
    (h : write uninit s c src fuel = some (s', c')) : AllGood s' := by
  induction fuel generalizing s c src with
  | zero => cases h
  | succ fuel ih =>
      cases src with
      | nil =>
          simp only [Memory.write, Option.some.injEq, Prod.mk.injEq] at h
          exact h.1 ▸ hs
      | cons byte src =>
          simp only [Memory.write, Option.bind_eq_bind,
            Option.bind_eq_some_iff] at h
          obtain ⟨done, -, h⟩ := h
          split_ifs at h
          · obtain ⟨rfl, -⟩ := Prod.mk.inj (Option.some.inj h)
            exact hs
          · simp only [Option.bind_eq_some_iff] at h
            obtain ⟨s₁, h₁, b, -, c₁, -, h₂⟩ := h
            exact ih ((hs.cowDetach h₁).storeAt b _ _ _) h₂

/-! ## Moving the view -/

theorem Good.of_range {caps : ℕ → Option ℕ} {b b' : Buffer}
    (hb : Good caps b) (hphysical : b'.physical = b.physical)
    (hle : b'.data + b'.length ≤ b.data + b.length) : Good caps b' := by
  intro p hp
  obtain ⟨cap, hcap, hlt, hin⟩ := hb p (hphysical ▸ hp)
  exact ⟨cap, hcap, hlt, hle.trans hin⟩

theorem AllGood.trimStart (hs : AllGood s) {i n : ℕ}
    (h : trimStart s i n = some s') : AllGood s' := by
  simp only [Memory.trimStart, Option.bind_eq_bind, Option.bind_eq_some_iff,
    Option.ite_none_right_eq_some] at h
  obtain ⟨b, hb, hn, h⟩ := h
  obtain rfl := Option.some.inj h
  refine hs.setBuf hb ((hs i b hb).of_range rfl ?_)
  show b.data + n + (b.length - n) ≤ b.data + b.length
  omega

theorem AllGood.trimEnd (hs : AllGood s) {i n : ℕ}
    (h : trimEnd s i n = some s') : AllGood s' := by
  simp only [Memory.trimEnd, Option.bind_eq_bind, Option.bind_eq_some_iff,
    Option.ite_none_right_eq_some] at h
  obtain ⟨b, hb, -, h⟩ := h
  obtain rfl := Option.some.inj h
  refine hs.setBuf hb ((hs i b hb).of_range rfl ?_)
  show b.data + (b.length - n) ≤ b.data + b.length
  omega

theorem addSize_le (a b : ℕ) : addSize a b ≤ a + b := Nat.mod_le _ _

theorem AllGood.prepend (hs : AllGood s) {i n : ℕ}
    (h : prepend s i n = some s') : AllGood s' := by
  simp only [Memory.prepend, Option.bind_eq_bind, Option.bind_eq_some_iff,
    Option.ite_none_right_eq_some] at h
  obtain ⟨b, hb, hn, h⟩ := h
  obtain rfl := Option.some.inj h
  by_cases hnone : b.physical = none
  · exact hs.setBuf hb (good_of_physical_none hnone)
  · rw [headroom, if_neg hnone] at hn
    refine hs.setBuf hb ((hs i b hb).of_range rfl ?_)
    have hadd := addSize_le b.length n
    show b.data - n + addSize b.length n ≤ b.data + b.length
    omega

theorem Good.tailroom_eq {b : Buffer} (hb : Good s.caps b)
    (hsome : b.physical ≠ none) :
    headroom b + b.length + tailroom s b = capacity s b := by
  obtain ⟨hle, hlt⟩ := hb.capacity_eq hsome
  simp only [tailroom, if_neg hsome, subSize, sizeModulus]
  simp only [sizeLimit] at hlt
  omega

/-- Room that the check of `Append` finds is inside the storage. -/
theorem Good.append {b : Buffer} (hb : Good s.caps b) {n : ℕ}
    (hn : n ≤ tailroom s b) :
    Good s.caps { b with length := addSize b.length n } := by
  by_cases hnone : b.physical = none
  · exact good_of_physical_none hnone
  · have htail := hb.tailroom_eq hnone
    intro p hp
    obtain ⟨cap, hcap, hlt, hle⟩ := hb p hp
    refine ⟨cap, hcap, hlt, ?_⟩
    have hcapacity : capacity s b = cap := by
      have hp' : b.physical = some p := hp
      simp only [capacity, State.storage, hp', Option.bind_some]
      rw [State.caps] at hcap
      rw [hcap, Option.getD_some]
    have hadd := addSize_le b.length n
    rw [hcapacity, headroom, if_neg hnone] at htail
    show b.data + addSize b.length n ≤ cap
    omega

theorem AllGood.append (hs : AllGood s) {i n : ℕ}
    (h : append s i n = some s') : AllGood s' := by
  simp only [Memory.append, Option.bind_eq_bind, Option.bind_eq_some_iff,
    Option.ite_none_right_eq_some] at h
  obtain ⟨b, hb, hn, h⟩ := h
  obtain rfl := Option.some.inj h
  exact hs.setBuf hb ((hs i b hb).append hn)

theorem AllGood.slice (hs : AllGood s) {i offset len : ℕ}
    (hsum : ∀ b, s.buf? i = some b → b.physical ≠ none →
      addSize offset len = offset + len)
    (h : slice s i offset len = some s') : AllGood s' := by
  simp only [Memory.slice, Option.bind_eq_bind, Option.bind_eq_some_iff,
    Option.ite_none_right_eq_some] at h
  obtain ⟨b, hb, hin, h⟩ := h
  obtain rfl := Option.some.inj h
  refine (hs.retainPhysical b.physical).newBuffer fun p hp => ?_
  rw [caps_retainPhysical]
  rw [hsum b hb (by simp [hp])] at hin
  obtain ⟨cap, hcap, hlt, hle⟩ := hs i b hb p hp
  exact ⟨cap, hcap, hlt, by omega⟩

theorem AllGood.sliceFrom (hs : AllGood s) {i offset : ℕ}
    (hin : ∀ b, s.buf? i = some b → offset ≤ b.length)
    (h : sliceFrom s i offset = some s') : AllGood s' := by
  simp only [Memory.sliceFrom, Option.bind_eq_bind,
    Option.bind_eq_some_iff] at h
  obtain ⟨b, hb, h⟩ := h
  refine hs.slice (fun b' hb' hsome => ?_) h
  obtain rfl : b = b' := Option.some.inj (hb.symm.trans hb')
  obtain ⟨hle, hlt⟩ := (hs i b hb).capacity_eq hsome
  have hoffset := hin b hb
  simp only [addSize, subSize, sizeModulus]
  simp only [sizeLimit] at hlt
  omega

theorem AllGood.clone (hs : AllGood s) {uninit : ℕ → ℕ → UInt8} {i : ℕ}
    (h : clone uninit s i = some s') : AllGood s' := by
  simp only [Memory.clone, Option.bind_eq_bind, Option.bind_eq_some_iff] at h
  obtain ⟨b, -, h⟩ := h
  split_ifs at h
  · obtain rfl := Option.some.inj h
    exact hs.newBuffer (by simp)
  · exact hs.copyFrom h

/-! ## Growing -/

/-- If `EnsureTailroom` replaces the storage, the new storage has room for the
old headroom in front of the view. -/
def GrowthFits (s : State) (i n : ℕ) : Prop :=
  ∀ b, s.buf? i = some b → reallocates s b n = true →
    headroom b + b.length ≤ newCapacity b n

/-- If `AppendData` replaces the storage, the new storage has room for the old
headroom in front of the longer view. -/
def AppendFits (s : State) (i n : ℕ) : Prop :=
  ∀ b, s.buf? i = some b → reallocates s b n = true →
    headroom b + addSize b.length n ≤ newCapacity b n

/-- `Reserve` returns early or calls `EnsureTailroom`. -/
def ReserveFits (s : State) (i newCap : ℕ) : Prop :=
  ∀ b, s.buf? i = some b →
    ¬ (newCap ≤ capacity s b ∧ isShared s b = false) →
      GrowthFits s i (reserveTailroom b newCap)

theorem AllGood.inBounds (hs : AllGood s) : InBounds s :=
  ((allGood_iff s).mp hs).2

theorem AllGood.allStored (hs : AllGood s) : AllStored s :=
  ((allGood_iff s).mp hs).1

/-- A state in which all views but one are good. -/
theorem stored_and_inBounds_iff {i p cap : ℕ} {c : Buffer}
    (hc : s'.buf? i = some c) (hp : c.physical = some p)
    (hcap : s'.caps p = some cap) (hlt : cap < sizeLimit)
    (hother : ∀ j b, j ≠ i → s'.buf? j = some b → Good s'.caps b) :
    AllStored s' ∧ (InBounds s' ↔ c.data + c.length ≤ cap) := by
  refine ⟨fun j b hb q hq => ?_, fun h => h i c hc p cap hp hcap,
    fun hle j b hb q cap' hq hcap' => ?_⟩
  · by_cases hj : j = i
    · subst hj
      obtain rfl := Option.some.inj (hc.symm.trans hb)
      obtain rfl := Option.some.inj (hp.symm.trans hq)
      exact ⟨cap, hcap, hlt⟩
    · obtain ⟨cap', hcap', hlt', -⟩ := hother j b hj hb q hq
      exact ⟨cap', hcap', hlt'⟩
  · by_cases hj : j = i
    · subst hj
      obtain rfl := Option.some.inj (hc.symm.trans hb)
      obtain rfl := Option.some.inj (hp.symm.trans hq)
      obtain rfl := Option.some.inj (hcap.symm.trans hcap')
      exact hle
    · obtain ⟨cap₁, hcap₁, -, hle₁⟩ := hother j b hj hb q hq
      obtain rfl := Option.some.inj (hcap₁.symm.trans hcap')
      exact hle₁

theorem AllGood.ensureTailroom (hs : AllGood s) {uninit : ℕ → ℕ → UInt8}
    {i n : ℕ} (h : ensureTailroom uninit s i n = some s') :
    AllStored s' ∧ (InBounds s' ↔ GrowthFits s i n) := by
  simp only [Memory.ensureTailroom, Option.bind_eq_bind,
    Option.bind_eq_some_iff] at h
  obtain ⟨b, hb, h⟩ := h
  have hfits : GrowthFits s i n ↔ (reallocates s b n = true →
      headroom b + b.length ≤ newCapacity b n) := by
    refine ⟨fun hg => hg b hb, fun hg b' hb' => ?_⟩
    obtain rfl := Option.some.inj (hb.symm.trans hb')
    exact hg
  rw [hfits]
  split_ifs at h with hre
  · obtain ⟨hcap, hext, p, hp, hbufs⟩ := replaceStorage_eq_some hb h
    have hself := hbufs i
    rw [if_pos rfl] at hself
    obtain ⟨hstored, hiff⟩ := stored_and_inBounds_iff hself rfl hp hcap
      (fun j c hj hc => by
        rw [hbufs, if_neg hj] at hc
        exact (hs j c hc).mono hext)
    exact ⟨hstored, hiff.trans ⟨fun hle _ => hle, fun hle => hle hre⟩⟩
  · obtain rfl := Option.some.inj h
    exact ⟨hs.allStored, fun _ hyes => absurd hyes hre,
      fun _ => hs.inBounds⟩

theorem AllGood.appendData (hs : AllGood s) {uninit : ℕ → ℕ → UInt8}
    {i : ℕ} {bytes : ByteBuffer}
    (h : appendData uninit s i bytes = some s') :
    AllStored s' ∧ (InBounds s' ↔ AppendFits s i bytes.length) := by
  simp only [Memory.appendData, Memory.ensureTailroom, Option.bind_eq_bind,
    Option.bind_eq_some_iff] at h
  obtain ⟨s₁, ⟨b, hb, h₁⟩, c, hc, h₂⟩ := h
  obtain rfl := Option.some.inj h₂
  have hfits : AppendFits s i bytes.length ↔
      (reallocates s b bytes.length = true →
        headroom b + addSize b.length bytes.length ≤
          newCapacity b bytes.length) := by
    refine ⟨fun hg => hg b hb, fun hg b' hb' => ?_⟩
    obtain rfl := Option.some.inj (hb.symm.trans hb')
    exact hg
  rw [hfits]
  -- The bytes are stored before the view grows.
  generalize hstore : s₁.storeAt c c.length (fun k => bytes.getD k 0)
    bytes.length = s₂
  have hcaps : s₂.caps = s₁.caps := by rw [← hstore, caps_storeAt]
  have hbufs₂ : ∀ j, s₂.buf? j = s₁.buf? j := by
    intro j
    rw [← hstore, State.storeAt]
    split <;> rfl
  have hc₂ : s₂.buf? i = some c := by rw [hbufs₂, hc]
  split_ifs at h₁ with hre
  · obtain ⟨hcap, hext, p, hp, hbufs⟩ := replaceStorage_eq_some hb h₁
    rw [hbufs, if_pos rfl] at hc
    obtain rfl := Option.some.inj hc
    have hself := buf?_setBuf hc₂ { b with
      physical := some p
      data := headroom b
      length := addSize b.length bytes.length } i
    rw [if_pos rfl] at hself
    obtain ⟨hstored, hiff⟩ := stored_and_inBounds_iff hself rfl
      (show s₂.caps p = _ by rw [hcaps, hp]) hcap (fun j d hj hd => by
        rw [buf?_setBuf hc₂, if_neg hj, hbufs₂, hbufs, if_neg hj] at hd
        show Good s₂.caps d
        rw [hcaps]
        exact (hs j d hd).mono hext)
    exact ⟨hstored, hiff.trans ⟨fun hle _ => hle, fun hle => hle hre⟩⟩
  · obtain rfl := Option.some.inj h₁
    obtain rfl := Option.some.inj (hb.symm.trans hc)
    have hroom : bytes.length ≤ tailroom s b := by
      simp only [reallocates, Bool.not_eq_true', Bool.not_eq_false,
        Bool.and_eq_true, decide_eq_true_eq] at hre
      exact hre.2
    have hs₂ : AllGood s₂ := by
      rw [← hstore]
      exact hs.storeAt b _ _ _
    have hgood := hs₂.setBuf hc₂ (hcaps ▸ (hs i b hb).append hroom)
    exact ⟨hgood.allStored, fun _ hyes => absurd hyes hre,
      fun _ => hgood.inBounds⟩

theorem AllGood.reserve (hs : AllGood s) {uninit : ℕ → ℕ → UInt8}
    {i newCap : ℕ} (h : reserve uninit s i newCap = some s') :
    AllStored s' ∧ (InBounds s' ↔ ReserveFits s i newCap) := by
  simp only [Memory.reserve, Option.bind_eq_bind,
    Option.bind_eq_some_iff] at h
  obtain ⟨b, hb, h⟩ := h
  have hfits : ReserveFits s i newCap ↔
      (¬ (newCap ≤ capacity s b ∧ isShared s b = false) →
        GrowthFits s i (reserveTailroom b newCap)) := by
    refine ⟨fun hg => hg b hb, fun hg b' hb' => ?_⟩
    obtain rfl := Option.some.inj (hb.symm.trans hb')
    exact hg
  rw [hfits]
  split_ifs at h with hearly
  · obtain rfl := Option.some.inj h
    exact ⟨hs.allStored, fun _ hno => absurd hearly hno, fun _ => hs.inBounds⟩
  · obtain ⟨hstored, hiff⟩ := hs.ensureTailroom h
    exact ⟨hstored, hiff.trans ⟨fun hg _ => hg, fun hg => hg hearly⟩⟩

end Views

/-! ## Runs -/

/-- What the next operation needs for the views to stay inside. -/
def StepFits (s : State) : Action → Prop
  | .ensureTailroom i n => GrowthFits s i n
  | .reserve i newCap => ReserveFits s i newCap
  | .appendData i bytes => AppendFits s i bytes.length
  | _ => True

section Runs

variable (uninit : ℕ → ℕ → UInt8)

/-- The operations that never replace storage by a chosen size. -/
theorem AllGood.perform {s s' : State} (hs : AllGood s) {a : Action}
    (hsizes : a.sizesOk s = true) (h : perform uninit s a = some s')
    (hgrow : ∀ i n, a ≠ .ensureTailroom i n) (hreserve : ∀ i n, a ≠ .reserve i n)
    (happend : ∀ i bytes, a ≠ .appendData i bytes) : AllGood s' := by
  cases a with
  | default =>
      obtain rfl := Option.some.inj h
      exact hs.newBuffer (by simp)
  | create n => exact hs.create h
  | copyFrom bytes => exact hs.copyFrom h
  | wrapExternal bytes freeFn => exact hs.wrapExternal h
  | copyConstruct rhs => exact hs.copyConstruct h
  | moveConstruct rhs => exact hs.moveConstruct h
  | copyAssign i rhs => exact hs.copyAssign h
  | moveAssign i rhs => exact hs.moveAssign h
  | destroy i => exact hs.destroy h
  | appendChain i other => exact hs.appendChain h
  | prependChain i other => exact hs.prependChain h
  | unlink i => exact hs.unlink h
  | splitChainAfter i => exact hs.splitChainAfter h
  | coalesceChain i fuel => exact hs.coalesceChain h
  | destroyChain head fuel => exact hs.destroyChain h
  | writableData i pos bytes => exact hs.writableData h
  | trimStart i n => exact hs.trimStart h
  | trimEnd i n => exact hs.trimEnd h
  | prepend i n => exact hs.prepend h
  | append i n => exact hs.append h
  | appendData i bytes => exact absurd rfl (happend i bytes)
  | ensureTailroom i n => exact absurd rfl (hgrow i n)
  | reserve i n => exact absurd rfl (hreserve i n)
  | slice i offset len =>
      refine hs.slice (fun b _ _ => ?_) h
      simp only [Action.sizesOk, Bool.and_eq_true, decide_eq_true_eq,
        sizeLimit] at hsizes
      simp only [addSize, sizeModulus]
      omega
  | sliceFrom i offset =>
      refine hs.sliceFrom (fun b hb => ?_) h
      simpa [Action.sizesOk, hb] using hsizes
  | clone i => exact hs.clone h
  | newCursor head =>
      obtain ⟨b, -, rfl⟩ := Option.map_eq_some_iff.mp h
      exact hs
  | cursorReset k =>
      obtain ⟨c, -, rfl⟩ := Option.map_eq_some_iff.mp h
      exact hs
  | cursorSkip k len fuel =>
      simp only [Memory.perform, Option.bind_eq_bind,
        Option.bind_eq_some_iff] at h
      obtain ⟨c, -, c', -, h⟩ := h
      obtain rfl := Option.some.inj h
      exact hs
  | cursorRead k len fuel =>
      simp only [Memory.perform, Option.bind_eq_bind,
        Option.bind_eq_some_iff] at h
      obtain ⟨c, -, ⟨c', bytes⟩, -, h⟩ := h
      obtain rfl := Option.some.inj h
      exact hs
  | cursorWrite k src fuel =>
      simp only [Memory.perform, Option.bind_eq_bind,
        Option.bind_eq_some_iff] at h
      obtain ⟨c, -, ⟨s₁, c'⟩, hwrite, h⟩ := h
      obtain rfl := Option.some.inj h
      have hs₁ : AllGood s₁ := hs.write hwrite
      exact hs₁

theorem step_inBounds_iff {s s' : State} {a : Action}
    (hstored : AllStored s) (hin : InBounds s)
    (hstep : step uninit s a = some s') :
    AllStored s' ∧ (InBounds s' ↔ StepFits s a) := by
  have hs := (allGood_iff s).mpr ⟨hstored, hin⟩
  simp only [step, Option.ite_none_right_eq_some] at hstep
  obtain ⟨hsizes, h⟩ := hstep
  by_cases hgrow : ∃ i n, a = .ensureTailroom i n
  · obtain ⟨i, n, rfl⟩ := hgrow
    exact hs.ensureTailroom h
  · by_cases hreserve : ∃ i n, a = .reserve i n
    · obtain ⟨i, n, rfl⟩ := hreserve
      exact hs.reserve h
    · by_cases happend : ∃ i bytes, a = .appendData i bytes
      · obtain ⟨i, bytes, rfl⟩ := happend
        exact hs.appendData h
      · have hs' := hs.perform uninit hsizes h
          (fun i n heq => hgrow ⟨i, n, heq⟩)
          (fun i n heq => hreserve ⟨i, n, heq⟩)
          (fun i bytes heq => happend ⟨i, bytes, heq⟩)
        have hfits : StepFits s a := by
          cases a with
          | ensureTailroom i n => exact absurd ⟨i, n, rfl⟩ hgrow
          | reserve i n => exact absurd ⟨i, n, rfl⟩ hreserve
          | appendData i bytes => exact absurd ⟨i, bytes, rfl⟩ happend
          | _ => trivial
        exact ⟨hs'.allStored, fun _ => hfits, fun _ => hs'.inBounds⟩

/-- In every run the views stay inside their storage exactly as long as every
replacement of storage has room for the old headroom in front of the view. -/
theorem inBounds_iff (acts : List Action) :
    Transition.AllStates (step uninit) InBounds init acts ↔
      Transition.AllSteps (step uninit) StepFits init acts := by
  refine Transition.allStates_iff_allSteps (I := AllStored)
    (fun s a s' hstored hin hstep =>
      step_inBounds_iff uninit hstored hin hstep) ?_ ?_ acts
  · intro i b hb
    simp [State.buf?, init] at hb
  · intro i b hb
    simp [State.buf?, init] at hb

end Runs

/-- Six bytes behind 250 bytes of headroom are asked for one more byte of
tailroom; the new storage holds 74 bytes. -/
def headroomKept : List Action :=
  [.create 256, .append 0 256, .trimStart 0 250, .ensureTailroom 0 1]

theorem headroomKept_runs :
    (Transition.run (step fun _ _ => 0) init headroomKept).isSome = true := by
  decide

/-- After `headroomKept` the view ends at 256 in storage of 74 bytes. -/
theorem exists_outOfBounds :
    ¬ ∀ uninit s, Reachable uninit s → InBounds s := by
  intro hall
  have hreach := Transition.reachable_get_run (Set.mem_singleton init)
    headroomKept_runs
  have hin := hall _ _ hreach 0 ⟨some 1, 250, 6, 0, 0⟩ (by decide) 1 74 rfl
    (by decide)
  revert hin
  decide

end Memory
end Yacul
