import Yacul.Memory.BufferLedger

/-!
# Copy-on-write isolation

An operation that mutates one buffer first gives it storage that nobody else
refers to, or finds that it has such storage, and then stores bytes in that
storage only.  So every other buffer sees what it saw.  As long as the views
are inside their storage, the stores are as well.
-/

namespace Yacul
namespace Memory

/-- Buffer `j` sees the same bytes at the same place. -/
def SameSight (s s' : State) (j : ℕ) : Prop :=
  ∀ b, s.buf? j = some b → ∃ b', s'.buf? j = some b' ∧
    b'.window = b.window ∧ ∀ k < b.length, s'.view b' k = s.view b k

/-- A view without storage is empty. -/
def UnstoredEmpty (s : State) : Prop :=
  ∀ i b, s.buf? i = some b → b.physical = none → b.length = 0

/-- The views lie inside their storage. -/
structure ViewsInside (s : State) : Prop where
  inBounds : InBounds s
  empty : UnstoredEmpty s

/-- The contents of storage `p`. -/
def Sharing.bytes? (t : Sharing) (p : ℕ) : Option (ℕ → UInt8) :=
  t.phys[p]?.map PhysicalBuffer.bytes

/-- The memory behind the end of storage `p`, with what was there before the
allocation in front of it. -/
def Sharing.outside (uninit : ℕ → ℕ → UInt8) (t : Sharing) (p k : ℕ) :
    UInt8 :=
  match t.phys[p]? with
  | none => uninit p k
  | some ph => if ph.capacity ≤ k then ph.bytes k else uninit p k

/-- No byte outside the storage is written. -/
def Confined (uninit : ℕ → ℕ → UInt8) (s s' : State) : Prop :=
  s'.sharing.outside uninit = s.sharing.outside uninit

section Frames

variable {s s' s'' : State} {uninit : ℕ → ℕ → UInt8}

/-! ## What a buffer sees -/

theorem SameSight.trans {j : ℕ} (h : SameSight s s' j)
    (h' : SameSight s' s'' j) : SameSight s s'' j := by
  intro b hb
  obtain ⟨b', hb', hwindow, hview⟩ := h b hb
  obtain ⟨b'', hb'', hwindow', hview'⟩ := h' b' hb'
  refine ⟨b'', hb'', hwindow'.trans hwindow, fun k hk => ?_⟩
  have hlen : b'.length = b.length := congrArg Window.length hwindow
  rw [hview' k (by rw [hlen]; exact hk), hview k hk]

theorem SameSight.refl (s : State) (j : ℕ) : SameSight s s j :=
  fun b hb => ⟨b, hb, rfl, fun _ _ => rfl⟩

theorem view_eq (s : State) (b : Buffer) (k : ℕ) :
    s.view b k = match b.physical.bind s.sharing.bytes? with
      | none => 0
      | some bytes => bytes (b.data + k) := by
  unfold State.view
  cases b.physical with
  | none => rfl
  | some p =>
      simp only [Option.bind_some, Sharing.bytes?, State.sharing]
      cases s.phys[p]? <;> rfl

/-- A buffer sees the same if its window and the contents of its storage are
the same. -/
theorem sameSight_of_bytes {j : ℕ}
    (hwindow : s'.sharing.window? j = s.sharing.window? j)
    (hbytes : ∀ w p, s.sharing.window? j = some w → w.physical = some p →
      s'.sharing.bytes? p = s.sharing.bytes? p) : SameSight s s' j := by
  intro b hb
  have hw := window?_of_buf? hb
  rw [hw, window?_sharing] at hwindow
  obtain ⟨b', hb', heq⟩ := Option.map_eq_some_iff.mp hwindow
  refine ⟨b', hb', heq, fun k _ => ?_⟩
  have hphysical : b'.physical = b.physical := congrArg Window.physical heq
  have hdata : b'.data = b.data := congrArg Window.data heq
  rw [view_eq, view_eq, hphysical, hdata]
  cases hp : b.physical with
  | none => rfl
  | some p =>
      rw [Option.bind_some, Option.bind_some,
        hbytes b.window p hw hp]

theorem sameSight_setBuf {i j : ℕ} {b : Buffer} (hb : s.buf? i = some b)
    (c : Buffer) (hj : j ≠ i) : SameSight s (s.setBuf i c) j := by
  apply sameSight_of_bytes
  · rw [sharing_setBuf, Sharing.window?_setWindow (window?_of_buf? hb),
      if_neg hj]
  · intro w p _ _
    rw [sharing_setBuf]
    rfl

theorem Sharing.bytes?_update (t : Sharing) {o : Option ℕ}
    {f : PhysicalBuffer → PhysicalBuffer} {p : ℕ}
    (h : o ≠ some p ∨ ∀ ph, (f ph).bytes = ph.bytes) :
    (t.update o f).bytes? p = t.bytes? p := by
  simp only [bytes?, phys_update]
  split_ifs with ho
  · rcases h with hne | hf
    · exact absurd ho hne
    · cases t.phys[p]? with
      | none => rfl
      | some ph => simp [hf]
  · rfl

theorem bytes_release (ph : PhysicalBuffer) : ph.release.bytes = ph.bytes := by
  unfold PhysicalBuffer.release
  split <;> rfl

/-! ## Detaching -/

/-- Buffer `i` has its storage for itself, and nothing else has changed. -/
structure Detaches (s s' : State) (i : ℕ) : Prop where
  others : ∀ j, j ≠ i → s'.sharing.window? j = s.sharing.window? j
  bytes : ∀ p, p ≠ s.phys.length → s'.sharing.bytes? p = s.sharing.bytes? p
  own : ∃ b, s'.buf? i = some b ∧ isShared s' b = false

theorem Detaches.sameSight {i j : ℕ} (h : Detaches s s' i)
    (hs : s.sharing.Ledger) (hj : j ≠ i) : SameSight s s' j := by
  apply sameSight_of_bytes (h.others j hj)
  intro w p hw hp
  obtain ⟨ph, hph, -⟩ := hs.window_lt hw hp
  have hlt : p < s.phys.length := (List.getElem?_eq_some_iff.mp hph).1
  exact h.bytes p (Nat.ne_of_lt hlt)

theorem Detaches.of_unshared {i : ℕ} {b : Buffer} (hb : s.buf? i = some b)
    (hshared : isShared s b = false) : Detaches s s i :=
  ⟨fun _ _ => rfl, fun _ _ => rfl, b, hb, hshared⟩

theorem detaches_replaceStorage {i cap : ℕ} {b : Buffer}
    (hs : s.sharing.Ledger) (hb : s.buf? i = some b)
    (h : replaceStorage uninit s i b cap = some s') : Detaches s s' i := by
  obtain ⟨-, heq⟩ := sharing_replaceStorage hb h
  have hw := window?_of_buf? hb
  have hlookup := Sharing.window?_setWindow (i := i) (w := b.window)
    (t := (s.sharing.alloc (replacement uninit s b cap)).update b.physical
      PhysicalBuffer.release)
    (by rw [Sharing.window?_update, Sharing.window?_alloc, hw])
    ⟨some s.phys.length, headroom b, b.length⟩
  have hphys : s'.sharing.phys = ((s.sharing.alloc (replacement uninit s b
      cap)).update b.physical PhysicalBuffer.release).phys := by
    rw [heq]
    rfl
  constructor
  · intro j hj
    rw [heq, hlookup, if_neg hj, Sharing.window?_update,
      Sharing.window?_alloc]
  · intro p hp
    have hkeep := Sharing.bytes?_update (s.sharing.alloc (replacement uninit s
      b cap)) (o := b.physical) (p := p) (Or.inr bytes_release)
    rw [Sharing.bytes?, hphys]
    refine hkeep.trans ?_
    have hne : p ≠ s.sharing.phys.length := hp
    rw [Sharing.bytes?, Sharing.phys_alloc, if_neg hne]
    rfl
  · have hself := hlookup i
    rw [if_pos rfl, ← heq, window?_sharing] at hself
    obtain ⟨c, hc, hcw⟩ := Option.map_eq_some_iff.mp hself
    refine ⟨c, hc, ?_⟩
    have hp : c.physical = some s.phys.length :=
      congrArg Window.physical hcw
    have hne : b.physical ≠ some s.phys.length := hs.physical_ne_new hw
    have hnew : s'.phys[s.phys.length]? =
        some (replacement uninit s b cap) := by
      show s'.sharing.phys[s.phys.length]? = _
      rw [hphys, Sharing.phys_update, if_neg hne, Sharing.phys_alloc]
      exact if_pos rfl
    simp only [isShared, State.storage, hp, Option.bind_some, hnew,
      Option.map_some, Option.getD_some]
    rfl

theorem detaches_cowDetach {i : ℕ} (hs : s.sharing.Ledger)
    (h : cowDetach uninit s i = some s') : Detaches s s' i := by
  simp only [cowDetach, Option.bind_eq_bind, Option.bind_eq_some_iff] at h
  obtain ⟨b, hb, h⟩ := h
  split_ifs at h with hshared
  · exact detaches_replaceStorage hs hb h
  · obtain rfl := Option.some.inj h
    exact .of_unshared hb (by simpa using hshared)

theorem detaches_ensureTailroom {i n : ℕ} (hs : s.sharing.Ledger)
    (h : ensureTailroom uninit s i n = some s') : Detaches s s' i := by
  simp only [ensureTailroom, Option.bind_eq_bind,
    Option.bind_eq_some_iff] at h
  obtain ⟨b, hb, h⟩ := h
  split_ifs at h with hre
  · exact detaches_replaceStorage hs hb h
  · obtain rfl := Option.some.inj h
    simp only [reallocates, Bool.not_eq_true', Bool.not_eq_false,
      Bool.and_eq_true, Bool.not_eq_true', decide_eq_true_eq] at hre
    exact .of_unshared hb hre.1

/-- Two buffers on one storage make it shared. -/
theorem refs_ge_two {i j p : ℕ} {w v : Window} (hne : j ≠ i)
    (hw : s.sharing.window? i = some w) (hwp : w.physical = some p)
    (hv : s.sharing.window? j = some v) (hvp : v.physical = some p) :
    2 ≤ s.sharing.refs p := by
  have hcount := Sharing.refs_setWindow hv {} p
  rw [hit_of_eq hvp, hit_none] at hcount
  have hw' : (s.sharing.setWindow j {}).window? i = some w := by
    rw [Sharing.window?_setWindow hv, if_neg (Ne.symm hne), hw]
  have hpos := Sharing.refs_pos hw' hwp
  omega

/-- A store through an unshared buffer is seen by no other buffer. -/
theorem sameSight_storeAt {i j : ℕ} {b : Buffer} (hs : s.sharing.Ledger)
    (hb : s.buf? i = some b) (hshared : isShared s b = false) (hj : j ≠ i)
    (pos : ℕ) (src : ℕ → UInt8) (len : ℕ) :
    SameSight s (s.storeAt b pos src len) j := by
  apply sameSight_of_bytes
  · rw [sharing_storeAt, Sharing.window?_update]
  · intro w p hw hp
    rw [sharing_storeAt]
    apply Sharing.bytes?_update
    refine Or.inl fun hbp => ?_
    have htwo := refs_ge_two hj (window?_of_buf? hb) hbp hw hp
    rw [refs_sharing] at htwo
    have htrue := ((ledgerOk_of_ledger hs).shared i b hb).mpr ⟨p, hbp, htwo⟩
    rw [hshared] at htrue
    cases htrue

/-- Detach, then store. -/
theorem Detaches.store {i j : ℕ} {b : Buffer} (h : Detaches s s' i)
    (hs : s.sharing.Ledger) (hs' : s'.sharing.Ledger)
    (hb : s'.buf? i = some b) (hj : j ≠ i) (pos : ℕ) (src : ℕ → UInt8)
    (len : ℕ) : SameSight s (s'.storeAt b pos src len) j := by
  obtain ⟨c, hc, hshared⟩ := h.own
  obtain rfl := Option.some.inj (hc.symm.trans hb)
  exact (h.sameSight hs hj).trans (sameSight_storeAt hs' hb hshared hj _ _ _)

/-! ## Stores stay inside -/

theorem Confined.trans (h : Confined uninit s s')
    (h' : Confined uninit s' s'') : Confined uninit s s'' :=
  Eq.trans h' h

theorem confined_of_phys (h : s'.phys = s.phys) : Confined uninit s s' := by
  funext p k
  simp only [Sharing.outside, State.sharing, h]

theorem Sharing.outside_update (uninit : ℕ → ℕ → UInt8) (t : Sharing)
    (o : Option ℕ)
    {f : PhysicalBuffer → PhysicalBuffer}
    (hf : ∀ p ph, o = some p → t.phys[p]? = some ph →
      (f ph).capacity = ph.capacity ∧
        ∀ k, ph.capacity ≤ k → (f ph).bytes k = ph.bytes k) :
    (t.update o f).outside uninit = t.outside uninit := by
  funext p k
  simp only [outside, phys_update]
  split_ifs with ho
  · cases hph : t.phys[p]? with
    | none => rfl
    | some ph =>
        obtain ⟨hcap, hbytes⟩ := hf p ph ho hph
        simp only [Option.map_some, hcap]
        split_ifs with hk
        · exact hbytes k hk
        · rfl
  · rfl

theorem confined_storeAt {b : Buffer} {pos len : ℕ} {src : ℕ → UInt8}
    (h : ∀ p cap, b.physical = some p → s.caps p = some cap →
      b.data + pos + len ≤ cap) :
    Confined uninit s (s.storeAt b pos src len) := by
  rw [Confined, sharing_storeAt]
  apply Sharing.outside_update
  intro p ph hp hph
  refine ⟨rfl, fun k hk => ?_⟩
  have hle := h p ph.capacity hp (by
    rw [State.caps, show s.phys[p]? = some ph from hph, Option.map_some])
  simp only [PhysicalBuffer.store]
  rw [if_neg (by omega)]

theorem confined_replaceStorage {i cap : ℕ} {b : Buffer}
    (hb : s.buf? i = some b) (hfits : headroom b + b.length ≤ cap)
    (h : replaceStorage uninit s i b cap = some s') :
    Confined uninit s s' := by
  obtain ⟨-, heq⟩ := sharing_replaceStorage hb h
  have hrelease := Sharing.outside_update uninit
    (s.sharing.alloc (replacement uninit s b cap)) b.physical
    (f := PhysicalBuffer.release) (fun p ph _ _ =>
      ⟨capacity_release ph, fun k _ => by rw [bytes_release]⟩)
  rw [Confined, heq]
  refine hrelease.trans ?_
  funext p k
  simp only [Sharing.outside, Sharing.phys_alloc]
  by_cases hp : p = s.sharing.phys.length
  · subst hp
    rw [List.getElem?_eq_none (Nat.le_refl _), if_pos rfl]
    dsimp only
    split_ifs with hk
    · -- Behind the end of the new storage nothing is stored.
      have hcap : cap ≤ k := hk
      simp only [replacement, PhysicalBuffer.store]
      rw [if_neg (by omega)]
      rfl
    · rfl
  · rw [if_neg hp]

theorem allGood_of_ledger (hs : s.sharing.Ledger) (hin : InBounds s) :
    AllGood s := by
  refine (allGood_iff s).mpr ⟨fun i b hb p hp => ?_, hin⟩
  obtain ⟨ph, hph, -⟩ := hs.window_lt (window?_of_buf? hb) hp
  have hbal := hs p
  rw [hph] at hbal
  exact ⟨ph.capacity, congrArg (Option.map PhysicalBuffer.capacity) hph,
    hbal.size⟩

theorem confined_cowDetach {i : ℕ} (hs : AllGood s)
    (h : cowDetach uninit s i = some s') : Confined uninit s s' := by
  simp only [cowDetach, Option.bind_eq_bind, Option.bind_eq_some_iff] at h
  obtain ⟨b, hb, h⟩ := h
  split_ifs at h with hshared
  · have hsome := physical_ne_none_of_isShared hshared
    exact confined_replaceStorage hb ((hs i b hb).capacity_eq hsome).1 h
  · obtain rfl := Option.some.inj h
    rfl

/-- A store inside the view is inside the storage. -/
theorem confined_storeAt_view (uninit : ℕ → ℕ → UInt8) {i : ℕ} {b : Buffer}
    (hs : AllGood s) (hb : s.buf? i = some b) {pos len : ℕ} (hle : pos + len ≤ b.length)
    (src : ℕ → UInt8) : Confined uninit s (s.storeAt b pos src len) := by
  apply confined_storeAt
  intro p cap hp hcap
  obtain ⟨cap', hcap', -, hin⟩ := hs i b hb p hp
  obtain rfl := Option.some.inj (hcap.symm.trans hcap')
  omega

theorem confined_ensureTailroom {i n : ℕ}
    (hfits : GrowthFits s i n) (h : ensureTailroom uninit s i n = some s') :
    Confined uninit s s' := by
  simp only [ensureTailroom, Option.bind_eq_bind,
    Option.bind_eq_some_iff] at h
  obtain ⟨b, hb, h⟩ := h
  split_ifs at h with hre
  · exact confined_replaceStorage hb (hfits b hb hre) h
  · obtain rfl := Option.some.inj h
    rfl

/-! ## The mutating operations -/

theorem sameSight_writableData {i j pos : ℕ} {bytes : ByteBuffer}
    (hs : s.sharing.Ledger) (hj : j ≠ i)
    (h : writableData uninit s i pos bytes = some s') :
    SameSight s s' j := by
  simp only [writableData, Option.bind_eq_bind, Option.bind_eq_some_iff,
    Option.ite_none_right_eq_some] at h
  obtain ⟨s₁, h₁, b, hb, -, h₂⟩ := h
  obtain rfl := Option.some.inj h₂
  have hs₁ := ledger_of_edits (edits_cowDetach h₁) hs
  exact (detaches_cowDetach hs h₁).store hs hs₁ hb hj _ _ _

theorem confined_writableData {i pos : ℕ} {bytes : ByteBuffer}
    (hs : AllGood s) (h : writableData uninit s i pos bytes = some s') :
    Confined uninit s s' := by
  simp only [writableData, Option.bind_eq_bind, Option.bind_eq_some_iff,
    Option.ite_none_right_eq_some] at h
  obtain ⟨s₁, h₁, b, hb, hle, h₂⟩ := h
  obtain rfl := Option.some.inj h₂
  exact (confined_cowDetach hs h₁).trans
    (confined_storeAt_view uninit (hs.cowDetach h₁) hb hle _)

theorem sameSight_appendData {i j : ℕ} {bytes : ByteBuffer}
    (hs : s.sharing.Ledger) (hj : j ≠ i)
    (h : appendData uninit s i bytes = some s') : SameSight s s' j := by
  simp only [appendData, Option.bind_eq_bind, Option.bind_eq_some_iff] at h
  obtain ⟨s₁, h₁, b, hb, h₂⟩ := h
  obtain rfl := Option.some.inj h₂
  have hs₁ := ledger_of_edits (edits_ensureTailroom h₁) hs
  have hstore := (detaches_ensureTailroom hs h₁).store hs hs₁ hb hj b.length
    (fun k => bytes.getD k 0) bytes.length
  have hb₂ := (buf?_storeAt s₁ b b.length (fun k => bytes.getD k 0)
    bytes.length i).trans hb
  exact hstore.trans (sameSight_setBuf hb₂ _ hj)

/-- A view of an admissible size. -/
theorem length_lt_of_inside {i : ℕ} {b : Buffer} (hs : AllGood s)
    (hempty : UnstoredEmpty s)
    (hb : s.buf? i = some b) : b.length < sizeLimit := by
  by_cases hnone : b.physical = none
  · rw [hempty i b hb hnone]
    decide
  · obtain ⟨hle, hlt⟩ := (hs i b hb).capacity_eq hnone
    omega

theorem confined_appendData {i : ℕ} {bytes : ByteBuffer} (hs : AllGood s)
    (hempty : UnstoredEmpty s)
    (hlen : bytes.length < sizeLimit) (hfits : AppendFits s i bytes.length)
    (h : appendData uninit s i bytes = some s') : Confined uninit s s' := by
  simp only [appendData, ensureTailroom, Option.bind_eq_bind,
    Option.bind_eq_some_iff] at h
  obtain ⟨s₁, ⟨b, hb, h₁⟩, c, hc, h₂⟩ := h
  obtain rfl := Option.some.inj h₂
  have hview := length_lt_of_inside hs hempty hb
  have hsum : addSize b.length bytes.length = b.length + bytes.length := by
    simp only [sizeLimit] at hview hlen
    simp only [addSize, sizeModulus]
    omega
  have hset : Confined uninit
      (s₁.storeAt c c.length (fun k => bytes.getD k 0) bytes.length)
      ((s₁.storeAt c c.length (fun k => bytes.getD k 0)
        bytes.length).setBuf i
        { c with length := addSize c.length bytes.length }) :=
    confined_of_phys rfl
  split_ifs at h₁ with hre
  · have hle := hfits b hb hre
    rw [hsum] at hle
    obtain ⟨-, hext, p, hp, hbufs⟩ := replaceStorage_eq_some hb h₁
    rw [hbufs, if_pos rfl] at hc
    obtain rfl := Option.some.inj hc
    have hreplace := confined_replaceStorage hb (by omega) h₁
    refine (hreplace.trans (confined_storeAt ?_)).trans hset
    intro q cap hq hcap
    obtain rfl := Option.some.inj hq
    obtain rfl := Option.some.inj (hcap.symm.trans hp)
    show headroom b + b.length + bytes.length ≤ _
    omega
  · obtain rfl := Option.some.inj h₁
    obtain rfl := Option.some.inj (hb.symm.trans hc)
    refine (confined_storeAt ?_).trans hset
    intro q cap hq hcap
    have hsome : b.physical ≠ none := by simp [hq]
    have htail := (hs i b hb).tailroom_eq hsome
    have hroom : bytes.length ≤ tailroom s b := by
      simp only [reallocates, Bool.not_eq_true', Bool.not_eq_false,
        Bool.and_eq_true, decide_eq_true_eq] at hre
      exact hre.2
    have hcapacity : capacity s b = cap := by
      simp only [capacity, State.storage, hq, Option.bind_some]
      rw [State.caps] at hcap
      rw [hcap, Option.getD_some]
    rw [hcapacity, headroom, if_neg hsome] at htail
    omega

theorem sameSight_reserve {i j newCap : ℕ} (hs : s.sharing.Ledger)
    (hj : j ≠ i) (h : reserve uninit s i newCap = some s') :
    SameSight s s' j := by
  simp only [reserve, Option.bind_eq_bind, Option.bind_eq_some_iff] at h
  obtain ⟨b, -, h⟩ := h
  split_ifs at h
  · rw [← Option.some.inj h]
    exact .refl s j
  · exact (detaches_ensureTailroom hs h).sameSight hs hj

theorem confined_reserve {i newCap : ℕ} (hfits : ReserveFits s i newCap)
    (h : reserve uninit s i newCap = some s') : Confined uninit s s' := by
  simp only [reserve, Option.bind_eq_bind, Option.bind_eq_some_iff] at h
  obtain ⟨b, hb, h⟩ := h
  split_ifs at h with hearly
  · rw [← Option.some.inj h]
    rfl
  · exact confined_ensureTailroom (hfits b hb hearly) h

/-! ## Writing through a cursor -/

/-- The nodes `BufferRWCursor::Write` stores bytes through. -/
def writeNodes (uninit : ℕ → ℕ → UInt8) (s : State) (c : Cursor) :
    ByteBuffer → ℕ → List ℕ
  | _, 0 => []
  | [], _ + 1 => []
  | src, fuel + 1 =>
      if atEnd s c = some false then
        let rest := do
          let s ← cowDetach uninit s c.current
          let b ← s.buf? c.current
          let chunk := min (subSize b.length c.offset) src.length
          let s := s.storeAt b c.offset (fun k => src.getD k 0) chunk
          let c ← advanceIfExhausted s { c with offset := c.offset + chunk }
          some (writeNodes uninit s c (src.drop chunk) fuel)
        c.current :: rest.getD []
      else []

theorem sameSight_write {c c' : Cursor} {src : ByteBuffer} {fuel j : ℕ}
    (hs : s.sharing.Ledger) (h : write uninit s c src fuel = some (s', c'))
    (hj : j ∉ writeNodes uninit s c src fuel) : SameSight s s' j := by
  induction fuel generalizing s c src with
  | zero => cases h
  | succ fuel ih =>
      cases src with
      | nil =>
          simp only [write, Option.some.injEq, Prod.mk.injEq] at h
          exact h.1 ▸ .refl s j
      | cons byte src =>
          simp only [write, Option.bind_eq_bind,
            Option.bind_eq_some_iff] at h
          obtain ⟨done, hdone, h⟩ := h
          split_ifs at h with hend
          · obtain ⟨rfl, -⟩ := Prod.mk.inj (Option.some.inj h)
            exact .refl s j
          · simp only [Option.bind_eq_some_iff] at h
            obtain ⟨s₁, h₁, b, hb, c₁, hc₁, h₂⟩ := h
            have hnotEnd : atEnd s c = some false := by
              rw [hdone, ← Bool.not_eq_true done |>.mp hend]
            simp only [writeNodes, hnotEnd, if_true, h₁, hb, hc₁,
              Option.bind_eq_bind, Option.bind_some, Option.getD_some,
              List.mem_cons, not_or] at hj
            have hs₁ := ledger_of_edits (edits_cowDetach h₁) hs
            have hstore := (detaches_cowDetach hs h₁).store hs hs₁ hb hj.1
              c.offset (fun k => (byte :: src).getD k 0)
              (min (subSize b.length c.offset) (byte :: src).length)
            refine hstore.trans (ih ?_ h₂ hj.2)
            rw [sharing_storeAt]
            exact (Edit.store s₁.sharing _ _ _ _).ledger hs₁

/-- The cursor stands inside the view of its node. -/
def CursorInside (s : State) (c : Cursor) : Prop :=
  ∀ b, s.buf? c.current = some b → c.offset ≤ b.length

theorem length_cowDetach {i : ℕ} {b b' : Buffer} (hb : s.buf? i = some b)
    (h : cowDetach uninit s i = some s') (hb' : s'.buf? i = some b') :
    b'.length = b.length := by
  simp only [cowDetach, hb, Option.bind_eq_bind, Option.bind_some] at h
  split_ifs at h
  · obtain ⟨-, -, p, -, hbufs⟩ := replaceStorage_eq_some hb h
    rw [hbufs, if_pos rfl] at hb'
    rw [← Option.some.inj hb']
  · obtain rfl := Option.some.inj h
    rw [Option.some.inj (hb.symm.trans hb')]

/-- The cursor stays inside when it moves over a chunk of its node. -/
theorem CursorInside.advance {c c' : Cursor} {b : Buffer} {chunk : ℕ}
    (hb : s.buf? c.current = some b) (hle : c.offset + chunk ≤ b.length)
    (h : advanceIfExhausted s { c with offset := c.offset + chunk } =
      some c') : CursorInside s c' := by
  simp only [advanceIfExhausted, hb, Option.map_some,
    Option.some.injEq] at h
  intro d hd
  split_ifs at h with hlast
  · obtain rfl := h
    exact Nat.zero_le _
  · obtain rfl := h
    obtain rfl := Option.some.inj (hb.symm.trans hd)
    exact hle

theorem UnstoredEmpty.cowDetach {i : ℕ} (hs : UnstoredEmpty s)
    (h : cowDetach uninit s i = some s') : UnstoredEmpty s' := by
  simp only [Memory.cowDetach, Option.bind_eq_bind,
    Option.bind_eq_some_iff] at h
  obtain ⟨b, hb, h⟩ := h
  split_ifs at h
  · obtain ⟨-, -, p, -, hbufs⟩ := replaceStorage_eq_some hb h
    intro j c hc hnone
    rw [hbufs] at hc
    split_ifs at hc
    · obtain rfl := Option.some.inj hc
      cases hnone
    · exact hs j c hc hnone
  · obtain rfl := Option.some.inj h
    exact hs

theorem UnstoredEmpty.storeAt (hs : UnstoredEmpty s) (b : Buffer) (pos : ℕ)
    (src : ℕ → UInt8) (len : ℕ) :
    UnstoredEmpty (s.storeAt b pos src len) := by
  intro j c hc
  rw [buf?_storeAt] at hc
  exact hs j c hc

theorem confined_write {c c' : Cursor} {src : ByteBuffer} {fuel : ℕ}
    (hs : AllGood s) (hempty : UnstoredEmpty s) (hc : CursorInside s c)
    (h : write uninit s c src fuel = some (s', c')) :
    Confined uninit s s' := by
  induction fuel generalizing s c src with
  | zero => cases h
  | succ fuel ih =>
      cases src with
      | nil =>
          simp only [write, Option.some.injEq, Prod.mk.injEq] at h
          exact h.1 ▸ rfl
      | cons byte src =>
          simp only [write, Option.bind_eq_bind,
            Option.bind_eq_some_iff] at h
          obtain ⟨done, hdone, h⟩ := h
          split_ifs at h
          · obtain ⟨rfl, -⟩ := Prod.mk.inj (Option.some.inj h)
            rfl
          · simp only [Option.bind_eq_some_iff] at h
            obtain ⟨s₁, h₁, b, hb, c₁, hc₁, h₂⟩ := h
            obtain ⟨b₀, hb₀, -⟩ := Option.map_eq_some_iff.mp hdone
            have hlen := length_cowDetach hb₀ h₁ hb
            have hinside := hc b₀ hb₀
            have hs₁ := hs.cowDetach h₁
            have hempty₁ := hempty.cowDetach h₁
            have hview := length_lt_of_inside hs₁ hempty₁ hb
            -- The offset is inside, so the subtraction does not wrap.
            have hsub : subSize b.length c.offset = b.length - c.offset := by
              simp only [sizeLimit] at hview
              simp only [subSize, sizeModulus]
              omega
            have hchunk : c.offset + min (subSize b.length c.offset)
                (byte :: src).length ≤ b.length := by
              rw [hsub]
              omega
            have hstore := confined_storeAt_view uninit hs₁ hb hchunk
              fun k => (byte :: src).getD k 0
            refine ((confined_cowDetach hs h₁).trans hstore).trans ?_
            apply ih (hs₁.storeAt b _ _ _) (hempty₁.storeAt b _ _ _) _ h₂
            exact CursorInside.advance
              ((buf?_storeAt s₁ b _ _ _ c.current).trans hb) hchunk hc₁

/-! ## Isolation -/

/-- The buffers through which an operation mutates. -/
def mutated (uninit : ℕ → ℕ → UInt8) (s : State) : Action → Option (List ℕ)
  | .writableData i _ _ | .appendData i _ | .ensureTailroom i _
  | .reserve i _ | .trimStart i _ | .trimEnd i _ | .prepend i _
  | .append i _ => some [i]
  | .cursorWrite k src fuel =>
      (s.cursors[k]?).map fun c => writeNodes uninit s c src fuel
  | _ => none

/-- What the caller owes to the stores: the region it appends is of an
admissible size, the cursor it writes through stands inside its node. -/
def ArgsInside (s : State) : Action → Prop
  | .appendData _ bytes => bytes.length < sizeLimit
  | .cursorWrite k _ _ => ∀ c, s.cursors[k]? = some c → CursorInside s c
  | _ => True

theorem sameSight_perform {a : Action} {targets : List ℕ} {j : ℕ}
    (hs : s.sharing.Ledger) (hmut : mutated uninit s a = some targets)
    (h : perform uninit s a = some s') (hj : j ∉ targets) :
    SameSight s s' j := by
  have hsingle : ∀ i, some [i] = some targets → j ≠ i := by
    rintro i heq rfl
    rw [← Option.some.inj heq] at hj
    exact hj List.mem_cons_self
  have hframe : ∀ i b c, j ≠ i → s.buf? i = some b →
      some (s.setBuf i c) = some s' → SameSight s s' j := by
    intro i b c hne hb heq
    exact Option.some.inj heq ▸ sameSight_setBuf hb c hne
  cases a with
  | writableData i pos bytes =>
      exact sameSight_writableData hs (hsingle i hmut) h
  | appendData i bytes => exact sameSight_appendData hs (hsingle i hmut) h
  | ensureTailroom i n =>
      exact (detaches_ensureTailroom hs h).sameSight hs (hsingle i hmut)
  | reserve i n => exact sameSight_reserve hs (hsingle i hmut) h
  | trimStart i n =>
      simp only [perform, trimStart, Option.bind_eq_bind,
        Option.bind_eq_some_iff, Option.ite_none_right_eq_some] at h
      obtain ⟨b, hb, -, h⟩ := h
      exact hframe i b _ (hsingle i hmut) hb h
  | trimEnd i n =>
      simp only [perform, trimEnd, Option.bind_eq_bind,
        Option.bind_eq_some_iff, Option.ite_none_right_eq_some] at h
      obtain ⟨b, hb, -, h⟩ := h
      exact hframe i b _ (hsingle i hmut) hb h
  | prepend i n =>
      simp only [perform, prepend, Option.bind_eq_bind,
        Option.bind_eq_some_iff, Option.ite_none_right_eq_some] at h
      obtain ⟨b, hb, -, h⟩ := h
      exact hframe i b _ (hsingle i hmut) hb h
  | append i n =>
      simp only [perform, append, Option.bind_eq_bind,
        Option.bind_eq_some_iff, Option.ite_none_right_eq_some] at h
      obtain ⟨b, hb, -, h⟩ := h
      exact hframe i b _ (hsingle i hmut) hb h
  | cursorWrite k src fuel =>
      simp only [perform, Option.bind_eq_bind, Option.bind_eq_some_iff] at h
      obtain ⟨c, hc, ⟨s₁, c'⟩, hwrite, h⟩ := h
      simp only [mutated, hc, Option.map_some, Option.some.injEq] at hmut
      subst hmut
      obtain rfl := Option.some.inj h
      have hsight : SameSight s s₁ j := sameSight_write hs hwrite hj
      exact hsight
  | _ => cases hmut

theorem confined_perform {a : Action} {targets : List ℕ}
    (hs : s.sharing.Ledger) (hin : ViewsInside s) (hin' : ViewsInside s')
    (hargs : ArgsInside s a) (hmut : mutated uninit s a = some targets)
    (h : perform uninit s a = some s') : Confined uninit s s' := by
  have hgood := allGood_of_ledger hs hin.inBounds
  have hframe : ∀ i c, some (s.setBuf i c) = some s' →
      Confined uninit s s' := by
    intro i c heq
    exact Option.some.inj heq ▸ confined_of_phys rfl
  cases a with
  | writableData i pos bytes => exact confined_writableData hgood h
  | appendData i bytes =>
      have hfits := (hgood.appendData h).2.mp hin'.inBounds
      exact confined_appendData hgood hin.empty hargs hfits h
  | ensureTailroom i n =>
      have hfits := (hgood.ensureTailroom h).2.mp hin'.inBounds
      exact confined_ensureTailroom hfits h
  | reserve i n =>
      have hfits := (hgood.reserve h).2.mp hin'.inBounds
      exact confined_reserve hfits h
  | trimStart i n =>
      simp only [perform, trimStart, Option.bind_eq_bind,
        Option.bind_eq_some_iff, Option.ite_none_right_eq_some] at h
      obtain ⟨b, -, -, h⟩ := h
      exact hframe i _ h
  | trimEnd i n =>
      simp only [perform, trimEnd, Option.bind_eq_bind,
        Option.bind_eq_some_iff, Option.ite_none_right_eq_some] at h
      obtain ⟨b, -, -, h⟩ := h
      exact hframe i _ h
  | prepend i n =>
      simp only [perform, prepend, Option.bind_eq_bind,
        Option.bind_eq_some_iff, Option.ite_none_right_eq_some] at h
      obtain ⟨b, -, -, h⟩ := h
      exact hframe i _ h
  | append i n =>
      simp only [perform, append, Option.bind_eq_bind,
        Option.bind_eq_some_iff, Option.ite_none_right_eq_some] at h
      obtain ⟨b, -, -, h⟩ := h
      exact hframe i _ h
  | cursorWrite k src fuel =>
      simp only [perform, Option.bind_eq_bind, Option.bind_eq_some_iff] at h
      obtain ⟨c, hc, ⟨s₁, c'⟩, hwrite, h⟩ := h
      obtain rfl := Option.some.inj h
      have hconfined : Confined uninit s s₁ :=
        confined_write hgood hin.empty (hargs c hc) hwrite
      exact hconfined
  | _ => cases hmut

end Frames

/-- In a run in which every storage keeps fewer than `2 ^ 32` references the
ledger holds. -/
theorem ledger_of_fitting_run {uninit : ℕ → ℕ → UInt8} {s : State}
    (hs : Transition.ReachableVia (perform uninit) (fun s _ => RefsFit s)
      {init} s) (hfits : RefsFit s) : s.sharing.Ledger := by
  induction hs with
  | start hs =>
      obtain rfl := Set.mem_singleton_iff.mp hs
      exact ledger_init
  | next _ hfit h ih =>
      exact ledger_of_edits (perform_edits (fits_sharing hfits) h) (ih hfit)

theorem viewsInside_crowd (n : ℕ) : ViewsInside (crowd n) := by
  constructor
  · intro i b hb p cap hp hcap
    obtain ⟨-, rfl⟩ := buf?_crowd.mp hb
    obtain rfl := Option.some.inj hp
    obtain rfl : 1 = cap := Option.some.inj hcap
    exact Nat.le_refl 1
  · intro i b hb hnone
    obtain ⟨-, rfl⟩ := buf?_crowd.mp hb
    cases hnone

/-- The state after a store through the first buffer without detaching. -/
def crowdWritten (n : ℕ) : State :=
  (crowd n).storeAt ⟨some 0, 0, 1, 0, 0⟩ 0 (fun k => [1].getD k 0) 1

/-- A crowd whose count has wrapped to zero does not detach. -/
theorem perform_writableData_crowd {n : ℕ} (hn : UInt32.ofNat (n + 1) = 0) :
    perform (fun _ _ => 0) (crowd n) (.writableData 0 0 [1]) =
      some (crowdWritten n) := by
  have hbuf := buf?_crowd.mpr ⟨Nat.zero_le n, rfl⟩
  have hshared : isShared (crowd n) ⟨some 0, 0, 1, 0, 0⟩ = false := by
    simp [isShared, State.storage, crowd, hn]
  simp [perform, writableData, cowDetach, hbuf, hshared, crowdWritten]

end Memory
end Yacul
