import Yacul.Memory.CursorEnd

/-!
# Cursors write in place

`BufferRWCursor::Write` detaches each node before it stores in it.  A detached
node has the bytes it had, and nobody else sees what is stored in it, so a
chunk is written over the bytes of one node of the ring, and the chunks of a
request are written behind each other.
-/

namespace Yacul
namespace Memory

/-- The loop of `BufferRWCursor::Write` with the counter it returns. -/
def writeFrom (uninit : ℕ → ℕ → UInt8) (s : State) (c : Cursor) :
    ByteBuffer → ℕ → ℕ → Option (State × Cursor × ℕ)
  | _, _, 0 => none
  | [], written, _ + 1 => some (s, c, written)
  | src, written, fuel + 1 => do
      if ← atEnd s c then some (s, c, written)
      else
        let s ← cowDetach uninit s c.current
        let b ← s.buf? c.current
        let chunk := min (subSize b.length c.offset) src.length
        let s := s.storeAt b c.offset (fun k => src.getD k 0) chunk
        let c ← advanceIfExhausted s { c with offset := c.offset + chunk }
        writeFrom uninit s c (src.drop chunk) (written + chunk) fuel

/-- `BufferRWCursor::Write`, with the number it returns. -/
def Cursor.write (uninit : ℕ → ℕ → UInt8) (s : State) (c : Cursor)
    (src : ByteBuffer) (fuel : ℕ) : Option (State × Cursor × ℕ) :=
  writeFrom uninit s c src 0 fuel

/-- The views of the nodes lie inside their storage. -/
def NodesInside (s : State) (nodes : List ℕ) : Prop :=
  ∀ i ∈ nodes, ∀ b, s.buf? i = some b →
    Within s.caps b ∧ (b.physical = none → b.length = 0)

/-- `Write` returns how many bytes there was room for and writes so many over
those behind the cursor; every other byte of the ring, every size, and what
the buffers outside the ring see stay the same. -/
def Overwrites (uninit : ℕ → ℕ → UInt8) (s : State) (head : ℕ) (l : List ℕ)
    (fuel : ℕ) (c : Cursor) (src : ByteBuffer) : Prop :=
  ∃ later pos total s' c', Placed s head l c later pos ∧
    totalLength s c fuel = some total ∧
    pos + total = (ringBytes s head l).length ∧
    c.write uninit s src fuel = some (s', c', min src.length total) ∧
    ringBytes s' head l = (ringBytes s head l).overwriteAt pos src ∧
    size s' = size s ∧ ∀ j, j ∉ head :: l → SameSight s s' j

/-- The reference counts are right, and the nodes are inside. -/
structure Sound (s : State) (nodes : List ℕ) : Prop where
  ledger : s.sharing.Ledger
  inside : NodesInside s nodes

section Writes

variable {s s' : State} {c c' : Cursor} {head : ℕ}
  {l later later' nodes : List ℕ} {fuel pos chunk : ℕ} {src : ByteBuffer}
  {uninit : ℕ → ℕ → UInt8}

/-- The step of the buffer machine writes the same and drops the number. -/
theorem writeFrom_map (uninit : ℕ → ℕ → UInt8) (s : State) (c : Cursor)
    (src : ByteBuffer) (written fuel : ℕ) :
    (writeFrom uninit s c src written fuel).map (fun r => (r.1, r.2.1)) =
      write uninit s c src fuel := by
  induction fuel generalizing s c src written with
  | zero => rfl
  | succ fuel ih =>
      cases src with
      | nil => rfl
      | cons byte src =>
          simp only [writeFrom, write, Option.bind_eq_bind,
            Option.map_bind]
          congr 1
          funext done
          cases done with
          | true => rfl
          | false => simp [Option.map_bind, ih]

/-! ## What a node holds -/

theorem Sound.good (hs : Sound s nodes) {i : ℕ} (hi : i ∈ nodes) {b : Buffer}
    (hb : s.buf? i = some b) : Good s.caps b := by
  intro p hp
  obtain ⟨ph, hph, -⟩ := hs.ledger.window_lt (window?_of_buf? hb) hp
  have hbal := hs.ledger p
  rw [hph] at hbal
  have hcap : s.caps p = some ph.capacity :=
    congrArg (Option.map PhysicalBuffer.capacity) hph
  exact ⟨ph.capacity, hcap, hbal.size, (hs.inside i hi b hb).1 p _ hp hcap⟩

theorem Sound.size_lt (hs : Sound s nodes) {i : ℕ} (hi : i ∈ nodes) :
    size s i < sizeModulus := by
  cases hb : s.buf? i with
  | none =>
      rw [size, hb]
      exact Nat.pow_pos Nat.zero_lt_two
  | some b =>
      rw [size_of_buf? hb]
      by_cases hnone : b.physical = none
      · rw [(hs.inside i hi b hb).2 hnone]
        exact Nat.pow_pos Nat.zero_lt_two
      · obtain ⟨hle, hlt⟩ := (hs.good hi hb).capacity_eq hnone
        exact ((Nat.le_add_left _ _).trans_lt (hle.trans_lt hlt)).trans
          (by decide : sizeLimit < sizeModulus)

/-- A node that is seen as before holds the same bytes. -/
theorem SameSight.content {j : ℕ} (h : SameSight s s' j)
    (hshape : s'.shape = s.shape) : content s' j = content s j := by
  cases hb : s.buf? j with
  | none => simp [Memory.content, hb, none_of_shape hshape hb]
  | some b =>
      obtain ⟨b', hb', hwindow, hview⟩ := h b hb
      have hlen : b'.length = b.length := congrArg Window.length hwindow
      rw [content_of_buf? hb, content_of_buf? hb', toBytes, toBytes, hlen]
      exact List.map_congr_left fun k hk =>
        hview k (List.mem_range.mp hk)

/-- New storage holds the bytes of the view. -/
theorem content_replaceStorage {i cap : ℕ} {b : Buffer}
    (hs : s.sharing.Ledger) (hb : s.buf? i = some b)
    (h : replaceStorage uninit s i b cap = some s') :
    content s' i = content s i := by
  obtain ⟨-, heq⟩ := sharing_replaceStorage hb h
  have hw := window?_of_buf? hb
  have hself := Sharing.window?_setWindow (i := i) (w := b.window)
    (t := (s.sharing.alloc (replacement uninit s b cap)).update b.physical
      PhysicalBuffer.release)
    (by rw [Sharing.window?_update, Sharing.window?_alloc, hw])
    ⟨some s.phys.length, headroom b, b.length⟩ i
  rw [if_pos rfl, ← heq, window?_sharing] at hself
  obtain ⟨c, hc, hcw⟩ := Option.map_eq_some_iff.mp hself
  have hphys : c.physical = some s.phys.length := congrArg Window.physical hcw
  have hdata : c.data = headroom b := congrArg Window.data hcw
  have hlen : c.length = b.length := congrArg Window.length hcw
  have hbytes : s'.sharing.bytes? s.phys.length =
      some (replacement uninit s b cap).bytes := by
    have hne : b.physical ≠ some s.phys.length := hs.physical_ne_new hw
    rw [heq]
    show Option.map _ _ = _
    rw [show (((s.sharing.alloc (replacement uninit s b cap)).update b.physical
      PhysicalBuffer.release).setWindow i ⟨some s.phys.length, headroom b,
        b.length⟩).phys = ((s.sharing.alloc (replacement uninit s b
          cap)).update b.physical PhysicalBuffer.release).phys from rfl,
      Sharing.phys_update, if_neg hne, Sharing.phys_alloc]
    exact congrArg _ (if_pos rfl)
  rw [content_of_buf? hb, content_of_buf? hc, toBytes, toBytes, hlen]
  apply List.map_congr_left
  intro k hk
  have hk' : k < b.length := List.mem_range.mp hk
  rw [view_eq, hphys, hdata, Option.bind_some, hbytes]
  simp only [replacement, PhysicalBuffer.store]
  rw [if_pos (by omega), Nat.add_sub_cancel_left]

/-- Detaching changes no content. -/
theorem Detaches.content {i j : ℕ} (h : cowDetach uninit s i = some s')
    (hs : s.sharing.Ledger) : content s' j = content s j := by
  by_cases hj : j = i
  · subst hj
    simp only [cowDetach, Option.bind_eq_bind, Option.bind_eq_some_iff] at h
    obtain ⟨b, hb, h⟩ := h
    split_ifs at h
    · exact content_replaceStorage hs hb h
    · rw [Option.some.inj h]
  · exact ((detaches_cowDetach hs h).sameSight hs hj).content
      (shape_cowDetach h)

/-- A store inside the view of a node. -/
theorem content_storeAt {i : ℕ} {b : Buffer} (hs : Sound s nodes)
    (hi : i ∈ nodes) (hb : s.buf? i = some b) (hsrc : chunk ≤ src.length) :
    content (s.storeAt b pos (fun k => src.getD k 0) chunk) i =
      (content s i).overwriteAt pos (src.take chunk) := by
  obtain ⟨s', hs'⟩ : ∃ s', s.storeAt b pos (fun k => src.getD k 0) chunk = s' :=
    ⟨_, rfl⟩
  have hb' : s'.buf? i = some b := by rw [← hs', buf?_storeAt, hb]
  have hlen : (src.take chunk).length = chunk := by
    rw [List.length_take]
    omega
  rw [hs', content_of_buf? hb, content_of_buf? hb']
  apply List.ext_getElem?
  intro k
  by_cases hk : k < b.length
  · -- A view that is not empty has storage.
    obtain ⟨p, hp⟩ : ∃ p, b.physical = some p :=
      Option.ne_none_iff_exists'.mp fun hnone => by
        have := (hs.inside i hi b hb).2 hnone
        omega
    obtain ⟨ph, hph, -⟩ := hs.ledger.window_lt (window?_of_buf? hb) hp
    have hph' : s.phys[p]? = some ph := hph
    have hview : s'.view b k =
        if pos ≤ k ∧ k < pos + chunk then src.getD (k - pos) 0
        else s.view b k := by
      have hsub : b.data + k - (b.data + pos) = k - pos := by omega
      rw [← hs']
      simp [State.storeAt, State.view, State.modifyPhys, hp, hph',
        PhysicalBuffer.store, hsub, Nat.add_assoc]
    rw [ByteBuffer.getElem?_overwriteAt (by rwa [length_toBytes]), hlen]
    simp only [toBytes, List.getElem?_map, List.getElem?_range hk,
      Option.map_some, hview]
    split_ifs with hin
    · rw [List.getElem?_take_of_lt (by omega),
        List.getElem?_eq_getElem (by omega)]
      simp [List.getD_eq_getElem?_getD,
        List.getElem?_eq_getElem (show k - pos < src.length by omega)]
    · rfl
  · rw [List.getElem?_eq_none (by rw [length_toBytes]; omega),
      List.getElem?_eq_none (by
        rw [ByteBuffer.length_overwriteAt, length_toBytes]
        omega)]

/-- Storage of an admissible size can be detached. -/
theorem Sound.exists_cowDetach (hs : Sound s nodes) {i : ℕ} (hi : i ∈ nodes)
    {b : Buffer} (hb : s.buf? i = some b) (uninit : ℕ → ℕ → UInt8) :
    ∃ s', cowDetach uninit s i = some s' := by
  simp only [cowDetach, hb, Option.bind_eq_bind, Option.bind_some]
  split_ifs with hshared
  · have hsome := physical_ne_none_of_isShared hshared
    obtain ⟨-, hcap⟩ := (hs.good hi hb).capacity_eq hsome
    obtain ⟨s₁, hs₁⟩ : ∃ s₁ : State, (⟨s.phys ++ [{
        refCount := 1, capacity := capacity s b,
        bytes := uninit s.phys.length }], s.bufs, s.cursors⟩ : State).modifyPhys
        s.phys.length (fun ph => ph.store (headroom b) (s.view b) b.length) =
          s₁ := ⟨_, rfl⟩
    have hb₁ : s₁.buf? i = some b := by
      rw [← hs₁]
      exact hb
    obtain ⟨s₂, hs₂⟩ : ∃ s₂, releasePhysical s₁ i = some s₂ := by
      rw [releasePhysical, hb₁]
      exact ⟨_, rfl⟩
    obtain ⟨-, b₁, -, hbufs⟩ := releasePhysical_eq_some hs₂
    have hself := hbufs i
    rw [if_pos rfl] at hself
    rw [replaceStorage, createPhysical, if_pos hcap]
    simp only [Option.bind_eq_bind, Option.bind_some, hs₁, hs₂,
      State.modifyBuf, hself, Option.map_some]
    exact ⟨_, rfl⟩
  · exact ⟨s, rfl⟩

theorem Sound.cowDetach (hs : Sound s nodes) {i : ℕ} (hi : i ∈ nodes)
    (h : cowDetach uninit s i = some s') : Sound s' nodes := by
  refine ⟨ledger_of_edits (edits_cowDetach h) hs.ledger, fun j hj c hc => ?_⟩
  simp only [Memory.cowDetach, Option.bind_eq_bind,
    Option.bind_eq_some_iff] at h
  obtain ⟨b, hb, h⟩ := h
  split_ifs at h with hshared
  · have hgood := hs.good hi hb
    obtain ⟨hle, -⟩ :=
      hgood.capacity_eq (physical_ne_none_of_isShared hshared)
    obtain ⟨-, hext, p, hnew, hbufs⟩ := replaceStorage_eq_some hb h
    rw [hbufs] at hc
    split_ifs at hc with hji
    · obtain rfl := Option.some.inj hc
      refine ⟨fun q cap hq hcap => ?_, fun hnone => ?_⟩
      · obtain rfl := Option.some.inj hq
        obtain rfl := Option.some.inj (hnew.symm.trans hcap)
        exact hle
      · cases hnone
    · refine ⟨fun q cap hq hcap => ?_, (hs.inside j hj c hc).2⟩
      obtain ⟨cap', hcap', -, hin⟩ := (hs.good hj hc).mono hext q hq
      obtain rfl := Option.some.inj (hcap'.symm.trans hcap)
      exact hin
  · obtain rfl := Option.some.inj h
    exact hs.inside j hj c hc

theorem Sound.storeAt (hs : Sound s nodes) (b : Buffer) (pos : ℕ)
    (f : ℕ → UInt8) (len : ℕ) : Sound (s.storeAt b pos f len) nodes := by
  constructor
  · rw [sharing_storeAt]
    exact (Edit.store s.sharing _ _ _ _).ledger hs.ledger
  · intro j hj c hc
    rw [buf?_storeAt] at hc
    rw [caps_storeAt]
    exact hs.inside j hj c hc

theorem ahead_congr (hshape : s'.shape = s.shape) {cur : ℕ} :
    Ahead s' head cur later ↔ Ahead s head cur later := by
  have hnext : s'.links.next = s.links.next := by
    funext i
    have hi := congrArg (Option.map Prod.snd) (congrFun hshape i)
    simpa [State.shape, State.links, Function.comp_def] using hi
  induction later generalizing cur with
  | nil => simp only [Ahead, hnext]
  | cons x later ih => simp only [Ahead, hnext, ih]

theorem Stands.congr (hshape : s'.shape = s.shape) (h : Stands s c later) :
    Stands s' c later where
  ahead := (ahead_congr hshape).mpr h.ahead
  offset_le := by
    rw [size_congr hshape]
    exact h.offset_le
  settled := by
    rw [size_congr hshape]
    exact h.settled

/-! ## One turn -/

/-- One turn of the loop: a chunk is written over the bytes of the node, and
either the next turn is not made or a node is left. -/
structure WriteTurn (uninit : ℕ → ℕ → UInt8) (nodes : List ℕ) (s s' : State)
    (c c' : Cursor) (later later' : List ℕ) (src : ByteBuffer)
    (chunk : ℕ) : Prop where
  le : chunk ≤ src.length
  fits : c.offset + chunk ≤ size s c.current
  sound : Sound s' nodes
  shape : s'.shape = s.shape
  stands : Stands s' c' later'
  head : c'.head = c.head
  place : c'.current = c.current ∧ later' = later ∧
      c'.offset = c.offset + chunk ∧
      Stuck s' c' later' (src.length - chunk) ∨
    later = c'.current :: later' ∧ c'.offset = 0 ∧
      c.offset + chunk = size s c.current
  content : content s' c.current =
    (Memory.content s c.current).overwriteAt c.offset (src.take chunk)
  others : ∀ j, j ≠ c.current → SameSight s s' j
  write : ∀ written fuel, writeFrom uninit s c src written (fuel + 1) =
    writeFrom uninit s' c' (src.drop chunk) (written + chunk) fuel

theorem exists_writeTurn (uninit : ℕ → ℕ → UInt8) (hs : Sound s nodes)
    (hmem : c.current ∈ nodes) (hc : Stands s c later)
    (hmoving : ¬ Stuck s c later src.length) :
    ∃ s' c' later' chunk,
      WriteTurn uninit nodes s s' c c' later later' src chunk := by
  obtain ⟨b₀, hb₀, -⟩ := hc.ahead.exists_buf?
  obtain ⟨s₁, hs₁⟩ := hs.exists_cowDetach hmem hb₀ uninit
  have hsound₁ := hs.cowDetach hmem hs₁
  have hshape₁ := shape_cowDetach hs₁
  obtain ⟨b, hb, hlen, -⟩ := exists_of_shape hshape₁ hb₀
  have hsize : size s c.current = b.length := by
    rw [size_of_buf? hb₀, hlen]
  have hle := hc.offset_le
  have havail : subSize b.length c.offset = size s c.current - c.offset := by
    rw [← hsize]
    exact subSize_eq_sub hle (hs.size_lt hmem)
  obtain ⟨chunk, hchunk⟩ : ∃ chunk,
      min (size s c.current - c.offset) src.length = chunk := ⟨_, rfl⟩
  obtain ⟨s₂, hs₂⟩ : ∃ s₂, s₁.storeAt b c.offset (fun k => src.getD k 0)
      chunk = s₂ := ⟨_, rfl⟩
  have hshape : s₂.shape = s.shape := by
    rw [← hs₂, shape_storeAt, hshape₁]
  obtain ⟨c', later', hadv, hstands, hhead, -, hcases⟩ :=
    advance_spec (s := s₂) (c := { c with offset := c.offset + chunk })
      ((ahead_congr hshape).mpr hc.ahead) (by
        rw [size_congr hshape]
        show c.offset + chunk ≤ size s c.current
        omega)
  obtain ⟨hn, hend⟩ := not_or.mp hmoving
  refine ⟨s₂, c', later', chunk, by omega, by omega, ?_, hshape, hstands,
    hhead, ?_, ?_, ?_, ?_⟩
  · rw [← hs₂]
    exact hsound₁.storeAt b _ _ _
  · rw [size_congr hshape] at hcases
    rcases hcases with ⟨rfl, rfl, hlast⟩ | ⟨rfl, hzero, hoff⟩
    · refine Or.inl ⟨rfl, rfl, rfl, ?_⟩
      rcases Nat.le_total src.length (size s c.current - c.offset) with
        hfew | hmany
      · exact Or.inl (by omega)
      · have hoff : c.offset + chunk = size s c.current := by omega
        refine Or.inr ⟨?_, hlast hoff⟩
        rw [size_congr hshape]
        exact hoff
    · exact Or.inr ⟨rfl, hzero, hoff⟩
  · rw [← hs₂, content_storeAt hsound₁ hmem hb (by omega),
      Detaches.content hs₁ hs.ledger]
  · intro j hj
    rw [← hs₂]
    exact (detaches_cowDetach hs.ledger hs₁).store hs.ledger hsound₁.ledger
      hb hj _ _ _
  · intro written fuel
    cases src with
    | nil => exact absurd rfl hn
    | cons byte src =>
        have hcount : min (subSize b.length c.offset) (byte :: src).length =
            chunk := by rw [havail, hchunk]
        simp only [writeFrom, atEnd_eq hc.ahead, decide_eq_false hend, hs₁,
          hb, hcount, hs₂, hadv, Option.bind_eq_bind, Option.bind_some,
          Bool.false_eq_true, if_false]

/-! ## The whole loop -/

/-- What the bytes of the nodes from the cursor on become. -/
structure WriteRun (nodes : List ℕ) (s s' : State) (c : Cursor)
    (later : List ℕ) (src : ByteBuffer) : Prop where
  sound : Sound s' nodes
  shape : s'.shape = s.shape
  content : ringBytes s' c.current later =
    (ringBytes s c.current later).overwriteAt c.offset src
  others : ∀ j, j ∉ c.current :: later → SameSight s s' j

theorem length_unread (hle : c.offset ≤ size s c.current)
    (later : List ℕ) :
    (unread s c later).length + c.offset =
      (ringBytes s c.current later).length := by
  rw [unread, ringBytes, List.flatMap_cons, List.length_append,
    List.length_append, List.length_drop, length_content]
  omega

theorem writeFrom_of_stuck (hahead : Ahead s c.head c.current later)
    (h : Stuck s c later src.length) (written fuel : ℕ) :
    writeFrom uninit s c src written (fuel + 1) = some (s, c, written) := by
  cases src with
  | nil => rfl
  | cons byte src =>
      have hend : c.offset = size s c.current ∧ later = [] :=
        h.resolve_left (Nat.succ_ne_zero _)
      simp [writeFrom, atEnd_eq hahead, hend]

theorem Stuck.writeRun (hs : Sound s nodes) (h : Stuck s c later src.length) :
    WriteRun nodes s s c later src := by
  refine ⟨hs, rfl, ?_, fun j _ => .refl s j⟩
  rcases h with hnil | ⟨hoff, rfl⟩
  · rw [List.length_eq_zero_iff.mp hnil, ByteBuffer.overwriteAt_nil]
  · rw [ByteBuffer.overwriteAt_of_length_le]
    simp [length_content, hoff]

theorem WriteTurn.ringBytes
    (h : WriteTurn uninit nodes s s' c c' later later' src chunk)
    (hnodup : (c.current :: later).Nodup) :
    ringBytes s' c.current later =
      (Memory.ringBytes s c.current later).overwriteAt c.offset
        (src.take chunk) := by
  have hlater : later.flatMap (Memory.content s') =
      later.flatMap (Memory.content s) :=
    List.flatMap_congr fun j hj => (h.others j
      (ne_of_mem_of_not_mem hj (List.nodup_cons.mp hnodup).1)).content h.shape
  have hfits := h.fits
  rw [Memory.ringBytes, Memory.ringBytes, List.flatMap_cons,
    List.flatMap_cons, hlater, h.content, ByteBuffer.overwriteAt_append_left]
  rw [List.length_take, length_content]
  omega

/-- A chunk less is left. -/
theorem WriteTurn.length_unread
    (h : WriteTurn uninit nodes s s' c c' later later' src chunk)
    (hle : c.offset ≤ size s c.current)
    (hnodup : (c.current :: later).Nodup) :
    (unread s' c' later').length + chunk = (unread s c later).length := by
  have hbefore := Memory.length_unread hle later
  have hafter := Memory.length_unread h.stands.offset_le later'
  have htotal : (Memory.ringBytes s' c.current later).length =
      (Memory.ringBytes s c.current later).length := by
    rw [h.ringBytes hnodup, ByteBuffer.length_overwriteAt]
  rcases h.place with ⟨hcur, hlater, hoff, -⟩ | ⟨hlater, hoff, hsize⟩
  · rw [hcur, hlater, hoff] at hafter
    rw [hlater]
    omega
  · have hnode : (Memory.ringBytes s' c.current later).length =
        c.offset + chunk + (Memory.ringBytes s' c'.current later').length := by
      rw [hlater, Memory.ringBytes, List.flatMap_cons, List.length_append,
        length_content, size_congr h.shape, hsize]
    omega

/-- A turn and a run after it are a run. -/
theorem WriteTurn.writeRun {s'' : State}
    (h : WriteTurn uninit nodes s s' c c' later later' src chunk)
    (hnodup : (c.current :: later).Nodup)
    (hrun : WriteRun nodes s' s'' c' later' (src.drop chunk)) :
    WriteRun nodes s s'' c later src := by
  have hnodes : ∀ j, j ∉ c.current :: later → j ∉ c'.current :: later' := by
    intro j hj
    rcases h.place with ⟨hcur, hlater, -, -⟩ | ⟨hlater, -, -⟩
    · rwa [hcur, hlater]
    · rw [hlater] at hj
      exact fun hmem => hj (List.mem_cons_of_mem _ hmem)
  -- The rest is written behind the chunk.
  have hrest : Memory.ringBytes s'' c.current later =
      (Memory.ringBytes s' c.current later).overwriteAt (c.offset + chunk)
        (src.drop chunk) := by
    have hcontent := hrun.content
    rcases h.place with ⟨hcur, hlater, hoff, -⟩ | ⟨hlater, hoff, hsize⟩
    · rwa [hcur, hlater, hoff] at hcontent
    · rw [hoff] at hcontent
      have hcur : c.current ∉ c'.current :: later' := by
        rw [← hlater]
        exact (List.nodup_cons.mp hnodup).1
      have hkept := (hrun.others _ hcur).content hrun.shape
      have hlen : c.offset + chunk =
          (Memory.content s' c.current).length + 0 := by
        rw [hsize, length_content, size_congr h.shape, Nat.add_zero]
      rw [Memory.ringBytes, Memory.ringBytes, List.flatMap_cons,
        List.flatMap_cons, hlen, ByteBuffer.overwriteAt_append_right, hkept,
        hlater]
      exact congrArg _ hcontent
  refine ⟨hrun.sound, hrun.shape.trans h.shape, ?_, fun j hj =>
    (h.others j (List.ne_of_not_mem_cons hj)).trans
      (hrun.others j (hnodes j hj))⟩
  have htake : (src.take chunk).length = chunk := by
    rw [List.length_take]
    exact Nat.min_eq_left h.le
  have hjoin := ByteBuffer.overwriteAt_overwriteAt
    (Memory.ringBytes s c.current later) c.offset (src.take chunk)
    (src.drop chunk)
  rw [htake, List.take_append_drop] at hjoin
  rw [hrest, h.ringBytes hnodup, hjoin]

/-- `Write` stops, returns the number of bytes there was room for, and writes
them over what the cursor has not passed. -/
theorem writeFrom_spec (uninit : ℕ → ℕ → UInt8) (hs : Sound s nodes)
    (hmem : ∀ j ∈ c.current :: later, j ∈ nodes)
    (hc : Stands s c later) (hnodup : (c.current :: later).Nodup)
    (hfuel : later.length + 2 ≤ fuel) (src : ByteBuffer) (written : ℕ) :
    ∃ s' c', writeFrom uninit s c src written fuel =
        some (s', c', written + min src.length (unread s c later).length) ∧
      WriteRun nodes s s' c later src := by
  induction fuel generalizing s c later src written with
  | zero => omega
  | succ fuel ih =>
      have hstop : ∀ {s c later src written fuel}, Sound s nodes →
          Stands s c later → Stuck s c later src.length →
          writeFrom uninit s c src written (fuel + 1) =
              some (s, c, written +
                min src.length (unread s c later).length) ∧
            WriteRun nodes s s c later src := by
        intro s c later src written fuel hs hc hstuck
        have hnone : min src.length (unread s c later).length = 0 := by
          rcases hstuck with hzero | hend
          · rw [hzero, Nat.zero_min]
          · rw [unread_of_atEnd hend, List.length_nil, Nat.min_zero]
        rw [hnone]
        exact ⟨writeFrom_of_stuck hc.ahead hstuck written fuel,
          hstuck.writeRun hs⟩
      by_cases hstuck : Stuck s c later src.length
      · exact ⟨s, c, hstop hs hc hstuck⟩
      · obtain ⟨s₁, c₁, later₁, chunk, hturn⟩ :=
          exists_writeTurn uninit hs (hmem _ List.mem_cons_self) hc hstuck
        obtain ⟨s', c', hwrite, hrun⟩ : ∃ s' c',
            writeFrom uninit s₁ c₁ (src.drop chunk) (written + chunk) fuel =
              some (s', c', written + chunk + min (src.drop chunk).length
                (unread s₁ c₁ later₁).length) ∧
              WriteRun nodes s₁ s' c₁ later₁ (src.drop chunk) := by
          rcases hturn.place with ⟨-, -, -, hstuck₁⟩ | ⟨rfl, -, -⟩
          · obtain ⟨fuel, rfl⟩ : ∃ k, fuel = k + 1 :=
              Nat.exists_eq_add_of_le' (by omega)
            rw [← List.length_drop] at hstuck₁
            exact ⟨s₁, c₁, hstop hturn.sound hturn.stands hstuck₁⟩
          · exact ih hturn.sound
              (fun j hj => hmem j (List.mem_cons_of_mem _ hj)) hturn.stands
              (List.nodup_cons.mp hnodup).2
              (by rw [List.length_cons] at hfuel; omega) _ _
        refine ⟨s', c', ?_, hturn.writeRun hnodup hrun⟩
        have hleft := hturn.length_unread hc.offset_le hnodup
        have hle := hturn.le
        have hcount : written + chunk + min (src.drop chunk).length
            (unread s₁ c₁ later₁).length =
              written + min src.length (unread s c later).length := by
          rw [List.length_drop]
          omega
        rw [hturn.write, hwrite, hcount]

/-! ## Cursors of a ring -/

theorem length_ringBytes_congr (hshape : s'.shape = s.shape) :
    (ringBytes s' head l).length = (ringBytes s head l).length := by
  simp only [ringBytes, List.length_flatMap, length_content,
    size_congr hshape]

/-- A cursor in a node of the ring stands behind the bytes of the nodes before
it and what it has passed of its own. -/
theorem placed_of_stands (hc : Stands s c later) (hhead : c.head = head)
    (hsuffix : (c.current :: later) <:+ (head :: l)) :
    ∃ before, head :: l = before ++ c.current :: later ∧
      Placed s head l c later
        ((before.flatMap (content s)).length + c.offset) := by
  obtain ⟨before, hbefore⟩ := hsuffix
  refine ⟨before, hbefore.symm, hc, hhead, ⟨before, hbefore⟩, ?_⟩
  have hle : c.offset ≤ (content s c.current).length := by
    rw [length_content]
    exact hc.offset_le
  rw [unread, ← hbefore, List.flatMap_append, List.drop_length_add_append,
    List.flatMap_cons, List.drop_append_of_le_length hle]

/-- The states of a `BufferRWCursor` are sound, and its ring is the one it
began with. -/
theorem WriterReachable.sound (hs : Sound s (head :: l)) (hsizes : SizesFit s)
    (hring : s.links.IsRing head l) (hfuel : l.length + 2 ≤ fuel)
    {sc : State × Cursor} (h : WriterReachable uninit s fuel head sc) :
    Sound sc.1 (head :: l) := by
  induction h with
  | start hstart =>
      obtain rfl := Set.mem_singleton_iff.mp hstart
      exact hs
  | @next sc sc' r hreach _ hstep ih =>
      obtain ⟨s₁, c₁⟩ := sc
      obtain ⟨s₂, c₂⟩ := sc'
      obtain ⟨hshape, later, pos, hplaced⟩ :=
        WriterReachable.placed hsizes hring hfuel hreach
      have hlen := hplaced.length_le
      cases r with
      | write src =>
          obtain ⟨s', c', hwrite, hrun⟩ := writeFrom_spec uninit ih
            (fun j hj => hplaced.suffix.subset hj)
            (hplaced.stands.congr hshape)
            (hplaced.suffix.sublist.nodup hring.nodup)
            (show later.length + 2 ≤ fuel by omega) src 0
          have hmap := writeFrom_map uninit s₁ c₁ src 0 fuel
          rw [hwrite, Option.map_some] at hmap
          have heq := hmap.trans hstep
          obtain ⟨rfl, -⟩ := Prod.mk.inj (Option.some.inj heq)
          exact hrun.sound
      | skip n =>
          obtain ⟨c', -, heq⟩ := Option.map_eq_some_iff.mp hstep
          obtain ⟨rfl, -⟩ := Prod.mk.inj heq
          exact ih
      | reset =>
          obtain ⟨rfl, -⟩ := Prod.mk.inj (Option.some.inj hstep)
          exact ih

/-- In every state in which the counts have kept up and the views of the ring
lie inside, every cursor of the ring overwrites the bytes it stands before. -/
theorem write_overwrites
    (hrun : Transition.ReachableVia (perform uninit) (fun s _ => RefsFit s)
      {init} s) (hrefs : RefsFit s) (hsizes : SizesFit s)
    (hin : NodesInside s (head :: l)) (hring : s.links.IsRing head l)
    (htotal : (ringBytes s head l).length < sizeModulus)
    (hfuel : l.length + 2 ≤ fuel)
    (hc : WriterReachable uninit s fuel head (s', c)) (src : ByteBuffer) :
    Overwrites uninit s' head l fuel c src := by
  have hsound : Sound s' (head :: l) := WriterReachable.sound
    ⟨ledger_of_fitting_run hrun hrefs, hin⟩ hsizes hring hfuel hc
  obtain ⟨hshape, later, pos, hplaced⟩ : s'.shape = s.shape ∧
      ∃ later pos, Placed s head l c later pos :=
    hc.placed hsizes hring hfuel
  have hlen := hplaced.length_le
  have hstands := hplaced.stands.congr hshape
  obtain ⟨before, hbefore, hplaced'⟩ :=
    placed_of_stands hstands hplaced.head_eq hplaced.suffix
  have hnodup := hring.nodup
  rw [hbefore] at hnodup
  obtain ⟨s'', c', hwrite, hdone⟩ := writeFrom_spec uninit hsound
    (fun j hj => hplaced.suffix.subset hj) hstands
    (List.nodup_append.mp hnodup).2.1
    (show later.length + 2 ≤ fuel by omega) src 0
  have hbytes : ∀ t, ringBytes t head l =
      before.flatMap (content t) ++ ringBytes t c.current later := by
    intro t
    rw [ringBytes, hbefore, List.flatMap_append]
  have hleft := length_unread hstands.offset_le later
  have hcount : (before.flatMap (content s')).length + c.offset +
      (unread s' c later).length = (ringBytes s' head l).length := by
    rw [hbytes, List.length_append, ← hleft]
    omega
  have hsmall : (unread s' c later).length < sizeModulus := by
    rw [← length_ringBytes_congr hshape] at htotal
    omega
  have hsizes' : SizesFit s' := fun i => by
    rw [size_congr hshape]
    exact hsizes i
  refine ⟨later, _, (unread s' c later).length, s'', c', hplaced', ?_, hcount,
    ?_, ?_, size_congr hdone.shape, ?_⟩
  · rw [totalLength_eq hsizes' hstands (by omega), Nat.mod_eq_of_lt hsmall]
  · rw [Cursor.write, hwrite, Nat.zero_add]
  · -- The nodes before the cursor are not written.
    have hkept : before.flatMap (content s'') =
        before.flatMap (content s') :=
      List.flatMap_congr fun j hj => (hdone.others j
        (List.disjoint_left.mp (List.disjoint_of_nodup_append hnodup)
          hj)).content hdone.shape
    rw [hbytes, hbytes, ByteBuffer.overwriteAt_append_right, hkept,
      hdone.content]
  · intro j hj
    rw [hbefore, List.mem_append, not_or] at hj
    exact hdone.others j hj.2

end Writes

/-! ## Rings that share storage -/

theorem isRing_crowd (n : ℕ) : (crowd n).links.IsRing 0 [] := by
  have hbuf := buf?_crowd.mpr ⟨Nat.zero_le n, rfl⟩
  refine ⟨by decide, ?_, ?_⟩ <;> simp [State.links, hbuf]

theorem nodesInside_crowd (n : ℕ) (nodes : List ℕ) :
    NodesInside (crowd n) nodes :=
  fun i _ b hb => ⟨(viewsInside_crowd n).inBounds i b hb,
    (viewsInside_crowd n).empty i b hb⟩

theorem sizesFit_crowd (n : ℕ) : SizesFit (crowd n) := by
  intro i
  cases hb : (crowd n).buf? i with
  | none =>
      rw [size, hb]
      exact Nat.pow_pos Nat.zero_lt_two
  | some b =>
      obtain ⟨-, rfl⟩ := buf?_crowd.mp hb
      rw [size_of_buf? hb]
      exact (by decide : 1 < sizeModulus)

theorem ringBytes_crowd (n : ℕ) : ringBytes (crowd n) 0 [] = [0] := by
  have hbuf := buf?_crowd.mpr ⟨Nat.zero_le n, rfl⟩
  rw [ringBytes, List.flatMap_singleton, content_of_buf? hbuf]
  rfl

/-- Two buffers share a byte, and one of them is overwritten. -/
theorem write_overwrites_crowd :
    ∃ s' c', (Cursor.start 0).write (fun _ _ => 0) (crowd 1) [7, 8] 2 =
        some (s', c', 1) ∧ ringBytes s' 0 [] = [7] ∧
      SameSight (crowd 1) s' 1 := by
  obtain ⟨later, pos, total, s', c', -, htotal, hpos, hwrite, hbytes, -,
      hothers⟩ := write_overwrites (reachableVia_crowd (n := 1) (by decide))
    (refsFit_crowd (by decide)) (sizesFit_crowd 1) (nodesInside_crowd 1 _)
    (isRing_crowd 1) (by rw [ringBytes_crowd]; decide)
    (show ([] : List ℕ).length + 2 ≤ 2 by decide)
    (.start (Set.mem_singleton _)) [7, 8]
  obtain rfl : 1 = total := Option.some.inj (Eq.trans (by decide) htotal)
  obtain rfl : pos = 0 := by
    rw [ringBytes_crowd, List.length_singleton] at hpos
    omega
  rw [ringBytes_crowd] at hbytes
  exact ⟨s', c', hwrite, hbytes, hothers 1 (by decide)⟩

theorem WideRing.refsFit {s : State} {n : ℕ} (h : WideRing n s)
    (hn : n + 1 < UInt32.size) : RefsFit s := refsFit_wideViews h.views hn

theorem WideRing.nodesInside {s : State} {n : ℕ} (h : WideRing n s)
    (nodes : List ℕ) : NodesInside s nodes := by
  intro i _ b hb
  have hw := window_of_wideViews h.views hb
  have hphysical : b.physical = some 0 := congrArg Window.physical hw
  have hdata : b.data = 0 := congrArg Window.data hw
  have hlen : b.length = 2 ^ 36 := congrArg Window.length hw
  refine ⟨fun p cap hp hcap => ?_, fun hnone => ?_⟩
  · obtain rfl := Option.some.inj (hphysical.symm.trans hp)
    obtain rfl := Option.some.inj (h.caps.symm.trans hcap)
    rw [hdata, hlen, Nat.zero_add]
  · rw [hphysical] at hnone
    cases hnone

/-- `TotalLength()` of a ring of `2 ^ 64` bytes is 0, and `Write` writes. -/
theorem WideRing.not_overwrites {s : State} (h : WideRing (2 ^ 28 - 1) s) :
    ¬ Overwrites (filled 0) s 0 (List.range' 1 (2 ^ 28 - 1)) (2 ^ 28 + 1)
      (Cursor.start 0) [7] := by
  rintro ⟨later, pos, total, s', c', -, htotal, -, hwrite, -⟩
  obtain rfl : 0 = total := Option.some.inj
    ((h.totalLength_eq_zero (by decide)).symm.trans htotal)
  have hsound : Sound s (0 :: List.range' 1 (2 ^ 28 - 1)) :=
    ⟨ledger_of_fitting_run (h.reached.mono fun _ _ ha => ha.1)
      (h.refsFit (by decide)), h.nodesInside _⟩
  have hfuel : (List.range' 1 (2 ^ 28 - 1)).length + 2 ≤ 2 ^ 28 + 1 := by
    rw [List.length_range']
    decide
  obtain ⟨s'', c'', hone, -⟩ := writeFrom_spec (filled 0) hsound
    (fun _ hj => hj) (stands_start h.ring) h.ring.nodup hfuel [7] 0
  rw [unread_start, h.length_ringBytes] at hone
  have hcount : 0 = 1 := congrArg (fun r => r.2.2)
    (Option.some.inj (hwrite.symm.trans hone))
  cases hcount

/-- The buffer next to the ring sees the byte, as the count is 0. -/
theorem not_overwrites_crowd {n : ℕ} (hn : UInt32.ofNat (n + 1) = 0)
    (hone : 1 ≤ n) :
    ¬ Overwrites (fun _ _ => 0) (crowd n) 0 [] 2 (Cursor.start 0) [1] := by
  rintro ⟨later, pos, total, s', c', -, -, -, hwrite, -, -, hothers⟩
  have hbuf := buf?_crowd.mpr ⟨Nat.zero_le n, rfl⟩
  have hshared : isShared (crowd n) ⟨some 0, 0, 1, 0, 0⟩ = false := by
    simp [isShared, State.storage, crowd, hn]
  have hstored : ∀ b pos src len, ((crowd n).storeAt b pos src len).buf? 0 =
      some ⟨some 0, 0, 1, 0, 0⟩ := fun b pos src len => by
    rw [buf?_storeAt, hbuf]
  have hchunk : min (subSize 1 0) 1 = 1 := by decide
  have hrun : Cursor.write (fun _ _ => 0) (crowd n) (Cursor.start 0) [1] 2 =
      some (crowdWritten n, ⟨0, 0, 1⟩, 1) := by
    have hend : atEnd (crowd n) (Cursor.start 0) = some false := by
      rw [atEnd, hbuf]
      rfl
    have hdetach : cowDetach (fun _ _ => 0) (crowd n) 0 =
        some (crowd n) := by
      simp only [cowDetach, hbuf, hshared, Option.bind_eq_bind,
        Option.bind_some, Bool.false_eq_true, if_false]
    have hadvance : advanceIfExhausted (crowdWritten n) ⟨0, 0, 1⟩ =
        some ⟨0, 0, 1⟩ := by
      rw [advanceIfExhausted, crowdWritten, hstored]
      rfl
    rw [Cursor.write, writeFrom, hend]
    simp only [Option.bind_eq_bind, Option.bind_some, Bool.false_eq_true,
      if_false, hdetach, hbuf, List.length_singleton, hchunk]
    · rw [← crowdWritten, hadvance]
      rfl
    · intro heq
      cases heq
  obtain rfl : crowdWritten n = s' :=
    (Prod.mk.inj (Option.some.inj (hrun.symm.trans hwrite))).1
  obtain ⟨b', hb', -, hview⟩ :=
    hothers 1 (by decide) _ (buf?_crowd.mpr ⟨hone, rfl⟩)
  rw [crowdWritten, buf?_storeAt] at hb'
  obtain ⟨-, rfl⟩ := buf?_crowd.mp hb'
  have hzero := hview 0 Nat.zero_lt_one
  have hafter : (crowdWritten n).view ⟨some 0, 0, 1, 1, 1⟩ 0 = 1 := rfl
  have hbefore : (crowd n).view ⟨some 0, 0, 1, 1, 1⟩ 0 = 0 := rfl
  rw [hafter, hbefore] at hzero
  exact absurd hzero (by decide)

/-- A ring of `2 ^ 64` bytes, and `2 ^ 32` buffers on one storage. -/
theorem exists_write_astray :
    (∃ s l, Transition.Reachable (perform (filled 0)) {init} s ∧ RefsFit s ∧
      s.links.IsRing 0 l ∧ NodesInside s (0 :: l) ∧
      ¬ Overwrites (filled 0) s 0 l (l.length + 2) (Cursor.start 0) [7]) ∧
    (∃ s, Transition.Reachable (perform fun _ _ => 0) {init} s ∧
      s.links.IsRing 0 [] ∧ NodesInside s [0] ∧ ringBytes s 0 [] = [0] ∧
      ¬ Overwrites (fun _ _ => 0) s 0 [] 2 (Cursor.start 0) [1]) := by
  constructor
  · -- The references to the one storage still fit in its count.
    obtain ⟨s, hs⟩ := exists_wideRing (n := 2 ^ 28 - 1) (by decide)
    refine ⟨s, List.range' 1 (2 ^ 28 - 1), hs.reached.reachable,
      hs.refsFit (by decide), hs.ring, hs.nodesInside _, ?_⟩
    rw [List.length_range']
    exact hs.not_overwrites
  · have hreach := reachableVia_crowd (n := UInt32.size - 1) (by decide)
    generalize hn : UInt32.size - 1 = n at hreach
    have hwrap : UInt32.ofNat (n + 1) = 0 := by
      rw [← hn]
      decide
    have hone : 1 ≤ n := by
      rw [← hn]
      decide
    exact ⟨crowd n, hreach.reachable, isRing_crowd n, nodesInside_crowd n _,
      ringBytes_crowd n, not_overwrites_crowd hwrap hone⟩

end Memory
end Yacul
