import Yacul.Memory.Cursor
import Yacul.Memory.RingCalls

/-!
# Reading, peeking and gathering agree

`Peek` walks the ring with a loop of its own, which leaves a node when the
next byte is wanted and not when the last one is taken.  `ToVector` and
`CoalesceChain` walk it once more.  All of them see the list that a cursor
reads, as long as the sum of the sizes is a `size_t`.
-/

namespace Yacul
namespace Memory

section Reads

variable {s s' : State} {c : Cursor} {b : Buffer} {head cur off p pos : ℕ}
  {l later nodes : List ℕ} {fuel : ℕ}

/-! ## Peek -/

/-- A turn of the loop of `Peek` in a node that is used up. -/
theorem peekFrom_exhausted (hb : s.buf? cur = some b) {n : ℕ} (hn : n ≠ 0)
    (havail : subSize b.length off = 0) :
    peekFrom s head cur off n (fuel + 1) =
      if b.next = head then some []
      else peekFrom s head b.next 0 n fuel := by
  rw [peekFrom, hb, Option.bind_eq_bind, Option.bind_some]
  · dsimp only
    rw [if_pos havail]
  · exact hn

/-- A turn of the loop of `Peek` that copies a chunk. -/
theorem peekFrom_chunk (hb : s.buf? cur = some b) {n chunk : ℕ} (hn : n ≠ 0)
    (havail : subSize b.length off ≠ 0)
    (hchunk : min (subSize b.length off) n = chunk) :
    peekFrom s head cur off n (fuel + 1) =
      (peekFrom s head cur (off + chunk) (n - chunk) fuel).map fun rest =>
        ((List.range chunk).map fun k => s.view b (off + k)) ++ rest := by
  subst hchunk
  rw [peekFrom, hb, Option.bind_eq_bind, Option.bind_some]
  · dsimp only
    rw [if_neg havail, Option.map_eq_bind]
    rfl
  · exact hn

/-- `Peek` sees what is unread.  It takes at most two turns in every node. -/
theorem peekFrom_spec (hs : SizesFit s) (h : Ahead s head cur later)
    (hoff : off ≤ size s cur)
    (hfuel : 2 * later.length + 2 ≤ fuel ∨
      off = size s cur ∧ 2 * later.length + 1 ≤ fuel) (n : ℕ) :
    peekFrom s head cur off n fuel =
      some (((content s cur).drop off ++
        later.flatMap (content s)).take n) := by
  induction fuel generalizing cur off later n with
  | zero => omega
  | succ fuel ih =>
      rcases Nat.eq_zero_or_pos n with rfl | hn
      · rfl
      · obtain ⟨b, hb, hnext⟩ := h.exists_buf?
        have hsize := size_of_buf? hb
        have havail : subSize b.length off = size s cur - off := by
          rw [hsize] at hoff ⊢
          exact subSize_eq_sub hoff (hsize ▸ hs cur)
        by_cases hdone : off = size s cur
        · have hdrop : (content s cur).drop off = [] := by
            rw [List.drop_eq_nil_iff, length_content, hdone]
          rw [peekFrom_exhausted hb hn.ne' (by omega), hdrop,
            List.nil_append]
          cases later with
          | nil =>
              have hhead : b.next = head := hnext
              rw [if_pos hhead, List.flatMap_nil, List.take_nil]
          | cons x l =>
              have hx : b.next = x := hnext
              rw [hx, if_neg h.2.1, ih h.2.2 (Nat.zero_le _)
                (by left; simp only [List.length_cons] at hfuel; omega),
                List.drop_zero, List.flatMap_cons]
        · obtain ⟨chunk, hchunk⟩ : ∃ chunk,
              min (size s cur - off) n = chunk := ⟨_, rfl⟩
          have hlen : chunk ≤ ((content s cur).drop off).length := by
            rw [List.length_drop, length_content]
            omega
          have hbytes : ((List.range chunk).map fun k =>
              s.view b (off + k)) = ((content s cur).drop off).take chunk := by
            rw [content_of_buf? hb]
            exact (take_drop_toBytes s (by rw [← hsize]; omega)).symm
          have hrest : peekFrom s head cur (off + chunk) (n - chunk) fuel =
              some (((content s cur).drop (off + chunk) ++
                later.flatMap (content s)).take (n - chunk)) := by
            rcases Nat.lt_or_ge n (size s cur - off) with hfew | hmany
            · obtain ⟨fuel, rfl⟩ : ∃ k, fuel = k + 1 :=
                Nat.exists_eq_add_of_le' (by omega)
              have hnone : n - chunk = 0 := by omega
              rw [hnone, List.take_zero, peekFrom]
            · exact ih h (by omega) (Or.inr ⟨by omega, by omega⟩) _
          rw [peekFrom_chunk hb hn.ne' (by omega) (havail ▸ hchunk), hrest,
            Option.map_some, hbytes, ← List.drop_drop,
            ← List.drop_append_of_le_length hlen,
            ← List.take_append_of_le_length hlen, ← List.take_add]
          congr 2
          omega

/-- `Peek` returns what `Read` would and leaves the cursor where it is. -/
theorem peek_eq_read (hs : SizesFit s) (hring : s.links.IsRing head l)
    (hfuel : 2 * l.length + 2 ≤ fuel) (hc : CursorReachable s fuel head c)
    (n : ℕ) :
    ∃ bytes c', peek s c n fuel = some (c, bytes) ∧
      read s c n fuel = some (c', bytes) := by
  obtain ⟨later, pos, hplaced⟩ := hc.placed hs hring (by omega)
  have hlen := hplaced.length_le
  obtain ⟨c', later', hread, -, -⟩ :=
    read_spec hs hplaced.stands
      (show later.length + 2 ≤ fuel by omega) n
  have hpeek := peekFrom_spec hs hplaced.stands.ahead
    hplaced.stands.offset_le
    (Or.inl (show 2 * later.length + 2 ≤ fuel by omega)) n
  refine ⟨(unread s c later).take n, c', ?_, hread⟩
  rw [peek, hpeek]
  rfl

/-! ## Gathering -/

/-- The storage pointers point to storage. -/
def Backed (s : State) : Prop :=
  ∀ i b p, s.buf? i = some b → b.physical = some p → p < s.phys.length

/-- A buffer sees the same if the storage it may refer to has the same
bytes. -/
theorem content_congr (hbufs : s'.bufs = s.bufs) {i : ℕ}
    (hphys : ∀ b p, s.buf? i = some b → b.physical = some p →
      (s'.phys[p]?).map PhysicalBuffer.bytes =
        (s.phys[p]?).map PhysicalBuffer.bytes) :
    content s' i = content s i := by
  have hbuf : s'.buf? i = s.buf? i := by simp only [State.buf?, hbufs]
  cases hb : s.buf? i with
  | none => simp [content, hbuf, hb]
  | some b =>
      rw [content_of_buf? hb, content_of_buf? (hbuf.trans hb)]
      have hview : s'.view b = s.view b := by
        funext k
        rw [view_eq, view_eq]
        cases hp : b.physical with
        | none => rfl
        | some p =>
            have hbytes : s'.sharing.bytes? p = s.sharing.bytes? p :=
              hphys b p hb hp
            rw [Option.bind_some, Option.bind_some, hbytes]
      rw [toBytes, toBytes, hview]

/-- The nodes are copied into the storage one after the other. -/
theorem coalesceInto_spec {ph : PhysicalBuffer}
    (hph : s.phys[p]? = some ph)
    (hnodes : ∀ i ∈ nodes, ∃ b, s.buf? i = some b ∧ b.physical ≠ some p) :
    ∃ s' ph', coalesceInto s p pos nodes = some s' ∧
      s'.bufs = s.bufs ∧ s'.phys[p]? = some ph' ∧
      ∀ k, ph'.bytes k =
        if pos ≤ k then
          ((nodes.flatMap (content s))[k - pos]?).getD (ph.bytes k)
        else ph.bytes k := by
  induction nodes generalizing s ph pos with
  | nil => exact ⟨s, ph, rfl, rfl, hph, fun k => by simp⟩
  | cons i nodes ih =>
      obtain ⟨b, hb, hne⟩ := hnodes i List.mem_cons_self
      obtain ⟨s₁, hs₁⟩ : ∃ s₁, s.modifyPhys p (fun ph =>
          ph.store pos (s.view b) b.length) = s₁ := ⟨_, rfl⟩
      have hbufs : s₁.bufs = s.bufs := by rw [← hs₁]; rfl
      have hbuf : ∀ j, s₁.buf? j = s.buf? j := fun j => by
        simp only [State.buf?, hbufs]
      have hph₁ : s₁.phys[p]? =
          some (ph.store pos (s.view b) b.length) := by
        rw [← hs₁, State.modifyPhys]
        simp [hph]
      -- The storage written to is not the storage of a node.
      have hcontent : ∀ j ∈ i :: nodes, content s₁ j = content s j := by
        intro j hj
        apply content_congr hbufs
        intro d q hd hq
        obtain ⟨d', hd', hqp⟩ := hnodes j hj
        obtain rfl := Option.some.inj (hd.symm.trans hd')
        have hpq : p ≠ q := fun heq => hqp (heq ▸ hq)
        rw [← hs₁, State.modifyPhys]
        simp [hpq]
      have hrest : nodes.flatMap (content s₁) = nodes.flatMap (content s) :=
        List.flatMap_congr fun j hj => hcontent j (List.mem_cons_of_mem i hj)
      obtain ⟨s', ph', hs', hbufs', hph', hbytes⟩ :=
        @ih s₁ (pos + b.length) _ hph₁ (by
          intro j hj
          rw [hbuf]
          exact hnodes j (List.mem_cons_of_mem i hj))
      refine ⟨s', ph', ?_, hbufs'.trans hbufs, hph', fun k => ?_⟩
      · simp [coalesceInto, hb, hs₁, hs']
      · rw [hbytes, hrest, List.flatMap_cons, content_of_buf? hb]
        have hlen := length_toBytes s b
        rcases Nat.lt_or_ge k pos with hbefore | hfrom
        · rw [if_neg (by omega), if_neg (by omega)]
          simp [PhysicalBuffer.store, hbefore.not_ge]
        · rw [if_pos hfrom]
          rcases Nat.lt_or_ge k (pos + b.length) with hin | hbehind
          · have hk : k - pos < b.length := by omega
            rw [if_neg (by omega), List.getElem?_append_left (by omega)]
            simp [PhysicalBuffer.store, toBytes, hfrom, hin, hk]
          · rw [if_pos hbehind, List.getElem?_append_right (by omega), hlen,
              Nat.sub_sub]
            simp [PhysicalBuffer.store, hbehind.not_gt]

theorem chainOf_of_isRing (hring : s.links.IsRing head l)
    (hfuel : l.length + 1 ≤ fuel) :
    chainOf s head fuel = some (head :: l) := by
  have hahead := ahead_of_isRing hring
  obtain ⟨b, hb, -⟩ := hahead.exists_buf?
  simp [chainOf, hb, chainFrom_of_ahead hahead hfuel hb]

theorem toVector_eq (hring : s.links.IsRing head l)
    (hfuel : l.length + 1 ≤ fuel) :
    toVector s head fuel = some ((head :: l).flatMap (content s)) := by
  rw [toVector, chainOf_of_isRing hring hfuel, Option.map_some]

/-- `ComputeChainDataLength` is the number of bytes, modulo `2 ^ 64`. -/
theorem chainDataLength_eq (s : State) (nodes : List ℕ) :
    chainDataLength s nodes =
      (nodes.flatMap (content s)).length % sizeModulus := by
  have hfold := foldl_addSize s nodes 0
  rw [Nat.zero_mod, Nat.zero_add] at hfold
  exact hfold

/-- The copies into new storage. -/
theorem coalesceInto_new (uninit : ℕ → ℕ → UInt8) (hs : Backed s)
    (hnodes : ∀ i ∈ nodes, s.links.Live i) {cap : ℕ} (hcap : cap < sizeLimit) :
    ∃ s₁ s₂ ph, createPhysical uninit s cap = some (s.phys.length, s₁) ∧
      coalesceInto s₁ s.phys.length 0 nodes = some s₂ ∧
      s₂.bufs = s.bufs ∧ s₂.phys[s.phys.length]? = some ph ∧
      ∀ k, ph.bytes k = ((nodes.flatMap (content s))[k]?).getD
        (uninit s.phys.length k) := by
  obtain ⟨ph₀, hph₀⟩ : ∃ ph₀ : PhysicalBuffer,
      { refCount := 1, capacity := cap, bytes := uninit s.phys.length } =
        ph₀ := ⟨_, rfl⟩
  obtain ⟨s₁, hs₁⟩ : ∃ s₁, { s with phys := s.phys ++ [ph₀] } = s₁ :=
    ⟨_, rfl⟩
  have hbufs : s₁.bufs = s.bufs := by rw [← hs₁]
  have hphys : s₁.phys = s.phys ++ [ph₀] := by rw [← hs₁]
  have hbuf : ∀ i, s₁.buf? i = s.buf? i := fun i => by
    simp only [State.buf?, hbufs]
  have hcontent : content s₁ = content s := by
    funext i
    apply content_congr hbufs
    intro b q hb hq
    rw [hphys, List.getElem?_append_left (hs i b q hb hq)]
  have hnew : s₁.phys[s.phys.length]? = some ph₀ := by simp [hphys]
  have hold : ∀ i ∈ nodes, ∃ b, s₁.buf? i = some b ∧
      b.physical ≠ some s.phys.length := by
    intro i hi
    obtain ⟨b, hb⟩ := live_iff.mp (hnodes i hi)
    refine ⟨b, (hbuf i).trans hb, fun hq => ?_⟩
    exact absurd (hs i b _ hb hq) (Nat.lt_irrefl _)
  obtain ⟨s₂, ph, hinto, hbufs₂, hph, hbytes⟩ :
      ∃ s' ph', coalesceInto s₁ s.phys.length 0 nodes = some s' ∧ _ :=
    coalesceInto_spec hnew hold
  refine ⟨s₁, s₂, ph, ?_, hinto, hbufs₂.trans hbufs, hph, fun k => ?_⟩
  · rw [createPhysical, if_pos hcap, hph₀, hs₁]
  · rw [hbytes, if_pos (Nat.zero_le k), hcontent, Nat.sub_zero, ← hph₀]

/-- The buffer `CoalesceChain` returns holds the bytes of the ring. -/
theorem coalesceChain_spec (uninit : ℕ → ℕ → UInt8) (hs : Backed s)
    (hring : s.links.IsRing head l) (hfuel : l.length + 1 ≤ fuel)
    (hfits : ((head :: l).flatMap (content s)).length < sizeLimit) :
    ∃ s' b, coalesceChain uninit s head fuel = some s' ∧
      s'.buf? s.bufs.length = some b ∧
      toBytes s' b = (head :: l).flatMap (content s) := by
  obtain ⟨whole, hwhole⟩ : ∃ whole,
      (head :: l).flatMap (content s) = whole := ⟨_, rfl⟩
  rw [hwhole] at hfits ⊢
  have htotal : chainDataLength s (head :: l) = whole.length := by
    rw [chainDataLength_eq, hwhole,
      Nat.mod_eq_of_lt (hfits.trans (by decide))]
  have hunfold : coalesceChain uninit s head fuel =
      if whole.length = 0 then some (newBuffer s none 0 0)
      else (createPhysical uninit s whole.length).bind fun r =>
        (coalesceInto r.2 r.1 0 (head :: l)).bind fun s₂ =>
          some (newBuffer s₂ (some r.1) 0 whole.length) := by
    rw [coalesceChain, chainOf_of_isRing hring hfuel, Option.bind_eq_bind,
      Option.bind_some, htotal]
    rfl
  rw [hunfold]
  split_ifs with hzero
  · refine ⟨_, _, rfl, (buf?_newBuffer s none 0 0 _).trans (if_pos rfl), ?_⟩
    rw [List.length_eq_zero_iff] at hzero
    rw [hzero]
    rfl
  · obtain ⟨s₁, s₂, ph, hcreate, hinto, hbufs, hph, hbytes⟩ :=
      coalesceInto_new uninit hs (fun i hi => hring.live hi) hfits
    rw [hcreate, Option.bind_some, hinto, Option.bind_some]
    refine ⟨_, _, rfl, (buf?_newBuffer s₂ _ 0 _ _).trans
      (if_pos (by rw [hbufs])), ?_⟩
    apply List.ext_getElem
    · rw [length_toBytes]
    · intro k hk hk'
      have hview : (newBuffer s₂ (some s.phys.length) 0 whole.length).view
          ⟨some s.phys.length, 0, whole.length, s₂.bufs.length,
            s₂.bufs.length⟩ k = ph.bytes k := by
        simp [State.view, newBuffer, hph]
      simp only [toBytes, List.getElem_map, List.getElem_range]
      rw [hview, hbytes, hwhole, List.getElem?_eq_getElem hk',
        Option.getD_some]

/-! ## The concatenation -/

/-- The bytes of the ring read from `head`. -/
abbrev ringBytes (s : State) (head : ℕ) (l : List ℕ) : ByteBuffer :=
  (head :: l).flatMap (content s)

/-- The cursor has read `pos` bytes of `whole`: `TotalLength` is the number of
the others, `Read` returns the next of them and lowers it by their number, and
`Skip` moves the cursor as `Read` does. -/
structure ReadsRest (s : State) (fuel : ℕ) (whole : ByteBuffer) (c : Cursor)
    (pos : ℕ) : Prop where
  total : totalLength s c fuel = some (whole.length - pos)
  next : ∀ n, ∃ c',
    read s c n fuel = some (c', (whole.drop pos).take n) ∧
    skip s c n fuel = some c' ∧
    totalLength s c' fuel =
      some (whole.length - pos - min n (whole.length - pos))

theorem Placed.totalLength_eq (hs : SizesFit s)
    (hfits : (ringBytes s head l).length < sizeModulus)
    (hfuel : l.length + 1 ≤ fuel) (h : Placed s head l c later pos) :
    totalLength s c fuel = some ((ringBytes s head l).length - pos) := by
  have hlen := h.length_le
  rw [Memory.totalLength_eq hs h.stands (by omega), h.unread,
    List.length_drop, Nat.mod_eq_of_lt ((Nat.sub_le _ _).trans_lt hfits)]

theorem Placed.readsRest (hs : SizesFit s)
    (hfits : (ringBytes s head l).length < sizeModulus)
    (hfuel : l.length + 2 ≤ fuel) (h : Placed s head l c later pos) :
    ReadsRest s fuel (ringBytes s head l) c pos := by
  have hlen := h.length_le
  refine ⟨h.totalLength_eq hs hfits (by omega), fun n => ?_⟩
  obtain ⟨c', later', hread, hskip, hmoves⟩ :=
    read_spec hs h.stands (show later.length + 2 ≤ fuel by omega) n
  rw [h.unread] at hread
  refine ⟨c', hread, hskip, ?_⟩
  have hrest : ∀ total : ℕ, total - min (pos + n) total =
      total - pos - min n (total - pos) := fun total => by omega
  rw [(h.moves hmoves).totalLength_eq hs hfits (by omega)]
  exact congrArg some (hrest _)

/-- A cursor of a ring whose sizes add up to a `size_t` reads the
concatenation of the nodes: after every sequence of requests each of them has
been served from it, and the next one will be.  A full read is `ToVector()`
and the bytes of `CoalesceChain()`. -/
theorem cursor_reads_concatenation (uninit : ℕ → ℕ → UInt8)
    (hs : SizesFit s) (hbacked : Backed s) (hring : s.links.IsRing head l)
    (hfits : (ringBytes s head l).length < sizeModulus)
    (hfuel : l.length + 2 ≤ fuel) :
    (∀ requests, ∃ c,
      ReadRequest.runAll (Cursor.serve s fuel) (Cursor.start head) requests =
        some (c, (ReadRequest.serveAll (ringBytes s head l) 0 requests).2) ∧
      ReadsRest s fuel (ringBytes s head l) c
        (ReadRequest.serveAll (ringBytes s head l) 0 requests).1) ∧
    (∃ c, read s (Cursor.start head) (ringBytes s head l).length fuel =
      some (c, ringBytes s head l)) ∧
    toVector s head fuel = some (ringBytes s head l) ∧
    ((ringBytes s head l).length < sizeLimit →
      ∃ s' b, coalesceChain uninit s head fuel = some s' ∧
        s'.buf? s.bufs.length = some b ∧
        toBytes s' b = ringBytes s head l) := by
  refine ⟨fun requests => ?_, ?_, toVector_eq hring (by omega),
    coalesceChain_spec uninit hbacked hring (by omega)⟩
  · obtain ⟨c, hrun, later, hplaced⟩ := ReadRequest.runAll_eq_serveAll
      (R := fun c pos => ∃ later, Placed s head l c later pos)
      (fun c pos r ⟨later, h⟩ => by
        obtain ⟨c', later', hserve, h'⟩ := h.serve hs hring hfuel r
        exact ⟨c', hserve, later', h'⟩)
      ⟨l, placed_start hring⟩ requests
    exact ⟨c, hrun, hplaced.readsRest hs hfits hfuel⟩
  · obtain ⟨c, later, hread, -, -⟩ := read_spec hs (stands_start hring) hfuel
      (ringBytes s head l).length
    rw [unread_start, List.take_length] at hread
    exact ⟨c, hread⟩

end Reads

/-! ## A ring with an empty node -/

/-- The ring of `"abc"`, an empty buffer, and `"de"`. -/
def abcDe : List Action :=
  [Action.copyFrom [97, 98, 99], Action.default, Action.copyFrom [100, 101],
    Action.appendChain 0 1, Action.appendChain 0 2]

theorem abcDe_runs :
    (Transition.run (perform (filled 0)) init abcDe).isSome = true := by
  decide

/-- The state after `abcDe`. -/
abbrev abcDeState : State :=
  (Transition.run (perform (filled 0)) init abcDe).get abcDe_runs

theorem isRing_abcDe : abcDeState.links.IsRing 0 [1, 2] :=
  ⟨by decide, ⟨rfl, rfl⟩, ⟨rfl, rfl⟩, rfl, rfl⟩

theorem sizesFit_abcDe : SizesFit abcDeState
  | 0 | 1 | 2 => by decide
  | _ + 3 => (by decide : 0 < sizeModulus)

theorem backed_abcDe : Backed abcDeState
  | 0, _, _, rfl, rfl => by decide
  | 1, _, _, rfl, h => nomatch h
  | 2, _, _, rfl, rfl => by decide
  | _ + 3, _, _, h, _ => nomatch h

/-- A full read of the ring is `"abcde"`. -/
theorem cursor_reads_concatenation_abcDe :
    ∃ c, read abcDeState (Cursor.start 0) 5 4 =
      some (c, [97, 98, 99, 100, 101]) :=
  (cursor_reads_concatenation (filled 0) sizesFit_abcDe backed_abcDe
    isRing_abcDe (by decide) (show [0, 1].length + 2 ≤ 4 by decide)).2.1

/-- Peeking at four bytes of it is reading them. -/
theorem peek_eq_read_abcDe :
    ∃ bytes c', peek abcDeState (Cursor.start 0) 4 6 =
        some (Cursor.start 0, bytes) ∧
      read abcDeState (Cursor.start 0) 4 6 = some (c', bytes) :=
  peek_eq_read sizesFit_abcDe isRing_abcDe (by decide)
    (.start (Set.mem_singleton _)) 4

/-! ## A ring of `2 ^ 64` bytes -/

/-- What `n + 1` buffers see: each of them all of one storage of 64 GiB. -/
def wideViews (n : ℕ) : List (Option Window) :=
  List.replicate (n + 1) (some ⟨some 0, 0, 2 ^ 36⟩)

/-- The buffers `0`, …, `n` are a ring, and each sees all of one storage. -/
structure WideRing (n : ℕ) (s : State) : Prop where
  reached : Transition.ReachableVia (perform (filled 0))
    (fun s a => RefsFit s ∧ KeepsRings s a) {init} s
  ring : s.links.IsRing 0 (List.range' 1 n)
  views : s.sharing.windows = wideViews n
  caps : s.caps 0 = some (2 ^ 36)

section WideRing

variable {s : State} {b : Buffer} {n i : ℕ}

theorem window?_wideViews (hviews : s.sharing.windows = wideViews n) :
    s.sharing.window? i =
      if i ≤ n then some ⟨some 0, 0, 2 ^ 36⟩ else none := by
  rw [Sharing.window?, hviews, wideViews, List.getElem?_replicate]
  simp only [Nat.lt_succ_iff]
  split_ifs <;> rfl

theorem window_of_wideViews (hviews : s.sharing.windows = wideViews n)
    (hb : s.buf? i = some b) : b.window = ⟨some 0, 0, 2 ^ 36⟩ := by
  have hw := window?_of_buf? hb
  rw [window?_wideViews hviews, Option.ite_none_right_eq_some] at hw
  exact (Option.some.inj hw.2).symm

theorem length_bufs_wideViews (hviews : s.sharing.windows = wideViews n) :
    s.bufs.length = n + 1 := by
  have hlen := congrArg List.length hviews
  rwa [State.sharing, List.length_map, wideViews, List.length_replicate]
    at hlen

/-- There are no more references than buffers. -/
theorem refsFit_wideViews (hviews : s.sharing.windows = wideViews n)
    (hn : n + 1 < UInt32.size) : RefsFit s := by
  rw [← length_bufs_wideViews hviews] at hn
  exact fun p => List.countP_le_length.trans_lt hn

/-- A buffer on storage of its own that sees `length` bytes of it. -/
def wideBuffer (length : ℕ) : State where
  phys := [{ refCount := 1, capacity := 2 ^ 36, bytes := filled 0 0 }]
  bufs := [some ⟨some 0, 0, length, 0, 0⟩]
  cursors := []

/-- The first buffer is created and extended over its storage. -/
theorem wideRing_zero : WideRing 0 (wideBuffer (2 ^ 36)) := by
  have hfits : ∀ s : State, s.bufs.length ≤ 1 → RefsFit s := fun s hs p =>
    List.countP_le_length.trans_lt (hs.trans_lt (by decide))
  refine ⟨?_, Links.isRing_nil.mpr ⟨rfl, rfl⟩, rfl, rfl⟩
  have hcreated : Transition.ReachableVia (perform (filled 0))
      (fun s a => RefsFit s ∧ KeepsRings s a) {init} (wideBuffer 0) :=
    .next (a := .create (2 ^ 36)) (.start (Set.mem_singleton init))
      ⟨hfits init (by decide), trivial⟩ rfl
  have hroom : 2 ^ 36 ≤ tailroom (wideBuffer 0) ⟨some 0, 0, 0, 0, 0⟩ := by
    decide
  have happend : perform (filled 0) (wideBuffer 0) (.append 0 (2 ^ 36)) =
      some (wideBuffer (addSize 0 (2 ^ 36))) := by
    have hbuf : (wideBuffer 0).buf? 0 = some ⟨some 0, 0, 0, 0, 0⟩ := rfl
    rw [perform, append, hbuf, Option.bind_eq_bind, Option.bind_some,
      if_pos hroom]
    rfl
  have hsum : addSize 0 (2 ^ 36) = 2 ^ 36 := by decide
  rw [hsum] at happend
  have hkeeps : KeepsRings (wideBuffer 0) (.append 0 (2 ^ 36)) := trivial
  exact .next hcreated ⟨hfits (wideBuffer 0) (by decide), hkeeps⟩ happend

/-- One more copy, put at the end of the ring. -/
theorem WideRing.exists_succ (h : WideRing n s) (hn : n + 2 < UInt32.size) :
    ∃ s', WideRing (n + 1) s' := by
  have hkeeps : ∀ {t : State}, Transition.ReachableVia (perform (filled 0))
      (fun s a => RefsFit s ∧ KeepsRings s a) {init} t → t.links.Rings :=
    fun ht => reachable_rings (ht.mono fun _ _ ha => ha.2)
  obtain ⟨b, hb⟩ := live_iff.mp (h.ring.live List.mem_cons_self)
  have hlen := length_bufs_wideViews h.views
  obtain ⟨s₁, h₁⟩ : ∃ s₁, perform (filled 0) s (.copyConstruct 0) = some s₁ :=
    ⟨_, by rw [perform, copyConstruct, hb]; rfl⟩
  have hlinks₁ := links_copyConstruct h₁
  have hcopies : KeepsRings s (.copyConstruct 0) := trivial
  have hreach₁ := Transition.ReachableVia.next h.reached
    ⟨refsFit_wideViews h.views (by omega), hcopies⟩ h₁
  have hcopy : newBuffer (retainPhysical s b.physical) b.physical b.data
      b.length = s₁ := by
    rw [perform, copyConstruct, hb] at h₁
    exact Option.some.inj h₁
  have hviews₁ : s₁.sharing.windows = wideViews (n + 1) := by
    have hkept : (s.sharing.update b.physical
        PhysicalBuffer.retain).windows = s.sharing.windows := by
      cases b.physical <;> rfl
    have hw : (⟨b.physical, b.data, b.length⟩ : Window) =
        ⟨some 0, 0, 2 ^ 36⟩ := window_of_wideViews h.views hb
    rw [← hcopy, sharing_newBuffer, sharing_retainPhysical, Sharing.push,
      hkept, hw, h.views, wideViews, wideViews, ← List.replicate_succ']
  have hring₁ : s₁.links.IsRing 0 (List.range' 1 n) := by
    rw [hlinks₁]
    exact h.ring.link_fresh (not_live_length s)
  have hself₁ : s₁.links.IsRing (n + 1) [] := by
    rw [hlinks₁, hlen]
    exact Links.isRing_link_self _ _
  have hapart : KeepsRings s₁ (.appendChain 0 (n + 1)) := by
    intro l hl
    obtain rfl := hl.unique hring₁
    simp [Nat.add_comm]
  have hrings₁ := hkeeps hreach₁
  obtain ⟨s₂, h₂⟩ : ∃ s₂, perform (filled 0) s₁ (.appendChain 0 (n + 1)) =
      some s₂ := exists_perform hrings₁ hapart
    ⟨hring₁.live List.mem_cons_self, hself₁.live List.mem_cons_self⟩
  have hsharing₂ : s₂.sharing = s₁.sharing := sharing_appendChain h₂
  refine ⟨s₂, .next hreach₁ ⟨refsFit_wideViews hviews₁ hn, hapart⟩ h₂, ?_,
    hsharing₂ ▸ hviews₁, ?_⟩
  · have hsplice := (step_rings hrings₁ hapart h₂).2.1 _ _ hring₁ hself₁
    rw [List.range'_1_concat, Nat.add_comm 1 n]
    exact hsplice
  · have hphys : s₂.phys = s₁.phys := congrArg Sharing.phys hsharing₂
    rw [State.caps, hphys, ← hcopy]
    exact (congrFun (caps_retainPhysical s b.physical) 0).trans h.caps

theorem exists_wideRing (hn : n + 1 < UInt32.size) : ∃ s, WideRing n s := by
  induction n with
  | zero => exact ⟨_, wideRing_zero⟩
  | succ n ih =>
      obtain ⟨s, hs⟩ := ih (Nat.lt_of_succ_lt hn)
      exact hs.exists_succ hn

theorem WideRing.size_eq (h : WideRing n s) (hi : i ≤ n) :
    size s i = 2 ^ 36 := by
  have hw := window?_sharing s i
  rw [window?_wideViews h.views, if_pos hi] at hw
  obtain ⟨b, hb, hwindow⟩ := Option.map_eq_some_iff.mp hw.symm
  rw [size_of_buf? hb]
  exact congrArg Window.length hwindow

theorem WideRing.sizesFit (h : WideRing n s) : SizesFit s := by
  intro i
  cases hb : s.buf? i with
  | none =>
      rw [size, hb]
      exact Nat.pow_pos Nat.zero_lt_two
  | some b =>
      rw [size_of_buf? hb]
      have hlen : b.length = 2 ^ 36 :=
        congrArg Window.length (window_of_wideViews h.views hb)
      rw [hlen]
      decide

theorem WideRing.length_ringBytes (h : WideRing n s) :
    (ringBytes s 0 (List.range' 1 n)).length = (n + 1) * 2 ^ 36 := by
  have hsizes : ∀ i ∈ 0 :: List.range' 1 n,
      (content s i).length = 2 ^ 36 := by
    intro i hi
    rw [length_content]
    apply h.size_eq
    rw [List.mem_cons, List.mem_range'_1] at hi
    omega
  rw [List.length_flatMap, List.map_congr_left hsizes, List.map_const',
    List.sum_replicate_nat, List.length_cons, List.length_range']

/-- With `2 ^ 28` buffers of 64 GiB the total is a multiple of `2 ^ 64`. -/
theorem WideRing.totalLength_eq_zero (h : WideRing (2 ^ 28 - 1) s) {fuel : ℕ}
    (hfuel : 2 ^ 28 ≤ fuel) :
    totalLength s (Cursor.start 0) fuel = some 0 := by
  have hlen : (List.range' 1 (2 ^ 28 - 1)).length + 1 ≤ fuel := by
    rw [List.length_range']
    exact hfuel
  have hwhole : ((2 ^ 28 - 1 + 1) * 2 ^ 36) % sizeModulus = 0 := by decide
  rw [totalLength_eq h.sizesFit (stands_start h.ring) hlen, unread_start,
    h.length_ringBytes, hwhole]

end WideRing

/-- `TotalLength()` of it is 0, and `Read(1)` reads a byte. -/
theorem exists_read_past_total :
    ¬ ∀ uninit s head l fuel n c bytes total,
      Transition.Reachable (perform uninit) {init} s →
      s.links.IsRing head l → l.length + 2 ≤ fuel →
      totalLength s (Cursor.start head) fuel = some total →
      read s (Cursor.start head) n fuel = some (c, bytes) →
      bytes.length = min n total := by
  intro hall
  obtain ⟨s, hs⟩ := exists_wideRing (n := 2 ^ 28 - 1) (by decide)
  have hfuel : (List.range' 1 (2 ^ 28 - 1)).length + 2 ≤ 2 ^ 28 + 1 := by
    rw [List.length_range']
    decide
  obtain ⟨c, -, hread, -⟩ :=
    read_spec hs.sizesFit (stands_start hs.ring) hfuel 1
  have hlength := hall _ s 0 _ _ 1 c _ 0 hs.reached.reachable hs.ring hfuel
    (hs.totalLength_eq_zero (by decide)) hread
  rw [unread_start, List.length_take, hs.length_ringBytes] at hlength
  exact absurd hlength (by decide)

end Memory
end Yacul
