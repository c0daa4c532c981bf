import Yacul.Memory.CursorReads

/-!
# The end of a ring

A cursor is at the end in the last node, with nothing left of it.  When it has
used up a node it goes on to the next one only, so a cursor behind the last
byte is in the last node unless two empty nodes end the ring.  Writing moves a
cursor as skipping does: it changes the storage and not the ring.
-/

namespace Yacul
namespace Memory

/-- `AtEnd()` is true exactly when `TotalLength()` is 0. -/
def EndAgrees (s : State) (fuel : ℕ) (c : Cursor) : Prop :=
  ∃ done total, atEnd s c = some done ∧ totalLength s c fuel = some total ∧
    (done = true ↔ total = 0)

/-- The ring has fewer than `2 ^ 64` bytes and does not end with two empty
nodes. -/
def EndVisible (s : State) (head : ℕ) (l : List ℕ) : Prop :=
  (ringBytes s head l).length < sizeModulus ∧
    ¬ [0, 0] <:+ (head :: l).map (size s)

/-- A request to a `BufferRWCursor`. -/
inductive WriteRequest
  | write (src : ByteBuffer)
  | skip (n : ℕ)
  | reset
deriving DecidableEq, Repr

def WriteRequest.serve (uninit : ℕ → ℕ → UInt8) (fuel : ℕ) :
    State × Cursor → WriteRequest → Option (State × Cursor)
  | (s, c), .write src => Memory.write uninit s c src fuel
  | (s, c), .skip n => (Memory.skip s c n fuel).map fun c => (s, c)
  | (s, c), .reset => some (s, Cursor.start c.head)

/-- The states and cursors reached by `Write`, `Skip` and `Reset`. -/
abbrev WriterReachable (uninit : ℕ → ℕ → UInt8) (s : State)
    (fuel head : ℕ) : State × Cursor → Prop :=
  Transition.Reachable (WriteRequest.serve uninit fuel)
    {(s, Cursor.start head)}

section End

variable {s s' : State} {c c' : Cursor} {head : ℕ} {l later : List ℕ}
  {fuel n pos : ℕ} {uninit : ℕ → ℕ → UInt8}

/-! ## Sizes and successors -/

/-- What the position of a cursor depends on. -/
def State.shape (s : State) (i : ℕ) : Option (ℕ × ℕ) :=
  (s.buf? i).map fun b => (b.length, b.next)

theorem shape_of_bufs (h : s'.bufs = s.bufs) : s'.shape = s.shape := by
  funext i
  simp only [State.shape, State.buf?, h]

theorem shape_cowDetach {i : ℕ} (h : cowDetach uninit s i = some s') :
    s'.shape = s.shape := by
  simp only [cowDetach, Option.bind_eq_bind, Option.bind_eq_some_iff] at h
  obtain ⟨b, hb, h⟩ := h
  split_ifs at h
  · obtain ⟨-, -, p, -, hbufs⟩ := replaceStorage_eq_some hb h
    funext j
    simp only [State.shape, hbufs]
    split_ifs with hj
    · rw [hj, hb]
      rfl
    · rfl
  · rw [Option.some.inj h]

theorem shape_storeAt (s : State) (b : Buffer) (pos : ℕ) (src : ℕ → UInt8)
    (len : ℕ) : (s.storeAt b pos src len).shape = s.shape := by
  apply shape_of_bufs
  unfold State.storeAt
  cases b.physical <;> rfl

/-- The buffer of a node, with the same size and successor. -/
theorem exists_of_shape (h : s'.shape = s.shape) {i : ℕ} {b : Buffer}
    (hb : s.buf? i = some b) :
    ∃ b', s'.buf? i = some b' ∧ b'.length = b.length ∧ b'.next = b.next := by
  have hi := congrFun h i
  simp only [State.shape, hb, Option.map_some,
    Option.map_eq_some_iff, Prod.mk.injEq] at hi
  obtain ⟨b', hb', hlen, hnext⟩ := hi
  exact ⟨b', hb', hlen, hnext⟩

theorem none_of_shape (h : s'.shape = s.shape) {i : ℕ}
    (hb : s.buf? i = none) : s'.buf? i = none := by
  have hi := congrFun h i
  simpa [State.shape, hb] using hi

theorem atEnd_congr (h : s'.shape = s.shape) (c : Cursor) :
    atEnd s' c = atEnd s c := by
  cases hb : s.buf? c.current with
  | none => simp [atEnd, hb, none_of_shape h hb]
  | some b =>
      obtain ⟨b', hb', hlen, hnext⟩ := exists_of_shape h hb
      simp [atEnd, hb, hb', hlen, hnext]

theorem advanceIfExhausted_congr (h : s'.shape = s.shape) (c : Cursor) :
    advanceIfExhausted s' c = advanceIfExhausted s c := by
  cases hb : s.buf? c.current with
  | none => simp [advanceIfExhausted, hb, none_of_shape h hb]
  | some b =>
      obtain ⟨b', hb', hlen, hnext⟩ := exists_of_shape h hb
      simp [advanceIfExhausted, hb, hb', hlen, hnext]

theorem chainFrom_congr (h : s'.shape = s.shape) (head cur fuel : ℕ) :
    chainFrom s' head cur fuel = chainFrom s head cur fuel := by
  induction fuel generalizing cur with
  | zero => rfl
  | succ fuel ih =>
      cases hb : s.buf? cur with
      | none => simp [chainFrom, hb, none_of_shape h hb]
      | some b =>
          obtain ⟨b', hb', -, hnext⟩ := exists_of_shape h hb
          simp [chainFrom, hb, hb', hnext, ih]

theorem size_congr (h : s'.shape = s.shape) : size s' = size s := by
  funext i
  cases hb : s.buf? i with
  | none => simp [size, hb, none_of_shape h hb]
  | some b =>
      obtain ⟨b', hb', hlen, -⟩ := exists_of_shape h hb
      simp [size, hb, hb', hlen]

theorem skip_congr (h : s'.shape = s.shape) (c : Cursor) (n fuel : ℕ) :
    skip s' c n fuel = skip s c n fuel := by
  induction fuel generalizing c n with
  | zero => rfl
  | succ fuel ih =>
      cases n with
      | zero => rfl
      | succ n =>
          cases hb : s.buf? c.current with
          | none => simp [skip, atEnd, hb, none_of_shape h hb]
          | some b =>
              obtain ⟨b', hb', hlen, -⟩ := exists_of_shape h hb
              simp only [skip, atEnd_congr h, advanceIfExhausted_congr h, hb,
                hb', hlen, ih, Option.bind_eq_bind, Option.bind_some]

theorem totalLength_congr (h : s'.shape = s.shape) (c : Cursor)
    (fuel : ℕ) : totalLength s' c fuel = totalLength s c fuel := by
  have hsize : ∀ i, ((s'.buf? i).map Buffer.length).getD 0 =
      ((s.buf? i).map Buffer.length).getD 0 := congrFun (size_congr h)
  cases hb : s.buf? c.current with
  | none => simp [totalLength, hb, none_of_shape h hb]
  | some b =>
      obtain ⟨b', hb', hlen, hnext⟩ := exists_of_shape h hb
      simp only [totalLength, hb, hb', hlen, hnext, chainFrom_congr h, hsize,
        Option.bind_eq_bind, Option.bind_some]

theorem endAgrees_congr (h : s'.shape = s.shape) :
    EndAgrees s' fuel c ↔ EndAgrees s fuel c := by
  rw [EndAgrees, EndAgrees, atEnd_congr h, totalLength_congr h]

/-- `Write` leaves the ring alone and moves the cursor as `Skip` does. -/
theorem skip_of_write {src : ByteBuffer}
    (h : write uninit s c src fuel = some (s', c')) :
    skip s c src.length fuel = some c' ∧ s'.shape = s.shape := by
  induction fuel generalizing s c src with
  | zero => cases h
  | succ fuel ih =>
      cases src with
      | nil =>
          simp only [write, Option.some.injEq, Prod.mk.injEq] at h
          obtain ⟨rfl, rfl⟩ := h
          exact ⟨rfl, rfl⟩
      | cons byte src =>
          simp only [write, Option.bind_eq_bind,
            Option.bind_eq_some_iff] at h
          obtain ⟨done, hdone, h⟩ := h
          split_ifs at h with hend
          · simp only [Option.some.injEq, Prod.mk.injEq] at h
            obtain ⟨rfl, rfl⟩ := h
            refine ⟨?_, rfl⟩
            simp [skip, hdone, hend]
          · simp only [Option.bind_eq_some_iff] at h
            obtain ⟨s₁, h₁, b, hb, c₁, hadv, hwrite⟩ := h
            have hshape := (shape_storeAt s₁ b c.offset
              (fun k => (byte :: src).getD k 0)
              (min (subSize b.length c.offset)
                (byte :: src).length)).trans (shape_cowDetach h₁)
            obtain ⟨hskip, hlast⟩ := ih hwrite
            refine ⟨?_, hlast.trans hshape⟩
            rw [skip_congr hshape, List.length_drop] at hskip
            rw [advanceIfExhausted_congr hshape] at hadv
            obtain ⟨b₀, hb₀, hlen, -⟩ :=
              exists_of_shape (shape_cowDetach h₁).symm hb
            rw [List.length_cons] at hskip hadv
            simp [skip, hdone, hend, hb₀, hlen, hadv, hskip]

/-! ## Behind the last byte -/

/-- After a move over bytes that are there, the cursor is inside its node or
the node before it is not empty. -/
theorem skip_arrives (hs : SizesFit s) (hc : Stands s c later)
    (hfuel : later.length + 2 ≤ fuel) (hn : 0 < n)
    (hle : n ≤ (unread s c later).length) :
    ∃ c' later', skip s c n fuel = some c' ∧ Moves s c c' later later' n ∧
      (0 < c'.offset ∨ ∃ y, 0 < size s y ∧
        (y :: c'.current :: later') <:+ (c.current :: later)) := by
  induction fuel generalizing c later n with
  | zero => omega
  | succ fuel ih =>
      have hmoving : ¬ Stuck s c later n := by
        rintro (hzero | hend)
        · omega
        · rw [unread_of_atEnd hend, List.length_nil] at hle
          omega
      obtain ⟨c₁, later₁, chunk, hturn⟩ := exists_turn hs hc hmoving
      have hleft : n - chunk ≤ (unread s c₁ later₁).length := by
        rw [hturn.moves.unread, List.length_drop]
        omega
      rcases Nat.eq_zero_or_pos (n - chunk) with hdone | hmore
      · obtain rfl : n = chunk := by
          have := hturn.le
          omega
        obtain ⟨fuel, rfl⟩ : ∃ k, fuel = k + 1 :=
          Nat.exists_eq_add_of_le' (by omega)
        refine ⟨c₁, later₁, ?_, hturn.moves, ?_⟩
        · rw [hturn.skip, hdone, skip]
        · rcases hturn.arrived hn with hoff | ⟨hsize, hlater⟩
          · exact Or.inl hoff
          · exact Or.inr ⟨c.current, hsize, hlater ▸ List.suffix_rfl⟩
      · have hlen : later₁.length + 1 = later.length := by
          refine hturn.next.resolve_left ?_
          rintro (hzero | hend)
          · omega
          · rw [unread_of_atEnd hend, List.length_nil] at hleft
            omega
        obtain ⟨c', later', hskip, hmoves, harrived⟩ :=
          ih hturn.moves.stands (by omega) hmore hleft
        have hsum : chunk + (n - chunk) = n := Nat.add_sub_of_le hturn.le
        refine ⟨c', later', (hturn.skip fuel).trans hskip,
          hsum ▸ hturn.moves.trans hmoves, ?_⟩
        rcases harrived with hoff | ⟨y, hy, hsuffix⟩
        · exact Or.inl hoff
        · exact Or.inr ⟨y, hy, hsuffix.trans hturn.moves.suffix⟩

/-- Two ends of one list are the same if they have the same length. -/
theorem suffix_unique {α : Type*} {u v w : List α} (hu : u <:+ w)
    (hv : v <:+ w) (hlen : u.length = v.length) : u = v :=
  (List.suffix_of_suffix_length_le hu hv hlen.le).eq_of_length hlen

/-- If two empty nodes end the ring, the last node is not reached by moving
over all of it. -/
theorem later_ne_nil (hend : [0, 0] <:+ (head :: l).map (size s))
    (hc : Placed s head l c later pos)
    (harrived : 0 < c.offset ∨ ∃ y, 0 < size s y ∧
      (y :: c.current :: later) <:+ (head :: l)) : later ≠ [] := by
  rintro rfl
  rcases harrived with hoff | ⟨y, hy, hsuffix⟩
  · have hlast : [0] <:+ (head :: l).map (size s) :=
      (List.suffix_cons 0 [0]).trans hend
    have heq := suffix_unique hlast (hc.suffix.map (size s)) rfl
    have hzero : 0 = size s c.current := by simpa using heq
    have hle := hc.stands.offset_le
    omega
  · have heq := suffix_unique hend (hsuffix.map (size s)) rfl
    have hzero : 0 = size s y := by simpa using (List.cons.inj heq).1
    omega

/-- Without an end that is visible a cursor gets where the two tests differ. -/
theorem exists_not_endAgrees (hs : SizesFit s)
    (hring : s.links.IsRing head l) (hfuel : l.length + 2 ≤ fuel)
    (h : ¬ EndVisible s head l) :
    ∃ n c, skip s (Cursor.start head) n fuel = some c ∧
      ¬ EndAgrees s fuel c := by
  have hstart := placed_start hring
  -- Where nothing is left to count, the cursor would have to be at the end.
  have hdiffer : ∀ c later pos, Placed s head l c later pos →
      (unread s c later).length % sizeModulus = 0 →
      ¬ (c.offset = size s c.current ∧ later = []) →
      ¬ EndAgrees s fuel c := by
    rintro c later pos hc hzero hnot ⟨done, total, hdone, htotal, hagree⟩
    have hlen := hc.length_le
    rw [totalLength_eq hs hc.stands (by omega), hzero] at htotal
    rw [atEnd_eq hc.stands.ahead, decide_eq_false hnot] at hdone
    obtain rfl := Option.some.inj hdone
    exact absurd (hagree.mpr (Option.some.inj htotal).symm) (by simp)
  rw [EndVisible, not_and_or, not_lt, not_not] at h
  rcases h with hlarge | hempty
  · obtain ⟨c, later, -, hskip, hmoves⟩ := read_spec hs hstart.stands hfuel
      ((ringBytes s head l).length - sizeModulus)
    have hunread : (unread s c later).length = sizeModulus := by
      rw [hmoves.unread, unread_start, List.length_drop]
      exact Nat.sub_sub_self hlarge
    refine ⟨_, c, hskip, hdiffer c later _ (hstart.moves hmoves) ?_ ?_⟩
    · rw [hunread, Nat.mod_self]
    · intro hend
      rw [unread_of_atEnd hend] at hunread
      cases hunread
  · rcases Nat.eq_zero_or_pos (ringBytes s head l).length with hnone | hsome
    · obtain ⟨fuel, rfl⟩ : ∃ k, fuel = k + 1 :=
        Nat.exists_eq_add_of_le' (by omega)
      refine ⟨0, _, by rw [skip], hdiffer _ l 0 hstart ?_ ?_⟩
      · rw [unread_start, hnone]
        rfl
      · rintro ⟨-, rfl⟩
        have hlen := hempty.length_le
        simp at hlen
    · obtain ⟨c, later, hskip, hmoves, harrived⟩ :=
        skip_arrives hs hstart.stands hfuel hsome (by rw [unread_start])
      have hplaced := hstart.moves hmoves
      refine ⟨_, c, hskip, hdiffer c later _ hplaced ?_ ?_⟩
      · rw [hmoves.unread, unread_start, List.drop_length]
        rfl
      · exact fun hend => later_ne_nil hempty hplaced harrived hend.2

/-- With a visible end the two tests agree in every place. -/
theorem Placed.endAgrees (hs : SizesFit s) (hfuel : l.length + 2 ≤ fuel)
    (h : EndVisible s head l) (hc : Placed s head l c later pos) :
    EndAgrees s fuel c := by
  have hlen := hc.length_le
  have htotal : totalLength s c fuel = _ :=
    hc.totalLength_eq hs h.1 (by omega)
  have hunread : (Memory.unread s c later).length =
      (ringBytes s head l).length - pos := by
    rw [hc.unread, List.length_drop]
  refine ⟨_, _, atEnd_eq hc.stands.ahead, htotal, ?_⟩
  rw [← hunread, List.length_eq_zero_iff, decide_eq_true_iff]
  constructor
  · exact unread_of_atEnd
  · intro hnil
    rw [Memory.unread, List.append_eq_nil_iff, List.drop_eq_nil_iff,
      length_content, List.flatMap_eq_nil_iff] at hnil
    obtain ⟨hoff, hlater⟩ := hnil
    have hused : c.offset = size s c.current :=
      le_antisymm hc.stands.offset_le hoff
    refine ⟨hused, by_contra fun hne => h.2 ?_⟩
    -- The node and all later ones are empty.
    have hzero := (hc.stands.settled hused).resolve_left hne
    have hsizes : ∀ i ∈ c.current :: later, size s i = 0 := by
      intro i hi
      rcases List.mem_cons.mp hi with rfl | hi
      · exact hzero
      · rw [← length_content, hlater i hi, List.length_nil]
    obtain ⟨k, hk⟩ : ∃ k, later.length = k + 1 :=
      Nat.exists_eq_add_of_le' (List.length_pos_iff.mpr hne)
    have hall : (c.current :: later).map (size s) =
        List.replicate k 0 ++ [0, 0] := by
      have hpair : ([0, 0] : List ℕ) = List.replicate 2 0 := rfl
      rw [hpair, List.replicate_append_replicate, List.eq_replicate_iff]
      refine ⟨by simp [hk], ?_⟩
      intro x hx
      obtain ⟨i, hi, rfl⟩ := List.mem_map.mp hx
      exact hsizes i hi
    have hempty : [0, 0] <:+ (c.current :: later).map (size s) :=
      hall ▸ List.suffix_append _ _
    exact hempty.trans (hc.suffix.map (size s))

/-! ## All reachable cursors -/

/-- The cursors of a `BufferRWCursor` are those of a `BufferCursor`, on a ring
of the same shape. -/
theorem WriterReachable.placed (hs : SizesFit s)
    (hring : s.links.IsRing head l) (hfuel : l.length + 2 ≤ fuel)
    {sc : State × Cursor} (h : WriterReachable uninit s fuel head sc) :
    sc.1.shape = s.shape ∧ ∃ later pos, Placed s head l sc.2 later pos := by
  refine Transition.ReachableVia.invariant
    (I := fun sc => sc.1.shape = s.shape ∧
      ∃ later pos, Placed s head l sc.2 later pos) ?_ ?_ h
  · rintro sc rfl
    exact ⟨rfl, l, 0, placed_start hring⟩
  · rintro ⟨s₁, c₁⟩ r ⟨s₂, c₂⟩ ⟨hshape, later, pos, hplaced⟩ - hstep
    -- A move by `n` bytes, made on a ring of the same shape.
    have hmove : ∀ n, skip s₁ c₁ n fuel = some c₂ →
        ∃ later pos, Placed s head l c₂ later pos := by
      intro n hskip
      rw [skip_congr hshape] at hskip
      obtain ⟨c', later', hserve, hplaced'⟩ :=
        hplaced.serve hs hring hfuel (.skip n)
      rw [Cursor.serve, hskip] at hserve
      obtain rfl := (Prod.mk.inj (Option.some.inj hserve)).1
      exact ⟨later', _, hplaced'⟩
    cases r with
    | write src =>
        obtain ⟨hskip, hshape'⟩ := skip_of_write hstep
        exact ⟨hshape'.trans hshape, hmove _ hskip⟩
    | skip n =>
        obtain ⟨c', hskip, heq⟩ := Option.map_eq_some_iff.mp hstep
        obtain ⟨rfl, rfl⟩ := Prod.mk.inj heq
        exact ⟨hshape, hmove n hskip⟩
    | reset =>
        obtain ⟨rfl, rfl⟩ := Prod.mk.inj (Option.some.inj hstep)
        refine ⟨hshape, l, 0, ?_⟩
        have hstart := placed_start hring
        rw [← hplaced.head_eq] at hstart ⊢
        exact hstart

/-- `AtEnd()` is true exactly when `TotalLength()` is 0, for every cursor that
reads or writes the ring, if and only if the end of the ring is visible. -/
theorem endAgrees_iff (uninit : ℕ → ℕ → UInt8) (hs : SizesFit s)
    (hring : s.links.IsRing head l) (hfuel : l.length + 2 ≤ fuel) :
    ((∀ c, CursorReachable s fuel head c → EndAgrees s fuel c) ↔
        EndVisible s head l) ∧
      ((∀ s' c, WriterReachable uninit s fuel head (s', c) →
          EndAgrees s' fuel c) ↔ EndVisible s head l) := by
  refine ⟨⟨fun hall => ?_, fun hend c hc => ?_⟩, fun hall => ?_,
    fun hend s' c hc => ?_⟩
  · by_contra hnot
    obtain ⟨n, c, hskip, hdiffer⟩ :=
      exists_not_endAgrees hs hring hfuel hnot
    refine hdiffer (hall c (.next (a := .skip n)
      (.start (Set.mem_singleton _)) trivial ?_))
    simp [Cursor.serve, hskip]
  · obtain ⟨later, pos, hplaced⟩ := hc.placed hs hring hfuel
    exact hplaced.endAgrees hs hfuel hend
  · by_contra hnot
    obtain ⟨n, c, hskip, hdiffer⟩ :=
      exists_not_endAgrees hs hring hfuel hnot
    refine hdiffer (hall s c (.next (a := .skip n)
      (.start (Set.mem_singleton _)) trivial ?_))
    simp [WriteRequest.serve, hskip]
  · obtain ⟨hshape, later, pos, hplaced⟩ := hc.placed hs hring hfuel
    exact (endAgrees_congr hshape).mpr (hplaced.endAgrees hs hfuel hend)

end End

/-! ## Two empty nodes -/

/-- The ring of `"abc"` and two empty buffers. -/
def abcEmptyEmpty : List Action :=
  [Action.copyFrom [97, 98, 99], Action.default, Action.default,
    Action.appendChain 0 1, Action.appendChain 0 2]

theorem abcEmptyEmpty_runs :
    (Transition.run (perform (filled 0)) init abcEmptyEmpty).isSome = true := by
  decide

/-- The ring of `abcDe` does not end with two empty nodes. -/
theorem endAgrees_iff_abcDe :
    EndAgrees abcDeState 4 (Cursor.start 0) ∧
      EndVisible abcDeState 0 [1, 2] := by
  have hend : EndVisible abcDeState 0 [1, 2] := ⟨by decide, by decide⟩
  have hall := (endAgrees_iff (filled 0) sizesFit_abcDe isRing_abcDe
    (show [1, 2].length + 2 ≤ 4 by decide)).1.mpr hend
  exact ⟨hall _ (.start (Set.mem_singleton _)), hend⟩

/-- After `Read(3)` of `"abc"` and two empty buffers nothing is left, and the
cursor is not at the end. -/
theorem exists_end_unseen :
    ¬ ∀ uninit s head l fuel c,
      Transition.Reachable (perform uninit) {init} s →
      s.links.IsRing head l → l.length + 2 ≤ fuel →
      CursorReachable s fuel head c → EndAgrees s fuel c := by
  intro hall
  have hreach := Transition.reachable_get_run (Set.mem_singleton init)
    abcEmptyEmpty_runs
  obtain ⟨done, total, hdone, htotal, hagree⟩ :=
    hall _ _ 0 [1, 2] 4 ⟨0, 1, 0⟩ hreach
      ⟨by decide, ⟨rfl, rfl⟩, ⟨rfl, rfl⟩, rfl, rfl⟩ (by decide)
      (.next (a := .read 3) (.start (Set.mem_singleton _)) trivial
        (by decide))
  obtain rfl : false = done := Option.some.inj hdone
  obtain rfl : 0 = total := Option.some.inj htotal
  exact absurd (hagree.mpr rfl) (by decide)

end Memory
end Yacul
