import Yacul.Memory.BufferSlices
import Yacul.Support.Reader
import Mathlib.Algebra.BigOperators.Group.List.Basic

/-!
# Cursors read the concatenation of a ring

A cursor stands in a node of a ring, and the successors lead from there
through the later nodes back to the head.  What it has not read is the rest of
its node followed by the later nodes, and this list is all that `Read`, `Skip`,
`Peek` and `TotalLength` depend on: a cursor is a sequential reader of the
concatenation of the nodes.
-/

namespace Yacul
namespace Memory

/-! ## The remaining operations -/

/-- `TotalLength`. -/
def totalLength (s : State) (c : Cursor) (fuel : ℕ) : Option ℕ := do
  let b ← s.buf? c.current
  let nodes ← chainFrom s c.head b.next fuel
  some (nodes.foldl (fun remaining i =>
    addSize remaining (((s.buf? i).map Buffer.length).getD 0))
    (subSize b.length c.offset))

/-- The loop of `Peek`; the bytes come first to last. -/
def peekFrom (s : State) (head : ℕ) : ℕ → ℕ → ℕ → ℕ → Option ByteBuffer
  | _, _, _, 0 => none
  | _, _, 0, _ + 1 => some []
  | cur, off, len, fuel + 1 => do
      let b ← s.buf? cur
      let available := subSize b.length off
      if available = 0 then
        -- The chunk is still computed from the node that is left: nothing.
        if b.next = head then some [] else peekFrom s head b.next 0 len fuel
      else
        let chunk := min available len
        let bytes := (List.range chunk).map fun k => s.view b (off + k)
        let rest ← peekFrom s head cur (off + chunk) (len - chunk) fuel
        some (bytes ++ rest)

/-- `Peek`, with the cursor afterwards. -/
def peek (s : State) (c : Cursor) (len fuel : ℕ) :
    Option (Cursor × ByteBuffer) :=
  (peekFrom s c.head c.current c.offset len fuel).map fun bytes => (c, bytes)

/-- `ToString()` of the node `i`. -/
def content (s : State) (i : ℕ) : ByteBuffer :=
  ((s.buf? i).map (toBytes s)).getD []

/-- `ToVector`. -/
def toVector (s : State) (i fuel : ℕ) : Option ByteBuffer :=
  (chainOf s i fuel).map fun nodes => nodes.flatMap (content s)

/-- A new cursor, and what `Reset` makes of one. -/
abbrev Cursor.start (head : ℕ) : Cursor := { head := head, current := head }

/-- A request to a `BufferCursor`, with what it reads. -/
def Cursor.serve (s : State) (fuel : ℕ) (c : Cursor) :
    ReadRequest → Option (Cursor × ByteBuffer)
  | .read n => read s c n fuel
  | .skip n => (skip s c n fuel).map fun c => (c, [])
  | .reset => some (Cursor.start c.head, [])

/-! ## Where a cursor stands -/

/-- `size()` of the node `i`. -/
def size (s : State) (i : ℕ) : ℕ :=
  ((s.buf? i).map Buffer.length).getD 0

/-- The sizes are of type `size_t`. -/
def SizesFit (s : State) : Prop := ∀ i, size s i < sizeModulus

/-- The successors lead from `cur` through the nodes of the list to `head`. -/
def Ahead (s : State) (head : ℕ) : ℕ → List ℕ → Prop
  | cur, [] => s.links.next cur = some head
  | cur, x :: l => s.links.next cur = some x ∧ x ≠ head ∧ Ahead s head x l

/-- The cursor stands in its node, and has left a node it has used up unless
the node is empty or the last one. -/
structure Stands (s : State) (c : Cursor) (later : List ℕ) : Prop where
  ahead : Ahead s c.head c.current later
  offset_le : c.offset ≤ size s c.current
  settled : c.offset = size s c.current →
    later = [] ∨ size s c.current = 0

/-- What the cursor has not read. -/
def unread (s : State) (c : Cursor) (later : List ℕ) : ByteBuffer :=
  (content s c.current).drop c.offset ++ later.flatMap (content s)

section Cursors

variable {s : State} {c c' : Cursor} {b : Buffer} {head cur x : ℕ}
  {l later : List ℕ} {fuel n : ℕ}

theorem size_of_buf? {i : ℕ} (hb : s.buf? i = some b) :
    size s i = b.length := by
  simp [size, hb]

theorem content_of_buf? {i : ℕ} (hb : s.buf? i = some b) :
    content s i = toBytes s b := by
  simp [content, hb]

theorem length_content (s : State) (i : ℕ) :
    (content s i).length = size s i := by
  cases hb : s.buf? i with
  | none => simp [content, size, hb]
  | some b => rw [content_of_buf? hb, size_of_buf? hb, length_toBytes]

theorem subSize_eq_sub {a d : ℕ} (h : d ≤ a) (ha : a < sizeModulus) :
    subSize a d = a - d := by
  have hsum : a + sizeModulus - d = a - d + sizeModulus := by omega
  rw [subSize, hsum, Nat.add_mod_right, Nat.mod_eq_of_lt (by omega)]

theorem Ahead.exists_buf? (h : Ahead s head cur later) :
    ∃ b, s.buf? cur = some b ∧ b.next = later.headD head := by
  cases later with
  | nil =>
      obtain ⟨b, hb, hnext⟩ := Option.map_eq_some_iff.mp h
      exact ⟨b, hb, hnext⟩
  | cons x l =>
      obtain ⟨b, hb, hnext⟩ := Option.map_eq_some_iff.mp h.1
      exact ⟨b, hb, hnext⟩

/-- The next node is the head exactly when no node is left. -/
theorem Ahead.headD_eq_iff (h : Ahead s head cur later) :
    later.headD head = head ↔ later = [] := by
  cases later with
  | nil => simp
  | cons x l => simpa using h.2.1

/-- From the head of a ring the successors lead through the other nodes. -/
theorem ahead_of_isRing (h : s.links.IsRing head l) :
    Ahead s head head l := by
  have hwalk : ∀ (l : List ℕ) (cur : ℕ), s.links.Path cur l head →
      head ∉ l → Ahead s head cur l := by
    intro l
    induction l with
    | nil => exact fun cur hpath _ => hpath.1
    | cons x l ih =>
        intro cur hpath hmem
        rw [List.mem_cons, not_or] at hmem
        exact ⟨hpath.1.1, Ne.symm hmem.1, ih x hpath.2 hmem.2⟩
  exact hwalk l head h.path (List.nodup_cons.mp h.nodup).1

theorem stands_start (h : s.links.IsRing head l) :
    Stands s (Cursor.start head) l :=
  ⟨ahead_of_isRing h, Nat.zero_le _, fun h => Or.inr h.symm⟩

theorem unread_start (s : State) (head : ℕ) (l : List ℕ) :
    unread s (Cursor.start head) l = (head :: l).flatMap (content s) := by
  simp [unread]

/-! ## Advancing -/

/-- `AdvanceIfExhausted` leaves what is unread. -/
theorem advance_spec (hahead : Ahead s c.head c.current later)
    (hle : c.offset ≤ size s c.current) :
    ∃ c' later', advanceIfExhausted s c = some c' ∧ Stands s c' later' ∧
      c'.head = c.head ∧ unread s c' later' = unread s c later ∧
      (c' = c ∧ later' = later ∧
          (c.offset = size s c.current → later = []) ∨
        later = c'.current :: later' ∧ c'.offset = 0 ∧
          c.offset = size s c.current) := by
  obtain ⟨b, hb, hnext⟩ := hahead.exists_buf?
  have hsize := size_of_buf? hb
  by_cases hmove : c.offset = b.length ∧ later ≠ []
  · obtain ⟨hoff, hne⟩ := hmove
    cases later with
    | nil => exact absurd rfl hne
    | cons x l =>
        have hadv : advanceIfExhausted s c =
            some { c with current := x, offset := 0 } := by
          have hxhead : x ≠ c.head := hahead.2.1
          have hbx : b.next = x := hnext
          simp [advanceIfExhausted, hb, hoff, hbx, hxhead]
        refine ⟨_, l, hadv, ⟨hahead.2.2, Nat.zero_le _,
          fun h => Or.inr h.symm⟩, rfl, ?_, Or.inr ⟨rfl, rfl, ?_⟩⟩
        · have hdone : (content s c.current).drop c.offset = [] := by
            rw [List.drop_eq_nil_iff, length_content, hsize, hoff]
          simp [unread, hdone]
        · rw [hsize, hoff]
  · have hstay : advanceIfExhausted s c = some c := by
      have hno : ¬ (c.offset = b.length ∧ b.next ≠ c.head) := by
        rw [hnext]
        exact fun h => hmove ⟨h.1, fun heq => h.2 (hahead.headD_eq_iff.mpr heq)⟩
      simp only [advanceIfExhausted, hb, Option.map_some, if_neg hno]
    have hlast : c.offset = size s c.current → later = [] := fun hoff =>
      by_contra fun hne => hmove ⟨hoff.trans hsize, hne⟩
    exact ⟨c, later, hstay, ⟨hahead, hle, fun h => Or.inl (hlast h)⟩, rfl,
      rfl, Or.inl ⟨rfl, rfl, hlast⟩⟩

/-- `AtEnd` is the test for the end of the last node. -/
theorem atEnd_eq (hahead : Ahead s c.head c.current later) :
    atEnd s c = some (decide (c.offset = size s c.current ∧ later = [])) := by
  obtain ⟨b, hb, hnext⟩ := hahead.exists_buf?
  have hlast : b.next = c.head ↔ later = [] := by
    rw [hnext]
    exact hahead.headD_eq_iff
  simp [atEnd, hb, size_of_buf? hb, hlast]

/-! ## Reading -/

/-- The cursor has moved over the next `n` bytes, as far as there are any. -/
structure Moves (s : State) (c c' : Cursor) (later later' : List ℕ)
    (n : ℕ) : Prop where
  stands : Stands s c' later'
  head : c'.head = c.head
  suffix : (c'.current :: later') <:+ (c.current :: later)
  unread : unread s c' later' = (unread s c later).drop n

theorem Moves.trans {c'' : Cursor} {later' later'' : List ℕ} {m : ℕ}
    (h : Moves s c c' later later' n) (h' : Moves s c' c'' later' later'' m) :
    Moves s c c'' later later'' (n + m) where
  stands := h'.stands
  head := h'.head.trans h.head
  suffix := h'.suffix.trans h.suffix
  unread := by rw [h'.unread, h.unread, List.drop_drop]

/-- The cursor is asked for nothing, or has nowhere to go. -/
def Stuck (s : State) (c : Cursor) (later : List ℕ) (n : ℕ) : Prop :=
  n = 0 ∨ c.offset = size s c.current ∧ later = []

theorem unread_of_atEnd (h : c.offset = size s c.current ∧ later = []) :
    unread s c later = [] := by
  obtain ⟨hoff, rfl⟩ := h
  simp [unread, length_content, hoff]

theorem Stuck.take_unread (h : Stuck s c later n) :
    (unread s c later).take n = [] := by
  rcases h with rfl | hend
  · exact List.take_zero
  · rw [unread_of_atEnd hend, List.take_nil]

theorem Stuck.moves (h : Stuck s c later n) (hc : Stands s c later) :
    Moves s c c later later n := by
  refine ⟨hc, rfl, List.suffix_rfl, ?_⟩
  rcases h with rfl | hend
  · rw [List.drop_zero]
  · rw [unread_of_atEnd hend, List.drop_nil]

theorem read_of_stuck (hahead : Ahead s c.head c.current later)
    (h : Stuck s c later n) (fuel : ℕ) :
    read s c n (fuel + 1) = some (c, []) := by
  cases n with
  | zero => rfl
  | succ n =>
      have hend : c.offset = size s c.current ∧ later = [] :=
        h.resolve_left (Nat.succ_ne_zero n)
      simp [read, atEnd_eq hahead, hend]

theorem skip_of_stuck (hahead : Ahead s c.head c.current later)
    (h : Stuck s c later n) (fuel : ℕ) :
    skip s c n (fuel + 1) = some c := by
  cases n with
  | zero => rfl
  | succ n =>
      have hend : c.offset = size s c.current ∧ later = [] :=
        h.resolve_left (Nat.succ_ne_zero n)
      simp [skip, atEnd_eq hahead, hend]

/-- One turn of the loops of `Read` and `Skip`: the cursor moves over a chunk
of its node, and either the next turn is not made or a node is left. -/
structure Turn (s : State) (c c' : Cursor) (later later' : List ℕ)
    (n chunk : ℕ) : Prop where
  le : chunk ≤ n
  moves : Moves s c c' later later' chunk
  next : Stuck s c' later' (n - chunk) ∨ later'.length + 1 = later.length
  arrived : 0 < chunk → 0 < c'.offset ∨
    0 < size s c.current ∧ later = c'.current :: later'
  read : ∀ fuel, read s c n (fuel + 1) =
    (read s c' (n - chunk) fuel).map fun r =>
      (r.1, (Memory.unread s c later).take chunk ++ r.2)
  skip : ∀ fuel, skip s c n (fuel + 1) = skip s c' (n - chunk) fuel

theorem exists_turn (hs : SizesFit s) (hc : Stands s c later)
    (hmoving : ¬ Stuck s c later n) :
    ∃ c' later' chunk, Turn s c c' later later' n chunk := by
  obtain ⟨b, hb, -⟩ := hc.ahead.exists_buf?
  have hsize := size_of_buf? hb
  have hle := hc.offset_le
  have havail : subSize b.length c.offset = size s c.current - c.offset := by
    rw [hsize] at hle ⊢
    exact subSize_eq_sub hle (hsize ▸ hs c.current)
  obtain ⟨chunk, hchunk⟩ : ∃ chunk,
      min (size s c.current - c.offset) n = chunk := ⟨_, rfl⟩
  have hlen : chunk ≤ ((content s c.current).drop c.offset).length := by
    rw [List.length_drop, length_content]
    omega
  obtain ⟨hn, hend⟩ := not_or.mp hmoving
  obtain ⟨c', later', hadv, hstands, hhead, hunread, hcases⟩ :=
    advance_spec (c := { c with offset := c.offset + chunk }) hc.ahead
      (show c.offset + chunk ≤ size s c.current by omega)
  have hmoves : Moves s c c' later later' chunk := by
    refine ⟨hstands, hhead, ?_, ?_⟩
    · rcases hcases with ⟨rfl, rfl, -⟩ | ⟨rfl, -, -⟩
      · exact List.suffix_rfl
      · exact List.suffix_cons _ _
    · rw [hunread, unread, unread, List.drop_append_of_le_length hlen,
        List.drop_drop]
  refine ⟨c', later', chunk, by omega, hmoves, ?_, ?_, ?_, ?_⟩
  · rcases hcases with ⟨rfl, rfl, hlast⟩ | ⟨rfl, -, -⟩
    · left
      rcases Nat.le_total n (size s c.current - c.offset) with hfew | hmany
      · exact Or.inl (by omega)
      · have hoff : c.offset + chunk = size s c.current := by omega
        exact Or.inr ⟨hoff, hlast hoff⟩
    · exact Or.inr rfl
  · intro hpos
    rcases hcases with ⟨rfl, -, -⟩ | ⟨rfl, -, hoff⟩
    · exact Or.inl (Nat.lt_of_lt_of_le hpos (Nat.le_add_left _ _))
    · have hused : c.offset + chunk = size s c.current := hoff
      exact Or.inr ⟨by omega, rfl⟩
  · intro fuel
    have hbytes : ((unread s c later).take chunk) =
        (List.range chunk).map fun k => s.view b (c.offset + k) := by
      rw [unread, List.take_append_of_le_length hlen, content_of_buf? hb]
      exact take_drop_toBytes s (by rw [← hsize]; omega)
    cases n with
    | zero => exact absurd rfl hn
    | succ n =>
        simp [read, atEnd_eq hc.ahead, hend, hb, havail, hchunk, hadv,
          hbytes, Option.map_eq_bind]
  · intro fuel
    cases n with
    | zero => exact absurd rfl hn
    | succ n =>
        simp [skip, atEnd_eq hc.ahead, hend, hb, havail, hchunk, hadv]

/-- `Read` returns the next bytes, and `Skip` leaves the cursor where `Read`
does. -/
theorem read_spec (hs : SizesFit s) (hc : Stands s c later)
    (hfuel : later.length + 2 ≤ fuel) (n : ℕ) :
    ∃ c' later', read s c n fuel = some (c', (unread s c later).take n) ∧
      skip s c n fuel = some c' ∧ Moves s c c' later later' n := by
  induction fuel generalizing c later n with
  | zero => omega
  | succ fuel ih =>
      by_cases hstuck : Stuck s c later n
      · refine ⟨c, later, ?_, skip_of_stuck hc.ahead hstuck fuel,
          hstuck.moves hc⟩
        rw [hstuck.take_unread]
        exact read_of_stuck hc.ahead hstuck fuel
      · obtain ⟨c₁, later₁, chunk, hturn⟩ := exists_turn hs hc hstuck
        have hstands := hturn.moves.stands
        obtain ⟨c', later', hread, hskip, hmoves⟩ : ∃ c' later',
            read s c₁ (n - chunk) fuel =
              some (c', (unread s c₁ later₁).take (n - chunk)) ∧
            skip s c₁ (n - chunk) fuel = some c' ∧
            Moves s c₁ c' later₁ later' (n - chunk) := by
          rcases hturn.next with hstuck₁ | hlen
          · obtain ⟨fuel, rfl⟩ : ∃ k, fuel = k + 1 :=
              Nat.exists_eq_add_of_le' (by omega)
            refine ⟨c₁, later₁, ?_, skip_of_stuck hstands.ahead hstuck₁ fuel,
              hstuck₁.moves hstands⟩
            rw [hstuck₁.take_unread]
            exact read_of_stuck hstands.ahead hstuck₁ fuel
          · exact ih hstands (by omega) (n - chunk)
        have hsum : chunk + (n - chunk) = n := Nat.add_sub_of_le hturn.le
        refine ⟨c', later', ?_, (hturn.skip fuel).trans hskip,
          hsum ▸ hturn.moves.trans hmoves⟩
        rw [hturn.read, hread, Option.map_some, hturn.moves.unread,
          ← List.take_add, hsum]

/-! ## The length that is left -/

theorem chainFrom_of_ahead (h : Ahead s head cur later)
    (hfuel : later.length + 1 ≤ fuel) (hb : s.buf? cur = some b) :
    chainFrom s head b.next fuel = some later := by
  induction later generalizing cur b fuel with
  | nil =>
      obtain ⟨b', hb', hnext⟩ := h.exists_buf?
      obtain rfl := Option.some.inj (hb.symm.trans hb')
      obtain ⟨fuel, rfl⟩ : ∃ k, fuel = k + 1 :=
        Nat.exists_eq_add_of_le' (by omega)
      have hhead : b.next = head := hnext
      rw [chainFrom, if_pos hhead]
  | cons x l ih =>
      obtain ⟨b', hb', hnext⟩ := h.exists_buf?
      obtain rfl := Option.some.inj (hb.symm.trans hb')
      obtain rfl : b.next = x := hnext
      obtain ⟨fuel, rfl⟩ : ∃ k, fuel = k + 1 :=
        Nat.exists_eq_add_of_le' (by omega)
      obtain ⟨d, hd, -⟩ := h.2.2.exists_buf?
      have hrest := ih h.2.2 (by simpa using hfuel) hd
      rw [chainFrom, if_neg h.2.1]
      simp [hd, hrest]

/-- Adding up sizes from a remainder on. -/
theorem foldl_addSize (s : State) (nodes : List ℕ) (start : ℕ) :
    nodes.foldl (fun total i =>
        addSize total (((s.buf? i).map Buffer.length).getD 0))
        (start % sizeModulus) =
      (start + (nodes.flatMap (content s)).length) % sizeModulus := by
  induction nodes generalizing start with
  | nil => rfl
  | cons i nodes ih =>
      have hadd : addSize (start % sizeModulus)
          (((s.buf? i).map Buffer.length).getD 0) =
            (start + size s i) % sizeModulus := by
        rw [addSize, Nat.mod_add_mod]
        rfl
      rw [List.foldl_cons, hadd, ih, List.flatMap_cons, List.length_append,
        length_content, Nat.add_assoc]

/-- `TotalLength` is the number of unread bytes, modulo `2 ^ 64`. -/
theorem totalLength_eq (hs : SizesFit s) (hc : Stands s c later)
    (hfuel : later.length + 1 ≤ fuel) :
    totalLength s c fuel =
      some ((unread s c later).length % sizeModulus) := by
  obtain ⟨b, hb, -⟩ := hc.ahead.exists_buf?
  have hsize := size_of_buf? hb
  have hle := hc.offset_le
  have hfits := hs c.current
  have hrest : subSize b.length c.offset =
      (size s c.current - c.offset) % sizeModulus := by
    rw [Nat.mod_eq_of_lt (by omega), ← hsize]
    exact subSize_eq_sub hle hfits
  have hlen : (unread s c later).length = size s c.current - c.offset +
      (later.flatMap (content s)).length := by
    rw [unread, List.length_append, List.length_drop, length_content]
  rw [totalLength, hb, hlen, ← foldl_addSize, ← hrest]
  simp [chainFrom_of_ahead hc.ahead hfuel hb]

/-! ## The ring as one list -/

/-- In the ring read from `head` the cursor stands before byte `pos` of the
concatenation. -/
structure Placed (s : State) (head : ℕ) (l : List ℕ) (c : Cursor)
    (later : List ℕ) (pos : ℕ) : Prop where
  stands : Stands s c later
  head_eq : c.head = head
  suffix : (c.current :: later) <:+ (head :: l)
  unread : unread s c later = ((head :: l).flatMap (content s)).drop pos

theorem placed_start (h : s.links.IsRing head l) :
    Placed s head l (Cursor.start head) l 0 :=
  ⟨stands_start h, rfl, List.suffix_rfl, unread_start s head l⟩

theorem Placed.length_le {pos : ℕ} (h : Placed s head l c later pos) :
    later.length ≤ l.length := by
  simpa using h.suffix.length_le

theorem Placed.moves {pos : ℕ} {later' : List ℕ}
    (h : Placed s head l c later pos) (h' : Moves s c c' later later' n) :
    Placed s head l c' later'
      (min (pos + n) ((head :: l).flatMap (content s)).length) where
  stands := h'.stands
  head_eq := h'.head.trans h.head_eq
  suffix := h'.suffix.trans h.suffix
  unread := by rw [h'.unread, h.unread, ReadRequest.drop_min]

/-- A cursor of the ring is a sequential reader of the concatenation. -/
theorem Placed.serve (hs : SizesFit s) (hring : s.links.IsRing head l)
    (hfuel : l.length + 2 ≤ fuel) {pos : ℕ}
    (h : Placed s head l c later pos) (r : ReadRequest) :
    ∃ c' later', c.serve s fuel r =
        some (c', (r.serve ((head :: l).flatMap (content s)) pos).2) ∧
      Placed s head l c' later'
        (r.serve ((head :: l).flatMap (content s)) pos).1 := by
  have hfuel' : later.length + 2 ≤ fuel :=
    (Nat.add_le_add_right h.length_le 2).trans hfuel
  cases r with
  | read n =>
      obtain ⟨c', later', hread, -, hmoves⟩ :=
        read_spec hs h.stands hfuel' n
      rw [h.unread] at hread
      exact ⟨c', later', hread, h.moves hmoves⟩
  | skip n =>
      obtain ⟨c', later', -, hskip, hmoves⟩ :=
        read_spec hs h.stands hfuel' n
      exact ⟨c', later', by simp [Cursor.serve, hskip, ReadRequest.serve],
        h.moves hmoves⟩
  | reset =>
      have hstart := placed_start hring
      rw [← h.head_eq] at hstart ⊢
      exact ⟨_, l, rfl, hstart⟩

/-- The cursors of a ring reached by `Read`, `Skip` and `Reset`. -/
abbrev CursorReachable (s : State) (fuel head : ℕ) : Cursor → Prop :=
  Transition.Reachable
    (fun (c : Cursor) r => (c.serve s fuel r).map Prod.fst)
    {Cursor.start head}

theorem CursorReachable.placed (hs : SizesFit s)
    (hring : s.links.IsRing head l) (hfuel : l.length + 2 ≤ fuel)
    (hc : CursorReachable s fuel head c) :
    ∃ later pos, Placed s head l c later pos := by
  refine Transition.ReachableVia.invariant
    (I := fun c => ∃ later pos, Placed s head l c later pos) ?_ ?_ hc
  · rintro c rfl
    exact ⟨l, 0, placed_start hring⟩
  · rintro c r c' ⟨later, pos, h⟩ - hstep
    obtain ⟨c₁, later', hserve, h'⟩ := h.serve hs hring hfuel r
    rw [hserve] at hstep
    obtain rfl := Option.some.inj hstep
    exact ⟨later', _, h'⟩

end Cursors

end Memory
end Yacul
