import Yacul.Memory.BufferRings
import Yacul.Memory.BufferSolo

/-!
# Splitting a ring

`SplitChainAfter` takes the node before the buffer for the first node of the
left ring.  So whatever the ring, the left part is this node and the buffer,
and the right part is the rest; of two nodes none is cut off.  Read from a
head, the ring is cut behind the buffer only if the buffer is its second node.
-/

namespace Yacul
namespace Memory

open Links

/-- What `SplitChainAfter` returns; `none` is the null pointer. -/
def splitReturns (s : State) (i : ℕ) : Option ℕ :=
  (s.buf? i).bind fun b => if isChained i b then some b.next else none

/-- The ring `x :: l` is cut behind its node number `k`, and the head of the
right ring is returned. -/
def CutsAfter (s : State) (x : ℕ) (l : List ℕ) (k : ℕ) : Prop :=
  ∃ i j s', (x :: l)[k]? = some i ∧ l[k]? = some j ∧
    splitReturns s i = some j ∧ splitChainAfter s i = some s' ∧
    s'.links.IsRing x (l.take k) ∧ s'.links.IsRing j (l.drop (k + 1))

section Splits

variable {s : State} {i j p x : ℕ} {l r : List ℕ}

/-! ## The four links -/

/-- Two live buffers can be linked. -/
theorem exists_link {a b : ℕ} (ha : s.links.Live a) (hb : s.links.Live b) :
    ∃ s₁ s', setNext s a b = some s₁ ∧ setPrev s₁ b a = some s' ∧
      s'.links = s.links.link a b := by
  obtain ⟨v, hv⟩ := live_iff.mp ha
  have hnext : setNext s a b = some (s.setBuf a { v with next := b }) := by
    simp [setNext, State.modifyBuf, hv]
  obtain ⟨w, hw⟩ := live_iff.mp hb
  obtain ⟨w', hw'⟩ : ∃ w', (s.setBuf a { v with next := b }).buf? b =
      some w' := by
    rw [buf?_setBuf hv]
    split_ifs
    · exact ⟨_, rfl⟩
    · exact ⟨w, hw⟩
  have hprev : setPrev (s.setBuf a { v with next := b }) b a =
      some ((s.setBuf a { v with next := b }).setBuf b
        { w' with prev := a }) := by
    simp [setPrev, State.modifyBuf, hw']
  exact ⟨_, _, hnext, hprev, links_link hnext hprev⟩

/-- The links after `SplitChainAfter` of a chained buffer. -/
theorem exists_splitChainAfter {b lh : Buffer} (hb : s.buf? i = some b)
    (hlh : s.buf? b.prev = some lh) (hchained : b.next ≠ i)
    (hnext : s.links.Live b.next) (hrt : s.links.Live lh.prev) :
    ∃ s', splitChainAfter s i = some s' ∧
      s'.links = (s.links.link i b.prev).link lh.prev b.next := by
  obtain ⟨s₁, s₂, h₁, h₂, hlinks⟩ :=
    exists_link (live_iff.mpr ⟨b, hb⟩) (live_iff.mpr ⟨lh, hlh⟩)
  have hlive : ∀ y, s.links.Live y → s₂.links.Live y := by
    intro y hy
    rw [hlinks]
    exact hy.link
  obtain ⟨s₃, s₄, h₃, h₄, hlinks'⟩ := exists_link (hlive _ hrt)
    (hlive _ hnext)
  refine ⟨s₄, ?_, hlinks'.trans (by rw [hlinks])⟩
  have hyes : isChained i b = true := by simp [isChained, hchained]
  simp [splitChainAfter, hb, hyes, hlh, h₁, h₂, h₃, h₄]

/-- In a ring of three or more nodes, read here from the node before `i`, this
node and `i` are cut off. -/
theorem splitChainAfter_spec (h : s.links.IsRing p (i :: j :: r)) :
    splitReturns s i = some j ∧
      ∃ s', splitChainAfter s i = some s' ∧ s'.links.IsRing p [i] ∧
        s'.links.IsRing j r := by
  obtain ⟨b, hb⟩ := live_iff.mp (h.live (x := i) (by simp))
  obtain ⟨lh, hlh⟩ := live_iff.mp (h.live List.mem_cons_self)
  have hpi := h.path.1.2
  have hij := h.path.2.1.1
  obtain rfl : b.prev = p :=
    Option.some.inj ((prev_of_buf? hb).symm.trans hpi)
  obtain rfl : b.next = j :=
    Option.some.inj ((next_of_buf? hb).symm.trans hij)
  have hne : b.next ≠ i := by
    have hnodup := (List.nodup_cons.mp h.nodup).2
    intro heq
    rw [heq] at hnodup
    exact (List.nodup_cons.mp hnodup).1 List.mem_cons_self
  have hprev := prev_of_buf? hlh
  obtain ⟨s', hs', hlinks⟩ := exists_splitChainAfter hb hlh hne
    (h.live (by simp)) (h.live_prev hprev)
  have hcut := IsRing.cut (l := [i]) h h.path.2.1.2 hprev
  refine ⟨?_, s', hs', ?_, ?_⟩
  · simp [splitReturns, hb, isChained, hne]
  · rw [hlinks]
    exact hcut.1
  · rw [hlinks]
    exact hcut.2

/-- A ring of two nodes is not split. -/
theorem splitChainAfter_two (h : s.links.IsRing i [j]) {s' : State}
    (hs' : splitChainAfter s i = some s') : s'.links.IsRing i [j] := by
  obtain ⟨b, hb⟩ := live_iff.mp (h.live List.mem_cons_self)
  obtain ⟨lh, hlh⟩ := live_iff.mp (h.live (x := j) (by simp))
  have hij : i ≠ j := fun heq => by simpa [heq] using h.nodup
  obtain rfl : b.next = j :=
    Option.some.inj ((next_of_buf? hb).symm.trans h.path.1.1)
  have hprev : b.prev = b.next :=
    Option.some.inj ((prev_of_buf? hb).symm.trans h.path.2.2)
  have hlhprev : lh.prev = i :=
    Option.some.inj ((prev_of_buf? hlh).symm.trans h.path.1.2)
  rw [← hprev] at hlh
  obtain ⟨t, ht, hlinks⟩ := exists_splitChainAfter hb hlh hij.symm
    (h.live (by simp)) (by rw [hlhprev]; exact h.live List.mem_cons_self)
  obtain rfl := Option.some.inj (hs'.symm.trans ht)
  -- Both links that are set were there.
  rw [hlinks, hprev, hlhprev]
  refine ⟨h.nodup, ⟨?_, ?_⟩, ?_, ?_⟩
  · simp [Links.link]
  · simp [Links.link]
  · simpa [Links.link, hij.symm] using h.path.2.1
  · simpa [Links.link, hij] using h.path.2.2

/-! ## Where the ring is cut -/

/-- Behind the head a ring is not cut: the last node goes with the head. -/
theorem not_cutsAfter_zero (h : s.links.IsRing x l) (hl : 0 < l.length) :
    ¬ CutsAfter s x l 0 := by
  rintro ⟨i, j, s', hi, hj, -, hs', hleft, -⟩
  obtain rfl : x = i := Option.some.inj hi
  cases l with
  | nil => cases hj
  | cons y l =>
      rcases List.eq_nil_or_concat l with rfl | ⟨l, z, rfl⟩
      · have hring := splitChainAfter_two h hs'
        exact absurd (hring.unique hleft) (by simp)
      · rw [List.concat_eq_append] at h
        obtain ⟨-, t, ht, hring, -⟩ :=
          splitChainAfter_spec (IsRing.rotate (l := y :: l) h)
        obtain rfl := Option.some.inj (hs'.symm.trans ht)
        exact absurd ((IsRing.rotate (l := []) hring).unique hleft) (by simp)

/-- The nodes around a place in the ring. -/
theorem exists_around {k : ℕ} (hk : k + 1 < l.length) :
    ∃ u i j v, l = u ++ i :: j :: v ∧ u.length = k := by
  refine ⟨l.take k, l.get ⟨k, by omega⟩, l.get ⟨k + 1, hk⟩, l.drop (k + 2),
    ?_, ?_⟩
  · have hi : l.drop k = l.get ⟨k, by omega⟩ :: l.drop (k + 1) :=
      List.drop_eq_getElem_cons (by omega)
    have hj : l.drop (k + 1) = l.get ⟨k + 1, hk⟩ :: l.drop (k + 2) :=
      List.drop_eq_getElem_cons hk
    rw [← hj, ← hi, List.take_append_drop]
  · rw [List.length_take]
    omega

/-- `SplitChainAfter` cuts a ring read from a head where it is asked to
exactly when it is called on the second node. -/
theorem cutsAfter_iff (h : s.links.IsRing x l) {k : ℕ} (hk : k < l.length) :
    CutsAfter s x l k ↔ k = 1 := by
  cases k with
  | zero => exact ⟨fun hcut => absurd hcut (not_cutsAfter_zero h hk), nofun⟩
  | succ k =>
      obtain ⟨u, i, j, v, rfl, rfl⟩ := exists_around hk
      rcases List.eq_nil_or_concat u with rfl | ⟨u, p, rfl⟩
      · obtain ⟨hreturn, s', hs', hleft, hright⟩ := splitChainAfter_spec h
        exact ⟨fun _ => rfl, fun _ =>
          ⟨i, j, s', rfl, rfl, hreturn, hs', hleft, hright⟩⟩
      · -- The node before `i` is not the head, so the head is not with `i`.
        constructor
        · rintro ⟨i', j', s', hi', -, -, hs', hleft, -⟩
          obtain rfl : i = i' := by simpa using hi'
          have hrot : s.links.IsRing p (i :: j :: (v ++ x :: u)) :=
            IsRing.rotate (by simpa using h)
          obtain ⟨-, t, ht, hring, -⟩ := splitChainAfter_spec hrot
          obtain rfl := Option.some.inj (hs'.symm.trans ht)
          have htake : (u.concat p ++ i :: j :: v).take
              ((u.concat p).length + 1) = u ++ [p, i] := by
            rw [List.take_length_add_append]
            simp
          rw [htake] at hleft
          have hmem : x ∈ p :: [i] :=
            hring.mem_of_mem hleft (x := p) (by simp) (by simp) (by simp)
          have hnodup := (List.nodup_cons.mp h.nodup).1
          rcases List.mem_cons.mp hmem with rfl | hmem
          · exact absurd (by simp) hnodup
          · rw [List.mem_singleton] at hmem
            exact absurd (by simp [hmem]) hnodup
        · intro hone
          simp at hone

end Splits

/-! ## A ring of four -/

/-- The ring `A -> B -> C -> D -> A`. -/
def chainABCD : List Action :=
  [Action.copyFrom [65], Action.copyFrom [66], Action.copyFrom [67],
    Action.copyFrom [68], Action.appendChain 0 1, Action.appendChain 0 2,
    Action.appendChain 0 3]

theorem chainABCD_runs :
    (Transition.run (perform fun _ _ => 0) init chainABCD).isSome = true := by
  decide

theorem isRing_chainABCD :
    ((Transition.run (perform fun _ _ => 0) init chainABCD).get
      chainABCD_runs).links.IsRing 0 [1, 2, 3] :=
  ⟨by decide, ⟨rfl, rfl⟩, ⟨rfl, rfl⟩, ⟨rfl, rfl⟩, rfl, rfl⟩

/-- Behind `B` the ring is cut as it should be. -/
theorem cutsAfter_iff_chainABCD :
    CutsAfter ((Transition.run (perform fun _ _ => 0) init chainABCD).get
      chainABCD_runs) 0 [1, 2, 3] 1 :=
  (cutsAfter_iff isRing_chainABCD (by decide)).mpr rfl

/-- Behind `C` it is not: `C.SplitChainAfter()` leaves the rings `B C` and
`D A`. -/
theorem exists_cut_elsewhere :
    ¬ ∀ uninit s x l k,
      Transition.Reachable (perform uninit) {init} s → s.links.IsRing x l →
      k < l.length → CutsAfter s x l k := by
  intro hall
  obtain ⟨i, j, s', hi, -, -, hs', hleft, -⟩ :=
    hall _ _ 0 [1, 2, 3] 2 (Transition.reachable_get_run
      (Set.mem_singleton init) chainABCD_runs) isRing_chainABCD (by decide)
  obtain rfl : 2 = i := Option.some.inj hi
  obtain ⟨-, t, ht, hring, -⟩ := splitChainAfter_spec (p := 1) (i := 2)
    (j := 3) (r := [0]) (IsRing.rotate (l := []) isRing_chainABCD)
  obtain rfl := Option.some.inj (hs'.symm.trans ht)
  have hmem : 0 ∈ [1, 2] :=
    hring.mem_of_mem hleft (x := 1) (by simp) (by simp) (by simp)
  exact absurd hmem (by decide)

end Memory
end Yacul
