import Mathlib.Data.List.Nodup
import Mathlib.Logic.Function.Basic

/-!
# Circular doubly linked lists

Nodes of any type carry a successor and a predecessor.  A ring is the list of
distinct nodes met from one of them before it is met again, with every link
answered by its inverse.  The two edits of such structures are to link one
node to another and to rewrite the links of one node; the lemmas say what they
do to rings: two rings are spliced, a node is taken out, a node takes the
place of another.
-/

namespace Yacul

/-- Successors and predecessors; a node without them is not there. -/
structure Links (ι : Type*) where
  next : ι → Option ι
  prev : ι → Option ι

namespace Links

variable {ι : Type*}

/-- `a` and `b` are linked to each other. -/
def Adj (g : Links ι) (a b : ι) : Prop := g.next a = some b ∧ g.prev b = some a

/-- The links lead from `a` through the nodes of the list to `b`. -/
def Path (g : Links ι) : ι → List ι → ι → Prop
  | a, [], b => g.Adj a b
  | a, x :: l, b => g.Adj a x ∧ Path g x l b

/-- The ring of `a`, read from `a`, has the further nodes `l`. -/
structure IsRing (g : Links ι) (a : ι) (l : List ι) : Prop where
  nodup : (a :: l).Nodup
  path : g.Path a l a

/-- Link `a` to `b`. -/
def link [DecidableEq ι] (g : Links ι) (a b : ι) : Links ι where
  next := Function.update g.next a (some b)
  prev := Function.update g.prev b (some a)

/-! ## Paths -/

section Paths

variable {g g' : Links ι} {a b c x : ι} {l m : List ι}

theorem path_append :
    g.Path a (l ++ x :: m) b ↔ g.Path a l x ∧ g.Path x m b := by
  induction l generalizing a with
  | nil => rfl
  | cons y l ih =>
      simp only [List.cons_append, Path, ih, and_assoc]

/-- A path reads the successors of all its nodes but the last, and the
predecessors of all but the first. -/
theorem Path.congr (h : g.Path a l b)
    (hnext : ∀ y ∈ a :: l, g'.next y = g.next y)
    (hprev : ∀ y ∈ b :: l, g'.prev y = g.prev y) : g'.Path a l b := by
  induction l generalizing a with
  | nil =>
      have hn := hnext a List.mem_cons_self
      have hp := hprev b List.mem_cons_self
      exact ⟨hn.trans h.1, hp.trans h.2⟩
  | cons y l ih =>
      obtain ⟨hadj, hrest⟩ := h
      have hn := hnext a List.mem_cons_self
      have hp := hprev y (by simp)
      refine ⟨⟨hn.trans hadj.1, hp.trans hadj.2⟩, ih hrest ?_ ?_⟩
      · exact fun z hz => hnext z (List.mem_cons_of_mem _ hz)
      · intro z hz
        rcases List.mem_cons.mp hz with rfl | hz
        · exact hprev z List.mem_cons_self
        · exact hprev z (by simp [hz])

/-- The end of a path is entered from one of its nodes. -/
theorem Path.prev_mem (h : g.Path a l b) : ∃ p ∈ a :: l, g.prev b = some p := by
  induction l generalizing a with
  | nil => exact ⟨a, List.mem_cons_self, h.2⟩
  | cons y l ih =>
      obtain ⟨p, hp, hprev⟩ := ih h.2
      exact ⟨p, List.mem_cons_of_mem _ hp, hprev⟩

theorem Path.next_mem (h : g.Path a l b) :
    ∃ n ∈ l ++ [b], g.next a = some n := by
  cases l with
  | nil => exact ⟨b, by simp, h.1⟩
  | cons y l => exact ⟨y, by simp, h.1.1⟩

/-- The last step of a path is led to another end. -/
theorem Path.redirect [DecidableEq ι] {p : ι} (h : g.Path a l b)
    (hnodup : (a :: l).Nodup) (hp : g.prev b = some p) (hc : c ∉ l) :
    (g.link p c).Path a l c := by
  induction l generalizing a with
  | nil =>
      obtain rfl : a = p := Option.some.inj (h.2.symm.trans hp)
      exact ⟨by simp [link], by simp [link]⟩
  | cons y l ih =>
      obtain ⟨hadj, hrest⟩ := h
      obtain ⟨hay, htail⟩ := List.nodup_cons.mp hnodup
      have hcy : y ≠ c := fun heq => hc (by simp [heq])
      -- The last node is in the rest, so it is not `a`.
      have hap : a ≠ p := by
        obtain ⟨q, hq, hqprev⟩ := hrest.prev_mem
        obtain rfl := Option.some.inj (hp.symm.trans hqprev)
        rintro rfl
        exact hay hq
      refine ⟨⟨?_, ?_⟩, ih hrest htail fun hmem => hc (by simp [hmem])⟩
      · simpa [link, hap] using hadj.1
      · simpa [link, hcy] using hadj.2

/-- A link between other nodes is not seen. -/
theorem Path.link_of_notMem [DecidableEq ι] {p q : ι} (h : g.Path a l b)
    (hp : p ∉ a :: l) (hq : q ∉ b :: l) : (g.link p q).Path a l b := by
  apply h.congr
  · intro y hy
    have hne : y ≠ p := fun heq => hp (heq ▸ hy)
    simp [link, hne]
  · intro y hy
    have hne : y ≠ q := fun heq => hq (heq ▸ hy)
    simp [link, hne]

end Paths

/-! ## Rings -/

section Rings

variable {g g' : Links ι} {a b i j k x p q : ι} {l m r t : List ι}

theorem isRing_nil : g.IsRing a [] ↔ g.Adj a a :=
  ⟨fun h => h.path, fun h => ⟨by simp, h⟩⟩

/-- The nodes of a ring in the order in which another node meets them. -/
theorem IsRing.rotate (h : g.IsRing a (l ++ b :: m)) :
    g.IsRing b (m ++ a :: l) := by
  obtain ⟨hl, hm⟩ := path_append.mp h.path
  refine ⟨?_, path_append.mpr ⟨hm, hl⟩⟩
  have hperm : (a :: (l ++ b :: m)).Perm (b :: (m ++ a :: l)) := by
    have hswap : (a :: l ++ b :: m).Perm (b :: m ++ a :: l) :=
      List.perm_append_comm
    simpa using hswap
  exact hperm.nodup_iff.mp h.nodup

theorem IsRing.exists_of_mem (h : g.IsRing a l) (hb : b ∈ a :: l) :
    ∃ m, g.IsRing b m ∧ (b :: m).Perm (a :: l) := by
  rcases List.mem_cons.mp hb with rfl | hb
  · exact ⟨l, h, List.Perm.refl _⟩
  · obtain ⟨u, v, rfl⟩ := List.append_of_mem hb
    refine ⟨v ++ a :: u, h.rotate, ?_⟩
    have hswap : (b :: v ++ a :: u).Perm (a :: u ++ b :: v) :=
      List.perm_append_comm
    simpa using hswap

/-- The ring of a node is determined by the successors. -/
theorem IsRing.unique (h : g.IsRing a l) (h' : g.IsRing a m) : l = m := by
  have hwalk : ∀ (l m : List ι) (c : ι), g.Path c l a → g.Path c m a →
      a ∉ l → a ∉ m → l = m := by
    intro l
    induction l with
    | nil =>
        intro m c hl hm _ hmem
        cases m with
        | nil => rfl
        | cons y m =>
            have heq := Option.some.inj (hl.1.symm.trans hm.1.1)
            exact absurd (by simp [heq]) hmem
    | cons x l ih =>
        intro m c hl hm hx hmem
        cases m with
        | nil =>
            have heq := Option.some.inj (hm.1.symm.trans hl.1.1)
            exact absurd (by simp [heq]) hx
        | cons y m =>
            obtain rfl := Option.some.inj (hl.1.1.symm.trans hm.1.1)
            have hrest := ih m x hl.2 hm.2 (fun hin => hx (by simp [hin]))
              (fun hin => hmem (by simp [hin]))
            rw [hrest]
  exact hwalk l m a h.path h'.path (List.nodup_cons.mp h.nodup).1
    (List.nodup_cons.mp h'.nodup).1

theorem IsRing.exists_prev (h : g.IsRing a l) :
    ∃ p ∈ a :: l, g.prev a = some p :=
  h.path.prev_mem

/-- Links between nodes outside a ring leave it as it is. -/
theorem IsRing.congr (h : g.IsRing a l)
    (hnext : ∀ y ∈ a :: l, g'.next y = g.next y)
    (hprev : ∀ y ∈ a :: l, g'.prev y = g.prev y) : g'.IsRing a l :=
  ⟨h.nodup, h.path.congr hnext hprev⟩

/-- Two nodes of one ring have the same ring. -/
theorem IsRing.mem_of_mem (h : g.IsRing a l) (h' : g.IsRing b m)
    (hx : x ∈ a :: l) (hx' : x ∈ b :: m) {y : ι} (hy : y ∈ b :: m) :
    y ∈ a :: l := by
  obtain ⟨u, hu, huperm⟩ := h.exists_of_mem hx
  obtain ⟨v, hv, hvperm⟩ := h'.exists_of_mem hx'
  obtain rfl := hu.unique hv
  exact huperm.mem_iff.mp (hvperm.mem_iff.mpr hy)

/-- The node after `i` in its ring. -/
theorem IsRing.next_eq (h : g.IsRing i (x :: r)) : g.next i = some x :=
  h.path.1.1

/-- The node has links. -/
def Live (g : Links ι) (a : ι) : Prop :=
  (g.next a).isSome = true ∨ (g.prev a).isSome = true

theorem IsRing.live (h : g.IsRing a l) (hx : x ∈ a :: l) : g.Live x := by
  obtain ⟨m, hm, -⟩ := h.exists_of_mem hx
  obtain ⟨p, -, hp⟩ := hm.exists_prev
  exact Or.inr (by simp [hp])

/-- The neighbours of a node on a ring are there. -/
theorem IsRing.live_next (h : g.IsRing i l) {n : ι}
    (hn : g.next i = some n) : g.Live n := by
  obtain ⟨n', hn', hnn⟩ := h.path.next_mem
  obtain rfl := Option.some.inj (hn.symm.trans hnn)
  apply h.live
  rcases List.mem_append.mp hn' with hin | hin
  · exact List.mem_cons_of_mem _ hin
  · rw [List.mem_singleton.mp hin]
    exact List.mem_cons_self

theorem IsRing.live_prev (h : g.IsRing i l) (hp : g.prev i = some p) :
    g.Live p := by
  obtain ⟨p', hp', hpp⟩ := h.exists_prev
  obtain rfl := Option.some.inj (hp.symm.trans hpp)
  exact h.live hp'

/-- Every node is on a ring. -/
def Rings (g : Links ι) : Prop := ∀ a, g.Live a → ∃ l, g.IsRing a l

/-- No link leads to a node that is not there. -/
def Closed (g : Links ι) : Prop :=
  ∀ a b, g.next a = some b ∨ g.prev a = some b → g.Live b

theorem Rings.closed (hring : g.Rings) : g.Closed := by
  rintro a b (hnext | hprev)
  · obtain ⟨l, hl⟩ := hring a (Or.inl (by simp [hnext]))
    exact hl.live_next hnext
  · obtain ⟨l, hl⟩ := hring a (Or.inr (by simp [hprev]))
    exact hl.live_prev hprev

/-- On rings successors and predecessors are inverse. -/
theorem Rings.next_eq_some_iff (hring : g.Rings) :
    g.next a = some b ↔ g.prev b = some a := by
  constructor
  · intro h
    obtain ⟨l, hl⟩ := hring a (Or.inl (by simp [h]))
    cases l with
    | nil =>
        obtain rfl := Option.some.inj (h.symm.trans hl.path.1)
        exact hl.path.2
    | cons y l =>
        obtain rfl := Option.some.inj (h.symm.trans hl.next_eq)
        exact hl.path.1.2
  · intro h
    obtain ⟨l, hl⟩ := hring b (Or.inr (by simp [h]))
    rcases List.eq_nil_or_concat l with rfl | ⟨l, y, rfl⟩
    · obtain rfl := Option.some.inj (h.symm.trans hl.path.2)
      exact hl.path.1
    · rw [List.concat_eq_append] at hl
      have hlast := (path_append.mp hl.path).2
      obtain rfl := Option.some.inj (h.symm.trans hlast.2)
      exact hlast.1

variable [DecidableEq ι]

theorem IsRing.link_of_notMem (h : g.IsRing a l) (hp : p ∉ a :: l)
    (hq : q ∉ a :: l) : (g.link p q).IsRing a l :=
  ⟨h.nodup, h.path.link_of_notMem hp hq⟩

/-- A node linked to itself is a ring of its own. -/
theorem isRing_link_self (g : Links ι) (a : ι) : (g.link a a).IsRing a [] :=
  isRing_nil.mpr ⟨by simp [link], by simp [link]⟩

/-- Two rings become one. -/
theorem IsRing.splice (hi : g.IsRing i l) (hj : g.IsRing j m)
    (hdisj : ∀ x ∈ i :: l, x ∉ j :: m) (hp : g.prev i = some p)
    (hq : g.prev j = some q) :
    ((g.link p j).link q i).IsRing i (l ++ j :: m) := by
  obtain ⟨p', hp', hpp⟩ := hi.exists_prev
  obtain rfl := Option.some.inj (hp.symm.trans hpp)
  obtain ⟨q', hq', hqq⟩ := hj.exists_prev
  obtain rfl := Option.some.inj (hq.symm.trans hqq)
  have hil := List.nodup_cons.mp hi.nodup
  have hjm := List.nodup_cons.mp hj.nodup
  have hjl : j ∉ i :: l := fun hmem => hdisj j hmem List.mem_cons_self
  have him : i ∉ j :: m := hdisj i List.mem_cons_self
  refine ⟨?_, path_append.mpr ⟨?_, ?_⟩⟩
  · have happ := List.nodup_append.mpr ⟨hi.nodup, hj.nodup,
      fun x hx y hy heq => hdisj x hx (heq ▸ hy)⟩
    simpa using happ
  · have hfirst := hi.path.redirect hi.nodup hp
      (fun hmem => hjl (List.mem_cons_of_mem i hmem))
    apply hfirst.link_of_notMem
    · exact fun hmem => hdisj q hmem hq'
    · intro hmem
      rcases List.mem_cons.mp hmem with heq | hmem
      · exact him (heq ▸ List.mem_cons_self)
      · exact hil.1 hmem
  · -- The second path ends at `j` until its last node is linked to `i`.
    have hsecond : ((g.link q i)).Path j m i :=
      hj.path.redirect hj.nodup hq
        (fun hmem => him (List.mem_cons_of_mem j hmem))
    have hcomm : (g.link p j).link q i = (g.link q i).link p j := by
      have hpq : p ≠ q := fun heq => hdisj p hp' (heq ▸ hq')
      have hij : j ≠ i := fun heq => him (heq ▸ List.mem_cons_self)
      simp only [link, Links.mk.injEq]
      exact ⟨Function.update_comm hpq _ _ _, Function.update_comm hij _ _ _⟩
    rw [hcomm]
    apply hsecond.link_of_notMem
    · exact fun hmem => hdisj p hp' hmem
    · intro hmem
      rcases List.mem_cons.mp hmem with heq | hmem
      · exact hjl (heq ▸ List.mem_cons_self)
      · exact hjm.1 hmem

/-- One ring becomes two: the last node of each part is linked to the first. -/
theorem IsRing.cut (h : g.IsRing i (l ++ j :: m)) (hp : g.prev j = some p)
    (hq : g.prev i = some q) :
    ((g.link p i).link q j).IsRing i l ∧
      ((g.link p i).link q j).IsRing j m := by
  obtain ⟨hleft, hright⟩ := path_append.mp h.path
  obtain ⟨p', hp', hpp⟩ := hleft.prev_mem
  obtain rfl := Option.some.inj (hp.symm.trans hpp)
  obtain ⟨q', hq', hqq⟩ := hright.prev_mem
  obtain rfl := Option.some.inj (hq.symm.trans hqq)
  have hnodup := h.nodup
  rw [← List.cons_append, List.nodup_append] at hnodup
  obtain ⟨hil, hjm, hdisj⟩ := hnodup
  have hqi : q ∉ i :: l := fun hmem => hdisj q hmem q hq' rfl
  have hji : j ∉ i :: l := fun hmem => hdisj j hmem j (by simp) rfl
  have hpj : p ∉ j :: m := fun hmem => hdisj p hp' p hmem rfl
  have hij : i ∉ j :: m := fun hmem => hdisj i (by simp) i hmem rfl
  constructor
  · have hloop := hleft.redirect hil hp (List.nodup_cons.mp hil).1
    exact ⟨hil, hloop.link_of_notMem hqi hji⟩
  · -- The right part is closed first; the two links do not meet.
    have hloop := hright.redirect hjm hq (List.nodup_cons.mp hjm).1
    have hcomm : (g.link p i).link q j = (g.link q j).link p i := by
      have hpq : p ≠ q := fun heq => hpj (heq ▸ hq')
      have hne : i ≠ j := fun heq => hij (heq ▸ List.mem_cons_self)
      simp only [link, Links.mk.injEq]
      exact ⟨Function.update_comm hpq _ _ _, Function.update_comm hne _ _ _⟩
    rw [hcomm]
    exact ⟨hjm, hloop.link_of_notMem hpj hij⟩

/-- A node is taken out: its neighbours are linked to each other. -/
theorem IsRing.unlink (h : g.IsRing i (x :: r)) (hp : g.prev i = some p) :
    (g.link p x).IsRing x r := by
  have hnodup := (List.nodup_cons.mp h.nodup).2
  exact ⟨hnodup, h.path.2.redirect hnodup hp (List.nodup_cons.mp hnodup).1⟩

/-- Taking `i` out of whatever ring it is in. -/
theorem IsRing.unlink_erase (h : g.IsRing a t) (hi : g.IsRing i l)
    (hai : a ≠ i) {n : ι} (hn : g.next i = some n)
    (hp : g.prev i = some p) : (g.link p n).IsRing a (t.erase i) := by
  by_cases hmem : i ∈ t
  · obtain ⟨u, v, rfl⟩ := List.append_of_mem hmem
    have hrot := h.rotate
    have hu : i ∉ u := by
      have hnodup := (List.nodup_cons.mp h.nodup).2
      rw [List.nodup_append] at hnodup
      exact fun hin => hnodup.2.2 i hin i List.mem_cons_self rfl
    have herase : (u ++ i :: v).erase i = u ++ v := by
      rw [List.erase_append_right _ hu, List.erase_cons_head]
    rw [herase]
    cases v with
    | nil =>
        obtain rfl := Option.some.inj (hn.symm.trans hrot.next_eq)
        simpa using hrot.unlink hp
    | cons y v =>
        obtain rfl := Option.some.inj (hn.symm.trans hrot.next_eq)
        exact (hrot.unlink hp).rotate
  · -- `i` and its neighbours are in another ring.
    rw [List.erase_of_not_mem hmem]
    have hother : ∀ y ∈ i :: l, y ∉ a :: t := by
      intro y hy hya
      have hia := h.mem_of_mem hi hya hy List.mem_cons_self
      rcases List.mem_cons.mp hia with heq | hin
      · exact hai heq.symm
      · exact hmem hin
    obtain ⟨p', hp', hpp⟩ := hi.exists_prev
    obtain rfl := Option.some.inj (hp.symm.trans hpp)
    obtain ⟨n', hn', hnn⟩ := hi.path.next_mem
    obtain rfl := Option.some.inj (hn.symm.trans hnn)
    refine h.link_of_notMem (hother p hp') (hother n ?_)
    rcases List.mem_append.mp hn' with hin | hin
    · exact List.mem_cons_of_mem _ hin
    · rw [List.mem_singleton.mp hin]
      exact List.mem_cons_self

/-- A node from outside takes the place of `i`. -/
theorem IsRing.replace (h : g.IsRing i (x :: r)) (hk : k ∉ i :: x :: r)
    (hp : g.prev i = some p) :
    ((g.link k x).link p k).IsRing k (x :: r) := by
  obtain ⟨hi, hnodup⟩ := List.nodup_cons.mp h.nodup
  have hkr : k ∉ x :: r := fun hmem => hk (List.mem_cons_of_mem _ hmem)
  have hkx : x ≠ k := fun heq => hkr (heq ▸ List.mem_cons_self)
  obtain ⟨p', hp', hpp⟩ := h.path.2.prev_mem
  obtain rfl := Option.some.inj (hp.symm.trans hpp)
  have hpk : k ≠ p := fun heq => hkr (heq ▸ hp')
  refine ⟨List.nodup_cons.mpr ⟨hkr, hnodup⟩, ⟨?_, ?_⟩, ?_⟩
  · simp [link, hpk]
  · simp [link, hkx]
  · -- The rest of the ring does not see the link from `k`.
    have hrest := h.path.2.redirect hnodup hp
      (fun hmem => hkr (List.mem_cons_of_mem _ hmem))
    have hcomm : (g.link k x).link p k = (g.link p k).link k x := by
      simp only [link, Links.mk.injEq]
      exact ⟨Function.update_comm hpk _ _ _, Function.update_comm hkx _ _ _⟩
    rw [hcomm]
    apply hrest.link_of_notMem
    · exact hkr
    · intro hmem
      rcases List.mem_cons.mp hmem with heq | hmem
      · exact hkx heq
      · exact (List.nodup_cons.mp hnodup).1 hmem

/-! ## What an edit does to all rings -/

/-- Take the links of a node away. -/
def clear (g : Links ι) (a : ι) : Links ι where
  next := Function.update g.next a none
  prev := Function.update g.prev a none

theorem live_link (h : (g.link p q).Live a) : a = p ∨ a = q ∨ g.Live a := by
  by_cases hp : a = p
  · exact Or.inl hp
  · by_cases hq : a = q
    · exact Or.inr (Or.inl hq)
    · refine Or.inr (Or.inr ?_)
      simpa [Live, link, hp, hq] using h

/-- A new link leaves the nodes there. -/
theorem Live.link (h : g.Live a) : (g.link p q).Live a := by
  by_cases hp : a = p
  · exact Or.inl (by simp [Links.link, hp])
  · rcases h with hnext | hprev
    · exact Or.inl (by simpa [Links.link, hp] using hnext)
    · by_cases hq : a = q
      · exact Or.inr (by simp [Links.link, hq])
      · exact Or.inr (by simpa [Links.link, hq] using hprev)

theorem live_clear (h : (g.clear p).Live a) : a ≠ p ∧ g.Live a := by
  by_cases hp : a = p
  · subst hp
    simp [Live, clear] at h
  · exact ⟨hp, by simpa [Live, clear, hp] using h⟩

/-- `i` is gone from every other ring, and nothing else has changed. -/
def Removes (g g' : Links ι) (i : ι) : Prop :=
  ∀ a t, a ≠ i → g.IsRing a t → g'.IsRing a (t.erase i)

/-- A node that is not there becomes a ring of its own. -/
theorem IsRing.link_fresh (h : g.IsRing a t) (hk : ¬ g.Live k) :
    (g.link k k).IsRing a t :=
  h.link_of_notMem (fun hmem => hk (h.live hmem))
    fun hmem => hk (h.live hmem)

theorem Rings.link_fresh (h : g.Rings) (hk : ¬ g.Live k) :
    (g.link k k).Rings := by
  intro a ha
  by_cases hak : a = k
  · exact ⟨[], hak ▸ isRing_link_self g k⟩
  · have hlive : g.Live a := by simpa [hak] using live_link ha
    obtain ⟨l, hl⟩ := h a hlive
    exact ⟨l, hl.link_fresh hk⟩

/-- The node taken out of its ring is not seen by the others. -/
theorem IsRing.notMem_erase (h : g.IsRing a t) (hai : a ≠ i) :
    i ∉ a :: t.erase i := by
  have hnodup := (List.nodup_cons.mp h.nodup).2
  intro hmem
  rcases List.mem_cons.mp hmem with heq | hmem
  · exact hai heq.symm
  · exact hnodup.not_mem_erase hmem

theorem removes_link_self (hi : g.IsRing i l) {n : ι}
    (hn : g.next i = some n) (hp : g.prev i = some p) :
    g.Removes ((g.link p n).link i i) i := by
  intro a t hai h
  have hnot := h.notMem_erase hai
  exact (h.unlink_erase hi hai hn hp).link_of_notMem hnot hnot

theorem removes_clear (hi : g.IsRing i l) {n : ι}
    (hn : g.next i = some n) (hp : g.prev i = some p) :
    g.Removes ((g.link p n).clear i) i := by
  intro a t hai h
  have hnot := h.notMem_erase hai
  apply (h.unlink_erase hi hai hn hp).congr
  all_goals
    intro y hy
    have hne : y ≠ i := fun heq => hnot (heq ▸ hy)
    simp [clear, hne]

/-- Rings from which a node is taken out are rings. -/
theorem Rings.of_removes (h : g.Rings) (hremoves : g.Removes g' i)
    (hlive : ∀ a, g'.Live a → a ≠ i → g.Live a)
    (hi : g'.Live i → ∃ l, g'.IsRing i l) : g'.Rings := by
  intro a ha
  by_cases hai : a = i
  · subst hai
    exact hi ha
  · obtain ⟨l, hl⟩ := h a (hlive a ha hai)
    exact ⟨_, hremoves a l hai hl⟩

theorem Rings.link_self (h : g.Rings) {n : ι} (hn : g.next i = some n)
    (hp : g.prev i = some p) : ((g.link p n).link i i).Rings := by
  obtain ⟨l, hi⟩ := h i (Or.inr (by simp [hp]))
  apply h.of_removes (removes_link_self hi hn hp)
  · intro a ha hai
    rcases live_link ha with heq | heq | ha
    · exact absurd heq hai
    · exact absurd heq hai
    · rcases live_link ha with rfl | rfl | ha
      · exact hi.live_prev hp
      · exact hi.live_next hn
      · exact ha
  · exact fun _ => ⟨[], isRing_link_self _ i⟩

theorem Rings.clear (h : g.Rings) {n : ι} (hn : g.next i = some n)
    (hp : g.prev i = some p) : ((g.link p n).clear i).Rings := by
  obtain ⟨l, hi⟩ := h i (Or.inr (by simp [hp]))
  apply h.of_removes (removes_clear hi hn hp)
  · intro a ha hai
    rcases live_link (live_clear ha).2 with rfl | rfl | ha
    · exact hi.live_prev hp
    · exact hi.live_next hn
    · exact ha
  · intro ha
    exact absurd rfl (live_clear ha).1

/-- A ring that meets neither of two spliced rings stays. -/
theorem IsRing.splice_other (h : g.IsRing a t) (hi : g.IsRing i l)
    (hj : g.IsRing j m) (hia : i ∉ a :: t) (hja : j ∉ a :: t)
    (hp : g.prev i = some p) (hq : g.prev j = some q) :
    ((g.link p j).link q i).IsRing a t := by
  obtain ⟨p', hp', hpp⟩ := hi.exists_prev
  obtain rfl := Option.some.inj (hp.symm.trans hpp)
  obtain ⟨q', hq', hqq⟩ := hj.exists_prev
  obtain rfl := Option.some.inj (hq.symm.trans hqq)
  have hpa : p ∉ a :: t := fun hmem =>
    hia (h.mem_of_mem hi hmem hp' List.mem_cons_self)
  have hqa : q ∉ a :: t := fun hmem =>
    hja (h.mem_of_mem hj hmem hq' List.mem_cons_self)
  exact (h.link_of_notMem hpa hja).link_of_notMem hqa hia

theorem Rings.splice (h : g.Rings) (hi : g.IsRing i l) (hj : g.IsRing j m)
    (hjl : j ∉ i :: l) (hp : g.prev i = some p) (hq : g.prev j = some q) :
    ((g.link p j).link q i).Rings := by
  have hdisj : ∀ x ∈ i :: l, x ∉ j :: m := fun x hx hx' =>
    hjl (hi.mem_of_mem hj hx hx' List.mem_cons_self)
  have hwhole := hi.splice hj hdisj hp hq
  intro a ha
  have hlive : g.Live a := by
    rcases live_link ha with rfl | rfl | ha
    · exact hj.live_prev hq
    · exact hi.live List.mem_cons_self
    · rcases live_link ha with rfl | rfl | ha
      · exact hi.live_prev hp
      · exact hj.live List.mem_cons_self
      · exact ha
  obtain ⟨t, ht⟩ := h a hlive
  by_cases hia : i ∈ a :: t
  · have hmem := hi.mem_of_mem ht List.mem_cons_self hia List.mem_cons_self
    have hin : a ∈ i :: (l ++ j :: m) := by
      rcases List.mem_cons.mp hmem with rfl | hmem <;> simp [*]
    obtain ⟨u, hu, -⟩ := hwhole.exists_of_mem hin
    exact ⟨u, hu⟩
  · by_cases hja : j ∈ a :: t
    · have hmem := hj.mem_of_mem ht List.mem_cons_self hja List.mem_cons_self
      have hin : a ∈ i :: (l ++ j :: m) := by
        rcases List.mem_cons.mp hmem with rfl | hmem <;> simp [*]
      obtain ⟨u, hu, -⟩ := hwhole.exists_of_mem hin
      exact ⟨u, hu⟩
    · exact ⟨t, ht.splice_other hi hj hia hja hp hq⟩

/-- A ring that meets neither the node replaced nor the one that replaces it
stays. -/
theorem IsRing.replace_other (h : g.IsRing a t) (hi : g.IsRing i (x :: r))
    (hia : i ∉ a :: t) (hka : k ∉ a :: t) (hp : g.prev i = some p) :
    ((g.link k x).link p k).IsRing a t := by
  obtain ⟨p', hp', hpp⟩ := hi.exists_prev
  obtain rfl := Option.some.inj (hp.symm.trans hpp)
  have hpa : p ∉ a :: t := fun hmem =>
    hia (h.mem_of_mem hi hmem hp' List.mem_cons_self)
  have hxa : x ∉ a :: t := fun hmem =>
    hia (h.mem_of_mem hi hmem (by simp) List.mem_cons_self)
  exact (h.link_of_notMem hka hxa).link_of_notMem hpa hka

/-! ## A node in the place of another -/

/-- `k` is where `i` was, `i` is alone, and the other rings are the same. -/
structure Seats (g g' : Links ι) (k i : ι) : Prop where
  seat : ∀ t, g.IsRing i t → g'.IsRing k t
  left : g'.IsRing i []
  others : ∀ a t, g.IsRing a t → i ∉ a :: t → k ∉ a :: t → g'.IsRing a t

/-- A node that is alone is replaced by one that is alone. -/
theorem seats_alone (h : g.IsRing i []) (hki : k ≠ i) :
    Seats g ((g.link k k).link i i) k i := by
  refine ⟨fun t ht => ?_, isRing_link_self _ i, fun a t ht hia hka => ?_⟩
  · obtain rfl := h.unique ht
    have hik : i ∉ [k] := by simpa using hki.symm
    exact (isRing_link_self g k).link_of_notMem hik hik
  · exact (ht.link_of_notMem hka hka).link_of_notMem hia hia

theorem seats_replace (h : g.IsRing i (x :: r)) (hk : k ∉ i :: x :: r)
    (hp : g.prev i = some p) :
    Seats g (((g.link k x).link p k).link i i) k i := by
  refine ⟨fun t ht => ?_, isRing_link_self _ i, fun a t ht hia hka => ?_⟩
  · obtain rfl := h.unique ht
    have hik : i ∉ k :: x :: r := by
      intro hmem
      rcases List.mem_cons.mp hmem with rfl | hmem
      · exact hk List.mem_cons_self
      · exact (List.nodup_cons.mp h.nodup).1 hmem
    exact (h.replace hk hp).link_of_notMem hik hik
  · exact (ht.replace_other h hia hka hp).link_of_notMem hia hia

/-- The rings after a replacement, when all nodes but the new one were on
rings that it was not on. -/
theorem Seats.rings (h : Seats g g' k i) (hi : g.IsRing i t)
    (hlive : ∀ a, g'.Live a → a ≠ k → ∃ u, g.IsRing a u ∧ k ∉ a :: u) :
    g'.Rings := by
  intro a ha
  by_cases hak : a = k
  · exact ⟨t, hak ▸ h.seat t hi⟩
  · obtain ⟨u, hu, hku⟩ := hlive a ha hak
    by_cases hia : i ∈ a :: u
    · have hmem : a ∈ i :: t :=
        hi.mem_of_mem hu List.mem_cons_self hia List.mem_cons_self
      rcases List.mem_cons.mp hmem with rfl | hmem
      · exact ⟨[], h.left⟩
      · obtain ⟨v, hv, -⟩ :=
          (h.seat t hi).exists_of_mem (List.mem_cons_of_mem k hmem)
        exact ⟨v, hv⟩
    · exact ⟨u, h.others a u hu hia hku⟩

end Rings

end Links

end Yacul
