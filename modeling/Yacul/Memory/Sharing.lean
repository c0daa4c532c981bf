import Yacul.Memory.BufferBounds
import Yacul.Support.Roster
import Mathlib.Logic.Relation

/-!
# Shared storage

What buffers have to do with each other through their storage, without rings
and cursors: a list of counted physical buffers and a list of windows on them.
An `Edit` is one balanced change of windows and counts.  Every edit keeps the
reference ledger: the count of a physical buffer is the number of windows on
it, and it is destroyed when that number is zero.
-/

namespace Yacul
namespace Memory

/-- What a buffer sees: its storage, and where in it. -/
structure Window where
  physical : Option ℕ := none
  data : ℕ := 0
  length : ℕ := 0
deriving DecidableEq, Repr

def Buffer.window (b : Buffer) : Window := ⟨b.physical, b.data, b.length⟩

/-- Storage, and for each buffer object its window while it is alive. -/
structure Sharing where
  phys : List PhysicalBuffer
  windows : List (Option Window)

def State.sharing (s : State) : Sharing :=
  ⟨s.phys, s.bufs.map (Option.map Buffer.window)⟩

namespace Sharing

def window? (t : Sharing) (i : ℕ) : Option Window := t.windows[i]?.join

def setWindow (t : Sharing) (i : ℕ) (w : Window) : Sharing :=
  { t with windows := t.windows.set i (some w) }

def push (t : Sharing) (w : Window) : Sharing :=
  { t with windows := t.windows ++ [some w] }

def erase (t : Sharing) (i : ℕ) : Sharing :=
  { t with windows := t.windows.set i none }

/-- Change the storage `o` refers to, if any. -/
def update (t : Sharing) (o : Option ℕ)
    (f : PhysicalBuffer → PhysicalBuffer) : Sharing :=
  match o with
  | none => t
  | some p => { t with phys := t.phys.modify p f }

def alloc (t : Sharing) (ph : PhysicalBuffer) : Sharing :=
  { t with phys := t.phys ++ [ph] }

/-- `1` if `o` refers to storage `p`. -/
def hit (o : Option ℕ) (p : ℕ) : ℕ := (decide (o = some p)).toNat

/-- The slot holds a window on storage `p`. -/
def refersTo (p : ℕ) (slot : Option Window) : Bool :=
  slot.any fun w => w.physical = some p

/-- The number of windows on storage `p`. -/
def refs (t : Sharing) (p : ℕ) : ℕ := t.windows.countP (refersTo p)

/-- No storage has as many windows as a reference count can tell apart. -/
def Fits (t : Sharing) : Prop := ∀ p, t.refs p < UInt32.size

end Sharing

/-- Storage as it is before anybody shares it. -/
structure PhysicalBuffer.Fresh (ph : PhysicalBuffer) : Prop where
  count : ph.refCount = 1
  alive : ph.destroyed = false
  unfreed : ph.freed = 0
  size : ph.capacity < sizeLimit

open Sharing in
/-- The balanced changes. -/
inductive Edit : Sharing → Sharing → Prop
  /-- A buffer without storage appears. -/
  | add (t : Sharing) : Edit t (t.push {})
  /-- A buffer appears with storage of its own. -/
  | create {t : Sharing} {ph : PhysicalBuffer} (hph : ph.Fresh)
      (data length : ℕ) :
      Edit t ((t.alloc ph).push ⟨some t.phys.length, data, length⟩)
  /-- A buffer appears on the storage of buffer `i`. -/
  | share {t : Sharing} {i : ℕ} {w : Window} (hw : t.window? i = some w)
      (data length : ℕ)
      (hfits : ((t.update w.physical PhysicalBuffer.retain).push
        ⟨w.physical, data, length⟩).Fits) :
      Edit t ((t.update w.physical PhysicalBuffer.retain).push
        ⟨w.physical, data, length⟩)
  /-- A new buffer takes the window of buffer `i`. -/
  | transfer {t : Sharing} {i : ℕ} {w : Window}
      (hw : t.window? i = some w) : Edit t ((t.push w).setWindow i {})
  /-- Buffer `i` gives up its storage. -/
  | drop {t : Sharing} {i : ℕ} {w : Window} (hw : t.window? i = some w) :
      Edit t ((t.update w.physical PhysicalBuffer.release).setWindow i
        { w with physical := none })
  /-- Buffer `i`, which has no storage, joins buffer `j`. -/
  | join {t : Sharing} {i j : ℕ} {w v : Window}
      (hw : t.window? i = some w) (hnone : w.physical = none)
      (hv : t.window? j = some v)
      (hfits : ((t.update v.physical PhysicalBuffer.retain).setWindow i
        v).Fits) :
      Edit t ((t.update v.physical PhysicalBuffer.retain).setWindow i v)
  /-- Buffer `i`, which has no storage, takes over from buffer `j`. -/
  | takeOver {t : Sharing} {i j : ℕ} {w v : Window} (hne : i ≠ j)
      (hw : t.window? i = some w) (hnone : w.physical = none)
      (hv : t.window? j = some v) :
      Edit t ((t.setWindow i v).setWindow j {})
  /-- Buffer `i`, which has no storage, disappears. -/
  | vanish {t : Sharing} {i : ℕ} {w : Window} (hw : t.window? i = some w)
      (hnone : w.physical = none) : Edit t (t.erase i)
  /-- Buffer `i` gets storage of its own in place of what it had. -/
  | replace {t : Sharing} {i : ℕ} {w : Window} {ph : PhysicalBuffer}
      (hw : t.window? i = some w) (hph : ph.Fresh) (data : ℕ) :
      Edit t (((t.alloc ph).update w.physical
        PhysicalBuffer.release).setWindow i
          ⟨some t.phys.length, data, w.length⟩)
  /-- The window of buffer `i` moves inside its storage. -/
  | reframe {t : Sharing} {i : ℕ} {w : Window} (hw : t.window? i = some w)
      (data length : ℕ) :
      Edit t (t.setWindow i ⟨w.physical, data, length⟩)
  /-- Bytes are stored. -/
  | store (t : Sharing) (o : Option ℕ) (pos : ℕ) (src : ℕ → UInt8)
      (len : ℕ) : Edit t (t.update o fun ph => ph.store pos src len)

/-! ## Counting windows -/

namespace Sharing

variable {t : Sharing} {i : ℕ} {w : Window}

theorem getElem?_of_window? (hw : t.window? i = some w) :
    t.windows[i]? = some (some w) :=
  Option.join_eq_some_iff.mp hw

theorem refersTo_some (w : Window) (p : ℕ) :
    (refersTo p (some w)).toNat = hit w.physical p := rfl

@[simp] theorem refs_update (t : Sharing) (o : Option ℕ)
    (f : PhysicalBuffer → PhysicalBuffer) : (t.update o f).refs = t.refs := by
  cases o <;> rfl

@[simp] theorem refs_alloc (t : Sharing) (ph : PhysicalBuffer) :
    (t.alloc ph).refs = t.refs := rfl

@[simp] theorem window?_update (t : Sharing) (o : Option ℕ)
    (f : PhysicalBuffer → PhysicalBuffer) :
    (t.update o f).window? = t.window? := by
  cases o <;> rfl

@[simp] theorem window?_alloc (t : Sharing) (ph : PhysicalBuffer) :
    (t.alloc ph).window? = t.window? := rfl

theorem refs_push (t : Sharing) (w : Window) (p : ℕ) :
    (t.push w).refs p = t.refs p + hit w.physical p := by
  rw [refs, push, List.countP_append, List.countP_singleton, ← refersTo_some]
  cases refersTo p (some w) <;> rfl

theorem refs_setWindow (hw : t.window? i = some w) (v : Window) (p : ℕ) :
    hit w.physical p + (t.setWindow i v).refs p =
      hit v.physical p + t.refs p := by
  have hset := Roster.countP_set_add (p := refersTo p)
    (getElem?_of_window? hw) (some v)
  rwa [refersTo_some, refersTo_some] at hset

theorem refs_erase (hw : t.window? i = some w) (p : ℕ) :
    hit w.physical p + (t.erase i).refs p = t.refs p := by
  have hset := Roster.countP_set_add (p := refersTo p)
    (getElem?_of_window? hw) none
  rw [refersTo_some] at hset
  exact hset.trans (Nat.zero_add _)

theorem refs_pos (hw : t.window? i = some w) {p : ℕ}
    (hp : w.physical = some p) : 0 < t.refs p := by
  have hset := refs_setWindow hw {} p
  have hone : hit w.physical p = 1 := by simp [hit, hp]
  have hzero : hit (none : Option ℕ) p = 0 := by simp [hit]
  have : hit ({} : Window).physical p = 0 := hzero
  omega

theorem window?_setWindow (hw : t.window? i = some w) (v : Window) (j : ℕ) :
    (t.setWindow i v).window? j = if j = i then some v else t.window? j := by
  have hlt := (List.getElem?_eq_some_iff.mp (getElem?_of_window? hw)).1
  by_cases hj : j = i
  · subst hj
    simp [window?, setWindow, hlt]
  · simp [window?, setWindow, hj, List.getElem?_set_ne (Ne.symm hj)]

theorem window?_push (t : Sharing) (w : Window) {j : ℕ} {v : Window}
    (hv : t.window? j = some v) : (t.push w).window? j = some v := by
  have hget := Roster.getElem?_append (getElem?_of_window? hv) [some w]
  rw [window?, push, hget, Option.join_some]

theorem phys_update (t : Sharing) (o : Option ℕ)
    (f : PhysicalBuffer → PhysicalBuffer) (q : ℕ) :
    (t.update o f).phys[q]? =
      if o = some q then t.phys[q]?.map f else t.phys[q]? := by
  cases o with
  | none => rfl
  | some p =>
      simp only [update, List.getElem?_modify, Option.some.injEq]
      split_ifs <;> simp

theorem phys_alloc (t : Sharing) (ph : PhysicalBuffer) (q : ℕ) :
    (t.alloc ph).phys[q]? =
      if q = t.phys.length then some ph else t.phys[q]? := by
  by_cases hq : q = t.phys.length
  · simp [alloc, hq]
  · rw [if_neg hq]
    by_cases hlt : q < t.phys.length
    · rw [alloc, List.getElem?_append_left hlt]
    · have hge : t.phys.length < q := by omega
      rw [List.getElem?_eq_none (by simp [alloc]; omega),
        List.getElem?_eq_none (by omega)]

end Sharing

/-! ## The ledger -/

/-- The record of a physical buffer with `n` windows on it. -/
structure PhysicalBuffer.Counts (ph : PhysicalBuffer) (n : ℕ) : Prop where
  count : ph.refCount.toNat = n
  destroyed : ph.destroyed = true ↔ n = 0
  freed : ph.freed =
    if ph.destroyed && ph.external && ph.freeFn then 1 else 0
  size : ph.capacity < sizeLimit

/-- Storage that does not exist has no windows on it. -/
def Balanced (slot : Option PhysicalBuffer) (n : ℕ) : Prop :=
  match slot with
  | none => n = 0
  | some ph => ph.Counts n

/-- The count of every physical buffer is the number of windows on it. -/
def Sharing.Ledger (t : Sharing) : Prop :=
  ∀ p, Balanced t.phys[p]? (t.refs p)

theorem PhysicalBuffer.Fresh.counts {ph : PhysicalBuffer} (h : ph.Fresh) :
    ph.Counts 1 where
  count := by rw [h.count]; rfl
  destroyed := by simp [h.alive]
  freed := by simp [h.alive, h.unfreed]
  size := h.size

theorem Balanced.retain {slot : Option PhysicalBuffer} {n : ℕ}
    (h : Balanced slot n) (hpos : 0 < n) (hlt : n + 1 < UInt32.size) :
    Balanced (slot.map PhysicalBuffer.retain) (n + 1) := by
  cases slot with
  | none => exact absurd h hpos.ne'
  | some ph =>
      obtain ⟨hcount, hdestroyed, hfreed, hsize⟩ := h
      refine ⟨?_, ?_, hfreed, hsize⟩
      · show (ph.refCount + 1).toNat = n + 1
        rw [UInt32.toNat_add, hcount]
        exact Nat.mod_eq_of_lt hlt
      · show ph.destroyed = true ↔ n + 1 = 0
        rw [hdestroyed]
        omega

theorem Balanced.release {slot : Option PhysicalBuffer} {n : ℕ}
    (h : Balanced slot (n + 1)) :
    Balanced (slot.map PhysicalBuffer.release) n := by
  cases slot with
  | none => exact absurd h (Nat.succ_ne_zero n)
  | some ph =>
      obtain ⟨hcount, hdestroyed, hfreed, hsize⟩ := h
      have halive : ph.destroyed = false := by
        rw [← Bool.not_eq_true, hdestroyed]
        exact Nat.succ_ne_zero n
      rw [halive] at hfreed
      simp only [Bool.false_and, Bool.false_eq_true, if_false] at hfreed
      by_cases hone : ph.refCount = 1
      · have hzero : n = 0 := by
          rw [hone] at hcount
          simp at hcount
          omega
        subst hzero
        simp only [Option.map_some, PhysicalBuffer.release, if_pos hone]
        refine ⟨rfl, by simp, ?_, hsize⟩
        show ph.freed + _ = _
        rw [hfreed]
        simp
      · simp only [Option.map_some, PhysicalBuffer.release, if_neg hone]
        have hpos : 0 < n := by
          rcases Nat.eq_zero_or_pos n with hzero | hpos
          · subst hzero
            exact absurd (UInt32.toNat_inj.mp hcount) hone
          · exact hpos
        refine ⟨?_, ?_, ?_, hsize⟩
        · show (ph.refCount - 1).toNat = n
          rw [UInt32.toNat_sub_of_le]
          · rw [hcount]
            rfl
          · rw [UInt32.le_iff_toNat_le, hcount]
            exact Nat.succ_le_succ (Nat.zero_le n)
        · show ph.destroyed = true ↔ n = 0
          rw [halive]
          simp [hpos.ne']
        · show ph.freed = _
          simp [hfreed, halive]

theorem Balanced.store {slot : Option PhysicalBuffer} {n : ℕ}
    (h : Balanced slot n) (pos : ℕ) (src : ℕ → UInt8) (len : ℕ) :
    Balanced (slot.map fun ph => ph.store pos src len) n := by
  cases slot with
  | none => exact h
  | some ph => exact ⟨h.count, h.destroyed, h.freed, h.size⟩

section Edits

open Sharing

variable {t t' : Sharing}

theorem Sharing.Ledger.window_lt (h : t.Ledger) {i p : ℕ} {w : Window}
    (hw : t.window? i = some w) (hp : w.physical = some p) :
    ∃ ph, t.phys[p]? = some ph ∧ ph.destroyed = false := by
  have hpos := refs_pos hw hp
  have hbal := h p
  cases hph : t.phys[p]? with
  | none =>
      rw [hph] at hbal
      exact absurd hbal hpos.ne'
  | some ph =>
      rw [hph] at hbal
      refine ⟨ph, rfl, ?_⟩
      rw [← Bool.not_eq_true, hbal.destroyed]
      exact hpos.ne'

/-- A change of counts and windows that agree at every storage. -/
theorem Sharing.Ledger.of_hit (h : t.Ledger) {o : Option ℕ}
    (hhit : ∀ q, o = some q → Balanced t'.phys[q]? (t'.refs q))
    (hmiss : ∀ q, o ≠ some q →
      t'.phys[q]? = t.phys[q]? ∧ t'.refs q = t.refs q) : t'.Ledger := by
  intro q
  by_cases ho : o = some q
  · exact hhit q ho
  · obtain ⟨hphys, hrefs⟩ := hmiss q ho
    rw [hphys, hrefs]
    exact h q

theorem hit_of_eq {o : Option ℕ} {q : ℕ} (h : o = some q) : hit o q = 1 := by
  simp [hit, h]

theorem hit_of_ne {o : Option ℕ} {q : ℕ} (h : o ≠ some q) : hit o q = 0 := by
  simp [hit, h]

@[simp] theorem hit_none (q : ℕ) : hit none q = 0 := rfl

theorem Sharing.Ledger.refs_new (h : t.Ledger) :
    t.refs t.phys.length = 0 := by
  have hbal := h t.phys.length
  rw [List.getElem?_eq_none (Nat.le_refl _)] at hbal
  exact hbal

theorem Sharing.Ledger.physical_ne_new (h : t.Ledger) {i : ℕ} {w : Window}
    (hw : t.window? i = some w) : w.physical ≠ some t.phys.length := by
  intro hp
  exact (refs_pos hw hp).ne' h.refs_new

/-- One edit keeps the ledger. -/
theorem Edit.ledger (hedit : Edit t t') (h : t.Ledger) : t'.Ledger := by
  cases hedit with
  | add =>
      intro q
      rw [refs_push]
      exact h q
  | create hph data length =>
      apply h.of_hit (o := some t.phys.length)
      · intro q hq
        obtain rfl := Option.some.inj hq
        rw [refs_push, refs_alloc, h.refs_new, hit_of_eq rfl]
        show Balanced (t.alloc _).phys[t.phys.length]? 1
        rw [phys_alloc, if_pos rfl]
        exact hph.counts
      · intro q hq
        rw [refs_push, refs_alloc, hit_of_ne hq]
        refine ⟨?_, rfl⟩
        show (t.alloc _).phys[q]? = t.phys[q]?
        rw [phys_alloc, if_neg (fun heq => hq (congrArg some heq.symm))]
  | @share i w hw data length hfits =>
      apply h.of_hit (o := w.physical)
      · intro q hq
        have hlt := hfits q
        rw [refs_push, refs_update, hit_of_eq hq] at hlt ⊢
        show Balanced (t.update _ _).phys[q]? _
        rw [phys_update, if_pos hq]
        exact (h q).retain (refs_pos hw hq) hlt
      · intro q hq
        rw [refs_push, refs_update, hit_of_ne hq]
        refine ⟨?_, rfl⟩
        show (t.update _ _).phys[q]? = _
        rw [phys_update, if_neg hq]
  | @transfer i w hw =>
      intro q
      have hset := refs_setWindow (window?_push t w hw) {} q
      rw [refs_push, hit_none] at hset
      have hrefs : ((t.push w).setWindow i {}).refs q = t.refs q := by omega
      rw [hrefs]
      exact h q
  | @drop i w hw =>
      have hset := fun q => refs_setWindow (t := t.update w.physical
        PhysicalBuffer.release) (by simpa using hw)
        { w with physical := none } q
      simp only [refs_update, hit_none] at hset
      apply h.of_hit (o := w.physical)
      · intro q hq
        have hq' := hset q
        rw [hit_of_eq hq] at hq'
        show Balanced (t.update _ _).phys[q]? _
        rw [phys_update, if_pos hq]
        apply Balanced.release
        have hbal := h q
        rwa [show t.refs q = _ + 1 by rw [← Nat.zero_add (t.refs q), ← hq',
          Nat.add_comm]] at hbal
      · intro q hq
        have hq' := hset q
        rw [hit_of_ne hq] at hq'
        refine ⟨?_, by omega⟩
        show (t.update _ _).phys[q]? = _
        rw [phys_update, if_neg hq]
  | @join i j w v hw hnone hv hfits =>
      have hset := fun q => refs_setWindow (t := t.update v.physical
        PhysicalBuffer.retain) (by simpa using hw) v q
      simp only [refs_update, hnone, hit_none, Nat.zero_add] at hset
      apply h.of_hit (o := v.physical)
      · intro q hq
        have hlt := hfits q
        rw [hset, hit_of_eq hq, Nat.add_comm] at hlt ⊢
        show Balanced (t.update _ _).phys[q]? _
        rw [phys_update, if_pos hq]
        exact (h q).retain (refs_pos hv hq) hlt
      · intro q hq
        rw [hset, hit_of_ne hq, Nat.zero_add]
        refine ⟨?_, rfl⟩
        show (t.update _ _).phys[q]? = _
        rw [phys_update, if_neg hq]
  | @takeOver i j w v hne hw hnone hv =>
      intro q
      have hfirst := refs_setWindow hw v q
      have hv' : (t.setWindow i v).window? j = some v := by
        rw [window?_setWindow hw, if_neg (Ne.symm hne), hv]
      have hsecond := refs_setWindow hv' {} q
      rw [hnone, hit_none] at hfirst
      rw [hit_none] at hsecond
      have hrefs : ((t.setWindow i v).setWindow j {}).refs q = t.refs q := by
        omega
      rw [hrefs]
      exact h q
  | @vanish i w hw hnone =>
      intro q
      have herase := refs_erase hw q
      rw [hnone, hit_none, Nat.zero_add] at herase
      rw [herase]
      exact h q
  | @replace i w ph hw hph data =>
      have hset := fun q => refs_setWindow (t := (t.alloc ph).update
        w.physical PhysicalBuffer.release) (by simpa using hw)
        ⟨some t.phys.length, data, w.length⟩ q
      simp only [refs_update, refs_alloc] at hset
      have hnew := h.physical_ne_new hw
      have hphys : ∀ q, ((t.alloc ph).update w.physical
          PhysicalBuffer.release).phys[q]? =
          if w.physical = some q then
            t.phys[q]?.map PhysicalBuffer.release
          else if q = t.phys.length then some ph else t.phys[q]? := by
        intro q
        rw [phys_update, phys_alloc]
        split_ifs with hq heq
        · exact absurd (heq ▸ hq) hnew
        · rfl
        · rfl
        · rfl
      intro q
      have hq' := hset q
      show Balanced ((t.alloc ph).update _ _).phys[q]? _
      rw [hphys]
      split_ifs with hq heq
      · -- The storage given up.
        have hne : some t.phys.length ≠ some q := fun heq =>
          hnew (hq.trans heq.symm)
        rw [hit_of_eq hq, hit_of_ne hne] at hq'
        apply Balanced.release
        have hbal := h q
        rwa [show t.refs q = _ + 1 by rw [← Nat.zero_add (t.refs q), ← hq',
          Nat.add_comm]] at hbal
      · -- The new storage.
        subst heq
        rw [hit_of_ne hq, hit_of_eq rfl, h.refs_new] at hq'
        rw [Nat.zero_add] at hq'
        rw [hq']
        exact hph.counts
      · have hne : some t.phys.length ≠ some q := fun h' =>
          heq (Option.some.inj h').symm
        rw [hit_of_ne hq, hit_of_ne hne, Nat.zero_add, Nat.zero_add] at hq'
        rw [hq']
        exact h q
  | @reframe i w hw data length =>
      intro q
      have hset := refs_setWindow hw ⟨w.physical, data, length⟩ q
      have hrefs := Nat.add_left_cancel hset
      rw [hrefs]
      exact h q
  | store o pos src len =>
      intro q
      rw [refs_update, phys_update]
      split_ifs
      · exact (h q).store pos src len
      · exact h q

theorem ledger_of_edits (hedits : Relation.ReflTransGen Edit t t')
    (h : t.Ledger) : t'.Ledger := by
  induction hedits with
  | refl => exact h
  | tail _ hedit ih => exact hedit.ledger ih

end Edits

end Memory
end Yacul
