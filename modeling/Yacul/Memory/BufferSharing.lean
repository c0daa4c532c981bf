import Yacul.Memory.BufferSolo

/-!
# When sharing is observable

Detaching from shared storage copies the bytes of the view only.  A buffer
that trims, detaches and exposes the trimmed bytes again therefore reads bytes
that nobody has stored, where a buffer that was never shared reads the old
ones.  The main theorem says exactly for which operations this happens.
-/

namespace Yacul
namespace Memory

/-- Buffer `i` and its storage, as far as its own operations see them. -/
def Shows (i : ℕ) (s : State) (o : Solo UInt8) : Prop :=
  ∃ b p ph, s.buf? i = some b ∧ b.physical = some p ∧
    s.phys[p]? = some ph ∧
    o = ⟨decide (1 < ph.refCount), ph.capacity, b.data, b.length,
      s.phys.length, ph.bytes⟩

section Simulation

variable {uninit : ℕ → ℕ → UInt8} {s : State} {i : ℕ} {b : Buffer}
  {o : Solo UInt8}

/-! ## What a buffer shows -/

/-- The observers of a buffer read off what it shows. -/
structure Showing (s : State) (b : Buffer) (o : Solo UInt8) : Prop where
  shared : isShared s b = o.shared
  capacity : capacity s b = o.capacity
  headroom : headroom b = o.data
  data : b.data = o.data
  length : b.length = o.length
  allocs : s.phys.length = o.allocs
  tailroom : tailroom s b = o.tailroom
  view : ∀ k, s.view b k = o.bytes (o.data + k)

theorem Shows.showing (h : Shows i s o) (hb : s.buf? i = some b) :
    Showing s b o := by
  obtain ⟨c, p, ph, hc, hp, hph, rfl⟩ := h
  obtain rfl := Option.some.inj (hc.symm.trans hb)
  have hsome : c.physical ≠ none := by simp [hp]
  have hstorage : s.storage c = some ph := by
    rw [State.storage, hp, Option.bind_some, hph]
  have hcap : Memory.capacity s c = ph.capacity := by
    rw [Memory.capacity, hstorage]
    rfl
  have hhead : Memory.headroom c = c.data := if_neg hsome
  refine ⟨?_, hcap, hhead, rfl, rfl, rfl, ?_, fun k => ?_⟩
  · rw [isShared, hstorage]
    rfl
  · rw [Memory.tailroom, if_neg hsome, hcap, hhead]
    rfl
  · simp [State.view, hp, hph]

/-- Only the view of the buffer moves. -/
theorem Shows.setBuf (h : Shows i s o) (hb : s.buf? i = some b)
    (data length : ℕ) :
    Shows i (s.setBuf i { b with data := data, length := length })
      { o with data := data, length := length } := by
  obtain ⟨d, p, ph, hd, hp, hph, rfl⟩ := h
  obtain rfl := Option.some.inj (hd.symm.trans hb)
  refine ⟨{ d with data := data, length := length }, p, ph, ?_, hp, hph, rfl⟩
  rw [buf?_setBuf hb, if_pos rfl]

theorem Shows.storeAt (h : Shows i s o) (hb : s.buf? i = some b) (pos : ℕ)
    (src : ByteBuffer) :
    Shows i (s.storeAt b pos (fun k => src.getD k 0) src.length)
      (o.store id pos src) := by
  obtain ⟨d, p, ph, hd, hp, hph, rfl⟩ := h
  obtain rfl := Option.some.inj (hd.symm.trans hb)
  refine ⟨d, p, ph.store (d.data + pos) (fun k => src.getD k 0) src.length,
    (buf?_storeAt s d _ _ _ i).trans hb, hp, ?_, ?_⟩
  · simp [State.storeAt, hp, State.modifyPhys, hph]
  · simp [State.storeAt, hp, State.modifyPhys, Solo.store,
      PhysicalBuffer.store]

theorem exists_replaceStorage (uninit : ℕ → ℕ → UInt8) (hb : s.buf? i = some b) {cap : ℕ}
    (hcap : cap < sizeLimit) :
    ∃ s', replaceStorage uninit s i b cap = some s' := by
  generalize hs₁ : State.modifyPhys { s with phys := s.phys ++
      [{ refCount := 1, capacity := cap, bytes := uninit s.phys.length }] }
    s.phys.length
    (fun ph => ph.store (headroom b) (s.view b) b.length) = s₁
  have hb₁ : s₁.buf? i = some b := by
    rw [← hs₁]
    exact hb
  obtain ⟨s₂, hs₂⟩ : ∃ s₂, releasePhysical s₁ i = some s₂ := by
    rw [releasePhysical, hb₁]
    exact ⟨_, rfl⟩
  obtain ⟨-, c, -, hbufs⟩ := releasePhysical_eq_some hs₂
  have hb₂ := hbufs i
  rw [if_pos rfl] at hb₂
  refine ⟨s₂.setBuf i { c with
    physical := some s.phys.length
    data := headroom b }, ?_⟩
  simp [replaceStorage, createPhysical, hcap, hs₁, hs₂, State.modifyBuf, hb₂]

/-- Replacing the storage, seen from the buffer. -/
theorem Shows.replace (h : Shows i s o) (hb : s.buf? i = some b) (cap : ℕ) :
    Option.Rel (Shows i) (replaceStorage uninit s i b cap)
      (o.replace uninit cap) := by
  have hshow := h.showing hb
  by_cases hcap : cap < sizeLimit
  · obtain ⟨s', hs'⟩ := exists_replaceStorage uninit hb hcap
    obtain ⟨-, heq⟩ := sharing_replaceStorage hb hs'
    have hreplace : o.replace uninit cap = some
        { shared := false, capacity := cap, data := o.data,
          length := o.length, allocs := o.allocs + 1,
          bytes := fun k =>
            if o.data ≤ k ∧ k < o.data + o.length then o.bytes k
            else uninit o.allocs k } := if_pos hcap
    rw [hs', hreplace]
    refine .some ?_
    obtain ⟨c, p, ph, hc, hp, hph, -⟩ := h
    obtain rfl := Option.some.inj (hc.symm.trans hb)
    have hlt := (List.getElem?_eq_some_iff.mp hph).1
    have hw := window?_of_buf? hb
    have hself := Sharing.window?_setWindow (i := i) (w := c.window)
      (t := (s.sharing.alloc (replacement uninit s c cap)).update c.physical
        PhysicalBuffer.release)
      (by rw [Sharing.window?_update, Sharing.window?_alloc, hw])
      ⟨some s.phys.length, headroom c, c.length⟩ i
    rw [if_pos rfl, ← heq, window?_sharing] at hself
    obtain ⟨d, hd, hdw⟩ := Option.map_eq_some_iff.mp hself
    have hphys : s'.phys = (s.phys ++ [replacement uninit s c cap]).modify p
        PhysicalBuffer.release := by
      have hcongr := congrArg Sharing.phys heq
      rw [hp] at hcongr
      exact hcongr
    refine ⟨d, s.phys.length, replacement uninit s c cap, hd,
      congrArg Window.physical hdw, ?_, ?_⟩
    · simp [hphys, Nat.ne_of_lt hlt]
    · have hdata : d.data = o.data :=
        (congrArg Window.data hdw).trans hshow.headroom
      have hlength : d.length = o.length :=
        (congrArg Window.length hdw).trans hshow.length
      have hallocs : s'.phys.length = o.allocs + 1 := by
        rw [hphys, List.length_modify, ← hshow.allocs]
        simp
      rw [hdata, hlength, hallocs]
      congr
      funext k
      simp only [replacement, PhysicalBuffer.store, hshow.headroom,
        hshow.length, hshow.view, hshow.allocs]
      split_ifs with hk
      · rw [Nat.add_sub_cancel' hk.1]
      · rfl
  · have hnone : replaceStorage uninit s i b cap = none := by
      simp [replaceStorage, createPhysical, hcap]
    have hnone' : o.replace uninit cap = none := if_neg hcap
    rw [hnone, hnone']
    exact .none

/-- Related partial results, continued. -/
theorem rel_bind {α β γ δ : Type} {R : α → β → Prop} {R' : γ → δ → Prop}
    {x : Option α} {y : Option β} (h : Option.Rel R x y) {f : α → Option γ}
    {g : β → Option δ} (hfg : ∀ a b, R a b → Option.Rel R' (f a) (g b)) :
    Option.Rel R' (x.bind f) (y.bind g) := by
  cases h with
  | some hab => exact hfg _ _ hab
  | none => exact .none

theorem rel_map {α β γ δ : Type} {R : α → β → Prop} {R' : γ → δ → Prop}
    {x : Option α} {y : Option β} (h : Option.Rel R x y) {f : α → γ}
    {g : β → δ} (hfg : ∀ a b, R a b → R' (f a) (g b)) :
    Option.Rel R' (x.map f) (y.map g) := by
  cases h with
  | some hab => exact .some (hfg _ _ hab)
  | none => exact .none

theorem Shows.exists_buf? (h : Shows i s o) : ∃ b, s.buf? i = some b := by
  obtain ⟨b, p, ph, hb, -⟩ := h
  exact ⟨b, hb⟩

theorem Shows.cowDetach (h : Shows i s o) :
    Option.Rel (Shows i) (cowDetach uninit s i) (o.cowDetach uninit) := by
  obtain ⟨b, hb⟩ := h.exists_buf?
  have hshow := h.showing hb
  simp only [Memory.cowDetach, Solo.cowDetach, hb, Option.bind_eq_bind,
    Option.bind_some, hshow.shared, hshow.capacity]
  split_ifs
  · exact h.replace hb o.capacity
  · exact .some h

theorem Shows.ensureTailroom (h : Shows i s o) (n : ℕ) :
    Option.Rel (Shows i) (ensureTailroom uninit s i n)
      (o.ensureTailroom uninit n) := by
  obtain ⟨b, hb⟩ := h.exists_buf?
  have hshow := h.showing hb
  by_cases hroom : (!o.shared && n ≤ o.tailroom) = true
  · have hstay : reallocates s b n = false := by
      rw [reallocates, hshow.shared, hshow.tailroom, hroom]
      rfl
    simp only [Memory.ensureTailroom, hb, Option.bind_eq_bind,
      Option.bind_some, hstay, Solo.ensureTailroom, if_pos hroom]
    exact .some h
  · have hmove : reallocates s b n = true := by
      rw [reallocates, hshow.shared, hshow.tailroom,
        Bool.not_eq_true _ |>.mp hroom]
      rfl
    simp only [Memory.ensureTailroom, hb, Option.bind_eq_bind,
      Option.bind_some, hmove, if_true, Solo.ensureTailroom, if_neg hroom]
    have hcap : newCapacity b n = max (addSize o.length n)
        (addSize (mulSize (addSize o.length n) 3 / 2) 64) := by
      rw [newCapacity, hshow.length]
    rw [hcap]
    exact h.replace hb _

/-- An operation and what it reads, seen from the buffer. -/
theorem Shows.apply (uninit : ℕ → ℕ → UInt8) (h : Shows i s o)
    (op : SoloOp) :
    Option.Rel (fun x y => Shows i x.1 y.1 ∧ x.2 = y.2)
      (op.apply uninit s i) (o.step id uninit op) := by
  obtain ⟨b, hb⟩ := h.exists_buf?
  have hshow := h.showing hb
  cases op with
  | trimStart n =>
      simp only [SoloOp.apply, trimStart, hb, Option.bind_eq_bind,
        Option.bind_some, hshow.length, hshow.data, Solo.step]
      split_ifs
      · exact .some ⟨h.setBuf hb _ _, rfl⟩
      · exact .none
  | trimEnd n =>
      simp only [SoloOp.apply, trimEnd, hb, Option.bind_eq_bind,
        Option.bind_some, hshow.length, hshow.data, Solo.step]
      split_ifs
      · exact .some ⟨h.setBuf hb _ _, rfl⟩
      · exact .none
  | prepend n =>
      simp only [SoloOp.apply, prepend, hb, Option.bind_eq_bind,
        Option.bind_some, hshow.length, hshow.headroom, hshow.data,
        Solo.step]
      split_ifs
      · exact .some ⟨h.setBuf hb _ _, rfl⟩
      · exact .none
  | append n =>
      simp only [SoloOp.apply, append, hb, Option.bind_eq_bind,
        Option.bind_some, hshow.length, hshow.data, hshow.tailroom,
        Solo.step]
      split_ifs
      · exact .some ⟨h.setBuf hb _ _, rfl⟩
      · exact .none
  | ensureTailroom n =>
      exact rel_map (h.ensureTailroom n) fun _ _ h' => ⟨h', rfl⟩
  | appendData src =>
      simp only [SoloOp.apply, Memory.appendData, Option.bind_eq_bind,
        Solo.step, Option.map_eq_bind, Option.bind_assoc]
      refine rel_bind (h.ensureTailroom src.length) fun s' o' h' => ?_
      obtain ⟨b', hb'⟩ := h'.exists_buf?
      have hshow' := h'.showing hb'
      have hstore := h'.storeAt hb' b'.length src
      rw [hshow'.length] at hstore
      have hbuf := (buf?_storeAt s' b' o'.length (fun k => src.getD k 0)
        src.length i).trans hb'
      simp only [hb', Option.bind_some, Function.comp, hshow'.length,
        hshow'.data]
      exact .some ⟨hstore.setBuf hbuf _ _, rfl⟩
  | write pos src =>
      simp only [SoloOp.apply, writableData, Option.bind_eq_bind,
        Solo.step, Option.map_eq_bind, Option.bind_assoc]
      refine rel_bind h.cowDetach fun s' o' h' => ?_
      obtain ⟨b', hb'⟩ := h'.exists_buf?
      have hshow' := h'.showing hb'
      simp only [hb', Option.bind_some, hshow'.length]
      split_ifs
      · exact .some ⟨h'.storeAt hb' pos src, rfl⟩
      · exact .none
  | read =>
      simp only [SoloOp.apply, hb, Option.map_some, Solo.step]
      refine .some ⟨h, ?_⟩
      rw [toBytes, hshow.length]
      exact List.map_congr_left fun k _ => hshow.view k

/-- The reads of a buffer are those of what it shows. -/
theorem Shows.readsOf (h : Shows i s o) (ops : List SoloOp) :
    readsOf uninit s i ops = o.reads id uninit ops := by
  induction ops generalizing s o with
  | nil => rfl
  | cons op ops ih =>
      have happly := h.apply uninit op
      simp only [Memory.readsOf, Solo.reads, Option.bind_eq_bind]
      cases hx : op.apply uninit s i with
      | none =>
          rw [hx] at happly
          cases hy : o.step id uninit op with
          | none => rfl
          | some y => rw [hy] at happly; cases happly
      | some x =>
          rw [hx] at happly
          cases hy : o.step id uninit op with
          | none => rw [hy] at happly; cases happly
          | some y =>
              rw [hy] at happly
              obtain ⟨h', hout⟩ : Shows i x.1 y.1 ∧ x.2 = y.2 := by
                cases happly with
                | some h' => exact h'
              rw [Option.bind_some, Option.bind_some, ih h', hout]

end Simulation

/-! ## Shared and unshared runs -/

/-- Buffer `i₁` on shared storage and buffer `i₂` on storage of its own have
the same view on the same bytes. -/
structure SameStart (s₁ s₂ : State) (i₁ i₂ capacity data length : ℕ) :
    Prop where
  exists_bytes : ∃ allocs₁ allocs₂ bytes,
    Shows i₁ s₁ ⟨true, capacity, data, length, allocs₁, bytes⟩ ∧
    Shows i₂ s₂ ⟨false, capacity, data, length, allocs₂, bytes⟩

/-- Whatever memory the two runs are given, if no check fails in either, they
read the same. -/
def Unobservable (s₁ s₂ : State) (i₁ i₂ : ℕ) (ops : List SoloOp) : Prop :=
  ∀ uninit₁ uninit₂ outs₁ outs₂,
    readsOf uninit₁ s₁ i₁ ops = some outs₁ →
    readsOf uninit₂ s₂ i₂ ops = some outs₂ → outs₁ = outs₂

/-- Which of the bytes read are defined, from the layout alone: at first all
bytes are, a replacement of the storage keeps the definedness of the bytes in
the view and of no others, and a store defines. -/
def definedReads (shared : Bool) (capacity data length : ℕ)
    (ops : List SoloOp) : Option (List (List Bool)) :=
  Solo.reads (fun _ => true) (fun _ _ => false)
    ⟨shared, capacity, data, length, 0, fun _ => true⟩ ops

/-- If no check fails, starting shared or not, no operation reads a byte that
is not defined. -/
def ReadsDefined (capacity data length : ℕ) (ops : List SoloOp) : Prop :=
  ∀ defs₁ defs₂,
    definedReads true capacity data length ops = some defs₁ →
    definedReads false capacity data length ops = some defs₂ →
    ∀ defs ∈ defs₁ ++ defs₂, ∀ x ∈ defs, x = true

section TwoRuns

open List

variable {s : State} {i capacity data length allocs : ℕ} {shared : Bool}
  {bytes : ℕ → UInt8} {ops : List SoloOp}

/-- Memory that malloc has filled with `x`. -/
abbrev filled (x : UInt8) : ℕ → ℕ → UInt8 := fun _ _ => x

/-- The bytes that are not defined come from malloc. -/
theorem reads_filled
    (h : Shows i s ⟨shared, capacity, data, length, allocs, bytes⟩)
    {defs : List (List Bool)}
    (hdefs : definedReads shared capacity data length ops = some defs)
    (x : UInt8) :
    ∃ outs, readsOf (filled x) s i ops = some outs ∧
      Forall₂ (Forall₂ fun d y => d = false → y = x) defs outs := by
  have hrel : Solo.Related (fun d y => d = false → y = x)
      ⟨shared, capacity, data, length, 0, fun _ => true⟩
      ⟨shared, capacity, data, length, allocs, bytes⟩ :=
    ⟨rfl, rfl, rfl, rfl, by simp⟩
  rw [h.readsOf]
  exact hrel.reads (by simp) (by simp) hdefs

/-- Two fillings that give the same reads show that the reads are defined. -/
theorem all_defined {defs : List (List Bool)} {outs : List ByteBuffer}
    (h₀ : Forall₂ (Forall₂ fun d y => d = false → y = (0 : UInt8)) defs outs)
    (h₁ : Forall₂ (Forall₂ fun d y => d = false → y = (1 : UInt8)) defs outs) :
    ∀ ds ∈ defs, ∀ d ∈ ds, d = true := by
  induction h₀ with
  | nil => simp
  | @cons ds out defs outs hhead _ ih =>
      cases h₁ with
      | cons hhead' htail' =>
          intro ds' hds'
          rcases mem_cons.mp hds' with rfl | hds'
          · clear ih htail' hds'
            induction hhead with
            | nil => simp
            | @cons d y ds out hd _ ih =>
                cases hhead' with
                | cons hd' htail' =>
                    intro d' hd''
                    rcases mem_cons.mp hd'' with rfl | hd''
                    · by_contra hfalse
                      have hd₀ := Bool.not_eq_true _ |>.mp hfalse
                      have hzero := hd hd₀
                      have hone := hd' hd₀
                      rw [hzero] at hone
                      exact absurd hone (by decide)
                    · exact ih htail' d' hd''
          · exact ih htail' ds' hds'

theorem eq_map_some {out : ByteBuffer} {ds : List Bool}
    {e : List (Option UInt8)} (hds : ∀ d ∈ ds, d = true)
    (h : Forall₂ (fun y x => ∀ z, x = some z → y = z) out e)
    (hdef : Forall₂ (fun d x => d = true → x.isSome = true) ds e) :
    e = out.map some := by
  induction h generalizing ds with
  | nil => rfl
  | @cons y x out e hy _ ih =>
      cases hdef with
      | @cons d _ ds _ hd htail =>
          obtain ⟨z, rfl⟩ := Option.isSome_iff_exists.mp
            (hd (hds d mem_cons_self))
          rw [map_cons, hy z rfl,
            ih (fun d' hd' => hds d' (mem_cons_of_mem _ hd')) htail]

theorem eq_map_map_some {outs : List ByteBuffer} {defs : List (List Bool)}
    {es : List (List (Option UInt8))}
    (hdefs : ∀ ds ∈ defs, ∀ d ∈ ds, d = true)
    (h : Forall₂ (Forall₂ fun y x => ∀ z, x = some z → y = z) outs es)
    (hdef : Forall₂ (Forall₂ fun d x => d = true → x.isSome = true) defs
      es) :
    es = outs.map (map some) := by
  induction h generalizing defs with
  | nil => rfl
  | cons hout _ ih =>
      cases hdef with
      | @cons ds _ defs _ hds htail =>
          rw [map_cons, eq_map_some (hdefs ds mem_cons_self) hout hds,
            ih (fun d' hd' => hdefs d' (mem_cons_of_mem _ hd')) htail]

/-- What is read when all of it is defined, as a run over contents that are
defined by stores only. -/
theorem reads_defined
    (h : Shows i s ⟨shared, capacity, data, length, allocs, bytes⟩)
    {uninit : ℕ → ℕ → UInt8} {outs : List ByteBuffer}
    (houts : readsOf uninit s i ops = some outs) :
    ∃ defs, definedReads shared capacity data length ops = some defs ∧
      ((∀ ds ∈ defs, ∀ d ∈ ds, d = true) →
        Solo.reads some Solo.undefined ⟨shared, capacity, data, length,
          allocs, fun k => some (bytes k)⟩ ops =
            some (outs.map (map some))) := by
  rw [h.readsOf] at houts
  -- The same run over definedness and over defined bytes.
  have hforget : Solo.Related (fun _ _ => True)
      ⟨shared, capacity, data, length, allocs, bytes⟩
      ⟨shared, capacity, data, length, 0, fun _ => true⟩ :=
    ⟨rfl, rfl, rfl, rfl, by simp⟩
  obtain ⟨defs, hdefs, -⟩ : ∃ defs,
      Solo.reads (fun _ => true) (fun _ _ => false) _ ops = some defs ∧ _ :=
    hforget.reads (by simp) (by simp) houts
  refine ⟨defs, hdefs, fun hall => ?_⟩
  have hvalues : Solo.Related (fun y x => ∀ z, x = some z → y = z)
      ⟨shared, capacity, data, length, allocs, bytes⟩
      ⟨shared, capacity, data, length, allocs, fun k => some (bytes k)⟩ :=
    ⟨rfl, rfl, rfl, rfl, by simp⟩
  obtain ⟨es, hes, hvalue⟩ : ∃ es,
      Solo.reads some Solo.undefined _ ops = some es ∧ _ :=
    hvalues.reads (by simp) (by simp) houts
  have hflags : Solo.Related (fun d x => d = true → Option.isSome x = true)
      ⟨shared, capacity, data, length, 0, fun _ => true⟩
      ⟨shared, capacity, data, length, allocs, fun k => some (bytes k)⟩ :=
    ⟨rfl, rfl, rfl, rfl, by simp⟩
  obtain ⟨es', hes', hdef⟩ : ∃ es,
      Solo.reads some Solo.undefined _ ops = some es ∧ _ :=
    hflags.reads (by simp) (by simp) hdefs
  obtain rfl := Option.some.inj (hes.symm.trans hes')
  rw [hes, eq_map_map_some hall hvalue hdef]

end TwoRuns

/-- Three bytes, and a copy that shares them. -/
def abcShared : List Action := [.copyFrom [97, 98, 99], .copyConstruct 0]

/-- The first byte is trimmed, the second is overwritten, and the first is
exposed again. -/
def trimWriteExpose : List SoloOp :=
  [.trimStart 1, .write 0 [120], .prepend 1, .read]

theorem abcShared_runs :
    (Transition.run (perform (filled 0)) init abcShared).isSome = true := by
  decide

theorem abc_runs :
    (Transition.run (perform (filled 0)) init
      (abcShared.take 1)).isSome = true := by
  decide

theorem sameStart_abc :
    SameStart
      ((Transition.run (perform (filled 0)) init abcShared).get
        abcShared_runs)
      ((Transition.run (perform (filled 0)) init (abcShared.take 1)).get
        abc_runs) 0 0 3 0 3 :=
  ⟨1, 1, _, ⟨_, 0, _, rfl, rfl, rfl, rfl⟩, ⟨_, 0, _, rfl, rfl, rfl, rfl⟩⟩

end Memory
end Yacul
