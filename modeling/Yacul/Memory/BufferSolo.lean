import Yacul.Memory.BufferFrames
import Mathlib.Data.List.Forall2

/-!
# One buffer, shared or not

The operations of this module work on a single buffer.  What they do depends
on little: whether the storage is shared, its size, where the view is, and
the contents.  `Solo` is that much of the state, over any type of contents,
so that the same run can carry bytes, or only the knowledge of which bytes
are defined.  Two runs that start from the same bytes, one on shared storage
and one not, read the same exactly when neither reads a byte that a
replacement of the storage has left undefined.
-/

namespace Yacul
namespace Memory

/-- The operations on one buffer.  `write` stores through `writable_data()`,
`read` is `data()` or `ToString()`. -/
inductive SoloOp
  | trimStart (n : ℕ)
  | trimEnd (n : ℕ)
  | prepend (n : ℕ)
  | append (n : ℕ)
  | ensureTailroom (n : ℕ)
  | appendData (bytes : ByteBuffer)
  | write (pos : ℕ) (bytes : ByteBuffer)
  | read
deriving DecidableEq, Repr

/-- `ToString()`. -/
def toBytes (s : State) (b : Buffer) : ByteBuffer :=
  (List.range b.length).map (s.view b)

/-- An operation on buffer `i`, with what it reads. -/
def SoloOp.apply (uninit : ℕ → ℕ → UInt8) (s : State) (i : ℕ) :
    SoloOp → Option (State × ByteBuffer)
  | .trimStart n => (Memory.trimStart s i n).map fun s => (s, [])
  | .trimEnd n => (Memory.trimEnd s i n).map fun s => (s, [])
  | .prepend n => (Memory.prepend s i n).map fun s => (s, [])
  | .append n => (Memory.append s i n).map fun s => (s, [])
  | .ensureTailroom n =>
      (Memory.ensureTailroom uninit s i n).map fun s => (s, [])
  | .appendData bytes =>
      (Memory.appendData uninit s i bytes).map fun s => (s, [])
  | .write pos bytes =>
      (writableData uninit s i pos bytes).map fun s => (s, [])
  | .read => (s.buf? i).map fun b => (s, toBytes s b)

/-- What a sequence of operations on buffer `i` reads; `none` if an operation
fails its check. -/
def readsOf (uninit : ℕ → ℕ → UInt8) (s : State) (i : ℕ) :
    List SoloOp → Option (List ByteBuffer)
  | [] => some []
  | op :: ops => do
      let (s, out) ← op.apply uninit s i
      let rest ← readsOf uninit s i ops
      some (out :: rest)

/-! ## The part of the state the operations see -/

/-- Storage and view of one buffer.  `allocs` numbers the next allocation. -/
structure Solo (β : Type) where
  shared : Bool
  capacity : ℕ
  data : ℕ
  length : ℕ
  allocs : ℕ
  bytes : ℕ → β

namespace Solo

section Operations

variable {β : Type} (put : UInt8 → β) (blank : ℕ → ℕ → β)

def tailroom (o : Solo β) : ℕ := subSize (subSize o.capacity o.data) o.length

/-- New storage: only the bytes of the view are copied. -/
def replace (o : Solo β) (cap : ℕ) : Option (Solo β) :=
  if cap < sizeLimit then
    some
      { shared := false
        capacity := cap
        data := o.data
        length := o.length
        allocs := o.allocs + 1
        bytes := fun k =>
          if o.data ≤ k ∧ k < o.data + o.length then o.bytes k
          else blank o.allocs k }
  else none

def cowDetach (o : Solo β) : Option (Solo β) :=
  if o.shared then o.replace blank o.capacity else some o

def ensureTailroom (o : Solo β) (n : ℕ) : Option (Solo β) :=
  if !o.shared && n ≤ o.tailroom then some o
  else
    o.replace blank (max (addSize o.length n)
      (addSize (mulSize (addSize o.length n) 3 / 2) 64))

def store (o : Solo β) (pos : ℕ) (src : ByteBuffer) : Solo β :=
  { o with
    bytes := fun k =>
      if o.data + pos ≤ k ∧ k < o.data + pos + src.length then
        put (src.getD (k - (o.data + pos)) 0)
      else o.bytes k }

def step (o : Solo β) : SoloOp → Option (Solo β × List β)
  | .trimStart n =>
      if n ≤ o.length then
        some ({ o with data := o.data + n, length := o.length - n }, [])
      else none
  | .trimEnd n =>
      if n ≤ o.length then some ({ o with length := o.length - n }, [])
      else none
  | .prepend n =>
      if n ≤ o.data then
        some ({ o with data := o.data - n, length := addSize o.length n }, [])
      else none
  | .append n =>
      if n ≤ o.tailroom then
        some ({ o with length := addSize o.length n }, [])
      else none
  | .ensureTailroom n => (o.ensureTailroom blank n).map fun o => (o, [])
  | .appendData src =>
      (o.ensureTailroom blank src.length).map fun o =>
        ({ o.store put o.length src with
            length := addSize o.length src.length }, [])
  | .write pos src =>
      (o.cowDetach blank).bind fun o =>
        if pos + src.length ≤ o.length then some (o.store put pos src, [])
        else none
  | .read =>
      some (o, (List.range o.length).map fun k => o.bytes (o.data + k))

/-- What a sequence of operations reads. -/
def reads (o : Solo β) : List SoloOp → Option (List (List β))
  | [] => some []
  | op :: ops => do
      let (o, out) ← o.step put blank op
      let rest ← reads o ops
      some (out :: rest)

end Operations

/-! ## Runs over different contents -/

section Related

variable {β γ : Type}

/-- The same layout with related contents. -/
structure Related (R : β → γ → Prop) (o : Solo β) (q : Solo γ) : Prop where
  shared : q.shared = o.shared
  capacity : q.capacity = o.capacity
  data : q.data = o.data
  length : q.length = o.length
  bytes : ∀ k, R (o.bytes k) (q.bytes k)

variable {R : β → γ → Prop} {put : UInt8 → β} {put' : UInt8 → γ}
  {blank : ℕ → ℕ → β} {blank' : ℕ → ℕ → γ}

theorem Related.tailroom {o : Solo β} {q : Solo γ} (h : Related R o q) :
    q.tailroom = o.tailroom := by
  rw [Solo.tailroom, Solo.tailroom, h.capacity, h.data, h.length]

theorem Related.replace (hblank : ∀ a b k, R (blank a k) (blank' b k))
    {o o' : Solo β} {q : Solo γ} (h : Related R o q) {cap : ℕ}
    (ho : o.replace blank cap = some o') :
    ∃ q', q.replace blank' cap = some q' ∧ Related R o' q' := by
  simp only [Solo.replace, Option.ite_none_right_eq_some] at ho ⊢
  obtain ⟨hcap, ho⟩ := ho
  obtain rfl := Option.some.inj ho
  refine ⟨_, ⟨hcap, rfl⟩, rfl, rfl, h.data, h.length, fun k => ?_⟩
  dsimp only
  rw [h.data, h.length]
  split_ifs
  · exact h.bytes k
  · exact hblank o.allocs q.allocs k

theorem Related.ensureTailroom (hblank : ∀ a b k, R (blank a k) (blank' b k))
    {o o' : Solo β} {q : Solo γ} (h : Related R o q) {n : ℕ}
    (ho : o.ensureTailroom blank n = some o') :
    ∃ q', q.ensureTailroom blank' n = some q' ∧ Related R o' q' := by
  simp only [Solo.ensureTailroom, h.shared, h.tailroom, h.length] at ho ⊢
  split_ifs at ho with hroom
  · obtain rfl := Option.some.inj ho
    exact ⟨q, if_pos hroom, h⟩
  · rw [if_neg hroom]
    exact h.replace hblank ho

theorem Related.cowDetach (hblank : ∀ a b k, R (blank a k) (blank' b k))
    {o o' : Solo β} {q : Solo γ} (h : Related R o q)
    (ho : o.cowDetach blank = some o') :
    ∃ q', q.cowDetach blank' = some q' ∧ Related R o' q' := by
  simp only [Solo.cowDetach, h.shared, h.capacity] at ho ⊢
  split_ifs at ho with hshared
  · rw [if_pos hshared]
    exact h.replace hblank ho
  · obtain rfl := Option.some.inj ho
    exact ⟨q, if_neg hshared, h⟩

theorem Related.store (hput : ∀ x, R (put x) (put' x)) {o : Solo β}
    {q : Solo γ} (h : Related R o q) (pos : ℕ) (src : ByteBuffer) :
    Related R (o.store put pos src) (q.store put' pos src) := by
  refine ⟨h.shared, h.capacity, h.data, h.length, fun k => ?_⟩
  simp only [Solo.store, h.data]
  split_ifs
  · exact hput _
  · exact h.bytes k

/-- Related contents stay related, and what is read is related. -/
theorem Related.step (hput : ∀ x, R (put x) (put' x))
    (hblank : ∀ a b k, R (blank a k) (blank' b k)) {o o' : Solo β}
    {q : Solo γ} (h : Related R o q) {op : SoloOp} {out : List β}
    (ho : o.step put blank op = some (o', out)) :
    ∃ q' out', q.step put' blank' op = some (q', out') ∧ Related R o' q' ∧
      List.Forall₂ R out out' := by
  cases op with
  | trimStart n =>
      simp only [Solo.step, h.length, h.data, Option.ite_none_right_eq_some,
        Option.some.injEq, Prod.mk.injEq] at ho ⊢
      obtain ⟨hn, rfl, rfl⟩ := ho
      exact ⟨_, _, ⟨hn, rfl, rfl⟩, ⟨h.shared, h.capacity, rfl, rfl,
        h.bytes⟩, .nil⟩
  | trimEnd n =>
      simp only [Solo.step, h.length, Option.ite_none_right_eq_some,
        Option.some.injEq, Prod.mk.injEq] at ho ⊢
      obtain ⟨hn, rfl, rfl⟩ := ho
      exact ⟨_, _, ⟨hn, rfl, rfl⟩, ⟨h.shared, h.capacity, h.data, rfl,
        h.bytes⟩, .nil⟩
  | prepend n =>
      simp only [Solo.step, h.length, h.data, Option.ite_none_right_eq_some,
        Option.some.injEq, Prod.mk.injEq] at ho ⊢
      obtain ⟨hn, rfl, rfl⟩ := ho
      exact ⟨_, _, ⟨hn, rfl, rfl⟩, ⟨h.shared, h.capacity, rfl, rfl,
        h.bytes⟩, .nil⟩
  | append n =>
      simp only [Solo.step, h.tailroom, h.length,
        Option.ite_none_right_eq_some, Option.some.injEq,
        Prod.mk.injEq] at ho ⊢
      obtain ⟨hn, rfl, rfl⟩ := ho
      exact ⟨_, _, ⟨hn, rfl, rfl⟩, ⟨h.shared, h.capacity, h.data, rfl,
        h.bytes⟩, .nil⟩
  | ensureTailroom n =>
      simp only [Solo.step, Option.map_eq_some_iff, Prod.mk.injEq] at ho ⊢
      obtain ⟨o₁, ho₁, rfl, rfl⟩ := ho
      obtain ⟨q₁, hq₁, h₁⟩ := h.ensureTailroom hblank ho₁
      exact ⟨q₁, [], ⟨q₁, hq₁, rfl, rfl⟩, h₁, .nil⟩
  | appendData src =>
      simp only [Solo.step, Option.map_eq_some_iff, Prod.mk.injEq] at ho ⊢
      obtain ⟨o₁, ho₁, rfl, rfl⟩ := ho
      obtain ⟨q₁, hq₁, h₁⟩ := h.ensureTailroom hblank ho₁
      have h₂ := h₁.store hput o₁.length src
      rw [← h₁.length] at h₂
      refine ⟨_, [], ⟨q₁, hq₁, rfl, rfl⟩, ?_, .nil⟩
      rw [← h₁.length]
      exact ⟨h₂.shared, h₂.capacity, h₂.data, rfl, h₂.bytes⟩
  | write pos src =>
      simp only [Solo.step, Option.bind_eq_some_iff,
        Option.ite_none_right_eq_some, Option.some.injEq,
        Prod.mk.injEq] at ho ⊢
      obtain ⟨o₁, ho₁, hle, rfl, rfl⟩ := ho
      obtain ⟨q₁, hq₁, h₁⟩ := h.cowDetach hblank ho₁
      refine ⟨_, [], ⟨q₁, hq₁, ?_, rfl, rfl⟩, h₁.store hput pos src, .nil⟩
      rw [h₁.length]
      exact hle
  | read =>
      simp only [Solo.step, Option.some.injEq, Prod.mk.injEq] at ho ⊢
      obtain ⟨rfl, rfl⟩ := ho
      refine ⟨q, _, ⟨rfl, rfl⟩, h, ?_⟩
      rw [h.length, h.data, List.forall₂_map_left_iff,
        List.forall₂_map_right_iff]
      exact List.forall₂_same.mpr fun k _ => h.bytes _

theorem Related.reads (hput : ∀ x, R (put x) (put' x))
    (hblank : ∀ a b k, R (blank a k) (blank' b k)) {o : Solo β} {q : Solo γ}
    (h : Related R o q) {ops : List SoloOp} {outs : List (List β)}
    (ho : o.reads put blank ops = some outs) :
    ∃ outs', q.reads put' blank' ops = some outs' ∧
      List.Forall₂ (List.Forall₂ R) outs outs' := by
  induction ops generalizing o q outs with
  | nil =>
      obtain rfl := Option.some.inj ho
      exact ⟨[], rfl, .nil⟩
  | cons op ops ih =>
      simp only [Solo.reads, Option.bind_eq_bind,
        Option.bind_eq_some_iff] at ho
      obtain ⟨⟨o₁, out⟩, hstep, rest, hrest, ho⟩ := ho
      obtain rfl := Option.some.inj ho
      obtain ⟨q₁, out', hstep', h₁, hout⟩ := h.step hput hblank hstep
      obtain ⟨rest', hrest', hrestR⟩ := ih h₁ hrest
      exact ⟨out' :: rest', by simp [Solo.reads, hstep', hrest'],
        .cons hout hrestR⟩

end Related

/-! ## Two runs with different sharing -/

section Agreement

/-- The views are at the same place, and where both contents are defined they
agree. -/
structure Agrees (o q : Solo (Option UInt8)) : Prop where
  data : q.data = o.data
  length : q.length = o.length
  bytes : ∀ k x y, o.bytes k = some x → q.bytes k = some y → x = y

/-- Contents that are defined only by stores. -/
abbrev undefined : ℕ → ℕ → Option UInt8 := fun _ _ => none

variable {o q o' q' : Solo (Option UInt8)}

/-- `replace` keeps the place of the view and defines nothing new. -/
theorem replace_spec {cap : ℕ} (h : o.replace undefined cap = some o') :
    o'.data = o.data ∧ o'.length = o.length ∧
      ∀ k x, o'.bytes k = some x → o.bytes k = some x := by
  simp only [replace, Option.ite_none_right_eq_some] at h
  obtain ⟨-, h⟩ := h
  obtain rfl := Option.some.inj h
  refine ⟨rfl, rfl, fun k x hx => ?_⟩
  dsimp only at hx
  split_ifs at hx
  exact hx

theorem cowDetach_spec (h : o.cowDetach undefined = some o') :
    o'.data = o.data ∧ o'.length = o.length ∧
      ∀ k x, o'.bytes k = some x → o.bytes k = some x := by
  unfold cowDetach at h
  split_ifs at h
  · exact replace_spec h
  · obtain rfl := Option.some.inj h
    exact ⟨rfl, rfl, fun _ _ hx => hx⟩

theorem ensureTailroom_spec {n : ℕ}
    (h : o.ensureTailroom undefined n = some o') :
    o'.data = o.data ∧ o'.length = o.length ∧
      ∀ k x, o'.bytes k = some x → o.bytes k = some x := by
  unfold ensureTailroom at h
  split_ifs at h
  · obtain rfl := Option.some.inj h
    exact ⟨rfl, rfl, fun _ _ hx => hx⟩
  · exact replace_spec h

/-- Both runs may replace their storage, or one of them only. -/
theorem Agrees.of_spec (h : Agrees o q)
    (ho : o'.data = o.data ∧ o'.length = o.length ∧
      ∀ k x, o'.bytes k = some x → o.bytes k = some x)
    (hq : q'.data = q.data ∧ q'.length = q.length ∧
      ∀ k x, q'.bytes k = some x → q.bytes k = some x) : Agrees o' q' := by
  obtain ⟨hod, hol, hob⟩ := ho
  obtain ⟨hqd, hql, hqb⟩ := hq
  refine ⟨?_, ?_, fun k x y hx hy => ?_⟩
  · rw [hqd, hod, h.data]
  · rw [hql, hol, h.length]
  · exact h.bytes k x y (hob k x hx) (hqb k y hy)

theorem Agrees.store (h : Agrees o q) (pos : ℕ) (src : ByteBuffer) :
    Agrees (o.store some pos src) (q.store some pos src) := by
  refine ⟨h.data, h.length, fun k x y hx hy => ?_⟩
  simp only [Solo.store, h.data] at hx hy
  split_ifs at hx hy
  · rw [← Option.some.inj hx, ← Option.some.inj hy]
  · exact h.bytes k x y hx hy

/-- Both defined means equal. -/
abbrev SameIfDefined (x y : Option UInt8) : Prop :=
  ∀ v w, x = some v → y = some w → v = w

/-- One operation in both runs. -/
theorem Agrees.step (h : Agrees o q) {op : SoloOp}
    {out out' : List (Option UInt8)}
    (ho : o.step some undefined op = some (o', out))
    (hq : q.step some undefined op = some (q', out')) :
    Agrees o' q' ∧ List.Forall₂ SameIfDefined out out' := by
  cases op with
  | trimStart n =>
      simp only [Solo.step, Option.ite_none_right_eq_some, Option.some.injEq,
        Prod.mk.injEq] at ho hq
      obtain ⟨-, rfl, rfl⟩ := ho
      obtain ⟨-, rfl, rfl⟩ := hq
      refine ⟨⟨?_, ?_, h.bytes⟩, .nil⟩
      · show q.data + n = o.data + n
        rw [h.data]
      · show q.length - n = o.length - n
        rw [h.length]
  | trimEnd n =>
      simp only [Solo.step, Option.ite_none_right_eq_some, Option.some.injEq,
        Prod.mk.injEq] at ho hq
      obtain ⟨-, rfl, rfl⟩ := ho
      obtain ⟨-, rfl, rfl⟩ := hq
      refine ⟨⟨h.data, ?_, h.bytes⟩, .nil⟩
      show q.length - n = o.length - n
      rw [h.length]
  | prepend n =>
      simp only [Solo.step, Option.ite_none_right_eq_some, Option.some.injEq,
        Prod.mk.injEq] at ho hq
      obtain ⟨-, rfl, rfl⟩ := ho
      obtain ⟨-, rfl, rfl⟩ := hq
      refine ⟨⟨?_, ?_, h.bytes⟩, .nil⟩
      · show q.data - n = o.data - n
        rw [h.data]
      · show addSize q.length n = addSize o.length n
        rw [h.length]
  | append n =>
      simp only [Solo.step, Option.ite_none_right_eq_some, Option.some.injEq,
        Prod.mk.injEq] at ho hq
      obtain ⟨-, rfl, rfl⟩ := ho
      obtain ⟨-, rfl, rfl⟩ := hq
      refine ⟨⟨h.data, ?_, h.bytes⟩, .nil⟩
      show addSize q.length n = addSize o.length n
      rw [h.length]
  | ensureTailroom n =>
      simp only [Solo.step, Option.map_eq_some_iff, Prod.mk.injEq] at ho hq
      obtain ⟨o₁, ho₁, rfl, rfl⟩ := ho
      obtain ⟨q₁, hq₁, rfl, rfl⟩ := hq
      exact ⟨h.of_spec (ensureTailroom_spec ho₁) (ensureTailroom_spec hq₁),
        .nil⟩
  | appendData src =>
      simp only [Solo.step, Option.map_eq_some_iff, Prod.mk.injEq] at ho hq
      obtain ⟨o₁, ho₁, rfl, rfl⟩ := ho
      obtain ⟨q₁, hq₁, rfl, rfl⟩ := hq
      have h₁ := h.of_spec (ensureTailroom_spec ho₁)
        (ensureTailroom_spec hq₁)
      have h₂ := h₁.store o₁.length src
      rw [h₁.length]
      exact ⟨⟨h₂.data, rfl, h₂.bytes⟩, .nil⟩
  | write pos src =>
      simp only [Solo.step, Option.bind_eq_some_iff,
        Option.ite_none_right_eq_some, Option.some.injEq,
        Prod.mk.injEq] at ho hq
      obtain ⟨o₁, ho₁, -, rfl, rfl⟩ := ho
      obtain ⟨q₁, hq₁, -, rfl, rfl⟩ := hq
      have h₁ := h.of_spec (cowDetach_spec ho₁) (cowDetach_spec hq₁)
      exact ⟨h₁.store pos src, .nil⟩
  | read =>
      simp only [Solo.step, Option.some.injEq, Prod.mk.injEq] at ho hq
      obtain ⟨rfl, rfl⟩ := ho
      obtain ⟨rfl, rfl⟩ := hq
      refine ⟨h, ?_⟩
      rw [h.length, h.data, List.forall₂_map_left_iff,
        List.forall₂_map_right_iff]
      exact List.forall₂_same.mpr fun k _ => h.bytes _

theorem Agrees.reads (h : Agrees o q) {ops : List SoloOp}
    {outs outs' : List (List (Option UInt8))}
    (ho : o.reads some undefined ops = some outs)
    (hq : q.reads some undefined ops = some outs') :
    List.Forall₂ (List.Forall₂ SameIfDefined) outs outs' := by
  induction ops generalizing o q outs outs' with
  | nil =>
      obtain rfl := Option.some.inj ho
      obtain rfl := Option.some.inj hq
      exact .nil
  | cons op ops ih =>
      simp only [Solo.reads, Option.bind_eq_bind,
        Option.bind_eq_some_iff] at ho hq
      obtain ⟨⟨o₁, out⟩, hstep, rest, hrest, ho⟩ := ho
      obtain ⟨⟨q₁, out'⟩, hstep', rest', hrest', hq⟩ := hq
      obtain rfl := Option.some.inj ho
      obtain rfl := Option.some.inj hq
      obtain ⟨h₁, hout⟩ := h.step hstep hstep'
      exact .cons hout (ih h₁ hrest hrest')

end Agreement

end Solo

end Memory
end Yacul
