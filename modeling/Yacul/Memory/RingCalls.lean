import Yacul.Memory.BufferRings

/-!
# The calls on rings

An edit of the links reads a node and writes its neighbours.  As long as no
link leads to a destroyed buffer, every step of every edit finds its node, so
the operations on live buffers run to their end.
-/

namespace Yacul
namespace Memory

/-- The arguments are live buffers, and the sizes stay below the limit. -/
def Callable (s : State) : Action → Prop
  | .default => True
  | .create n => n < sizeLimit
  | .copyFrom bytes | .wrapExternal bytes _ => bytes.length < sizeLimit
  | .copyConstruct rhs | .moveConstruct rhs => s.links.Live rhs
  | .destroy i | .unlink i => s.links.Live i
  | .copyAssign i rhs | .moveAssign i rhs =>
      s.links.Live i ∧ s.links.Live rhs
  | .appendChain i other | .prependChain i other =>
      s.links.Live i ∧ s.links.Live other
  | _ => False

section Relinks

variable {s s' : State} {uninit : ℕ → ℕ → UInt8} {i j : ℕ} {b : Buffer}

/-- The edit runs.  The same buffers are alive after it, and no link leads to
another one. -/
def Relinks (s : State) (edit : Option State) : Prop :=
  ∃ s', edit = some s' ∧ (∀ j, s'.links.Live j ↔ s.links.Live j) ∧
    s'.links.Closed

/-- One edit after another. -/
theorem Relinks.bind {edit : Option State} {f : State → Option State}
    (h : Relinks s edit)
    (hf : ∀ s₁, s₁.links.Closed →
      (∀ j, s₁.links.Live j ↔ s.links.Live j) → Relinks s₁ (f s₁)) :
    Relinks s (edit.bind f) := by
  obtain ⟨s₁, rfl, hlive, hclosed⟩ := h
  obtain ⟨s₂, heq, hlive', hclosed'⟩ := hf s₁ hclosed hlive
  exact ⟨s₂, heq, fun j => (hlive' j).trans (hlive j), hclosed'⟩

theorem relinks_of_links (hs : s.links.Closed) (h : s'.links = s.links) :
    Relinks s (some s') :=
  ⟨s', rfl, fun j => by rw [h], h ▸ hs⟩

/-- A live buffer is read, and its neighbours are live. -/
theorem Relinks.read {f : Buffer → Option State} (hs : s.links.Closed)
    (hi : s.links.Live i)
    (hf : ∀ b, s.buf? i = some b → s.links.Live b.next →
      s.links.Live b.prev → Relinks s (f b)) :
    Relinks s ((s.buf? i).bind f) := by
  obtain ⟨b, hb⟩ := live_iff.mp hi
  rw [hb, Option.bind_some]
  exact hf b hb (hs i b.next (.inl (next_of_buf? hb)))
    (hs i b.prev (.inr (prev_of_buf? hb)))

/-- A live buffer is linked to live ones. -/
theorem relinks_modifyBuf (hs : s.links.Closed) (hi : s.links.Live i)
    {f : Buffer → Buffer}
    (hf : ∀ b, s.buf? i = some b →
      s.links.Live (f b).next ∧ s.links.Live (f b).prev) :
    Relinks s (s.modifyBuf i f) := by
  obtain ⟨b, hb⟩ := live_iff.mp hi
  have hmodify : s.modifyBuf i f = some (s.setBuf i (f b)) := by
    rw [State.modifyBuf, hb, Option.map_some]
  obtain ⟨c, hc, hnext, hprev⟩ := links_modifyBuf hmodify
  obtain rfl := Option.some.inj (hb.symm.trans hc)
  have hlive : ∀ j, (s.setBuf i (f b)).links.Live j ↔ s.links.Live j := by
    intro j
    rw [live_iff, live_iff, buf?_setBuf hb]
    by_cases hj : j = i
    · simp [hj, hb]
    · rw [if_neg hj]
  refine ⟨_, hmodify, hlive, fun a c hac => (hlive c).mpr ?_⟩
  rw [hnext, hprev] at hac
  by_cases ha : a = i
  · rw [ha, Function.update_self, Function.update_self] at hac
    obtain heq | heq := hac
    · exact Option.some.inj heq ▸ (hf b hb).1
    · exact Option.some.inj heq ▸ (hf b hb).2
  · rw [Function.update_of_ne ha, Function.update_of_ne ha] at hac
    exact hs a c hac

theorem relinks_setNext (hs : s.links.Closed) (hi : s.links.Live i)
    (hj : s.links.Live j) : Relinks s (setNext s i j) :=
  relinks_modifyBuf hs hi fun b hb => ⟨hj, hs i b.prev (.inr (prev_of_buf? hb))⟩

theorem relinks_setPrev (hs : s.links.Closed) (hi : s.links.Live i)
    (hj : s.links.Live j) : Relinks s (setPrev s i j) :=
  relinks_modifyBuf hs hi fun b hb => ⟨hs i b.next (.inl (next_of_buf? hb)), hj⟩

theorem relinks_makeSelfRing (hs : s.links.Closed) (hi : s.links.Live i) :
    Relinks s (makeSelfRing s i) :=
  relinks_modifyBuf hs hi fun _ _ => ⟨hi, hi⟩

theorem relinks_clearMoved (hs : s.links.Closed) (hi : s.links.Live i) :
    Relinks s (clearMoved s i) :=
  relinks_modifyBuf hs hi fun _ _ => ⟨hi, hi⟩

theorem relinks_takeView {rhs : ℕ} (hs : s.links.Closed) (hi : s.links.Live i)
    (hrhs : s.links.Live rhs) : Relinks s (takeView s i rhs) :=
  Relinks.read hs hrhs fun _ _ _ _ => relinks_modifyBuf hs hi fun b hb =>
    ⟨hs i b.next (.inl (next_of_buf? hb)), hs i b.prev (.inr (prev_of_buf? hb))⟩

theorem relinks_releasePhysical (hs : s.links.Closed) (hi : s.links.Live i) :
    Relinks s (releasePhysical s i) := by
  obtain ⟨b, hb⟩ := live_iff.mp hi
  obtain ⟨s', h⟩ : ∃ s', releasePhysical s i = some s' :=
    ⟨_, by rw [releasePhysical, hb, Option.map_some]⟩
  rw [h]
  exact relinks_of_links hs (links_releasePhysical h)

theorem relinks_unlinkFromRing (hs : s.links.Closed) (hi : s.links.Live i) :
    Relinks s (unlinkFromRing s i) := by
  refine Relinks.read hs hi fun b _ hnext hprev => ?_
  refine (relinks_setNext hs hprev hnext).bind fun s₁ hs₁ hlive => ?_
  refine Relinks.read hs₁ ((hlive i).mpr hi) fun b' _ hnext' hprev' => ?_
  exact relinks_setPrev hs₁ hnext' hprev'

theorem relinks_stealRingPosition {rhs : ℕ} (hs : s.links.Closed)
    (hi : s.links.Live i) (hrhs : s.links.Live rhs) :
    Relinks s (stealRingPosition s i rhs) := by
  refine Relinks.read hs hrhs fun r _ hnext hprev => ?_
  split
  · refine (relinks_modifyBuf hs hi
      (f := fun b => { b with next := r.next, prev := r.prev })
      fun _ _ => ⟨hnext, hprev⟩).bind fun s₁ hs₁ hlive₁ => ?_
    refine (relinks_setPrev hs₁ ((hlive₁ _).mpr hnext) ((hlive₁ i).mpr hi)).bind
      fun s₂ hs₂ hlive₂ => ?_
    have hi₂ := (hlive₂ i).mpr ((hlive₁ i).mpr hi)
    exact Relinks.read hs₂ hi₂ fun b _ _ hprev' =>
      relinks_setNext hs₂ hprev' hi₂
  · exact relinks_makeSelfRing hs hi

theorem relinks_appendChain {other : ℕ} (hs : s.links.Closed)
    (hi : s.links.Live i) (hother : s.links.Live other) (hne : i ≠ other) :
    Relinks s (appendChain s i other) := by
  rw [appendChain, if_neg hne]
  refine Relinks.read hs hi fun b _ _ hprev => ?_
  refine Relinks.read hs hother fun o _ _ htail => ?_
  refine (relinks_setNext hs hprev hother).bind fun s₁ hs₁ hlive₁ => ?_
  refine (relinks_setPrev hs₁ ((hlive₁ _).mpr hother)
    ((hlive₁ _).mpr hprev)).bind fun s₂ hs₂ hlive₂ => ?_
  have hlive : ∀ j, s₂.links.Live j ↔ s.links.Live j :=
    fun j => (hlive₂ j).trans (hlive₁ j)
  refine (relinks_setNext hs₂ ((hlive _).mpr htail) ((hlive i).mpr hi)).bind
    fun s₃ hs₃ hlive₃ => ?_
  exact relinks_setPrev hs₃ ((hlive₃ i).mpr ((hlive i).mpr hi))
    ((hlive₃ _).mpr ((hlive _).mpr htail))

theorem relinks_prependChain {other : ℕ} (hs : s.links.Closed)
    (hi : s.links.Live i) (hother : s.links.Live other) (hne : i ≠ other) :
    Relinks s (prependChain s i other) := by
  rw [prependChain, if_neg hne]
  refine Relinks.read hs hother fun o _ _ htail => ?_
  refine (relinks_setNext hs htail hi).bind fun s₁ hs₁ hlive₁ => ?_
  refine Relinks.read hs₁ ((hlive₁ i).mpr hi) fun b _ _ hprev => ?_
  have hother₁ := (hlive₁ other).mpr hother
  refine (relinks_setNext hs₁ hprev hother₁).bind fun s₂ hs₂ hlive₂ => ?_
  refine (relinks_setPrev hs₂ ((hlive₂ _).mpr hother₁)
    ((hlive₂ _).mpr hprev)).bind fun s₃ hs₃ hlive₃ => ?_
  have hlive : ∀ j, s₃.links.Live j ↔ s.links.Live j :=
    fun j => (hlive₃ j).trans ((hlive₂ j).trans (hlive₁ j))
  exact relinks_setPrev hs₃ ((hlive i).mpr hi) ((hlive _).mpr htail)

theorem relinks_unlink (hs : s.links.Closed) (hi : s.links.Live i) :
    Relinks s (unlink s i) := by
  refine Relinks.read hs hi fun b _ _ _ => ?_
  split
  · exact (relinks_unlinkFromRing hs hi).bind fun s₁ hs₁ hlive =>
      relinks_makeSelfRing hs₁ ((hlive i).mpr hi)
  · exact relinks_of_links hs rfl

theorem relinks_copyAssign {rhs : ℕ} (hs : s.links.Closed)
    (hi : s.links.Live i) (hrhs : s.links.Live rhs) :
    Relinks s (copyAssign s i rhs) := by
  unfold copyAssign
  split
  · exact relinks_of_links hs rfl
  refine (relinks_unlinkFromRing hs hi).bind fun s₁ hs₁ hlive₁ => ?_
  have hi₁ := (hlive₁ i).mpr hi
  refine (relinks_releasePhysical hs₁ hi₁).bind fun s₂ hs₂ hlive₂ => ?_
  have hi₂ := (hlive₂ i).mpr hi₁
  refine (relinks_takeView hs₂ hi₂ ((hlive₂ _).mpr ((hlive₁ _).mpr hrhs))).bind
    fun s₃ hs₃ hlive₃ => ?_
  refine Relinks.read hs₃ ((hlive₃ i).mpr hi₂) fun b _ _ _ => ?_
  have hlinks := links_retainPhysical s₃ b.physical
  obtain ⟨s₄, heq, hlive₄, hs₄⟩ := relinks_makeSelfRing (hlinks ▸ hs₃)
    (hlinks ▸ (hlive₃ i).mpr hi₂)
  exact ⟨s₄, heq, fun j => by rw [hlive₄, hlinks], hs₄⟩

theorem relinks_moveAssign {rhs : ℕ} (hs : s.links.Closed)
    (hi : s.links.Live i) (hrhs : s.links.Live rhs) :
    Relinks s (moveAssign s i rhs) := by
  unfold moveAssign
  split
  · exact relinks_of_links hs rfl
  refine (relinks_unlinkFromRing hs hi).bind fun s₁ hs₁ hlive₁ => ?_
  have hi₁ := (hlive₁ i).mpr hi
  have hrhs₁ := (hlive₁ rhs).mpr hrhs
  refine (relinks_releasePhysical hs₁ hi₁).bind fun s₂ hs₂ hlive₂ => ?_
  have hi₂ := (hlive₂ i).mpr hi₁
  have hrhs₂ := (hlive₂ rhs).mpr hrhs₁
  refine (relinks_takeView hs₂ hi₂ hrhs₂).bind fun s₃ hs₃ hlive₃ => ?_
  have hrhs₃ := (hlive₃ rhs).mpr hrhs₂
  refine (relinks_stealRingPosition hs₃ ((hlive₃ i).mpr hi₂) hrhs₃).bind
    fun s₄ hs₄ hlive₄ => ?_
  exact relinks_clearMoved hs₄ ((hlive₄ rhs).mpr hrhs₃)

/-! ## Calls -/

theorem exists_moveConstruct {rhs : ℕ} (hs : s.links.Rings)
    (hrhs : s.links.Live rhs) : ∃ s', moveConstruct s rhs = some s' := by
  obtain ⟨r, hr⟩ := live_iff.mp hrhs
  have hlinks := links_newBuffer s r.physical r.data r.length
  have hclosed := (rings_new hs hlinks).1.closed
  have hnew : (newBuffer s r.physical r.data r.length).links.Live
      s.bufs.length :=
    (rings_new hs hlinks).2.1.live List.mem_cons_self
  have hold : (newBuffer s r.physical r.data r.length).links.Live rhs := by
    rw [hlinks]
    exact hrhs.link
  have hrelinks := (relinks_stealRingPosition hclosed hnew hold).bind
    (f := fun s₁ => clearMoved s₁ rhs) fun s₁ hs₁ hlive =>
      relinks_clearMoved hs₁ ((hlive rhs).mpr hold)
  obtain ⟨s', heq, -⟩ := hrelinks
  exact ⟨s', by rw [moveConstruct, hr]; exact heq⟩

theorem exists_destroy (hs : s.links.Closed) (hi : s.links.Live i) :
    ∃ s', destroy s i = some s' := by
  obtain ⟨s₁, h₁, hlive, hs₁⟩ := relinks_unlinkFromRing hs hi
  obtain ⟨s₂, h₂, -⟩ := relinks_releasePhysical hs₁ ((hlive i).mpr hi)
  exact ⟨{ s₂ with bufs := s₂.bufs.set i none }, by
    simp only [destroy, h₁, h₂, Option.bind_eq_bind, Option.bind_some]⟩

theorem exists_createPhysical (uninit : ℕ → ℕ → UInt8) {cap : ℕ}
    (h : cap < sizeLimit) : ∃ r, createPhysical uninit s cap = some r :=
  ⟨_, if_pos h⟩

/-- A call with live arguments runs; the chains are of different rings. -/
theorem exists_perform (hs : s.links.Rings) {a : Action}
    (ha : KeepsRings s a) (hcall : Callable s a) :
    ∃ s', perform uninit s a = some s' := by
  have hclosed := hs.closed
  have hapart : ∀ {i other : ℕ}, s.links.Live i →
      (∀ l, s.links.IsRing i l → other ∉ i :: l) → i ≠ other := by
    rintro i other hi hother rfl
    obtain ⟨l, hl⟩ := hs i hi
    exact hother l hl List.mem_cons_self
  have hruns : ∀ {edit : Option State}, Relinks s edit →
      ∃ s', edit = some s' := fun h => ⟨h.choose, h.choose_spec.1⟩
  cases a with
  | default => exact ⟨_, rfl⟩
  | create n =>
      obtain ⟨r, hr⟩ := exists_createPhysical (s := s) uninit hcall
      exact ⟨_, by rw [perform, create, hr]; rfl⟩
  | copyFrom bytes =>
      obtain ⟨r, hr⟩ := exists_createPhysical (s := s) uninit hcall
      exact ⟨_, by rw [perform, copyFrom, hr]; rfl⟩
  | wrapExternal bytes freeFn =>
      have hsize : bytes.length < sizeLimit := hcall
      exact ⟨_, by
        rw [perform, wrapExternal, createExternal, if_pos hsize]; rfl⟩
  | copyConstruct rhs =>
      obtain ⟨r, hr⟩ := live_iff.mp hcall
      exact ⟨_, by rw [perform, copyConstruct, hr]; rfl⟩
  | moveConstruct rhs => exact exists_moveConstruct hs hcall
  | copyAssign i rhs => exact hruns (relinks_copyAssign hclosed hcall.1 hcall.2)
  | moveAssign i rhs => exact hruns (relinks_moveAssign hclosed hcall.1 hcall.2)
  | destroy i => exact exists_destroy hclosed hcall
  | appendChain i other =>
      exact hruns (relinks_appendChain hclosed hcall.1 hcall.2
        (hapart hcall.1 ha))
  | prependChain i other =>
      exact hruns (relinks_prependChain hclosed hcall.1 hcall.2
        (hapart hcall.1 ha))
  | unlink i => exact hruns (relinks_unlink hclosed hcall)
  | _ => exact hcall.elim

/-- In every reachable state the live buffers lie on rings, every call with
live arguments runs, and it does to the rings what it is there for. -/
theorem reachable_ringsOk
    (hs : Transition.ReachableVia (perform uninit) KeepsRings {init} s) :
    RingsOk s ∧ ∀ a, KeepsRings s a →
      (Callable s a → ∃ s', perform uninit s a = some s') ∧
        ∀ s', perform uninit s a = some s' →
          RingsOk s' ∧ RingEffect s.links s'.links s.bufs.length a := by
  have hrings := reachable_rings hs
  refine ⟨ringsOk_of_rings hrings, fun a ha =>
    ⟨exists_perform hrings ha, fun s' h => ?_⟩⟩
  obtain ⟨hrings', heffect⟩ := step_rings hrings ha h
  exact ⟨ringsOk_of_rings hrings', heffect⟩

/-- Three buffers, each in a ring of its own. -/
def threeBuffers : State where
  phys := []
  bufs := [some { next := 0, prev := 0 }, some { next := 1, prev := 1 },
    some { next := 2, prev := 2 }]
  cursors := []

theorem reachable_threeBuffers :
    Transition.ReachableVia (perform fun _ _ => 0) KeepsRings {init}
      threeBuffers := by
  have hone : Transition.ReachableVia (perform fun _ _ => 0) KeepsRings
      {init} (newBuffer init none 0 0) :=
    .next (a := .default) (.start (Set.mem_singleton init)) trivial rfl
  have htwo : Transition.ReachableVia (perform fun _ _ => 0) KeepsRings
      {init} (newBuffer (newBuffer init none 0 0) none 0 0) :=
    .next (a := .default) hone trivial rfl
  exact .next (a := .default) htwo trivial rfl

/-- Two chains are put together, a node is taken out, and another is moved
onto it. -/
theorem reachable_ringsOk_threeBuffers : ∃ s₁ s₂ s₃ s₄,
    perform (fun _ _ => 0) threeBuffers (.prependChain 0 1) = some s₁ ∧
      s₁.links.IsRing 1 [0] ∧
    perform (fun _ _ => 0) s₁ (.appendChain 1 2) = some s₂ ∧
      s₂.links.IsRing 1 [0, 2] ∧
    perform (fun _ _ => 0) s₂ (.unlink 0) = some s₃ ∧
      s₃.links.IsRing 1 [2] ∧ s₃.links.IsRing 0 [] ∧
    perform (fun _ _ => 0) s₃ (.moveAssign 0 1) = some s₄ ∧
      s₄.links.IsRing 0 [2] ∧ s₄.links.IsRing 1 [] := by
  have halone : ∀ i < 3, threeBuffers.links.IsRing i [] := by
    intro i hi
    rw [Links.isRing_nil]
    obtain rfl | rfl | rfl : i = 0 ∨ i = 1 ∨ i = 2 := by omega
    all_goals exact ⟨rfl, rfl⟩
  have hlive : ∀ i < 3, threeBuffers.links.Live i :=
    fun i hi => (halone i hi).live List.mem_cons_self
  have hprepend : KeepsRings threeBuffers (.prependChain 0 1) := by
    intro l hl
    obtain rfl := hl.unique (halone 0 (by decide))
    decide
  obtain ⟨s₁, h₁⟩ := ((reachable_ringsOk reachable_threeBuffers).2 _
    hprepend).1 ⟨hlive 0 (by decide), hlive 1 (by decide)⟩
  obtain ⟨-, hsplice, hspare⟩ :=
    ((reachable_ringsOk reachable_threeBuffers).2 _ hprepend).2 s₁ h₁
  have hring₁ : s₁.links.IsRing 1 [0] :=
    hsplice [] [] (halone 0 (by decide)) (halone 1 (by decide))
  have htwo : s₁.links.IsRing 2 [] := hspare 2 [] (halone 2 (by decide))
    (by decide)
  have hreach₁ :=
    Transition.ReachableVia.next reachable_threeBuffers hprepend h₁
  have happend : KeepsRings s₁ (.appendChain 1 2) := by
    intro l hl
    obtain rfl := hl.unique hring₁
    decide
  obtain ⟨s₂, h₂⟩ := ((reachable_ringsOk hreach₁).2 _ happend).1
    ⟨hring₁.live List.mem_cons_self, htwo.live List.mem_cons_self⟩
  obtain ⟨-, hsplice₂, -⟩ := ((reachable_ringsOk hreach₁).2 _ happend).2 s₂ h₂
  have hring₂ : s₂.links.IsRing 1 [0, 2] := hsplice₂ [0] [] hring₁ htwo
  have hreach₂ := Transition.ReachableVia.next hreach₁ happend h₂
  obtain ⟨s₃, h₃⟩ := ((reachable_ringsOk hreach₂).2 (.unlink 0) trivial).1
    (hring₂.live (by decide))
  obtain ⟨-, hout, hremoves⟩ :=
    ((reachable_ringsOk hreach₂).2 (.unlink 0) trivial).2 s₃ h₃
  have hring₃ : s₃.links.IsRing 1 [2] := hremoves 1 [0, 2] (by decide) hring₂
  have hreach₃ := Transition.ReachableVia.next hreach₂
    (show KeepsRings s₂ (.unlink 0) from trivial) h₃
  obtain ⟨s₄, h₄⟩ := ((reachable_ringsOk hreach₃).2 (.moveAssign 0 1)
    trivial).1 ⟨hout.live List.mem_cons_self, hring₃.live List.mem_cons_self⟩
  obtain ⟨-, hseat, hleft, -⟩ :=
    ((reachable_ringsOk hreach₃).2 (.moveAssign 0 1) trivial).2 s₄ h₄
  exact ⟨s₁, s₂, s₃, s₄, h₁, hring₁, h₂, hring₂, h₃, hring₃, hout, h₄,
    hseat [2] hring₃, hleft⟩

end Relinks

end Memory
end Yacul
