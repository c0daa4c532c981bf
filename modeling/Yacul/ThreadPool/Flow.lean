import Mathlib.Data.List.GetD
import Mathlib.Data.Multiset.Bind
import Mathlib.Tactic.Abel
import Yacul.ThreadPool.State

/-!
# The flow of the cancellation flags

Every delayed submission gets a flag of its own, and every registration of a
recurring task another one, which goes from each run to the next.  A flag is
in one place at a time: with the call that submits the task, in the task while
its wrapper has not read its flag, or with the worker that runs the recurring
body.  This is the part of the pool that decides what a cancellation stops and
what the registry of cancellations should hold.
-/

namespace Yacul
namespace ThreadPool

/-! ## Flags of a task -/

/-- The flag that a body carries to its next run. -/
def Body.flags : Body → Multiset ℕ
  | .user => 0
  | .recurring r => {r.cancelled}

/-- The flag of the wrapper. -/
def Task.own (t : Task) : Multiset ℕ :=
  match t.wrapper with
  | .immediate => 0
  | .delayed cancelled _ => {cancelled}

/-- The flag of the body. -/
def Task.bodyFlags (t : Task) : Multiset ℕ :=
  match t.wrapper with
  | .immediate => 0
  | .delayed _ body => body.flags

/-- The flags of a task whose wrapper has not read its flag. -/
def Task.flags (t : Task) : Multiset ℕ :=
  t.own + t.bodyFlags

/-- The flag of the wrapper is set. -/
def Task.cancelledIn (flags : List Bool) (t : Task) : Bool :=
  match t.wrapper with
  | .immediate => false
  | .delayed cancelled _ => flags.getD cancelled false

/-- Where the flags are: in tasks whose wrappers have not read their flags;
with submissions that have not registered them; with the other calls and the
running bodies. -/
structure Flow where
  unread : Multiset Task
  pending : Multiset ℕ
  carried : Multiset ℕ
  flags : List Bool
  registry : UInt64 → Option ℕ
  accepted : ℕ
  discarded : Multiset ℕ
  aborted : Bool

namespace Flow

/-- What a step of the pool does to a flag: a wrapper reads it, the scheduler
drops a cancelled task, or a recurring body returns for the last time. -/
inductive Event
  | other
  | read (t : Task)
  | drop (d : DelayedTask)
  | leave (r : Recurring)
deriving DecidableEq, Repr

/-- The flags that no later wrapper or body reads. -/
def Event.lost (flags : List Bool) : Event → Multiset ℕ
  | .other => 0
  | .read t => if t.cancelledIn flags then t.flags else t.own
  | .drop d => d.task.flags
  | .leave r => {r.cancelled}

/-- The task that `tasks_cancelled` is incremented for. -/
def Event.counted (flags : List Bool) : Event → Multiset ℕ
  | .read t => if t.cancelledIn flags then {t.id} else 0
  | .drop d => {d.task.id}
  | _ => 0

/-- One step. -/
inductive Step (b : Flow) : Event → Flow → Prop
  | quiet : Step b .other b
  | set (f : ℕ) : Step b .other { b with flags := b.flags.set f true }
  | fresh : Step b .other { b with
      pending := b.flags.length ::ₘ b.pending
      flags := b.flags ++ [false] }
  | register (taskId : UInt64) {f : ℕ} {pending : Multiset ℕ}
      (hpending : b.pending = f ::ₘ pending) : Step b .other { b with
      pending := pending
      carried := f ::ₘ b.carried
      registry := Function.update b.registry taskId (some f) }
  | submit {t : Task} (hid : t.id = b.accepted)
      (hwrapper : t.wrapper = .immediate) : Step b .other { b with
      unread := t ::ₘ b.unread
      accepted := b.accepted + 1 }
  | insert (taskId : UInt64) {t : Task} {f : ℕ} {body : Body}
      {pending carried : Multiset ℕ} (hid : t.id = b.accepted)
      (hwrapper : t.wrapper = .delayed f body)
      (hpending : b.pending = f ::ₘ pending)
      (hcarried : b.carried = body.flags + carried) : Step b .other { b with
      unread := t ::ₘ b.unread
      pending := pending
      carried := carried
      registry := Function.update b.registry taskId (some f)
      accepted := b.accepted + 1 }
  | read {t : Task} {unread : Multiset Task} (hunread : b.unread = t ::ₘ unread)
      (hopen : t.cancelledIn b.flags = false) : Step b (.read t) { b with
      unread := unread
      carried := t.bodyFlags + b.carried }
  | skip {t : Task} {unread : Multiset Task} (hunread : b.unread = t ::ₘ unread)
      (hset : t.cancelledIn b.flags = true) : Step b (.read t) { b with
      unread := unread }
  | drop {d : DelayedTask} {unread : Multiset Task}
      (hunread : b.unread = d.task ::ₘ unread) : Step b (.drop d) { b with
      unread := unread
      registry := Function.update b.registry d.taskId none }
  | leave {r : Recurring} {carried : Multiset ℕ}
      (hcarried : b.carried = r.cancelled ::ₘ carried) :
      Step b (.leave r) { b with carried := carried }
  | discard {gone unread : Multiset Task} (hunread : b.unread = gone + unread) :
      Step b .other { b with
      unread := unread
      registry := fun _ => none
      discarded := gone.map Task.id + b.discarded }
  | abort {pending carried : Multiset ℕ} (hpending : pending ≤ b.pending)
      (hcarried : carried ≤ b.carried) : Step b .other { b with
      pending := pending
      carried := carried
      aborted := true }

/-! ## Each flag is in one place -/

/-- All flags. -/
def tokens (b : Flow) : Multiset ℕ :=
  b.unread.bind Task.flags + (b.pending + b.carried)

theorem flags_immediate {t : Task} (h : t.wrapper = .immediate) :
    t.flags = 0 := by
  simp [Task.flags, Task.own, Task.bodyFlags, h]

theorem flags_delayed {t : Task} {f : ℕ} {body : Body}
    (h : t.wrapper = .delayed f body) : t.flags = f ::ₘ body.flags := by
  simp [Task.flags, Task.own, Task.bodyFlags, h]

variable {b b' : Flow} {e : Event} {t : Task} {f : ℕ} {log : Multiset ℕ}

/-- A step moves flags and loses those of its event, unless it makes a new
one, discards tasks or fails a `CHECK`. -/
theorem Step.tokens_cases (h : Step b e b') :
    (b'.flags.length = b.flags.length ∧
        e.lost b.flags + b'.tokens = b.tokens) ∨
      (b'.flags.length = b.flags.length + 1 ∧
        b'.tokens = b.flags.length ::ₘ b.tokens) ∨
      b'.flags = b.flags ∧ b'.tokens ≤ b.tokens ∧
        (b'.registry = (fun _ => none) ∨ b'.aborted = true) := by
  cases h with
  | quiet => exact .inl ⟨rfl, zero_add _⟩
  | set f => exact .inl ⟨List.length_set, zero_add _⟩
  | fresh =>
      refine .inr (.inl ⟨List.length_append, ?_⟩)
      simp only [tokens, Multiset.cons_add, Multiset.add_cons]
  | register taskId hpending =>
      refine .inl ⟨rfl, ?_⟩
      simp only [tokens, hpending, Event.lost, zero_add, Multiset.cons_add,
        Multiset.add_cons]
  | submit hid hwrapper =>
      refine .inl ⟨rfl, ?_⟩
      simp only [tokens, Event.lost, zero_add, Multiset.cons_bind,
        flags_immediate hwrapper]
  | insert taskId hid hwrapper hpending hcarried =>
      refine .inl ⟨rfl, ?_⟩
      simp only [tokens, Event.lost, Multiset.cons_bind,
        flags_delayed hwrapper, hpending, hcarried]
      simp only [← Multiset.singleton_add]
      abel
  | read hunread hopen =>
      refine .inl ⟨rfl, ?_⟩
      simp only [tokens, Event.lost, hopen, hunread, Multiset.cons_bind,
        Task.flags]
      simp only [Bool.false_eq_true, if_false]
      abel
  | skip hunread hset =>
      refine .inl ⟨rfl, ?_⟩
      simp only [tokens, Event.lost, hset, hunread, Multiset.cons_bind]
      simp only [if_true]
      abel
  | drop hunread =>
      refine .inl ⟨rfl, ?_⟩
      simp only [tokens, Event.lost, hunread, Multiset.cons_bind]
      abel
  | leave hcarried =>
      refine .inl ⟨rfl, ?_⟩
      simp only [tokens, Event.lost, hcarried, ← Multiset.singleton_add]
      abel
  | discard hunread =>
      refine .inr (.inr ⟨rfl, ?_, .inl rfl⟩)
      simp only [tokens, hunread, Multiset.add_bind]
      exact add_le_add (Multiset.le_add_left _ _) le_rfl
  | abort hpending hcarried =>
      refine .inr (.inr ⟨rfl, ?_, .inr rfl⟩)
      exact add_le_add le_rfl (add_le_add hpending hcarried)

/-- Each flag is in one place, and is one that has been created. -/
structure Unique (b : Flow) : Prop where
  nodup : b.tokens.Nodup
  created : ∀ f ∈ b.tokens, f < b.flags.length

theorem Unique.of_le (hb : b.Unique) (hlength : b'.flags.length = b.flags.length)
    (hle : b'.tokens ≤ b.tokens) : b'.Unique := by
  refine ⟨Multiset.nodup_of_le hle hb.nodup, fun f hf => ?_⟩
  rw [hlength]
  exact hb.created f (Multiset.mem_of_le hle hf)

theorem Unique.step (hb : b.Unique) (h : Step b e b') : b'.Unique := by
  obtain ⟨hlength, hsum⟩ | ⟨hlength, hcons⟩ | ⟨hflags, hle, -⟩ :=
    h.tokens_cases
  · apply hb.of_le hlength
    rw [← hsum]
    exact Multiset.le_add_left _ _
  · have hnew : b.flags.length ∉ b.tokens := fun hmem =>
      absurd (hb.created _ hmem) (lt_irrefl _)
    constructor
    · rw [hcons]
      exact Multiset.nodup_cons.mpr ⟨hnew, hb.nodup⟩
    · intro f hf
      rw [hlength]
      rw [hcons] at hf
      obtain rfl | hold := Multiset.mem_cons.mp hf
      · exact Nat.lt_succ_self _
      · exact Nat.lt_succ_of_lt (hb.created f hold)
  · exact hb.of_le (by rw [hflags]) hle

theorem Step.length_le (h : Step b e b') :
    b.flags.length ≤ b'.flags.length := by
  obtain ⟨hlength, -⟩ | ⟨hlength, -⟩ | ⟨hflags, -⟩ := h.tokens_cases
  · exact hlength.ge
  · omega
  · exact (congrArg List.length hflags).ge

/-- Each flag is registered once, after it has been created and after the
submission that registers it. -/
structure Registered (b : Flow) : Prop where
  created : ∀ id f, b.registry id = some f → f < b.flags.length
  pending : ∀ id f, b.registry id = some f → f ∉ b.pending
  once : ∀ id id' f, b.registry id = some f → b.registry id' = some f →
    id = id'

theorem Registered.of_imp (hb : b.Registered)
    (hlength : b.flags.length ≤ b'.flags.length)
    (hpending : ∀ f < b.flags.length, f ∈ b'.pending → f ∈ b.pending)
    (hregistry : ∀ id f, b'.registry id = some f → b.registry id = some f) :
    b'.Registered where
  created id f hf := (hb.created id f (hregistry id f hf)).trans_le hlength
  pending id f hf hmem := hb.pending id f (hregistry id f hf)
    (hpending f (hb.created id f (hregistry id f hf)) hmem)
  once id id' f hf hf' := hb.once id id' f (hregistry id f hf)
    (hregistry id' f hf')

/-- A submission registers its flag. -/
theorem Registered.register (hb : b.Registered) (hunique : b.Unique)
    {pending : Multiset ℕ} (hpending : b.pending = f ::ₘ pending)
    (taskId : UInt64) (hflags : b'.flags = b.flags)
    (hpending' : b'.pending = pending)
    (hregistry : b'.registry = Function.update b.registry taskId (some f)) :
    b'.Registered := by
  have hnodup : b.pending.Nodup :=
    (Multiset.nodup_add.mp (Multiset.nodup_add.mp hunique.nodup).2.1).1
  have hmem : f ∈ b.pending := hpending ▸ Multiset.mem_cons_self f pending
  have hlt : f < b.flags.length := hunique.created f
    (Multiset.mem_add.mpr (.inr (Multiset.mem_add.mpr (.inl hmem))))
  have hnew : f ∉ pending :=
    (Multiset.nodup_cons.mp (hpending ▸ hnodup)).1
  have hold : ∀ {id g}, b.registry id = some g → g ≠ f := by
    rintro id g hg rfl
    exact hb.pending id g hg hmem
  constructor
  · intro id g hg
    rw [hregistry, Function.update_apply] at hg
    rw [hflags]
    split at hg
    · exact Option.some.inj hg ▸ hlt
    · exact hb.created id g hg
  · intro id g hg hgmem
    rw [hregistry, Function.update_apply] at hg
    rw [hpending'] at hgmem
    split at hg
    · obtain rfl := Option.some.inj hg
      exact hnew hgmem
    · exact hb.pending id g hg (hpending ▸ Multiset.mem_cons_of_mem hgmem)
  · intro id id' g hg hg'
    rw [hregistry, Function.update_apply] at hg hg'
    split at hg <;> split at hg'
    · next h h' => rw [h, h']
    · exact absurd (Option.some.inj hg).symm (hold hg')
    · exact absurd (Option.some.inj hg').symm (hold hg)
    · exact hb.once id id' g hg hg'

theorem Registered.step (hb : b.Registered) (hunique : b.Unique)
    (h : Step b e b') : b'.Registered := by
  have hlength := h.length_le
  cases h with
  | register taskId hpending =>
      exact hb.register hunique hpending taskId rfl rfl rfl
  | insert taskId _ _ hpending =>
      exact hb.register hunique hpending taskId rfl rfl rfl
  | fresh =>
      refine hb.of_imp hlength ?_ fun _ _ hf => hf
      intro f hlt hf
      obtain rfl | hold := Multiset.mem_cons.mp hf
      · exact absurd hlt (lt_irrefl _)
      · exact hold
  | drop =>
      refine hb.of_imp hlength (fun _ _ hf => hf) fun id f hf => ?_
      simp only [Function.update_apply] at hf
      split at hf
      · cases hf
      · exact hf
  | discard =>
      exact hb.of_imp hlength (fun _ _ hf => hf) fun _ _ hf => by cases hf
  | abort hpending =>
      exact hb.of_imp hlength (fun _ _ hf => Multiset.mem_of_le hpending hf)
        fun _ _ hf => hf
  | _ => exact hb.of_imp hlength (fun _ _ hf => hf) fun _ _ hf => hf

/-! ## Set flags -/

/-- A flag stays set. -/
theorem Step.getD (h : Step b e b') (hf : b.flags.getD f false = true) :
    b'.flags.getD f false = true := by
  have hlt : f < b.flags.length := by
    by_contra hge
    rw [List.getD_eq_default _ _ (not_lt.mp hge)] at hf
    cases hf
  cases h with
  | set g =>
      simp only [List.getD_eq_getElem?_getD, List.getElem?_set] at hf ⊢
      split
      · next heq =>
          rw [if_pos (heq ▸ hlt)]
          rfl
      · exact hf
  | fresh =>
      rw [List.getD_append _ _ _ _ hlt]
      exact hf
  | _ => exact hf

theorem Step.cancelledIn (h : Step b e b')
    (ht : t.cancelledIn b.flags = true) : t.cancelledIn b'.flags = true := by
  unfold Task.cancelledIn at ht ⊢
  split at ht
  · cases ht
  · exact h.getD ht

/-- The unread tasks whose flags are not set. -/
def openTasks (b : Flow) : Multiset Task :=
  b.unread.filter fun t => t.cancelledIn b.flags = false

/-- The flags that some body can still come to carry. -/
def hot (b : Flow) : Multiset ℕ :=
  b.openTasks.bind Task.flags + (b.pending + b.carried)

theorem bind_mono {p q : Multiset Task} (h : p ≤ q) :
    p.bind Task.flags ≤ q.bind Task.flags := by
  obtain ⟨r, rfl⟩ := Multiset.le_iff_exists_add.mp h
  rw [Multiset.add_bind]
  exact Multiset.le_add_right _ _

/-- A step opens no task. -/
theorem Step.openTasks_le (h : Step b e b') (unread : Multiset Task) :
    (unread.filter fun t => t.cancelledIn b'.flags = false) ≤
      unread.filter fun t => t.cancelledIn b.flags = false := by
  apply Multiset.monotone_filter_right
  intro t ht
  rw [← Bool.not_eq_true] at ht ⊢
  exact fun hset => ht (h.cancelledIn hset)

/-- A step makes no flag hot but a new one. -/
theorem Step.hot_le (h : Step b e b') :
    b'.hot ≤ b.hot ∨ b'.hot ≤ b.flags.length ::ₘ b.hot := by
  have hopen := h.openTasks_le
  -- The tasks that are still there are open only if they were.
  have hbind : ∀ {unread : Multiset Task}, unread ≤ b.unread →
      (unread.filter fun t => t.cancelledIn b'.flags = false).bind Task.flags ≤
        b.openTasks.bind Task.flags := fun hunread =>
    bind_mono ((hopen _).trans (Multiset.filter_le_filter _ hunread))
  unfold hot
  cases h with
  | fresh =>
      right
      simp only [Multiset.cons_add, ← Multiset.add_cons]
      exact add_le_add (hbind le_rfl) le_rfl
  | quiet | set => exact .inl (add_le_add (hbind le_rfl) le_rfl)
  | register taskId hpending =>
      left
      rw [hpending, Multiset.cons_add, ← Multiset.add_cons]
      exact add_le_add (hbind le_rfl) le_rfl
  | @submit t hid hwrapper =>
      left
      have hcons : (openTasks { b with
          unread := t ::ₘ b.unread
          accepted := b.accepted + 1 }).bind Task.flags =
          b.openTasks.bind Task.flags := by
        unfold openTasks
        rw [Multiset.filter_cons_of_pos, Multiset.cons_bind,
          flags_immediate hwrapper, zero_add]
        simp [Task.cancelledIn, hwrapper]
      exact add_le_add hcons.le le_rfl
  | @insert taskId t f body pending carried hid hwrapper hpending hcarried =>
      left
      have hcons : ((t ::ₘ b.unread).filter fun t =>
          t.cancelledIn b.flags = false).bind Task.flags ≤
          t.flags + b.openTasks.bind Task.flags := by
        rw [← Multiset.cons_bind]
        apply bind_mono
        by_cases ht : t.cancelledIn b.flags = false
        · rw [Multiset.filter_cons_of_pos (p := fun t : Task =>
            t.cancelledIn b.flags = false) _ ht]
          exact le_rfl
        · rw [Multiset.filter_cons_of_neg (p := fun t : Task =>
            t.cancelledIn b.flags = false) _ ht]
          exact Multiset.le_cons_self _ _
      calc
        _ ≤ t.flags + b.openTasks.bind Task.flags + (pending + carried) :=
          add_le_add hcons le_rfl
        _ = b.openTasks.bind Task.flags + (b.pending + b.carried) := by
          rw [flags_delayed hwrapper, hpending, hcarried]
          simp only [← Multiset.singleton_add]
          abel
  | @read t unread hunread hset =>
      left
      have hcons : b.openTasks = t ::ₘ
          unread.filter fun t => t.cancelledIn b.flags = false := by
        unfold openTasks
        rw [hunread]
        exact Multiset.filter_cons_of_pos (p := fun t : Task =>
          t.cancelledIn b.flags = false) _ hset
      have hle : t.bodyFlags ≤ t.flags := Multiset.le_add_left _ _
      calc
        _ ≤ (unread.filter fun t => t.cancelledIn b.flags = false).bind
              Task.flags + (b.pending + (t.flags + b.carried)) :=
          add_le_add le_rfl (add_le_add le_rfl (add_le_add hle le_rfl))
        _ = b.openTasks.bind Task.flags + (b.pending + b.carried) := by
          rw [hcons, Multiset.cons_bind]
          abel
  | skip hunread =>
      exact .inl (add_le_add (hbind (hunread ▸ Multiset.le_cons_self _ _))
        le_rfl)
  | drop hunread =>
      exact .inl (add_le_add (hbind (hunread ▸ Multiset.le_cons_self _ _))
        le_rfl)
  | leave hcarried =>
      exact .inl (add_le_add (hbind le_rfl) (add_le_add le_rfl
        (hcarried ▸ Multiset.le_cons_self _ _)))
  | discard hunread =>
      exact .inl (add_le_add (hbind (hunread ▸ Multiset.le_add_left _ _))
        le_rfl)
  | abort hpending hcarried =>
      exact .inl (add_le_add (hbind le_rfl) (add_le_add hpending hcarried))

/-- A flag that has been created and is not hot is never hot again. -/
theorem Step.notMem_hot (h : Step b e b') (hf : f < b.flags.length)
    (hcold : f ∉ b.hot) : f ∉ b'.hot := by
  intro hhot
  obtain hle | hle := h.hot_le
  · exact hcold (Multiset.mem_of_le hle hhot)
  · obtain rfl | hold := Multiset.mem_cons.mp (Multiset.mem_of_le hle hhot)
    · exact lt_irrefl _ hf
    · exact hcold hold

/-- The flags of an unread task whose flag is set are not hot. -/
theorem Unique.notMem_hot (hb : b.Unique) (ht : t ∈ b.unread)
    (hset : t.cancelledIn b.flags = true) (hf : f ∈ t.flags) : f ∉ b.hot := by
  have hsplit := Multiset.filter_add_not
    (fun t => t.cancelledIn b.flags = false) b.unread
  have htokens : b.tokens = b.hot +
      (b.unread.filter fun t => ¬ t.cancelledIn b.flags = false).bind
        Task.flags := by
    unfold tokens hot openTasks
    conv_lhs => rw [← hsplit]
    rw [Multiset.add_bind, add_right_comm]
  have hcold : f ∈ (b.unread.filter fun t =>
      ¬ t.cancelledIn b.flags = false).bind Task.flags := by
    refine Multiset.mem_bind.mpr ⟨t, Multiset.mem_filter.mpr ⟨ht, ?_⟩, hf⟩
    simp [hset]
  have hdisjoint := (Multiset.nodup_add.mp (htokens ▸ hb.nodup)).2.2
  exact fun hhot => Multiset.disjoint_left.mp hdisjoint hhot hcold

/-! ## Cancelled tasks are counted once -/

/-- The tasks that are unread, counted as cancelled or discarded are different
ones, and have been accepted. -/
structure Numbered (b : Flow) (log : Multiset ℕ) : Prop where
  nodup : (b.unread.map Task.id + (log + b.discarded)).Nodup
  accepted : ∀ x ∈ b.unread.map Task.id + (log + b.discarded),
    x < b.accepted

theorem Numbered.of_le {log' : Multiset ℕ} (hb : b.Numbered log)
    (haccepted : b'.accepted = b.accepted)
    (hle : b'.unread.map Task.id + (log' + b'.discarded) ≤
      b.unread.map Task.id + (log + b.discarded)) : b'.Numbered log' := by
  refine ⟨Multiset.nodup_of_le hle hb.nodup, fun x hx => ?_⟩
  rw [haccepted]
  exact hb.accepted x (Multiset.mem_of_le hle hx)

/-- A new task is numbered with the accepted submissions. -/
theorem Numbered.cons (hb : b.Numbered log) (hid : t.id = b.accepted)
    (haccepted : b'.accepted = b.accepted + 1)
    (hunread : b'.unread = t ::ₘ b.unread)
    (hdiscarded : b'.discarded = b.discarded) : b'.Numbered log := by
  have hnew : t.id ∉ b.unread.map Task.id + (log + b.discarded) :=
    fun hmem => absurd (hb.accepted _ hmem) (by omega)
  constructor
  · rw [hunread, hdiscarded, Multiset.map_cons, Multiset.cons_add]
    exact Multiset.nodup_cons.mpr ⟨hnew, hb.nodup⟩
  · intro x hx
    rw [hunread, hdiscarded, Multiset.map_cons, Multiset.cons_add] at hx
    obtain rfl | hold := Multiset.mem_cons.mp hx
    · omega
    · have hlt := hb.accepted x hold
      omega

theorem Numbered.step (hb : b.Numbered log) (h : Step b e b') :
    b'.Numbered (e.counted b.flags + log) := by
  cases h with
  | submit hid =>
      simp only [Event.counted, zero_add]
      exact hb.cons hid rfl rfl rfl
  | insert taskId hid =>
      simp only [Event.counted, zero_add]
      exact hb.cons hid rfl rfl rfl
  | @read t unread hunread hopen =>
      simp only [Event.counted, hopen, Bool.false_eq_true, if_false, zero_add]
      refine hb.of_le ?_ ?_
      · rfl
      · rw [hunread, Multiset.map_cons]
        exact add_le_add (Multiset.le_cons_self _ _) le_rfl
  | @skip t unread hunread hset =>
      simp only [Event.counted, hset, if_true]
      refine hb.of_le ?_ ?_
      · rfl
      · simp only [hunread, Multiset.map_cons, Multiset.singleton_add,
          Multiset.cons_add, Multiset.add_cons]
        exact le_rfl
  | @drop d unread hunread =>
      simp only [Event.counted]
      refine hb.of_le ?_ ?_
      · rfl
      · simp only [hunread, Multiset.map_cons, Multiset.singleton_add,
          Multiset.cons_add, Multiset.add_cons]
        exact le_rfl
  | @discard gone unread hunread =>
      simp only [Event.counted, zero_add]
      refine hb.of_le ?_ ?_
      · rfl
      · simp only [hunread, Multiset.map_add]
        apply le_of_eq
        abel
  | _ =>
      simp only [Event.counted, zero_add]
      exact hb.of_le rfl le_rfl

/-- The task waits to be found cancelled, has been, or is discarded. -/
def Settled (b : Flow) (log : Multiset ℕ) (t : Task) : Prop :=
  (t ∈ b.unread ∧ t.cancelledIn b.flags = true) ∨ t.id ∈ log ∨
    t.id ∈ b.discarded

theorem Settled.step (ht : b.Settled log t) (h : Step b e b') :
    b'.Settled (e.counted b.flags + log) t := by
  obtain ⟨hunread, hset⟩ | hlog | hdiscarded := ht
  · have hset' := h.cancelledIn hset
    have hstays : t ∈ b'.unread → b'.Settled (e.counted b.flags + log) t :=
      fun hmem => .inl ⟨hmem, hset'⟩
    have hleaves : ∀ {unread : Multiset Task} {u : Task},
        b.unread = u ::ₘ unread → t = u ∨ t ∈ unread := by
      intro unread u hsplit
      rw [hsplit] at hunread
      exact Multiset.mem_cons.mp hunread
    cases h with
    | submit | insert => exact hstays (Multiset.mem_cons_of_mem hunread)
    | read hsplit hopen =>
        obtain rfl | hmem := hleaves hsplit
        · rw [hset] at hopen
          cases hopen
        · exact hstays hmem
    | skip hsplit hskip =>
        obtain rfl | hmem := hleaves hsplit
        · refine .inr (.inl ?_)
          simp [Event.counted, hset]
        · exact hstays hmem
    | drop hsplit =>
        obtain rfl | hmem := hleaves hsplit
        · exact .inr (.inl (Multiset.mem_add.mpr
            (.inl (Multiset.mem_singleton_self _))))
        · exact hstays hmem
    | discard hsplit =>
        rw [hsplit] at hunread
        obtain hgone | hmem := Multiset.mem_add.mp hunread
        · refine .inr (.inr (Multiset.mem_add.mpr (.inl ?_)))
          exact Multiset.mem_map_of_mem Task.id hgone
        · exact hstays hmem
    | _ => exact hstays hunread
  · exact .inr (.inl (Multiset.mem_add.mpr (.inr hlog)))
  · refine .inr (.inr ?_)
    cases h with
    | discard => exact Multiset.mem_add.mpr (.inr hdiscarded)
    | _ => exact hdiscarded

end Flow

end ThreadPool
end Yacul
