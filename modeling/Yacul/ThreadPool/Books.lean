import Mathlib.Algebra.Order.Group.Multiset
import Mathlib.Data.Multiset.Range
import Mathlib.Logic.Relation
import Mathlib.Tactic.Abel

/-!
# The life of a task

What the thread pool is for, without its threads and mutexes: accepted tasks
move from compartment to compartment until they are finished.  Every accepted
task is in exactly one compartment, and the three counters follow the sizes of
theirs as far as 32 bits can.
-/

namespace Yacul
namespace ThreadPool

/-- The compartments, by the numbers of the tasks in them; the tasks that have
ever been queued or invoked; and the counters. -/
@[ext]
structure Books where
  accepted : ℕ
  delayed : Multiset ℕ
  ready : Multiset ℕ
  shared : Multiset ℕ
  taken : Multiset ℕ
  started : Multiset ℕ
  counted : Multiset ℕ
  finished : Multiset ℕ
  dropped : Multiset ℕ
  discarded : Multiset ℕ
  queued : Multiset ℕ
  invoked : Multiset ℕ
  queueSize : UInt32
  delayedQueueSize : UInt32
  activeThreads : UInt32

namespace Books

/-- The tasks that have been taken from the shared queue and are not yet
finished. -/
def held (b : Books) : Multiset ℕ :=
  b.taken + b.started + b.counted

/-- One event in the life of a task, or a batch or a drain of a queue. -/
inductive Step (b : Books) : Books → Prop
  | submit : Step b { b with
      accepted := b.accepted + 1
      shared := b.accepted ::ₘ b.shared
      queued := b.accepted ::ₘ b.queued
      queueSize := b.queueSize + 1 }
  | submitDelayed : Step b { b with
      accepted := b.accepted + 1
      delayed := b.accepted ::ₘ b.delayed
      delayedQueueSize := b.delayedQueueSize + 1 }
  | promote {x : ℕ} {rest : Multiset ℕ} (hx : b.delayed = x ::ₘ rest) :
      Step b { b with
        delayed := rest
        ready := x ::ₘ b.ready
        delayedQueueSize := b.delayedQueueSize - 1 }
  | drop {x : ℕ} {rest : Multiset ℕ} (hx : b.delayed = x ::ₘ rest) :
      Step b { b with
        delayed := rest
        dropped := x ::ₘ b.dropped
        delayedQueueSize := b.delayedQueueSize - 1 }
  | push : Step b { b with
      ready := 0
      shared := b.ready + b.shared
      queued := b.ready + b.queued
      queueSize := b.queueSize + UInt32.ofNat b.ready.card }
  | take {x : ℕ} {rest : Multiset ℕ} (hx : b.shared = x ::ₘ rest) :
      Step b { b with
        shared := rest
        taken := x ::ₘ b.taken
        queueSize := b.queueSize - 1 }
  | invoke {x : ℕ} {rest : Multiset ℕ} (hx : b.taken = x ::ₘ rest) :
      Step b { b with
        taken := rest
        started := x ::ₘ b.started
        invoked := x ::ₘ b.invoked }
  | skip {x : ℕ} {rest : Multiset ℕ} (hx : b.started = x ::ₘ rest) :
      Step b { b with
        started := rest
        finished := x ::ₘ b.finished }
  | count {x : ℕ} {rest : Multiset ℕ} (hx : b.started = x ::ₘ rest) :
      Step b { b with
        started := rest
        counted := x ::ₘ b.counted
        activeThreads := b.activeThreads + 1 }
  | finish {x : ℕ} {rest : Multiset ℕ} (hx : b.counted = x ::ₘ rest) :
      Step b { b with
        counted := rest
        finished := x ::ₘ b.finished
        activeThreads := b.activeThreads - 1 }
  | discard : Step b { b with
      delayed := 0
      shared := 0
      discarded := b.delayed + b.shared + b.discarded
      queueSize := 0
      delayedQueueSize := 0 }

/-- Each accepted task is in one compartment, once; the counters agree with
the sizes of their compartments. -/
structure Balanced (b : Books) : Prop where
  accepted : Multiset.range b.accepted =
    b.delayed + b.ready + b.shared + b.held + b.finished + b.dropped +
      b.discarded
  invoked : b.invoked = b.started + b.counted + b.finished
  queued : ∀ x ∈ b.queued,
    x ∈ b.shared ∨ x ∈ b.held ∨ x ∈ b.finished ∨ x ∈ b.discarded
  queueSize : b.queueSize = UInt32.ofNat b.shared.card
  delayedQueueSize : b.delayedQueueSize = UInt32.ofNat b.delayed.card
  activeThreads : b.activeThreads = UInt32.ofNat b.counted.card

theorem ofNat_succ (n : ℕ) : UInt32.ofNat (n + 1) = UInt32.ofNat n + 1 := by
  rw [UInt32.ofNat_add]
  rfl

theorem ofNat_succ_sub (n : ℕ) : UInt32.ofNat (n + 1) - 1 = UInt32.ofNat n := by
  rw [ofNat_succ, UInt32.add_sub_cancel]

@[simp] theorem mem_held {b : Books} {x : ℕ} :
    x ∈ b.held ↔ x ∈ b.taken ∨ x ∈ b.started ∨ x ∈ b.counted := by
  simp [held, or_assoc]

/-- An event moves tasks between compartments, and only accepts new ones at
the end of the numbering. -/
theorem Step.accepted {b b' : Books} (h : Step b b')
    (hb : Multiset.range b.accepted =
      b.delayed + b.ready + b.shared + b.held + b.finished + b.dropped +
        b.discarded) :
    Multiset.range b'.accepted =
      b'.delayed + b'.ready + b'.shared + b'.held + b'.finished + b'.dropped +
        b'.discarded := by
  cases h with
  | submit | submitDelayed =>
      rw [Multiset.range_succ, hb]
      simp only [held, ← Multiset.singleton_add]
      abel
  | push | discard =>
      rw [hb]
      simp only [held]
      abel
  | promote hx | drop hx | take hx | invoke hx | skip hx | count hx
  | finish hx =>
      rw [hb]
      simp only [held, hx, ← Multiset.singleton_add]
      abel

theorem Step.invoked {b b' : Books} (h : Step b b')
    (hb : b.invoked = b.started + b.counted + b.finished) :
    b'.invoked = b'.started + b'.counted + b'.finished := by
  cases h with
  | invoke | skip hx | count hx | finish hx =>
      simp only [*, ← Multiset.singleton_add]
      abel
  | _ => exact hb

theorem Step.queued {b b' : Books} (h : Step b b')
    (hb : ∀ x ∈ b.queued,
      x ∈ b.shared ∨ x ∈ b.held ∨ x ∈ b.finished ∨ x ∈ b.discarded) :
    ∀ x ∈ b'.queued,
      x ∈ b'.shared ∨ x ∈ b'.held ∨ x ∈ b'.finished ∨ x ∈ b'.discarded := by
  intro y hy
  cases h with
  | take hx | invoke hx | skip hx | count hx | finish hx =>
      have hold := hb y hy
      simp only [mem_held, hx, Multiset.mem_cons] at hold ⊢
      tauto
  | submit =>
      obtain rfl | hy := Multiset.mem_cons.mp hy
      · exact .inl (Multiset.mem_cons_self _ _)
      · exact (hb y hy).imp_left fun hshared => Multiset.mem_cons_of_mem hshared
  | push =>
      obtain hy | hy := Multiset.mem_add.mp hy
      · exact .inl (Multiset.mem_add.mpr (.inl hy))
      · exact (hb y hy).imp_left fun hshared =>
          Multiset.mem_add.mpr (.inr hshared)
  | discard =>
      have hold := hb y hy
      simp only [mem_held, Multiset.mem_add] at hold ⊢
      tauto
  | _ => exact hb y hy

/-- Every event keeps the books balanced. -/
theorem Balanced.step {b b' : Books} (hb : Balanced b) (h : Step b b') :
    Balanced b' where
  accepted := h.accepted hb.accepted
  invoked := h.invoked hb.invoked
  queued := h.queued hb.queued
  queueSize := by
    have hsize := hb.queueSize
    cases h with
    | submit => simp only [hsize, Multiset.card_cons, ofNat_succ]
    | push =>
        simp only [hsize, Multiset.card_add, UInt32.ofNat_add,
          UInt32.add_comm]
    | take hx => simp only [hsize, hx, Multiset.card_cons, ofNat_succ_sub]
    | discard => rfl
    | _ => exact hsize
  delayedQueueSize := by
    have hsize := hb.delayedQueueSize
    cases h with
    | submitDelayed => simp only [hsize, Multiset.card_cons, ofNat_succ]
    | promote hx | drop hx =>
        simp only [hsize, hx, Multiset.card_cons, ofNat_succ_sub]
    | discard => rfl
    | _ => exact hsize
  activeThreads := by
    have hsize := hb.activeThreads
    cases h with
    | count => simp only [hsize, Multiset.card_cons, ofNat_succ]
    | finish hx => simp only [hsize, hx, Multiset.card_cons, ofNat_succ_sub]
    | _ => exact hsize

/-- No task is in two compartments, or twice in one. -/
theorem Balanced.nodup {b : Books} (hb : Balanced b) :
    (b.delayed + b.ready + b.shared + b.held + b.finished + b.dropped +
      b.discarded).Nodup := by
  rw [← hb.accepted]
  exact Multiset.nodup_range b.accepted

/-- The wrapper of a task is invoked at most once. -/
theorem Balanced.invoked_nodup {b : Books} (hb : Balanced b) :
    b.invoked.Nodup := by
  apply Multiset.nodup_of_le _ hb.nodup
  rw [hb.invoked, held, Multiset.le_iff_exists_add]
  refine ⟨b.delayed + b.ready + b.shared + b.taken + b.dropped +
    b.discarded, ?_⟩
  abel

/-! ## What only grows -/

theorem Step.accepted_le {b b' : Books} (h : Step b b') :
    b.accepted ≤ b'.accepted := by
  cases h with
  | submit | submitDelayed => exact Nat.le_succ _
  | _ => exact Nat.le_refl _

theorem Step.queued_le {b b' : Books} (h : Step b b') :
    b.queued ≤ b'.queued := by
  cases h with
  | submit => exact Multiset.le_cons_self _ _
  | push => exact Multiset.le_add_left _ _
  | _ => exact le_rfl

theorem Step.finished_le {b b' : Books} (h : Step b b') :
    b.finished ≤ b'.finished := by
  cases h with
  | skip | finish => exact Multiset.le_cons_self _ _
  | _ => exact le_rfl

theorem Step.discarded_le {b b' : Books} (h : Step b b') :
    b.discarded ≤ b'.discarded := by
  cases h with
  | discard => exact Multiset.le_add_left _ _
  | _ => exact le_rfl

end Books

end ThreadPool
end Yacul
