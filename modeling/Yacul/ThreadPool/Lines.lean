import Yacul.Support.Precedence
import Yacul.ThreadPool.Pause

/-!
# The queues of the pool as lines

A task waits in the delayed queue, in the batch of the scheduler or on the
shared queue.  The model of this module keeps only these lines and the order
in which tasks leave them.
-/

namespace Yacul
namespace ThreadPool

open Precedence

/-! ## Lines -/

/-- A task on the shared queue; the larger rank goes first. -/
structure Entry where
  id : ℕ
  rank : ℕ
deriving DecidableEq, Repr

/-- The queues of the pool; `queued` has the tasks that were ever on the shared
queue, the first one first. -/
structure Line where
  accepted : ℕ
  delayed : List DelayedTask
  ready : List DelayedTask
  shared : List Entry
  queued : List ℕ
  dropped : List ℕ
  discarded : List ℕ

/-- The numbers of delayed tasks. -/
def DelayedTask.ids (tasks : List DelayedTask) : List ℕ :=
  tasks.map fun d => d.task.id

open DelayedTask (ids)

/-- What a step does to the lines, and the task that a worker takes; with
`fifo` it takes the first one. -/
inductive Line.Step (fifo : Bool) (l : Line) : Option ℕ → Line → Prop
  | stay : Step fifo l none l
  | enqueue (rank : ℕ) : Step fifo l none { l with
      accepted := l.accepted + 1
      shared := l.shared ++ [⟨l.accepted, rank⟩]
      queued := l.queued ++ [l.accepted] }
  | insert {d : DelayedTask} (hid : d.task.id = l.accepted) :
      Step fifo l none { l with
        accepted := l.accepted + 1
        delayed := l.delayed ++ [d] }
  | drop {k : ℕ} {d : DelayedTask} (hd : l.delayed[k]? = some d) :
      Step fifo l none { l with
        delayed := l.delayed.eraseIdx k
        dropped := d.task.id :: l.dropped }
  | collect {k : ℕ} {d : DelayedTask} (hd : l.delayed[k]? = some d)
      (htop : ∀ e ∈ l.delayed, d.before e = false) :
      Step fifo l none { l with
        delayed := l.delayed.eraseIdx k
        ready := l.ready ++ [d] }
  | push (more : List Entry) (hmore : more.map Entry.id = ids l.ready) :
      Step fifo l none { l with
        ready := []
        shared := l.shared ++ more
        queued := l.queued ++ ids l.ready }
  | take {k : ℕ} {e : Entry} (he : l.shared[k]? = some e)
      (htop : ∀ e' ∈ l.shared, e'.rank ≤ e.rank)
      (hk : fifo = true → k = 0) :
      Step fifo l (some e.id) { l with shared := l.shared.eraseIdx k }
  | drain : Step fifo l none { l with
      delayed := []
      shared := []
      discarded := l.shared.map Entry.id ++ ids l.delayed ++ l.discarded }

/-! ## Numbers -/

/-- The tasks that have not been dropped or discarded before they were
queued. -/
def Line.known (l : Line) : Multiset ℕ :=
  (ids l.delayed : Multiset ℕ) + (ids l.ready : List ℕ) + (l.queued : List ℕ)

/-- Each of them is known once. -/
structure Line.Numbered (l : Line) : Prop where
  nodup : l.known.Nodup
  below : ∀ x ∈ l.known, x < l.accepted

section

variable {fifo : Bool} {l l' : Line} {x? : Option ℕ}

theorem coe_ids_concat (tasks : List DelayedTask) (d : DelayedTask) :
    (ids (tasks ++ [d]) : Multiset ℕ) = d.task.id ::ₘ (ids tasks : List ℕ) := by
  rw [ids, List.map_append, List.map_singleton, coe_append_singleton]
  rfl

theorem coe_ids_eraseIdx {tasks : List DelayedTask} {k : ℕ}
    {d : DelayedTask} (hd : tasks[k]? = some d) :
    (ids tasks : Multiset ℕ) = d.task.id ::ₘ (ids (tasks.eraseIdx k) : List ℕ) :=
  coe_map_eraseIdx hd fun d => d.task.id

theorem Line.Step.known (h : l.Step fifo x? l') :
    l'.accepted = l.accepted ∧ l'.known ≤ l.known ∨
      l'.accepted = l.accepted + 1 ∧ l'.known = l.accepted ::ₘ l.known := by
  cases h with
  | stay | take => exact .inl ⟨rfl, le_rfl⟩
  | enqueue =>
      refine .inr ⟨rfl, ?_⟩
      simp only [Line.known, coe_append_singleton, Multiset.add_cons]
  | insert hid =>
      refine .inr ⟨rfl, ?_⟩
      simp only [Line.known, coe_ids_concat, hid, Multiset.cons_add]
  | drop hd =>
      refine .inl ⟨rfl, ?_⟩
      simp only [Line.known, coe_ids_eraseIdx hd, Multiset.cons_add]
      exact Multiset.le_cons_self _ _
  | collect hd =>
      refine .inl ⟨rfl, le_of_eq ?_⟩
      simp only [Line.known, coe_ids_eraseIdx hd, coe_ids_concat,
        Multiset.cons_add, Multiset.add_cons]
  | push =>
      refine .inl ⟨rfl, le_of_eq ?_⟩
      simp only [Line.known, ← Multiset.coe_add]
      have hnone : ((ids [] : List ℕ) : Multiset ℕ) = 0 := rfl
      rw [hnone]
      abel
  | drain =>
      refine .inl ⟨rfl, ?_⟩
      simp only [Line.known]
      have hnone : ((ids [] : List ℕ) : Multiset ℕ) = 0 := rfl
      rw [hnone, Multiset.zero_add, Multiset.add_assoc]
      exact Multiset.le_add_left _ _

theorem Line.Numbered.step (h : l.Numbered) (hstep : l.Step fifo x? l') :
    l'.Numbered := by
  obtain ⟨haccepted, hle⟩ | ⟨haccepted, hcons⟩ := hstep.known
  · refine ⟨Multiset.nodup_of_le hle h.nodup, fun x hx => ?_⟩
    rw [haccepted]
    exact h.below x (Multiset.mem_of_le hle hx)
  · constructor
    · rw [hcons, Multiset.nodup_cons]
      exact ⟨fun hmem => lt_irrefl _ (h.below _ hmem), h.nodup⟩
    · intro x hx
      rw [haccepted]
      rw [hcons] at hx
      rcases Multiset.mem_cons.mp hx with rfl | hold
      · exact Nat.lt_succ_self _
      · exact (h.below x hold).trans (Nat.lt_succ_self _)

/-! ## Two delayed tasks -/

/-- `a` goes before `b`: as long as `a` waits, `b` does not pass it. -/
inductive Line.Ahead (a b : DelayedTask) (l : Line) : Prop
  | waits (ha : a ∈ l.delayed) (hready : b.task.id ∉ ids l.ready)
      (hqueued : b.task.id ∉ l.queued)
      (honly : ∀ d ∈ l.delayed, d.task.id = b.task.id → d = b) : Ahead a b l
  | collected (first second : List DelayedTask)
      (hready : l.ready = first ++ a :: second)
      (hfirst : b.task.id ∉ ids first) (hqueued : b.task.id ∉ l.queued) :
      Ahead a b l
  | queued (ha : a.task.id ∈ l.queued)
      (h : Precedes a.task.id b.task.id l.queued) : Ahead a b l
  | dropped (ha : a.task.id ∈ l.dropped) : Ahead a b l
  | discarded (ha : a.task.id ∈ l.discarded) : Ahead a b l

variable {a b : DelayedTask}

theorem ids_append (tasks tasks' : List DelayedTask) :
    ids (tasks ++ tasks') = ids tasks ++ ids tasks' :=
  List.map_append ..

theorem mem_eraseIdx_of_ne {β : Type*} {xs : List β} {k : ℕ} {x y : β}
    (hy : xs[k]? = some y) (hx : x ∈ xs) (hne : x ≠ y) : x ∈ xs.eraseIdx k := by
  obtain ⟨hk, rfl⟩ := List.getElem?_eq_some_iff.mp hy
  have hperm := List.getElem_cons_eraseIdx_perm hk
  exact (List.mem_cons.mp (hperm.mem_iff.mpr hx)).resolve_left hne

/-- One step keeps the order; `b` has been accepted, so a new task is another
one. -/
theorem Line.Ahead.step (hab : b.before a = true)
    (hne : a.task.id ≠ b.task.id) (hb : b.task.id < l.accepted)
    (h : l.Ahead a b) (hstep : l.Step fifo x? l') : l'.Ahead a b := by
  have hnew : b.task.id ≠ l.accepted := hb.ne
  cases h with
  | dropped ha =>
      refine .dropped ?_
      cases hstep with
      | drop => exact List.mem_cons_of_mem _ ha
      | _ => exact ha
  | discarded ha =>
      refine .discarded ?_
      cases hstep with
      | drain => exact List.mem_append_right _ ha
      | _ => exact ha
  | queued ha h =>
      cases hstep with
      | enqueue =>
          exact .queued (List.mem_append_left _ ha) (h.append ha _)
      | push => exact .queued (List.mem_append_left _ ha) (h.append ha _)
      | _ => exact .queued ha h
  | collected first second hready hfirst hqueued =>
      cases hstep with
      | enqueue =>
          refine .collected first second hready hfirst fun hmem => ?_
          rcases List.mem_append.mp hmem with hold | hlast
          · exact hqueued hold
          · exact hnew (List.mem_singleton.mp hlast)
      | @collect k d hd htop =>
          refine .collected first (second ++ [d]) ?_ hfirst hqueued
          rw [hready, List.append_assoc, List.cons_append]
      | push =>
          have hids : ids l.ready = ids first ++ a.task.id :: ids second := by
            rw [hready, ids_append]
            rfl
          have hall : l.queued ++ ids l.ready =
              (l.queued ++ ids first) ++ a.task.id :: ids second := by
            rw [hids, List.append_assoc]
          refine .queued ?_ ?_
          · exact hall ▸ List.mem_append_right _ List.mem_cons_self
          · refine hall ▸ precedes_of_append (fun hmem => ?_) hne _
            exact (List.mem_append.mp hmem).elim hqueued hfirst
      | _ => exact .collected first second hready hfirst hqueued
  | waits ha hready hqueued honly =>
      cases hstep with
      | stay | take => exact .waits ha hready hqueued honly
      | enqueue =>
          refine .waits ha hready (fun hmem => ?_) honly
          rcases List.mem_append.mp hmem with hold | hlast
          · exact hqueued hold
          · exact hnew (List.mem_singleton.mp hlast)
      | @insert d hid =>
          refine .waits (List.mem_append_left _ ha) hready hqueued
            fun e he heid => ?_
          rcases List.mem_append.mp he with hold | hlast
          · exact honly e hold heid
          · obtain rfl := List.mem_singleton.mp hlast
            exact absurd (heid.symm.trans hid) hnew
      | @drop k d hd =>
          by_cases had : a = d
          · exact .dropped (had ▸ List.mem_cons_self)
          · exact .waits (mem_eraseIdx_of_ne hd ha had) hready hqueued
              fun e he => honly e (List.mem_of_mem_eraseIdx he)
      | @collect k d hd htop =>
          by_cases had : a = d
          · subst had
            exact .collected l.ready [] rfl hready hqueued
          · refine .waits (mem_eraseIdx_of_ne hd ha had) (fun hmem => ?_)
              hqueued fun e he => honly e (List.mem_of_mem_eraseIdx he)
            rw [ids_append] at hmem
            rcases List.mem_append.mp hmem with hold | hlast
            · exact hready hold
            · -- While `a` is there, `b` is not at the top.
              have hdb := honly d (List.mem_of_getElem? hd)
                (List.mem_singleton.mp hlast).symm
              rw [hdb] at htop
              exact absurd (htop a ha) (by rw [hab]; exact nofun)
      | push =>
          refine .waits ha List.not_mem_nil (fun hmem => ?_) honly
          exact (List.mem_append.mp hmem).elim hqueued hready
      | drain =>
          refine .discarded (List.mem_append_left _ ?_)
          exact List.mem_append_right _ (List.mem_map_of_mem ha)

/-- What is left to say when `b` may have been queued. -/
theorem Line.Ahead.precedes (h : l.Ahead a b) :
    a.task.id ∈ l.dropped ∨ a.task.id ∈ l.discarded ∨
      Precedes a.task.id b.task.id l.queued := by
  cases h with
  | waits _ _ hqueued | collected _ _ _ _ hqueued =>
      exact .inr (.inr (precedes_of_notMem hqueued))
  | queued _ h => exact .inr (.inr h)
  | dropped ha => exact .inl ha
  | discarded ha => exact .inr (.inl ha)

/-! ## Two tasks on the shared queue -/

theorem Line.mem_known_of_queued {x : ℕ} (hx : x ∈ l.queued) : x ∈ l.known :=
  Multiset.mem_add.mpr (.inr hx)

theorem Line.Step.accepted_le (h : l.Step fifo x? l') :
    l.accepted ≤ l'.accepted := by
  obtain ⟨haccepted, -⟩ | ⟨haccepted, -⟩ := h.known
  · exact haccepted.ge
  · exact haccepted ▸ Nat.le_succ _

/-- What has been queued stays on record. -/
theorem Line.Step.mem_queued (h : l.Step fifo x? l') {x : ℕ}
    (hx : x ∈ l.queued) : x ∈ l'.queued := by
  cases h with
  | enqueue | push => exact List.mem_append_left _ hx
  | _ => exact hx

/-- A queued task is no longer in the batch. -/
theorem Line.Numbered.notMem_ready (h : l.Numbered) {x : ℕ}
    (hx : x ∈ l.queued) : x ∉ ids l.ready := by
  have hnodup := h.nodup
  rw [Line.known, Multiset.add_assoc] at hnodup
  have hdisjoint := (Multiset.nodup_add.mp
    (Multiset.nodup_add.mp hnodup).2.1).2.2
  exact fun hready => Multiset.disjoint_left.mp hdisjoint hready hx

/-- `p` goes before `q`: as long as `p` is on the shared queue, `q` is not
taken; `log` has the tasks that have been taken. -/
inductive Line.Outranks (p q : Entry) (log : List ℕ) (l : Line) : Prop
  | waits (hp : p ∈ l.shared) (hq : q.id ∉ log)
      (honly : ∀ e ∈ l.shared, e.id = q.id → e = q) : Outranks p q log l
  | taken (hp : p.id ∈ log) (h : Precedes p.id q.id log) : Outranks p q log l
  | discarded (hp : p.id ∈ l.discarded) : Outranks p q log l

variable {p q : Entry} {log : List ℕ}

theorem Line.Outranks.step (hpq : q.rank < p.rank) (hn : l.Numbered)
    (hq : q.id ∈ l.queued) (h : l.Outranks p q log)
    (hstep : l.Step fifo x? l') : l'.Outranks p q (log ++ x?.toList) := by
  cases h with
  | taken hp h => exact .taken (List.mem_append_left _ hp) (h.append hp _)
  | discarded hp =>
      refine .discarded ?_
      cases hstep with
      | drain => exact List.mem_append_right _ hp
      | _ => exact hp
  | waits hp hlog honly =>
      have hnone : q.id ∉ log ++ (none : Option ℕ).toList := by
        rwa [Option.toList_none, List.append_nil]
      cases hstep with
      | stay | insert | drop | collect => exact .waits hp hnone honly
      | enqueue rank =>
          refine .waits (List.mem_append_left _ hp) hnone fun e he heq => ?_
          rcases List.mem_append.mp he with hold | hlast
          · exact honly e hold heq
          · obtain rfl := List.mem_singleton.mp hlast
            have hlt := hn.below _ (Line.mem_known_of_queued hq)
            exact absurd heq hlt.ne'
      | push more hmore =>
          refine .waits (List.mem_append_left _ hp) hnone fun e he heq => ?_
          rcases List.mem_append.mp he with hold | hlast
          · exact honly e hold heq
          · have hready : q.id ∈ ids l.ready := by
              rw [← hmore, ← heq]
              exact List.mem_map_of_mem hlast
            exact absurd hready (hn.notMem_ready hq)
      | @take k e he htop hk =>
          have hne : p.id ≠ q.id := fun heq =>
            hpq.ne (congrArg Entry.rank (honly p hp heq)).symm
          by_cases hpe : p = e
          · subst hpe
            refine .taken (List.mem_append_right _ List.mem_cons_self) ?_
            exact precedes_concat.mpr ⟨precedes_of_notMem hlog,
              fun heq => absurd heq hne⟩
          · refine .waits (mem_eraseIdx_of_ne he hp hpe) (fun hmem => ?_)
              fun e' he' => honly e' (List.mem_of_mem_eraseIdx he')
            rcases List.mem_append.mp hmem with hold | hlast
            · exact hlog hold
            · -- While `p` is there, `q` is not of the highest rank.
              obtain rfl := honly e (List.mem_of_getElem? he)
                (List.mem_singleton.mp hlast).symm
              exact absurd (htop p hp) (Nat.not_le_of_lt hpq)
      | drain =>
          refine .discarded (List.mem_append_left _ ?_)
          exact List.mem_append_left _ (List.mem_map_of_mem hp)

/-- What is left to say when `q` may have been taken. -/
theorem Line.Outranks.precedes (h : l.Outranks p q log) :
    p.id ∈ l.discarded ∨ Precedes p.id q.id log := by
  cases h with
  | waits _ hq => exact .inr (precedes_of_notMem hq)
  | taken _ h => exact .inr h
  | discarded hp => exact .inl hp

/-- A queued task is on the shared queue, taken or discarded, each task
once. -/
def Line.Taken (log : List ℕ) (l : Line) : Prop :=
  (log : Multiset ℕ) + (l.shared.map Entry.id : List ℕ) ≤ (l.queued : List ℕ)

theorem Line.Taken.step (h : l.Taken log) (hstep : l.Step fifo x? l') :
    l'.Taken (log ++ x?.toList) := by
  have hnone : log ++ (none : Option ℕ).toList = log := by
    rw [Option.toList_none, List.append_nil]
  unfold Line.Taken at h ⊢
  cases hstep with
  | enqueue rank =>
      rw [hnone]
      simp only [List.map_append, List.map_singleton, coe_append_singleton,
        Multiset.add_cons]
      exact Multiset.cons_le_cons _ h
  | push more hmore =>
      rw [hnone]
      simp only [List.map_append, hmore, ← Multiset.coe_add,
        ← Multiset.add_assoc]
      exact Multiset.add_le_add_right h
  | @take k e he =>
      rw [coe_map_eraseIdx he, Multiset.add_cons] at h
      rw [Option.toList_some, coe_append_singleton, Multiset.cons_add]
      exact h
  | drain =>
      rw [hnone, List.map_nil, Multiset.coe_nil, Multiset.add_zero]
      exact (Multiset.le_add_right _ _).trans h
  | _ =>
      rw [hnone]
      exact h

/-- Of two tasks on the shared queue the one of the higher rank goes first. -/
theorem Line.Taken.outranks (h : l.Taken log) (hn : l.Numbered)
    (hp : p ∈ l.shared) (hq : q ∈ l.shared) : l.Outranks p q log := by
  have hqueued : l.queued.Nodup := (Multiset.nodup_add.mp hn.nodup).2.1
  have hall := Multiset.nodup_of_le h (Multiset.coe_nodup.mpr hqueued)
  obtain ⟨-, hshared, hdisjoint⟩ := Multiset.nodup_add.mp hall
  have hmem : q.id ∈ l.shared.map Entry.id := List.mem_map_of_mem hq
  refine .waits hp (fun hlog => ?_) fun e he heq => ?_
  · exact Multiset.disjoint_left.mp hdisjoint hlog hmem
  · exact List.inj_on_of_nodup_map (Multiset.coe_nodup.mp hshared) he hq heq

/-- Of two delayed tasks the one in front goes first. -/
theorem Line.Numbered.ahead (h : l.Numbered) (ha : a ∈ l.delayed)
    (hb : b ∈ l.delayed) : l.Ahead a b := by
  have hmem : b.task.id ∈ ids l.delayed := List.mem_map_of_mem hb
  obtain ⟨hfirst, -, hqueued⟩ := Multiset.nodup_add.mp h.nodup
  obtain ⟨hdelayed, -, hready⟩ := Multiset.nodup_add.mp hfirst
  refine .waits ha (Multiset.disjoint_left.mp hready hmem) ?_
    fun d hd hid => ?_
  · exact Multiset.disjoint_left.mp hqueued
      (Multiset.mem_add.mpr (.inl hmem))
  · exact List.inj_on_of_nodup_map (Multiset.coe_nodup.mp hdelayed) hd hb hid

/-! ## First in, first out -/

/-- The tasks are taken in the order in which they were queued. -/
structure Line.InOrder (log : List ℕ) (l : Line) : Prop where
  sublist : (log ++ l.shared.map Entry.id).Sublist l.queued
  complete : ∀ x ∈ l.queued,
    x ∈ log ++ l.shared.map Entry.id ∨ x ∈ l.discarded
  all : l.discarded = [] → log ++ l.shared.map Entry.id = l.queued

/-- New tasks go to the end of both lists. -/
theorem Line.InOrder.append (h : l.InOrder log) {more : List Entry}
    {accepted : ℕ} {ready : List DelayedTask} {new : List ℕ}
    {delayed : List DelayedTask} {dropped : List ℕ}
    (hmore : more.map Entry.id = new) :
    Line.InOrder (log ++ (none : Option ℕ).toList)
      ⟨accepted, delayed, ready, l.shared ++ more, l.queued ++ new, dropped,
        l.discarded⟩ := by
  have hids : (log ++ (none : Option ℕ).toList) ++
      (l.shared ++ more).map Entry.id =
        (log ++ l.shared.map Entry.id) ++ new := by
    rw [Option.toList_none, List.append_nil, List.map_append, hmore,
      List.append_assoc]
  constructor
  · rw [hids]
    exact h.sublist.append (List.Sublist.refl _)
  · intro x hx
    rw [hids]
    rcases List.mem_append.mp hx with hold | hnew
    · exact (h.complete x hold).imp (List.mem_append_left _) id
    · exact .inl (List.mem_append_right _ hnew)
  · intro hdiscarded
    rw [hids, h.all hdiscarded]

theorem Line.InOrder.step (h : l.InOrder log) (hstep : l.Step true x? l') :
    l'.InOrder (log ++ x?.toList) := by
  cases hstep with
  | enqueue rank => exact h.append rfl
  | push more hmore => exact h.append hmore
  | @take k e he htop hk =>
      obtain rfl := hk rfl
      cases hshared : l.shared with
      | nil => simp [hshared] at he
      | cons first rest =>
          obtain rfl : first = e := by simpa [hshared] using he
          have hids : (log ++ (some first.id).toList) ++
              (rest.map Entry.id) = log ++ l.shared.map Entry.id := by
            rw [hshared, List.append_assoc]
            rfl
          constructor
          · exact hids ▸ h.sublist
          · intro x hx
            exact (h.complete x hx).imp (hids ▸ ·) id
          · exact fun hdiscarded => hids.trans (h.all hdiscarded)
  | drain =>
      have hids : (log ++ (none : Option ℕ).toList) ++
          ([] : List Entry).map Entry.id = log := by
        rw [Option.toList_none, List.map_nil, List.append_nil,
          List.append_nil]
      constructor
      · rw [hids]
        exact (List.sublist_append_left _ _).trans h.sublist
      · intro x hx
        rw [hids]
        rcases h.complete x hx with hleft | hgone
        · refine (List.mem_append.mp hleft).imp id fun hshared => ?_
          exact List.mem_append_left _ (List.mem_append_left _ hshared)
        · exact .inr (List.mem_append_right _ hgone)
      · intro hdiscarded
        obtain ⟨hfirst, hold⟩ := List.append_eq_nil_iff.mp hdiscarded
        obtain ⟨hshared, -⟩ := List.append_eq_nil_iff.mp hfirst
        rw [hids, ← h.all hold, hshared, List.append_nil]
  | _ =>
      rw [Option.toList_none, List.append_nil]
      exact ⟨h.sublist, h.complete, h.all⟩

/-- Tasks that were queued one after the other are taken so. -/
theorem Line.InOrder.precedes (h : l.InOrder log) (hn : l.Numbered)
    {x y : ℕ} (hxy : Precedes x y l.queued) (hx : x ∉ l.discarded) :
    Precedes x y log := by
  by_cases hy : y ∈ log
  · have hnodup : l.queued.Nodup := (Multiset.nodup_add.mp hn.nodup).2.1
    have hqueued := h.sublist.subset (List.mem_append_left _ hy)
    have hleft := (h.complete x (hxy.mem hqueued)).resolve_right hx
    exact (hxy.of_sublist h.sublist hnodup hleft).of_append
  · exact precedes_of_notMem hy

end

end ThreadPool
end Yacul
