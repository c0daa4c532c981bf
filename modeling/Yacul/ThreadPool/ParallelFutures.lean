import Yacul.ThreadPool.Parallel

/-!
# The futures of a call

A task of the call runs at most once, since a task that has returned does not
run again, and it is not discarded any more.  The futures of a call belong to
different tasks, so the outcomes are those of different elements.
-/

namespace Yacul
namespace ThreadPool

/-! ## Callables that have returned -/

/-- The task whose callable has returned. -/
def Worker.returnedIds (w : Worker) : Multiset ℕ :=
  match w.pc with
  | .returned t | .uncount t => {t.id}
  | _ => 0

/-- The task that is running. -/
def Worker.runningIds (w : Worker) : Multiset ℕ :=
  match w.pc with
  | .running t _ => {t.id}
  | _ => 0

/-- The tasks whose callables have returned, and those that are finished. -/
def State.ran (s : State) : Multiset ℕ :=
  Roster.tally Worker.returnedIds s.workers + s.finished

/-- The tasks on the queues that `ShutdownNow` clears. -/
def State.onQueues (s : State) : List ℕ :=
  s.tasks.map Task.id ++ s.priorityTasks.map (fun p => p.task.id) ++
    s.delayedTasks.map (fun d => d.task.id) ++
      s.localQueues.flatten.map Task.id

section

variable {s s' : State} {a : Action} {x : ℕ}

/-- A task runs, has returned or is discarded, and only one of them. -/
theorem ran_nodup (hb : (books s).Balanced) :
    (Roster.tally Worker.runningIds s.workers + s.ran +
      (s.discarded : Multiset ℕ)).Nodup := by
  have hsplit : workerIds Stage.countedIds s.workers =
      Roster.tally Worker.runningIds s.workers +
        Roster.tally Worker.returnedIds s.workers := by
    rw [← Roster.tally_add]
    refine Roster.tally_congr fun w _ => ?_
    simp only [Worker.stage, Worker.runningIds, Worker.returnedIds]
    cases w.pc <;> rfl
  apply Multiset.nodup_of_le _ hb.nodup
  rw [Multiset.le_iff_exists_add]
  refine ⟨(books s).delayed + (books s).ready + (books s).shared +
    (books s).taken + (books s).started + (books s).dropped, ?_⟩
  simp only [Books.held, books, State.ran, hsplit]
  abel

theorem notMem_ran_of_running (hb : (books s).Balanced) {i : ℕ} {w : Worker}
    {t : Task} {phase : Phase} (hw : s.workers[i]? = some w)
    (hpc : w.pc = .running t phase) : t.id ∉ s.ran := by
  have hrunning : t.id ∈ Roster.tally Worker.runningIds s.workers := by
    refine Roster.mem_tally.mpr ⟨w, List.mem_of_getElem? hw, ?_⟩
    simp [Worker.runningIds, hpc]
  have hnodup := (Multiset.nodup_add.mp (ran_nodup hb)).1
  exact Multiset.disjoint_left.mp (Multiset.nodup_add.mp hnodup).2.2 hrunning

theorem notMem_discarded_of_ran (hb : (books s).Balanced) (hx : x ∈ s.ran) :
    x ∉ s.discarded := by
  have hdisjoint := (Multiset.nodup_add.mp (ran_nodup hb)).2.2
  exact Multiset.disjoint_left.mp hdisjoint (Multiset.mem_add.mpr (.inr hx))

/-- A worker past its callable goes on to finish its task. -/
theorem workerStep_returned {s₁ : State} {i : ℕ} {w w' : Worker}
    {ch : Choice} (h : workerStep s i w ch = some (s₁, w'))
    (hx : x ∈ w.returnedIds) : x ∈ w'.returnedIds ∨ x ∈ s₁.finished := by
  cases hpc : w.pc with
  | returned t =>
      simp only [workerStep, hpc, Option.some.injEq, Prod.mk.injEq] at h
      obtain ⟨-, rfl⟩ := h
      left
      simpa [Worker.returnedIds, hpc] using hx
  | uncount t =>
      simp only [workerStep, hpc, Option.some.injEq, Prod.mk.injEq] at h
      obtain ⟨rfl, -⟩ := h
      right
      have heq : x = t.id := by simpa [Worker.returnedIds, hpc] using hx
      exact heq ▸ List.mem_cons_self
  | _ => simp [Worker.returnedIds, hpc] at hx

/-- A callable that has returned has returned for good. -/
theorem mem_ran_step (hlocal : LocalQueuesEmpty s) (h : step s a = some s')
    (hx : x ∈ s.ran) : x ∈ s'.ran := by
  obtain hreturned | hfinished := Multiset.mem_add.mp hx
  · obtain ⟨w, hw, hxw⟩ := Roster.mem_tally.mp hreturned
    obtain ⟨i, hi⟩ := List.mem_iff_getElem?.mp hw
    by_cases ha : a.caller? = some (.worker i)
    · cases a with
      | worker j ch =>
          obtain rfl := Caller.worker.inj (Option.some.inj ha)
          obtain ⟨s₁, w', hworker, hw', hs'⟩ := worker_of_moved h hi
          obtain hstays | hfinished := workerStep_returned hworker hxw
          · exact Multiset.mem_add.mpr (.inl
              (Roster.mem_tally.mpr ⟨w', List.mem_of_getElem? hw', hstays⟩))
          · refine Multiset.mem_add.mpr (.inr ?_)
            rw [hs']
            exact hfinished
      | _ => cases ha
    · have hi' := worker_of_not_moved h ha hi
      exact Multiset.mem_add.mpr (.inl
        (Roster.mem_tally.mpr ⟨w, List.mem_of_getElem? hi', hxw⟩))
  · have hle : (books s).finished ≤ (books s').finished := by
      obtain hsame | hstep := step_books hlocal h
      · rw [hsame]
      · exact hstep.finished_le
    exact Multiset.mem_add.mpr (.inr (Multiset.mem_of_le hle hfinished))

theorem returning?_eq_some {t : Task} (h : s.returning? a = some t) :
    ∃ i ch w, a = .worker i ch ∧ s.workers[i]? = some w ∧
      w.pc = .running t .user ∧ ch.call = none ∧ t.recurring? = none := by
  cases a with
  | worker i ch =>
      obtain ⟨w, hw, hreturning⟩ := Option.bind_eq_some_iff.mp h
      unfold Worker.returning? at hreturning
      split at hreturning
      · next u hpc hcall =>
        split at hreturning
        · cases hreturning
        · next honce =>
          obtain rfl := Option.some.inj hreturning
          exact ⟨i, ch, w, rfl, hw, hpc, hcall, by simpa using honce⟩
      · cases hreturning
  | _ => cases h

/-- The callable returns in the action. -/
theorem mem_ran_of_returning {t : Task} (h : step s a = some s')
    (ht : s.returning? a = some t) : t.id ∈ s'.ran := by
  obtain ⟨i, ch, w, rfl, hw, hpc, hcall, honce⟩ := returning?_eq_some ht
  obtain ⟨s₁, w', hworker, hw', -⟩ := worker_of_moved h hw
  simp only [workerStep, hpc, runningStep, hcall, honce, Option.some.injEq,
    Prod.mk.injEq] at hworker
  obtain ⟨-, rfl⟩ := hworker
  refine Multiset.mem_add.mpr (.inl (Roster.mem_tally.mpr
    ⟨_, List.mem_of_getElem? hw', ?_⟩))
  simp [Worker.returnedIds]

/-! ## Submissions and drains -/

theorem accepted_le_step (hlocal : LocalQueuesEmpty s)
    (h : step s a = some s') : s.accepted ≤ s'.accepted := by
  obtain hsame | hstep := step_books hlocal h
  · exact Nat.le_of_eq (congrArg Books.accepted hsame).symm
  · exact hstep.accepted_le

/-- The tasks that are discarded are those that were on the queues in the
section of a `ShutdownNow`. -/
theorem discarded_step (h : step s a = some s') :
    s'.discarded = (if s.drains a then s.onQueues else []) ++ s.discarded := by
  by_cases hdrains : s.drains a = true
  · obtain ⟨-, -, -, hs'⟩ := step_drains h hdrains
    rw [if_pos hdrains, hs']
    rfl
  · rw [if_neg hdrains, List.nil_append]
    obtain hsame | ⟨who, ch, pc, s₁, pc', ha, hpc, hcall, hs'⟩ :=
      step_callParts h
    · exact hsame.discarded
    · rw [hs']
      apply (callStep_effect hcall).discarded
      rintro rfl
      apply hdrains
      rw [drains_eq_true, ha]
      exact hpc

/-- The section of `EnqueueTask` is executed once in a call. -/
theorem enqueues_of_follows {pc pc' : CallPc} (h : pc.Follows pc') :
    pc'.enqueues = false := by
  cases h <;> rfl

theorem mem_submission {f : Option ℕ} :
    f ∈ s.submission ↔ s.shutdown = false ∧
      f = if s.queueFull then none else some s.accepted := by
  unfold State.submission
  cases s.shutdown <;> cases s.queueFull <;> simp

/-- A submission that is not dropped is accepted. -/
theorem accepted_of_submission {n : ℕ} {ch : Choice} {pc : CallPc}
    (h : step s (.client n ch) = some s') (hpc : s.clients[n]? = some pc)
    (henqueues : pc.enqueues = true) (hx : some x ∈ s.submission) :
    x = s.accepted ∧ s'.accepted = s.accepted + 1 := by
  obtain ⟨pc₁, s₁, pc', hpc₁, hcall, rfl⟩ := step_client h
  obtain rfl : pc = pc₁ := Option.some.inj (hpc.symm.trans hpc₁)
  obtain ⟨hopen, hsome⟩ := mem_submission.mp hx
  cases pc with
  | enqueueTask priority =>
      have hroom : s.queueFull = false := by
        cases hfull : s.queueFull with
        | false => rfl
        | true => simp [hfull] at hsome
      obtain rfl : x = s.accepted := by simpa [hroom] using hsome
      simp only [callStep, whenFree_eq_some, hopen, Bool.false_eq_true,
        if_false] at hcall
      obtain ⟨-, hpush⟩ := hcall
      split at hpush
      · next hfull => exact absurd hfull (ne_true_of_eq_false hroom)
      · obtain ⟨rfl, -⟩ := Prod.mk.inj hpush
        exact ⟨rfl, rfl⟩
  | _ => cases henqueues

end

section

variable {α β ε : Type*}

/-! ## Futures and outcomes -/

/-- The futures belong to different tasks of the pool, and the outcomes are
those of the elements they were submitted for, one for each. -/
structure Traced (j : Job α β ε) (pool : State) (futures : List (Option ℕ))
    (outcomes : List (Outcome β ε)) : Prop where
  reachable : Transition.Reachable step initial pool
  accepted : ∀ (k x : ℕ), futures[k]? = some (some x) → x < pool.accepted
  distinct : ∀ (k l x : ℕ), futures[k]? = some (some x) →
    futures[l]? = some (some x) → k = l
  sound : ∀ o ∈ outcomes, futures[o.element]? = some (some o.task) ∧
    o.task ∈ pool.ran ∧
      ∃ a, j.input[o.element]? = some a ∧ o.value = j.func a
  once : (outcomes.map Outcome.element).Nodup

variable {j : Job α β ε} {pool pool' : State} {futures : List (Option ℕ)}
  {outcomes : List (Outcome β ε)} {a : Action}

theorem Traced.step (h : Traced j pool futures outcomes)
    (hstep : step pool a = some pool') :
    Traced j pool' futures outcomes := by
  have hlocal := reachable_localQueuesEmpty h.reachable
  refine ⟨h.reachable.next trivial hstep, fun k x hk => ?_, h.distinct,
    fun o ho => ?_, h.once⟩
  · exact Nat.lt_of_lt_of_le (h.accepted k x hk)
      (accepted_le_step hlocal hstep)
  · obtain ⟨hfuture, hran, hvalue⟩ := h.sound o ho
    exact ⟨hfuture, mem_ran_step hlocal hstep hran, hvalue⟩

theorem length_submission_le (s : State) : s.submission.length ≤ 1 := by
  unfold State.submission
  split
  · exact Nat.zero_le 1
  · split <;> exact Nat.le_refl 1

/-- The futures after a submission. -/
theorem getElem?_append_submission {k : ℕ} {f : Option ℕ}
    (h : (futures ++ pool.submission)[k]? = some f) :
    futures[k]? = some f ∨ k = futures.length ∧ f ∈ pool.submission := by
  rw [List.getElem?_append] at h
  split at h
  · exact .inl h
  · next hk =>
    have hmem := List.mem_of_getElem? h
    obtain ⟨hlt, -⟩ := List.getElem?_eq_some_iff.mp h
    have hlength := length_submission_le pool
    exact .inr ⟨by omega, hmem⟩

/-- The submission in which the caller is gets its future. -/
theorem Traced.submit (h : Traced j pool futures outcomes) {n : ℕ}
    {ch : Choice} {pc : CallPc}
    (hstep : ThreadPool.step pool (.client n ch) = some pool')
    (hat : pool.clients[n]? = some pc) (henqueues : pc.enqueues = true) :
    Traced j pool' (futures ++ pool.submission) outcomes := by
  have hkeeps := h.step hstep
  have hnew : ∀ {x : ℕ}, some x ∈ pool.submission →
      x = pool.accepted ∧ pool'.accepted = pool.accepted + 1 :=
    fun hx => accepted_of_submission hstep hat henqueues hx
  refine ⟨hkeeps.reachable, fun k x hk => ?_, fun k l x hk hl => ?_,
    fun o ho => ?_, h.once⟩
  · obtain hold | ⟨-, hx⟩ := getElem?_append_submission hk
    · exact hkeeps.accepted k x hold
    · obtain ⟨rfl, haccepted⟩ := hnew hx
      omega
  · obtain hk | ⟨rfl, hkx⟩ := getElem?_append_submission hk
    · obtain hl | ⟨rfl, hlx⟩ := getElem?_append_submission hl
      · exact h.distinct k l x hk hl
      · have hlt := h.accepted k x hk
        have heq := (hnew hlx).1
        omega
    · obtain hl | ⟨rfl, -⟩ := getElem?_append_submission hl
      · have hlt := h.accepted l x hl
        have heq := (hnew hkx).1
        omega
      · rfl
  · obtain ⟨hfuture, hran⟩ := hkeeps.sound o ho
    exact ⟨Roster.getElem?_append hfuture _, hran⟩

theorem outcomeOf_eq_some {t : Task} {o : Outcome β ε}
    (h : outcomeOf j futures t = some o) :
    o.task = t.id ∧ futures[o.element]? = some (some t.id) ∧
      ∃ a, j.input[o.element]? = some a ∧ o.value = j.func a := by
  obtain ⟨k, hk, h⟩ := Option.bind_eq_some_iff.mp h
  obtain ⟨a, ha, rfl⟩ := Option.map_eq_some_iff.mp h
  obtain ⟨hlt, hget, -⟩ := List.idxOf?_eq_some_iff.mp hk
  refine ⟨rfl, ?_, a, ha, rfl⟩
  rw [List.getElem?_eq_getElem hlt, hget]

/-- A task of the job returns from the function; no other task has returned
for the element. -/
theorem Traced.outcome (h : Traced j pool futures outcomes) {t : Task}
    {o : Outcome β ε} (hstep : ThreadPool.step pool a = some pool')
    (ht : pool.returning? a = some t) (ho : outcomeOf j futures t = some o) :
    Traced j pool' futures (outcomes ++ [o]) := by
  obtain ⟨htask, hfuture, hvalue⟩ := outcomeOf_eq_some ho
  have hkeeps := h.step hstep
  refine ⟨hkeeps.reachable, hkeeps.accepted, h.distinct, fun p hp => ?_, ?_⟩
  · obtain hold | hlast := List.mem_append.mp hp
    · exact hkeeps.sound p hold
    · obtain rfl := List.mem_singleton.mp hlast
      rw [htask]
      exact ⟨hfuture, mem_ran_of_returning hstep ht, hvalue⟩
  · rw [List.map_append, List.map_singleton]
    refine List.nodup_append.mpr ⟨h.once, List.nodup_singleton _, ?_⟩
    rintro k hk l hl rfl
    obtain rfl := List.mem_singleton.mp hl
    obtain ⟨p, hp, hsame⟩ := List.mem_map.mp hk
    obtain ⟨hpfuture, hpran, -⟩ := h.sound p hp
    rw [hsame, hfuture] at hpfuture
    obtain ⟨i, ch, w, rfl, hw, hpc, -, -⟩ := returning?_eq_some ht
    have hnot := notMem_ran_of_running (reachable_balanced h.reachable) hw hpc
    have htaskeq : t.id = p.task :=
      Option.some.inj (Option.some.inj hpfuture)
    exact hnot (htaskeq ▸ hpran)

/-! ## The loop over the elements -/

/-- There are as many futures as elements behind the caller. -/
def Parallel.Submits (j : Job α β ε) (s : Parallel β ε) : Prop :=
  match s.pc with
  | .next => s.futures.length ≤ j.input.length
  | .submit n => s.futures.length ≤ j.input.length ∧
      ∃ pc, s.pool.clients[n]? = some pc ∧ pc ≠ .shutdownSet true ∧
        (pc.enqueues = true → s.futures.length < j.input.length)
  | _ => s.futures.length = j.input.length

/-- What holds in every state of a call. -/
structure Parallel.Sound (j : Job α β ε) (s : Parallel β ε) : Prop where
  traced : Traced j s.pool s.futures s.outcomes
  submits : s.Submits j

theorem shutdownSet_of_follows {pc pc' : CallPc} (h : pc.Follows pc') :
    pc' ≠ .shutdownSet true := by
  rintro rfl
  cases h

variable {s s' : Parallel β ε}

theorem Parallel.Submits.length_le (h : s.Submits j) :
    s.futures.length ≤ j.input.length := by
  unfold Parallel.Submits at h
  split at h
  · exact h
  · exact h.1
  · exact Nat.le_of_eq h

theorem Parallel.Sound.caller (h : s.Sound j) (hmoves : CallerMoves j s s') :
    s'.Sound j := by
  have hlength := h.submits.length_le
  cases hmoves with
  | @submit pool hpc hmore hstep =>
      refine ⟨h.traced.step hstep, hlength, .enqueueTask .kNormal, ?_, nofun,
        fun _ => hmore⟩
      obtain rfl := step_call hstep
      exact List.getElem?_concat_length
  | collect hpc hall =>
      refine ⟨h.traced, ?_⟩
      have heq : s.futures.length = j.input.length := by omega
      unfold Parallel.Submits
      cases j.utility <;> exact heq
  | submitted hpc hat => exact ⟨h.traced, hlength⟩
  | @submitting n ch pc pool hpc hat hstep =>
      have hsubmits := h.submits
      simp only [Parallel.Submits, hpc] at hsubmits
      obtain ⟨-, pc₁, hat₁, -, hroom⟩ := hsubmits
      obtain rfl : pc = pc₁ := Option.some.inj (hat.symm.trans hat₁)
      have hnext : ∃ pc', pool.clients[n]? = some pc' ∧ pc.Follows pc' := by
        obtain ⟨pc₁, s₁, pc', hpc₁, hcall, rfl⟩ := step_client hstep
        obtain rfl : pc = pc₁ := Option.some.inj (hat.symm.trans hpc₁)
        obtain ⟨hlt, -⟩ := List.getElem?_eq_some_iff.mp hat
        rw [← (callStep_effect hcall).clients] at hlt
        exact ⟨pc', List.getElem?_set_self hlt, callStep_follows hcall⟩
      obtain ⟨pc', hat', hfollows⟩ := hnext
      have henqueues' := enqueues_of_follows hfollows
      have hafter : pc'.enqueues = true → False := by
        rw [henqueues']
        exact Bool.noConfusion
      by_cases henqueues : pc.enqueues = true
      · rw [if_pos henqueues]
        refine ⟨h.traced.submit hstep hat henqueues, ?_⟩
        have hone := length_submission_le s.pool
        have hless := hroom henqueues
        simp only [Parallel.Submits, hpc, List.length_append]
        exact ⟨by omega, pc', hat', shutdownSet_of_follows hfollows,
          fun henq => (hafter henq).elim⟩
      · rw [if_neg henqueues, List.append_nil]
        refine ⟨h.traced.step hstep, ?_⟩
        simp only [Parallel.Submits, hpc]
        exact ⟨hlength, pc', hat', shutdownSet_of_follows hfollows,
          fun henq => (hafter henq).elim⟩
  | wait hpc hk hready | waited hpc hk | got hpc hlt =>
      have hsubmits := h.submits
      simp only [Parallel.Submits, hpc] at hsubmits
      exact ⟨h.traced, hsubmits⟩
  | @get results r hpc hlt hready =>
      have hsubmits := h.submits
      simp only [Parallel.Submits, hpc] at hsubmits
      refine ⟨h.traced, ?_⟩
      unfold Parallel.Submits
      obtain _ | v := r
      · exact hsubmits
      · cases v <;> exact hsubmits

theorem Parallel.Sound.other (h : s.Sound j) (hstep : otherStep j s a = some s') :
    s'.Sound j := by
  obtain ⟨howns, pool, hpool, rfl⟩ := otherStep_eq_some hstep
  constructor
  · cases hret : (s.pool.returning? a).bind (outcomeOf j s.futures) with
    | none =>
        simp only [Option.toList_none, List.append_nil]
        exact h.traced.step hpool
    | some o =>
        obtain ⟨t, ht, ho⟩ := Option.bind_eq_some_iff.mp hret
        exact h.traced.outcome hpool ht ho
  · have hsubmits := h.submits
    unfold Parallel.Submits at hsubmits ⊢
    cases hpc : s.pc with
    | submit n =>
        simp only [hpc] at hsubmits ⊢
        obtain ⟨hlength, pc, hat, hrest⟩ := hsubmits
        have hmoved : a.caller? ≠ some (.client n) := by
          simpa [Parallel.owns, hpc] using howns
        have hstays : pool.callAt (.client n) = some pc :=
          callAt_of_not_moved hpool hmoved hat
        exact ⟨hlength, pc, hstays, hrest⟩
    | _ => simpa only [hpc] using hsubmits

theorem Parallel.Sound.step {act : ParallelAction} (h : s.Sound j)
    (hstep : parallelStep j s act = some s') : s'.Sound j := by
  cases act with
  | caller ch => exact h.caller (callerStep_moves hstep)
  | other a => exact h.other hstep

theorem sound_initial (j : Job α β ε) (hs : s ∈ initialParallel) :
    s.Sound j := by
  obtain ⟨hreachable, hs⟩ := hs
  rw [hs]
  refine ⟨⟨hreachable, fun k x hk => ?_, fun k l x hk => ?_,
    fun o ho => ?_, List.nodup_nil⟩, Nat.zero_le _⟩
  · cases hk
  · cases hk
  · cases ho

/-! ## Ready futures -/

theorem isSome_futureAt {k : ℕ} :
    (s.futureAt k).isSome = true ↔ ∃ f, s.futures[k]? = some f ∧
      ∀ x ∈ f, (∃ o ∈ s.outcomes, o.task = x) ∨ x ∈ s.pool.discarded := by
  unfold Parallel.futureAt
  split
  · next x hk =>
    simp only [hk, Option.some.injEq, exists_eq_left', Option.mem_def,
      forall_eq']
    split
    · next o ho =>
      have htask : o.task = x := by simpa using List.find?_some ho
      have hmem := List.mem_of_find?_eq_some ho
      exact iff_of_true rfl (.inl ⟨o, hmem, htask⟩)
    · next hnone =>
      have hno : ¬ ∃ o ∈ s.outcomes, o.task = x := by
        simpa using List.find?_eq_none.mp hnone
      simp only [hno, false_or]
      split <;> simp_all
  · next hk => simp [hk]
  · next hk => simp [hk]

/-- Futures and outcomes are only added, and what is discarded stays so. -/
structure Parallel.Grows (s s' : Parallel β ε) : Prop where
  futures : s.futures <+: s'.futures
  outcomes : s.outcomes <+: s'.outcomes
  discarded : s.pool.discarded ⊆ s'.pool.discarded

theorem discarded_subset_step (h : ThreadPool.step pool a = some pool') :
    pool.discarded ⊆ pool'.discarded := by
  rw [discarded_step h]
  exact List.subset_append_right _ _

theorem parallelStep_grows {act : ParallelAction}
    (h : parallelStep j s act = some s') : s.Grows s' := by
  cases act with
  | caller ch =>
      have hmoves := callerStep_moves h
      cases hmoves with
      | submit hpc hmore hstep =>
          exact ⟨List.prefix_rfl, List.prefix_rfl, discarded_subset_step hstep⟩
      | submitting hpc hat hstep =>
          exact ⟨List.prefix_append _ _, List.prefix_rfl,
            discarded_subset_step hstep⟩
      | _ =>
          exact ⟨List.prefix_rfl, List.prefix_rfl, List.Subset.refl _⟩
  | other a =>
      obtain ⟨-, pool, hpool, rfl⟩ := otherStep_eq_some h
      exact ⟨List.prefix_rfl, List.prefix_append _ _,
        discarded_subset_step hpool⟩

/-- A future that is ready stays ready. -/
theorem Parallel.Grows.isSome_futureAt {k : ℕ} (h : s.Grows s')
    (hready : (s.futureAt k).isSome = true) :
    (s'.futureAt k).isSome = true := by
  obtain ⟨f, hf, hset⟩ := ThreadPool.isSome_futureAt.mp hready
  obtain ⟨more, hmore⟩ := h.futures
  have hf' := Roster.getElem?_append hf more
  rw [hmore] at hf'
  refine ThreadPool.isSome_futureAt.mpr ⟨f, hf', fun x hx => ?_⟩
  obtain ⟨o, ho, htask⟩ | hdiscarded := hset x hx
  · exact .inl ⟨o, h.outcomes.subset ho, htask⟩
  · exact .inr (h.discarded hdiscarded)

/-- A value or exception comes from the function. -/
theorem Parallel.Sound.value (h : s.Sound j) {k : ℕ} {v : Except ε β}
    (hready : s.futureAt k = some (.done v)) :
    ∃ a, j.input[k]? = some a ∧ j.func a = v := by
  unfold Parallel.futureAt at hready
  split at hready
  · next x hk =>
    split at hready
    · next o ho =>
      obtain rfl : o.value = v := by simpa using hready
      have htask : o.task = x := by simpa using List.find?_some ho
      obtain ⟨hfuture, -, a, ha, hvalue⟩ :=
        h.traced.sound o (List.mem_of_find?_eq_some ho)
      rw [htask] at hfuture
      obtain rfl := h.traced.distinct _ _ _ hfuture hk
      exact ⟨a, ha, hvalue.symm⟩
    · split at hready <;> cases hready
  · cases hready
  · cases hready

/-- No promise of the call is broken. -/
structure Parallel.Unbroken (s : Parallel β ε) : Prop where
  submitted : none ∉ s.futures
  kept : ∀ x ∈ s.pool.discarded, some x ∉ s.futures

/-- A broken promise stays broken. -/
theorem Parallel.Grows.unbroken (h : s.Grows s') (hs' : s'.Unbroken) :
    s.Unbroken := by
  constructor
  · intro hnone
    exact hs'.submitted (h.futures.subset hnone)
  · intro x hx hsome
    exact hs'.kept x (h.discarded hx) (h.futures.subset hsome)

theorem not_unbroken_of_futureAt {k : ℕ}
    (hready : s.futureAt k = some .broken) : ¬ s.Unbroken := by
  intro hs
  unfold Parallel.futureAt at hready
  split at hready
  · next x hk =>
    split at hready
    · cases hready
    · split at hready
      · next hx => exact hs.kept x hx (List.mem_of_getElem? hk)
      · cases hready
  · next hk => exact hs.submitted (List.mem_of_getElem? hk)
  · cases hready

end

end ThreadPool
end Yacul
