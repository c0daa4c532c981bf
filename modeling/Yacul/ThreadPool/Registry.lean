import Mathlib.Data.Finset.Card
import Yacul.ThreadPool.DelayScheduler
import Yacul.ThreadPool.FinishWakeup
import Yacul.ThreadPool.FlowLedger

/-!
# The registry of cancellations

`cancelled_tasks_` gets an entry for every delayed submission, for every
registration of a recurring task and for every period of one.  Only the delay
scheduler removes an entry, when it drops a cancelled task, and `ShutdownNow`.
The entry of a task whose wrapper has read its flag stays.
-/

namespace Yacul
namespace ThreadPool

/-! ## Live entries -/

namespace Flow

/-- A delayed task that has not read the flag can still be prevented from
running. -/
def Preventable (b : Flow) (f : ℕ) : Prop :=
  ∃ t ∈ b.unread, f ∈ t.own

/-- The registration of the recurring task goes on, in the next period or in
the running body. -/
def Active (b : Flow) (f : ℕ) : Prop :=
  (∃ t ∈ b.unread, f ∈ t.bodyFlags) ∨ f ∈ b.carried

instance (b : Flow) (f : ℕ) : Decidable (b.Preventable f) :=
  Multiset.decidableExistsMultiset

instance (b : Flow) (f : ℕ) : Decidable (b.Active f) :=
  @instDecidableOr _ _ Multiset.decidableExistsMultiset _

/-- The entry that the event removes. -/
def Event.erased : Event → Option UInt64
  | .drop d => some d.taskId
  | _ => none

/-- Every entry is that of a flag in some place. -/
def HoldsTokens (b : Flow) : Prop :=
  ∀ id f, b.registry id = some f → f ∈ b.tokens

variable {b b' : Flow} {e : Event} {f : ℕ} {id : UInt64}

/-- An entry has been there, and the step does not remove it, or it is that
of a submission. -/
theorem Step.registry_cases (h : Step b e b') (hf : b'.registry id = some f) :
    (b.registry id = some f ∧ e.erased ≠ some id) ∨
      (e = .other ∧ f ∈ b.pending) := by
  have hupdate : ∀ {taskId : UInt64} {g : ℕ} {pending : Multiset ℕ},
      Function.update b.registry taskId (some g) id = some f →
        b.pending = g ::ₘ pending → b.registry id = some f ∨ f ∈ b.pending := by
    intro taskId g pending hreg hpending
    rw [Function.update_apply] at hreg
    split at hreg
    · obtain rfl := Option.some.inj hreg
      exact .inr (hpending ▸ Multiset.mem_cons_self g pending)
    · exact .inl hreg
  cases h with
  | register taskId hpending =>
      obtain hold | hnew := hupdate hf hpending
      · exact .inl ⟨hold, nofun⟩
      · exact .inr ⟨rfl, hnew⟩
  | insert taskId _ _ hpending =>
      obtain hold | hnew := hupdate hf hpending
      · exact .inl ⟨hold, nofun⟩
      · exact .inr ⟨rfl, hnew⟩
  | @drop d =>
      left
      simp only [Function.update_apply] at hf
      split at hf
      · cases hf
      · next hne => exact ⟨hf, fun heq => hne (Option.some.inj heq).symm⟩
  | discard => cases hf
  | _ => exact .inl ⟨hf, nofun⟩

theorem Step.aborted (h : Step b e b') (hopen : b'.aborted = false) :
    b.aborted = false := by
  cases h with
  | abort => cases hopen
  | _ => exact hopen

/-- When the registry loses the entries of the flags that the step loses, its
entries stay those of flags in some place. -/
theorem HoldsTokens.step (hb : b.HoldsTokens) (h : Step b e b')
    (hopen : b'.aborted = false)
    (hlost : ∀ f ∈ e.lost b.flags, ∀ id, b.registry id = some f →
      e.erased = some id) : b'.HoldsTokens := by
  intro id f hf
  have hbefore : f ∈ b.tokens ∧ f ∉ e.lost b.flags := by
    obtain ⟨hold, hkept⟩ | ⟨rfl, hpending⟩ := h.registry_cases hf
    · exact ⟨hb id f hold, fun hmem => hkept (hlost f hmem id hold)⟩
    · refine ⟨?_, Multiset.notMem_zero f⟩
      exact Multiset.mem_add.mpr (.inr (Multiset.mem_add.mpr (.inl hpending)))
  obtain ⟨-, hsum⟩ | ⟨-, hcons⟩ | ⟨-, -, hnone | haborted⟩ := h.tokens_cases
  · rw [← hsum] at hbefore
    exact (Multiset.mem_add.mp hbefore.1).resolve_left hbefore.2
  · rw [hcons]
    exact Multiset.mem_cons_of_mem hbefore.1
  · rw [hnone] at hf
    cases hf
  · rw [haborted] at hopen
    cases hopen

end Flow

/-! ## The registry of a state -/

/-- Every key of `cancelled_tasks_` is that of a delayed task that has not run
or of a recurring task that goes on; so a cancellation that returns `true`
prevents a run; and there are no more keys than flags in use. -/
structure RegistryLive (s : State) : Prop where
  live : ∀ id f, s.cancelledTasks id = some f →
    (flow s).Preventable f ∨ (flow s).Active f
  cancel : ∀ who id, s.callAt who = some (.cancelTask id) →
    ∀ f, s.cancelledBy (.cancelTask id) = some f →
      (flow s).Preventable f ∨ (flow s).Active f
  bounded : ∀ ids : Finset UInt64, (∀ id ∈ ids, s.cancelledTasks id ≠ none) →
    ids.card ≤ (flow s).tokens.card

/-- A flag that no later wrapper or body reads is not registered, or the step
removes its entry. -/
def ForgetsLost (s : State) (a : Action) : Prop :=
  ∀ f ∈ (s.event a).lost s.flags, ∀ id, s.cancelledTasks id = some f →
    (s.event a).erased = some id

section

variable {s : State} {a : Action}

theorem preventable_or_active {f : ℕ} (hpending : f ∉ (flow s).pending)
    (hf : f ∈ (flow s).tokens) :
    (flow s).Preventable f ∨ (flow s).Active f := by
  obtain hunread | hrest := Multiset.mem_add.mp hf
  · obtain ⟨t, ht, hft⟩ := Multiset.mem_bind.mp hunread
    obtain hown | hbody := Multiset.mem_add.mp hft
    · exact .inl ⟨t, ht, hown⟩
    · exact .inr (.inl ⟨t, ht, hbody⟩)
  · obtain hmem | hcarried := Multiset.mem_add.mp hrest
    · exact absurd hmem hpending
    · exact .inr (.inr hcarried)

/-- Each key has a flag of its own. -/
theorem card_keys_le (hregistered : (flow s).Registered)
    (hholds : (flow s).HoldsTokens) {ids : Finset UInt64}
    (hids : ∀ id ∈ ids, s.cancelledTasks id ≠ none) :
    ids.card ≤ (flow s).tokens.card := by
  have hsome : ∀ id ∈ ids,
      s.cancelledTasks id = some ((s.cancelledTasks id).getD 0) := by
    intro id hid
    obtain ⟨f, hf⟩ := Option.ne_none_iff_exists'.mp (hids id hid)
    rw [hf]
    rfl
  have hinj : Set.InjOn (fun id => (s.cancelledTasks id).getD 0) ids := by
    intro id hid id' hid' heq
    have hid₁ := hsome id hid
    have hid₂ := hsome id' hid'
    exact hregistered.once id id' _ hid₁ (hid₂.trans (congrArg some heq.symm))
  calc
    ids.card = (ids.image fun id => (s.cancelledTasks id).getD 0).card :=
      (Finset.card_image_of_injOn hinj).symm
    _ ≤ (flow s).tokens.toFinset.card := by
      apply Finset.card_le_card
      intro f hf
      obtain ⟨id, hid, rfl⟩ := Finset.mem_image.mp hf
      exact Multiset.mem_toFinset.mpr (hholds id _ (hsome id hid))
    _ ≤ (flow s).tokens.card := Multiset.toFinset_card_le _

/-- When the registry loses the entries of the flags that are lost, it holds
only live tasks, until a `CHECK` fails. -/
theorem reachable_registryLive (hs : ReachableVia ForgetsLost s)
    (hopen : s.aborted = false) : RegistryLive s := by
  have hholds : (flow s).HoldsTokens := by
    induction hs with
    | start hs =>
        obtain ⟨c, clock, rfl⟩ := hs
        rw [construct_flow]
        intro id f hf
        cases hf
    | next hs hlost h ih =>
        have hflow := step_flow (reachable_localQueuesEmpty hs.reachable) h
        exact (ih (hflow.aborted hopen)).step hflow hopen hlost
  have hregistered := reachable_registered hs.reachable
  have hlive : ∀ id f, s.cancelledTasks id = some f →
      (flow s).Preventable f ∨ (flow s).Active f := fun id f hf =>
    preventable_or_active (hregistered.pending id f hf) (hholds id f hf)
  constructor
  · exact hlive
  · exact fun _ id _ f hf => hlive id f hf
  · exact fun ids hids => card_keys_le hregistered hholds hids

end

/-! ## Runs with a delayed task -/

/-- One delayed task is cancelled by its id and dropped, another waits. -/
def forgetsCancelled : List Action :=
  submitsDelayed 0 10 ++ submitsDelayed 1 20 ++
    [Action.call (.cancelTask 1), .client 2 {}, .tick 10000000] ++
    List.replicate 3 (Action.scheduler {})

theorem forgetsCancelled_runs :
    (Transition.run step (construct delayConfig 0) forgetsCancelled).isSome := by
  decide

theorem forgetsCancelled_drop_runs :
    (Transition.run step (construct delayConfig 0)
      (forgetsCancelled ++ [.scheduler {}])).isSome := by
  decide

theorem reachable_registryLive_forgetsCancelled :
    RegistryLive ((Transition.run step (construct delayConfig 0)
      (forgetsCancelled ++ [.scheduler {}])).get
        forgetsCancelled_drop_runs) := by
  have hnone : Transition.AllSteps step
      (fun s a => (s.event a).lost s.flags = 0) (construct delayConfig 0)
      forgetsCancelled := by
    decide
  have hbefore := (Transition.ReachableVia.start
    (show construct delayConfig 0 ∈ initial from ⟨_, _, rfl⟩)).run hnone
      (Option.some_get forgetsCancelled_runs).symm
  have hforgets : ∀ s a, (s.event a).lost s.flags = 0 → ForgetsLost s a := by
    intro s a hlost f hf
    rw [hlost] at hf
    exact absurd hf (Multiset.notMem_zero f)
  have hreach := hbefore.mono hforgets
  have hregistered := reachable_registered hbefore.reachable
  -- The scheduler drops the first task, whose flag is registered once.
  have hdrop : ForgetsLost ((Transition.run step (construct delayConfig 0)
      forgetsCancelled).get forgetsCancelled_runs) (.scheduler {}) := by
    intro f hf id hid
    obtain rfl : f = 0 := Multiset.mem_singleton.mp hf
    exact congrArg some (hregistered.once 1 id 0 rfl hid)
  exact reachable_registryLive (hreach.next hdrop rfl) rfl

/-- A delayed task runs to its end. -/
def runsDelayed : List Action :=
  submitsDelayed 0 0 ++ List.replicate 7 (Action.scheduler {}) ++
    List.replicate 11 (Action.worker 0 {})

theorem runsDelayed_runs :
    (Transition.run step (construct delayConfig 0) runsDelayed).isSome := by
  decide

/-- The entry of a delayed task that has run stays in the registry. -/
theorem exists_staleEntry :
    ¬ ∀ s, Transition.Reachable step initial s → s.aborted = false →
      RegistryLive s := by
  intro hall
  have hstart : construct delayConfig 0 ∈ initial := ⟨_, _, rfl⟩
  have hreach := Transition.reachable_get_run hstart runsDelayed_runs
  exact absurd ((hall _ hreach rfl).live 1 0 rfl) (by decide)

end ThreadPool
end Yacul
