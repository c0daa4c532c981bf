import Yacul.Qos.Settlement

/-!
# The capacity of a level

A producer passes the capacity check of its level, goes through the other
admission checks, and publishes its item later.  The check reads a counter
that does not include the producers in between, so two producers can pass it
for the same place.  A level stays within its capacity in every run in which a
producer passes the check only while the queued items and the producers in
between leave a place.
-/

namespace Yacul
namespace Qos

/-- No level holds more items than `max_queue_depth`, unless that is zero. -/
def WithinCapacity (s : State) : Prop :=
  0 < s.shared.config.maxQueueDepth → ∀ level,
    (s.shared.queues level).items.length ≤
      s.shared.config.maxQueueDepth.toNat

/-- Whether a producer has passed the capacity check and not yet published. -/
def EnqueueStage.admitted : EnqueueStage → Bool
  | .checkTotal | .globalLimit | .levelLimit | .stamp | .publish => true
  | _ => false

/-- The level at which a thread is admitted. -/
def Pc.admitted (level : Priority) : Pc → ℕ
  | .enqueue item _ stage =>
      if item.priority = level then stage.admitted.toNat else 0
  | _ => 0

/-- The queued items of a level and the producers between the capacity check
and the publication. -/
def State.claimed (s : State) (level : Priority) : ℕ :=
  (s.shared.queues level).items.length +
    Roster.tally (Pc.admitted level) s.threads

/-- A step that takes a producer past the capacity check of its level finds a
place that is neither taken nor claimed. -/
def ClaimsPlace (s : State) (a : Action) : Prop :=
  0 < s.shared.config.maxQueueDepth →
    match access s a with
    | some (_, .enqueue item _ .checkTotal) =>
        s.claimed item.priority < s.shared.config.maxQueueDepth.toNat
    | _ => True

instance (s : State) (a : Action) : Decidable (ClaimsPlace s a) := by
  unfold ClaimsPlace
  generalize access s a = out
  induction out using Option.casesOn with
  | none => exact inferInstance
  | some out =>
      induction out using Prod.casesOn with
      | mk e pc =>
          induction pc using Pc.casesOn with
          | enqueue item deadline stage =>
              induction stage using EnqueueStage.casesOn <;>
                exact inferInstance
          | _ => exact inferInstance

/-- What an event adds to the length of a queue. -/
theorem Shared.length_apply {sh : Shared} {e : Event} (he : e.Takes sh)
    (level : Priority) :
    (((sh.apply e).queues level).items.length : ℤ) =
      (sh.queues level).items.length + e.posted level .depth :=
  Shared.counted_apply he level .depth

theorem Pc.admitted_nextLevel (purpose : Purpose) (l level : Priority) :
    (nextLevel purpose l).admitted level = 0 :=
  apply_nextLevel (fun _ _ => rfl) rfl rfl rfl purpose l

/-- Only a move past the capacity check claims a place. -/
theorem EnqueueMoves.claims {sh : Shared} {item : Item}
    {deadline : Option TimePoint} {stage : EnqueueStage} {e : Event} {pc : Pc}
    (h : EnqueueMoves sh item deadline stage e pc) (level : Priority) :
    e.posted level .depth + pc.admitted level ≤
        (Pc.enqueue item deadline stage).admitted level ∨
      pc = .enqueue item deadline .checkTotal ∧
        e.posted level .depth + pc.admitted level ≤
          (Pc.enqueue item deadline stage).admitted level +
            if item.priority = level then 1 else 0 := by
  cases h with
  | overflow h =>
      left
      cases sh.config.overflowPolicy <;>
        simp [Event.posted, Account.stat?, Pc.admitted,
          OverflowPolicy.stage, EnqueueStage.admitted]
  | insert h | evictNone h | evictDropped v | unlock =>
      right
      by_cases hp : item.priority = level <;>
        simp [Event.posted, Account.stat?, Pc.admitted,
          EnqueueStage.admitted, hp]
  | _ =>
      left
      by_cases hp : item.priority = level <;>
        simp [Event.posted, Account.stat?, Pc.admitted,
          EnqueueStage.admitted, hp]

theorem Moves.claims {s : State} {pc pc' : Pc} {e : Event}
    (h : Moves s pc e pc') (level : Priority) :
    e.posted level .depth + pc'.admitted level ≤ pc.admitted level ∨
      ∃ item deadline, pc' = .enqueue item deadline .checkTotal ∧
        e.posted level .depth + pc'.admitted level ≤
          pc.admitted level + if item.priority = level then 1 else 0 := by
  cases h with
  | enqueue h =>
      obtain hkeeps | ⟨rfl, hclaims⟩ := h.claims level
      · exact .inl hkeeps
      · exact .inr ⟨_, _, rfl, hclaims⟩
  | dequeue h =>
      left
      cases h with
      | quotaUsed h | empty h =>
          rw [Pc.admitted_nextLevel]
          simp [Event.posted, Account.stat?]
      | take hquota h =>
          simp only [Event.posted, Account.stat?, Pc.admitted]
          split <;> simp
      | _ => simp [Event.posted, Account.stat?, Pc.admitted, Pc.scan]
  | start h => cases h <;> simp [Event.posted, Account.stat?, Pc.admitted]
  | stop h => cases h <;> simp [Event.posted, Account.stat?, Pc.admitted]
  | _ =>
      simp [Event.posted, Account.stat?, Pc.admitted, Pc.scan,
        EnqueueStage.admitted]

/-- The claims on a level grow only when a producer passes the capacity
check. -/
theorem step_claimed {s s' : State} {a : Action} (h : step s a = some s')
    (level : Priority) :
    s'.claimed level ≤ s.claimed level ∨
      ∃ e item deadline,
        access s a = some (e, .enqueue item deadline .checkTotal) ∧
        s'.claimed level ≤
          s.claimed level + if item.priority = level then 1 else 0 := by
  obtain ⟨pc, e, pc', hpc, haccess, hmoves, rfl⟩ := step_moves h
  have hlength := Shared.length_apply hmoves.takes level
  have htally :=
    State.settle_tally (f := Pc.admitted level) hpc rfl e pc'
  obtain hkeeps | ⟨item, deadline, rfl, hclaims⟩ := hmoves.claims level
  · left
    simp only [State.claimed, State.settle] at *
    omega
  · right
    refine ⟨e, item, deadline, haccess, ?_⟩
    simp only [State.claimed, State.settle] at *
    split at hclaims <;> simp_all <;> omega

/-- The claims on a level never exceed its capacity. -/
def WithinClaims (s : State) : Prop :=
  0 < s.shared.config.maxQueueDepth →
    ∀ level, s.claimed level ≤ s.shared.config.maxQueueDepth.toNat

theorem step_withinClaims {s s' : State} {a : Action} (hs : WithinClaims s)
    (ha : ClaimsPlace s a) (h : step s a = some s') : WithinClaims s' := by
  intro hpos level
  have hconfig : s'.shared.config = s.shared.config := by
    obtain ⟨pc, e, pc', -, -, -, rfl⟩ := step_moves h
    exact Shared.config_apply _ e
  rw [hconfig] at hpos ⊢
  have hold := hs hpos level
  obtain hkeeps | ⟨e, item, deadline, haccess, hgrows⟩ := step_claimed h level
  · exact hkeeps.trans hold
  · have hplace : s.claimed item.priority <
        s.shared.config.maxQueueDepth.toNat := by
      simpa only [haccess] using ha hpos
    split at hgrows
    · next hlevel =>
      rw [hlevel] at hplace
      exact hgrows.trans hplace
    · exact hgrows.trans hold

/-- In every run in which each producer finds a place when it passes the
capacity check, no level ever holds more than its capacity. -/
theorem reachable_withinCapacity {s : State}
    (hs : Transition.ReachableVia step ClaimsPlace init s) :
    WithinCapacity s := by
  have hclaims : WithinClaims s := by
    apply hs.invariant
    · rintro s ⟨config, clients, rfl⟩ - level
      rw [State.claimed, tally_construct rfl]
      exact Nat.zero_le _
    · exact fun s a s' hs ha h => step_withinClaims hs ha h
  intro hpos level
  exact (Nat.le_add_right _ _).trans (hclaims hpos level)

theorem reachable_withinCapacity_evictsOnce :
    WithinCapacity ((Transition.run step (construct evictingConfig 1)
      evictsOnce).get evictsOnce_runs) := by
  apply reachable_withinCapacity
  have hstart : Transition.ReachableVia step ClaimsPlace init
      (construct evictingConfig 1) := .start ⟨_, _, rfl⟩
  have hclaims : Transition.AllSteps step ClaimsPlace
      (construct evictingConfig 1) evictsOnce := by
    decide
  exact hstart.run hclaims (Option.some_get evictsOnce_runs).symm

/-! ## Two producers for one place -/

/-- A level holds one item; a full level drops the new one. -/
def droppingConfig : QosConfig where
  maxQueueDepth := 1
  wrrQuanta := defaultQuanta

/-- A producer publishes its item; before it counts the item, another one
passes the check and publishes too. -/
def overfills : List Action :=
  Action.call 0 (.enqueueTask .kNormal) :: List.replicate 6 (Action.run 0 {}) ++
    Action.call 1 (.enqueueTask .kNormal) :: List.replicate 6 (Action.run 1 {})

theorem overfills_runs :
    (Transition.run step (construct droppingConfig 2) overfills).isSome := by
  decide

theorem exists_overCapacity : ¬ ∀ s, Reachable s → WithinCapacity s := by
  intro hall
  have hinit : construct droppingConfig 2 ∈ init := ⟨_, _, rfl⟩
  have hreachable := Transition.reachable_get_run hinit overfills_runs
  have hwithin := hall _ hreachable (by decide) .kNormal
  exact absurd hwithin (by decide)

end Qos
end Yacul
