import Yacul.Qos.Lifecycle

/-!
# A rejected submission

Under `kDropOldest` a submission to a full level takes an item out of the
queue before the total depth and the rate limits are checked.  When one of
these checks then fails, the item that was to make room is lost and nothing
takes its place.  This is the only way in which a rejected submission changes
the queues.
-/

namespace Yacul
namespace Qos

/-! ## The property -/

/-- The queues, their depths and the total depth are the same. -/
structure SameQueues (sh sh' : Shared) : Prop where
  queues : sh'.queues = sh.queues
  totalDepth : sh'.totalDepth = sh.totalDepth

/-- A submission to the level takes an item out of its queue. -/
def Shared.Evicts (sh : Shared) (level : Priority) : Prop :=
  sh.config.overflowPolicy = .kDropOldest ∧ sh.overflows level = true ∧
    (sh.queues level).items ≠ []

instance (sh : Shared) (level : Priority) : Decidable (sh.Evicts level) :=
  inferInstanceAs (Decidable (_ ∧ _ ∧ _))

/-- Thread `t` runs `EnqueueInternal` for the item, from its first access to
its end, and no other thread moves.  It returns false: the item has been
counted as rejected. -/
structure Rejects (t : ℕ) (item : Item) (s s' : State) : Prop where
  begins : ∃ deadline, s.threads[t]? = some (.enqueue item deadline .checkDepth)
  alone : ∃ chs : List Choice,
    Transition.run step s (chs.map (.run t)) = some s'
  returned : s'.threads[t]? = some .idle
  rejected : s'.shared.fates .rejected ≠ s.shared.fates .rejected

/-! ## What a submission does before it is accepted -/

/-- What the checks of a submission that began in `sh` have done to the
queues. -/
structure Checked (sh : Shared) (level : Priority) (sh' : Shared) : Prop where
  evicted : sh.Evicts level →
    (sh'.queues level).items.length + 1 = (sh.queues level).items.length
  same : ¬ sh.Evicts level → SameQueues sh sh'

/-- How the queues stand at a stage of a submission that began in `sh`. -/
def EnqueueStage.Stands (sh : Shared) (level : Priority) (sh' : Shared) :
    EnqueueStage → Prop
  | .checkDepth => SameQueues sh sh'
  | .evict =>
      SameQueues sh sh' ∧ sh.config.overflowPolicy = .kDropOldest ∧
        sh.overflows level = true
  | .evictDepth _ | .evictTotal _ | .evictNotify _ | .evictDropped _ =>
      sh.Evicts level ∧
        (sh'.queues level).items.length + 1 = (sh.queues level).items.length
  | .lockMutex | .testDepth | .testStop | .goToSleep | .asleep _ | .unlock =>
      SameQueues sh sh' ∧ ¬ sh.Evicts level
  | .checkTotal | .globalLimit | .levelLimit | .stamp | .publish
  | .notifyDropped | .countDropped => Checked sh level sh'
  | .countDepth | .countTotal | .countEnqueued | .notifyEnqueued => True

/-- A thread inside a submission to the level that began in `sh`, or after
it. -/
def Pc.Submits (sh : Shared) (level : Priority) (sh' : Shared) : Pc → Prop
  | .enqueue item _ stage =>
      item.priority = level ∧ sh'.config = sh.config ∧
        sh'.fates .rejected = sh.fates .rejected ∧ stage.Stands sh level sh'
  | .idle =>
      sh'.fates .rejected = sh.fates .rejected ∨ Checked sh level sh'
  | _ => False

section Submission

variable {sh sh' : Shared} {level : Priority} {item : Item}
  {deadline : Option TimePoint} {stage : EnqueueStage} {e : Event} {pc' : Pc}

theorem SameQueues.checked (h : SameQueues sh sh')
    (hnot : ¬ sh.Evicts level) : Checked sh level sh' :=
  ⟨fun hevicts => absurd hevicts hnot, fun _ => h⟩

theorem SameQueues.overflows (h : SameQueues sh sh')
    (hconfig : sh'.config = sh.config) (level : Priority) :
    sh'.overflows level = sh.overflows level := by
  rw [Shared.overflows, Shared.overflows, h.queues, hconfig]

/-- An eviction leaves one item less. -/
theorem SameQueues.take {v : Item} (h : SameQueues sh sh')
    (hv : v ∈ (sh'.queues level).items) :
    ((sh'.apply (.take level v)).queues level).items.length + 1 =
      (sh.queues level).items.length := by
  rw [Shared.queues_apply, PriorityQueue.apply, if_pos rfl, ← h.queues]
  have hpos := List.length_pos_of_mem hv
  simp only [List.length_erase_of_mem hv]
  omega

/-- The capacity check sends a submission to what the policy does with a full
level. -/
theorem SameQueues.stands_overflow (h : SameQueues sh sh')
    (hconfig : sh'.config = sh.config)
    (hoverflows : sh'.overflows level = true) :
    sh'.config.overflowPolicy.stage.Stands sh level sh' := by
  rw [hconfig]
  cases hpolicy : sh.config.overflowPolicy with
  | kDrop =>
      refine h.checked fun hevicts => ?_
      rw [hevicts.1] at hpolicy
      cases hpolicy
  | kDropOldest => exact ⟨h, hpolicy, h.overflows hconfig level ▸ hoverflows⟩
  | kBlock =>
      refine ⟨h, fun hevicts => ?_⟩
      rw [hevicts.1] at hpolicy
      cases hpolicy

theorem EnqueueMoves.submits (h : EnqueueMoves sh' item deadline stage e pc')
    (hpc : (Pc.enqueue item deadline stage).Submits sh level sh') :
    pc'.Submits sh level (sh'.apply e) := by
  obtain ⟨rfl, hconfig, hrejected, hstands⟩ := hpc
  cases h with
  | insert h =>
      refine ⟨rfl, hconfig, hrejected, SameQueues.checked hstands ?_⟩
      intro hevicts
      rw [SameQueues.overflows hstands hconfig, hevicts.2.1] at h
      cases h
  | overflow h =>
      exact ⟨rfl, hconfig, hrejected,
        SameQueues.stands_overflow hstands hconfig h⟩
  | evictNone h =>
      refine ⟨rfl, hconfig, hrejected, hstands.1.checked fun hevicts => ?_⟩
      rw [hstands.1.queues] at h
      exact hevicts.2.2 h
  | evict h =>
      refine ⟨rfl, hconfig, hrejected, ⟨hstands.2.1, hstands.2.2, ?_⟩,
        hstands.1.take h⟩
      rw [← hstands.1.queues]
      exact List.ne_nil_of_mem h
  | evictDepth v =>
      refine ⟨rfl, hconfig, hrejected, hstands.1, ?_⟩
      rw [Shared.queues_apply, PriorityQueue.apply, if_pos rfl]
      exact hstands.2
  | evictTotal v | evictNotify v =>
      exact ⟨rfl, hconfig, hrejected, hstands⟩
  | evictDropped v =>
      exact ⟨rfl, hconfig, hrejected, fun _ => hstands.2,
        fun hnot => absurd hstands.1 hnot⟩
  | lockMutex h | depthFree h | depthFull h | stopSeen h | stopUnseen h
  | goToSleep | wake epoch h =>
      exact ⟨rfl, hconfig, hrejected, ⟨hstands.1.queues,
        hstands.1.totalDepth⟩, hstands.2⟩
  | unlock =>
      have hsame : SameQueues sh (sh'.apply .unlock) :=
        ⟨hstands.1.queues, hstands.1.totalDepth⟩
      exact ⟨rfl, hconfig, hrejected, hsame.checked hstands.2⟩
  | totalFree h | totalFull h | globalOk | globalLimited | levelOk
  | levelLimited | stamp now | publishFails | notifyDropped =>
      exact ⟨rfl, hconfig, hrejected, hstands.evicted, fun hnot =>
        ⟨(hstands.same hnot).queues, (hstands.same hnot).totalDepth⟩⟩
  | publish | countDepth | countTotal | countEnqueued =>
      exact ⟨rfl, hconfig, hrejected, trivial⟩
  | notifyEnqueued => exact .inl hrejected
  | countDropped =>
      exact .inr ⟨hstands.evicted, fun hnot =>
        ⟨(hstands.same hnot).queues, (hstands.same hnot).totalDepth⟩⟩

end Submission

/-! ## A run of a submission -/

/-- A submission that nothing disturbs. -/
theorem run_submits {sh : Shared} {level : Priority} {t : ℕ} {s s' : State}
    {pc : Pc} {chs : List Choice} (hpc : s.threads[t]? = some pc)
    (h : pc.Submits sh level s.shared)
    (hrun : Transition.run step s (chs.map (.run t)) = some s') :
    ∃ pc', s'.threads[t]? = some pc' ∧ pc'.Submits sh level s'.shared := by
  induction chs generalizing s pc with
  | nil =>
      obtain rfl : s = s' := Option.some.inj hrun
      exact ⟨pc, hpc, h⟩
  | cons ch chs ih =>
      obtain ⟨mid, hmid, hrest⟩ := Option.bind_eq_some_iff.mp hrun
      obtain ⟨pc₁, e, pc', hpc₁, haccess, hmoves, rfl⟩ := step_moves hmid
      obtain rfl : pc = pc₁ := Option.some.inj (hpc.symm.trans hpc₁)
      refine ih (State.getElem?_settle_self hpc e pc') ?_ hrest
      cases pc with
      | idle =>
          -- After its end the call makes no access.
          rw [access, hpc] at haccess
          cases haccess
      | enqueue item deadline stage =>
          cases hmoves with
          | enqueue hmoves => exact hmoves.submits h
      | _ => cases h

/-- A rejected submission leaves the queues and the depths alone exactly if it
did not take an item out of a full queue. -/
theorem Rejects.sameQueues_iff {t : ℕ} {item : Item} {s s' : State}
    (h : Rejects t item s s') :
    SameQueues s.shared s'.shared ↔ ¬ s.shared.Evicts item.priority := by
  obtain ⟨⟨deadline, hpc⟩, ⟨chs, hrun⟩, hreturned, hrejected⟩ := h
  obtain ⟨pc', hpc', hsubmits⟩ := run_submits hpc
    ⟨rfl, rfl, rfl, ⟨rfl, rfl⟩⟩ hrun
  rw [hreturned] at hpc'
  cases hpc'
  obtain hsame | hchecked := hsubmits
  · exact absurd hsame hrejected
  · refine ⟨fun hsame hevicts => ?_, hchecked.same⟩
    have hlength := hchecked.evicted hevicts
    rw [hsame.queues] at hlength
    omega

/-- Room for one item at each level, and a rate for each. -/
def oneItem (policy : OverflowPolicy) : QosConfig where
  maxQueueDepth := 1
  rateLimiter _ := true
  wrrQuanta := defaultQuanta
  overflowPolicy := policy

/-- Two submissions to `kNormal`, the second of which has not begun its
checks. -/
def submitsSecond : List Action :=
  Action.call 0 (.enqueueTask .kNormal) :: List.replicate 10 (Action.run 0 {}) ++
    [Action.call 0 (.enqueueTask .kNormal)]

/-- The submission moves on, and every bucket refuses it. -/
def limited (n : ℕ) : List Choice :=
  List.replicate n { answer := false }

theorem submitsSecond_runs_kDrop :
    (Transition.run step (construct (oneItem .kDrop) 1)
      submitsSecond).isSome := by
  decide

theorem limited_runs_kDrop :
    (Transition.run step ((Transition.run step (construct (oneItem .kDrop) 1)
      submitsSecond).get submitsSecond_runs_kDrop)
        ((limited 3).map (.run 0))).isSome := by
  decide

theorem sameQueues_iff_kDrop :
    SameQueues ((Transition.run step (construct (oneItem .kDrop) 1)
        submitsSecond).get submitsSecond_runs_kDrop).shared
      ((Transition.run step _ ((limited 3).map (.run 0))).get
        limited_runs_kDrop).shared := by
  have hrejects : Rejects 0 { key := 1 } ((Transition.run step (construct
      (oneItem .kDrop) 1) submitsSecond).get submitsSecond_runs_kDrop)
      ((Transition.run step _ ((limited 3).map (.run 0))).get
        limited_runs_kDrop) :=
    ⟨⟨none, by decide⟩, ⟨limited 3, (Option.some_get _).symm⟩, by decide,
      by decide⟩
  exact hrejects.sameQueues_iff.mpr (by decide)

theorem submitsSecond_runs_kDropOldest :
    (Transition.run step (construct (oneItem .kDropOldest) 1)
      submitsSecond).isSome := by
  decide

theorem limited_runs_kDropOldest :
    (Transition.run step ((Transition.run step (construct
      (oneItem .kDropOldest) 1) submitsSecond).get
        submitsSecond_runs_kDropOldest)
          ((limited 11).map (.run 0))).isSome := by
  decide

theorem exists_rejected_evicting :
    ¬ ∀ t item s s', Reachable s → Rejects t item s s' →
      SameQueues s.shared s'.shared := by
  intro hall
  have hinit : construct (oneItem .kDropOldest) 1 ∈ init := ⟨_, _, rfl⟩
  have hreachable :=
    Transition.reachable_get_run hinit submitsSecond_runs_kDropOldest
  have hsame := hall 0 { key := 1 } _ ((Transition.run step _
    ((limited 11).map (.run 0))).get limited_runs_kDropOldest) hreachable
      ⟨⟨none, by decide⟩, ⟨limited 11, (Option.some_get _).symm⟩, by decide,
        by decide⟩
  have hitems := congrArg PriorityQueue.items (congrFun hsame.queues .kNormal)
  exact absurd hitems (by decide)

end Qos
end Yacul
