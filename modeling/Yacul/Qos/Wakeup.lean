import Yacul.Qos.Ledger

/-!
# Wake-ups of blocked producers

Under `kBlock` a producer sleeps on `backpressure_cv_` until its level has room
or a stop is requested.  Both are changed without `backpressure_mu_`, so the
predicate can become true between its evaluation and the sleep, and `Stop` does
not notify at all.  A run is free of lost wake-ups exactly when no such change
meets a sleeper without a notification on its way.
-/

namespace Yacul
namespace Qos

/-- The predicate a blocked producer waits for. -/
def Shared.wakes (sh : Shared) (level : Priority) : Bool :=
  (sh.queues level).depth < sh.config.maxQueueDepth || sh.stopRequested

/-- A producer of the level that sleeps and has not been notified since it
last evaluated its predicate. -/
def Pc.sleeps (sh : Shared) (level : Priority) : Pc → Bool
  | .enqueue item _ (.asleep epoch) =>
      item.priority = level && epoch = sh.notifications
  | _ => false

/-- A thread that is still to call `notify_all`. -/
def Pc.owesNotify : Pc → Bool
  | .dequeue _ _ _ (.countDepth _) | .dequeue _ _ _ (.countTotal _)
  | .dequeue _ _ _ (.countDequeued _) | .dequeue _ _ _ (.notifyAll _) => true
  | _ => false

/-- A notification is still to be issued. -/
def NotifyPending (s : State) : Prop :=
  ∃ pc ∈ s.threads, pc.owesNotify = true

/-- A producer of the level sleeps un-notified. -/
def SleeperAt (s : State) (level : Priority) : Prop :=
  ∃ pc ∈ s.threads, pc.sleeps s.shared level = true

instance (s : State) : Decidable (NotifyPending s) :=
  inferInstanceAs (Decidable (∃ pc ∈ s.threads, pc.owesNotify = true))

instance (s : State) (level : Priority) : Decidable (SleeperAt s level) :=
  inferInstanceAs
    (Decidable (∃ pc ∈ s.threads, pc.sleeps s.shared level = true))

/-- A producer that sleeps un-notified while its predicate is true has a
notification on its way. -/
def NoLostWakeup (s : State) : Prop :=
  ∀ level, SleeperAt s level →
    s.shared.wakes level = true → NotifyPending s

/-- The access wakes no predicate that a sleeper has seen to be false: a
producer goes to sleep only while its predicate is false, a stop is requested
only while no producer sleeps, and a depth counter that wraps around to a free
level meets no sleeper of the level. -/
def ArousesNobody (s : State) : Event × Pc → Prop
  | (.unlock, .enqueue item _ (.asleep _)) =>
      s.shared.wakes item.priority = false
  | (.storeStop true, _) => ∀ level, ¬ SleeperAt s level
  | (.addDepth level, _) =>
      (s.shared.queues level).depth + 1 < s.shared.config.maxQueueDepth →
        ¬ SleeperAt s level
  | _ => True

/-- The step arouses no sleeper, or a notification is on its way. -/
def MeetsNoSleeper (s : State) (a : Action) : Prop :=
  NotifyPending s ∨ ∀ out ∈ access s a, ArousesNobody s out

/-! ## Where producers sleep -/

/-- A producer waits only under `kBlock` and evicts only under `kDropOldest`;
a sleeper has seen some of the notifications. -/
def EnqueueStage.Fits (sh : Shared) : EnqueueStage → Prop
  | .lockMutex | .testDepth | .testStop | .goToSleep =>
      sh.config.overflowPolicy = .kBlock
  | .asleep epoch =>
      sh.config.overflowPolicy = .kBlock ∧ epoch ≤ sh.notifications
  | .evict | .evictDepth _ => sh.config.overflowPolicy = .kDropOldest
  | _ => True

/-- See `EnqueueStage.Fits`. -/
def Pc.Fits (sh : Shared) : Pc → Prop
  | .enqueue _ _ stage => stage.Fits sh
  | _ => True

theorem Shared.notifications_le_apply (sh : Shared) (e : Event) :
    sh.notifications ≤ (sh.apply e).notifications := by
  cases e with
  | notifyAll => exact Nat.le_succ _
  | _ => exact Nat.le_refl _

theorem Pc.Fits.apply {sh : Shared} {pc : Pc} (h : pc.Fits sh) (e : Event) :
    pc.Fits (sh.apply e) := by
  cases pc with
  | enqueue item deadline stage =>
      cases stage <;>
        simp only [Fits, EnqueueStage.Fits, Shared.config_apply] at h ⊢
      case asleep epoch =>
        exact ⟨h.1, h.2.trans (Shared.notifications_le_apply sh e)⟩
      all_goals exact h
  | _ => trivial

theorem Pc.fits_nextLevel (sh : Shared) (purpose : Purpose)
    (level : Priority) : (nextLevel purpose level).Fits sh := by
  obtain ⟨lower, h⟩ | h := nextLevel_cases purpose level
  · rw [h]
    trivial
  · rw [h]
    cases purpose <;> trivial

theorem EnqueueMoves.fits {sh : Shared} {item : Item}
    {deadline : Option TimePoint} {stage : EnqueueStage} {e : Event} {pc : Pc}
    (h : EnqueueMoves sh item deadline stage e pc) (hfits : stage.Fits sh) :
    pc.Fits sh := by
  cases h with
  | overflow h =>
      cases hpolicy : sh.config.overflowPolicy <;>
        simp [OverflowPolicy.stage, Pc.Fits, EnqueueStage.Fits, hpolicy]
  | goToSleep => exact ⟨hfits, Nat.le_refl _⟩
  | wake epoch h => exact hfits.1
  | evict h | lockMutex h | depthFull h | stopUnseen h => exact hfits
  | _ => trivial

theorem Moves.fits {s : State} {pc pc' : Pc} {e : Event}
    (h : Moves s pc e pc') (hfits : pc.Fits s.shared) :
    pc'.Fits s.shared := by
  cases h with
  | enqueue h => exact h.fits hfits
  | dequeue h =>
      cases h with
      | quotaUsed h | empty h => exact Pc.fits_nextLevel _ _ _
      | _ => trivial
  | start h => cases h <;> trivial
  | stop h => cases h <;> trivial
  | _ => trivial

/-- Every thread fits the policy. -/
def Fits (s : State) : Prop :=
  ∀ pc ∈ s.threads, pc.Fits s.shared

theorem step_fits {s s' : State} (hs : Fits s) {a : Action}
    (h : step s a = some s') : Fits s' := by
  obtain ⟨pc, e, pc', hpc, -, hmoves, rfl⟩ := step_moves h
  intro pc'' hmem
  obtain hold | rfl | rfl := State.mem_settle hmem
  · exact (hs _ hold).apply e
  · exact (hmoves.fits (hs _ (List.mem_of_getElem? hpc))).apply e
  · trivial

/-! ## Sleepers and notifications after a step -/

/-- The events that can make the predicate of a sleeper true. -/
def Event.arouses : Event → Bool
  | .addDepth _ | .subDepth _ | .storeStop true => true
  | _ => false

/-- Other events leave a sleeper asleep only if its predicate was true. -/
theorem Event.sleeps_of_apply {sh : Shared} {e : Event}
    (he : e.arouses = false) {pc : Pc} (hfits : pc.Fits sh)
    {level : Priority} (hsleeps : pc.sleeps (sh.apply e) level = true)
    (hwakes : (sh.apply e).wakes level = true) :
    pc.sleeps sh level = true ∧ sh.wakes level = true := by
  cases pc with
  | enqueue item deadline stage =>
      cases stage with
      | asleep epoch =>
          have hepoch : epoch ≤ sh.notifications := hfits.2
          cases e with
          | notifyAll =>
              have hnew : epoch = sh.notifications + 1 := by
                exact of_decide_eq_true (Bool.and_eq_true_iff.mp hsleeps).2
              omega
          | addDepth l | subDepth l => cases he
          | storeStop value =>
              cases value with
              | true => cases he
              | false =>
                  refine ⟨hsleeps, ?_⟩
                  simp only [Shared.wakes, Shared.apply, Bool.or_false]
                    at hwakes ⊢
                  exact Bool.or_eq_true_iff.mpr (.inl hwakes)
          | publish item' | take l item' =>
              refine ⟨hsleeps, ?_⟩
              rw [Shared.wakes, Shared.queues_apply] at hwakes
              simp only [PriorityQueue.apply] at hwakes
              split at hwakes <;> exact hwakes
          | _ => exact ⟨hsleeps, hwakes⟩
      | _ => cases hsleeps
  | _ => cases hsleeps

/-- A thread other than the mover stays where it is. -/
theorem State.mem_settle_of_ne {s : State} {t : ℕ} {pc : Pc}
    (hpc : s.threads[t]? = some pc) (e : Event) (pc' : Pc) {pc'' : Pc}
    (hmem : pc'' ∈ s.threads) (hne : pc'' ≠ pc) :
    pc'' ∈ (s.settle t e pc').threads := by
  obtain ⟨i, hi⟩ := List.mem_iff_getElem?.mp hmem
  have hit : t ≠ i := by
    rintro rfl
    exact hne (Option.some.inj (hi.symm.trans hpc))
  apply List.mem_append_left
  apply List.mem_of_getElem? (i := i)
  rw [List.getElem?_set_ne hit, hi]

theorem State.mem_settle_self {s : State} {t : ℕ} {pc : Pc}
    (hpc : s.threads[t]? = some pc) (e : Event) (pc' : Pc) :
    pc' ∈ (s.settle t e pc').threads := by
  obtain ⟨ht, -⟩ := List.getElem?_eq_some_iff.mp hpc
  exact List.mem_append_left _ (List.mem_set ht pc')

/-- A thread that owes a notification keeps owing it or issues it. -/
theorem Moves.owesNotify {s : State} {pc pc' : Pc} {e : Event}
    (h : Moves s pc e pc') (hpc : pc.owesNotify = true) :
    e = .notifyAll ∨ pc'.owesNotify = true := by
  cases h with
  | dequeue h =>
      cases h with
      | notifyAll item => exact .inl rfl
      | countDepth item | countTotal item | countDequeued item =>
          exact .inr rfl
      | _ => cases hpc
  | _ => cases hpc

/-- A move that does not arouse leaves the sleepers of `s`, and one more if
the thread goes to sleep. -/
theorem noLostWakeup_settle {s : State} (hs : Fits s)
    (hnone : ∀ level, SleeperAt s level → s.shared.wakes level = false)
    {e : Event} (he : e.arouses = false) {pc' : Pc}
    (hpc' : ∀ level, pc'.sleeps (s.shared.apply e) level = true →
      (s.shared.apply e).wakes level = false) (t : ℕ) :
    NoLostWakeup (s.settle t e pc') := by
  rintro level ⟨w, hmem, hsleeps⟩ hwakes
  have hwakes' : (s.shared.apply e).wakes level = true := hwakes
  obtain hold | rfl | rfl := State.mem_settle hmem
  · obtain ⟨hslept, hwoke⟩ :=
      Event.sleeps_of_apply he (hs w hold) hsleeps hwakes'
    have hfalse := hnone level ⟨w, hold, hslept⟩
    rw [hwoke] at hfalse
    cases hfalse
  · have hfalse := hpc' level hsleeps
    rw [hwakes'] at hfalse
    cases hfalse
  · cases hsleeps

/-- A pending notification stays pending or leaves no sleeper un-notified. -/
theorem step_noLostWakeup_of_pending {s s' : State} (hs : Fits s)
    (hpending : NotifyPending s) {a : Action} (h : step s a = some s') :
    NoLostWakeup s' := by
  obtain ⟨pc, e, pc', hpc, -, hmoves, rfl⟩ := step_moves h
  by_cases he : e = .notifyAll
  · subst he
    rintro level ⟨w, hmem, hsleeps⟩ -
    exfalso
    obtain hold | rfl | rfl := State.mem_settle hmem
    · cases w with
      | enqueue item deadline stage =>
          cases stage with
          | asleep epoch =>
              have hepoch : epoch ≤ s.shared.notifications := (hs _ hold).2
              have hnew : epoch = s.shared.notifications + 1 := by
                exact of_decide_eq_true (Bool.and_eq_true_iff.mp hsleeps).2
              omega
          | _ => cases hsleeps
      | _ => cases hsleeps
    · cases hmoves with
      | enqueue h => cases h
      | dequeue h =>
          cases h
          cases hsleeps
      | start h => cases h
      | stop h => cases h
    · cases hsleeps
  · intro level _ _
    obtain ⟨w, hmem, howes⟩ := hpending
    by_cases hw : w = pc
    · subst hw
      obtain hnotify | howes' := hmoves.owesNotify howes
      · exact absurd hnotify he
      · exact ⟨pc', State.mem_settle_self hpc e pc', howes'⟩
    · exact ⟨w, State.mem_settle_of_ne hpc e pc' hmem hw, howes⟩

/-- With no notification pending none is pending after a move that takes no
item. -/
theorem not_notifyPending_settle {s : State} (hpending : ¬ NotifyPending s)
    {e : Event} {pc' : Pc} (hpc' : pc'.owesNotify = false) (t : ℕ) :
    ¬ NotifyPending (s.settle t e pc') := by
  rintro ⟨w, hmem, howes⟩
  obtain hold | rfl | rfl := State.mem_settle hmem
  · exact hpending ⟨w, hold, howes⟩
  · rw [hpc'] at howes
    cases howes
  · cases howes

/-- A sleeper other than the mover sleeps on. -/
theorem SleeperAt.settle {s : State} {level : Priority}
    (h : SleeperAt s level) {t : ℕ} {pc : Pc}
    (hpc : s.threads[t]? = some pc)
    (hawake : pc.sleeps s.shared level = false) {e : Event}
    (he : (s.shared.apply e).notifications = s.shared.notifications)
    (pc' : Pc) : SleeperAt (s.settle t e pc') level := by
  obtain ⟨w, hmem, hsleeps⟩ := h
  have hne : w ≠ pc := by
    rintro rfl
    rw [hawake] at hsleeps
    cases hsleeps
  refine ⟨w, State.mem_settle_of_ne hpc e pc' hmem hne, ?_⟩
  have hsame : w.sleeps (s.shared.apply e) level =
      w.sleeps s.shared level := by
    cases w with
    | enqueue item deadline stage => cases stage <;> simp [Pc.sleeps, he]
    | _ => rfl
  exact hsame.trans hsleeps

/-- And nobody else does, when the mover does not go to sleep. -/
theorem SleeperAt.of_settle {s : State} {level : Priority} {t : ℕ}
    {e : Event} {pc' : Pc} (h : SleeperAt (s.settle t e pc') level)
    (hawake : pc'.sleeps (s.shared.apply e) level = false)
    (he : (s.shared.apply e).notifications = s.shared.notifications) :
    SleeperAt s level := by
  obtain ⟨w, hmem, hsleeps⟩ := h
  obtain hold | rfl | rfl := State.mem_settle hmem
  · refine ⟨w, hold, ?_⟩
    have hsame : w.sleeps (s.shared.apply e) level =
        w.sleeps s.shared level := by
      cases w with
      | enqueue item deadline stage => cases stage <;> simp [Pc.sleeps, he]
      | _ => rfl
    exact hsame.symm.trans hsleeps
  · rw [State.settle, hawake] at hsleeps
    cases hsleeps
  · cases hsleeps

/-! ## The exact condition of a step -/

theorem EnqueueMoves.settle_noLostWakeup_iff {s : State} (hs : Fits s)
    (hpending : ¬ NotifyPending s)
    (hnone : ∀ level, SleeperAt s level → s.shared.wakes level = false)
    {t : ℕ} {item : Item} {deadline : Option TimePoint}
    {stage : EnqueueStage} {e : Event} {pc : Pc}
    (hpc : s.threads[t]? = some (.enqueue item deadline stage))
    (h : EnqueueMoves s.shared item deadline stage e pc) :
    NoLostWakeup (s.settle t e pc) ↔ ArousesNobody s (e, pc) := by
  cases h with
  | goToSleep =>
      constructor
      · intro hkept
        by_contra hwakes
        have hsleeper : SleeperAt
            (s.settle t .unlock (.enqueue item deadline
              (.asleep s.shared.notifications))) item.priority :=
          ⟨_, State.mem_settle_self hpc _ _, by simp [Pc.sleeps, State.settle,
            Shared.apply]⟩
        exact not_notifyPending_settle hpending rfl t
          (hkept _ hsleeper (Bool.not_eq_false _ ▸ hwakes))
      · intro hfalse
        apply noLostWakeup_settle hs hnone rfl
        intro level hsleeps
        obtain rfl : item.priority = level :=
          of_decide_eq_true (Bool.and_eq_true_iff.mp hsleeps).1
        exact hfalse
  | countDepth =>
      constructor
      · intro hkept hfree hsleeper
        have hstays := hsleeper.settle hpc rfl (e := .addDepth item.priority)
          rfl (.enqueue item deadline .countTotal)
        apply not_notifyPending_settle hpending rfl t (hkept _ hstays _)
        simp [Shared.wakes, State.settle, Shared.queues_apply,
          Shared.config_apply, PriorityQueue.apply, hfree]
      · intro harouses level hsleeper hwakes
        exfalso
        have hslept := hsleeper.of_settle rfl rfl
        have hasleep := hnone level hslept
        by_cases hlevel : item.priority = level
        · subst hlevel
          apply harouses _ hslept
          simp only [Shared.wakes, State.settle, Shared.queues_apply,
            PriorityQueue.apply, if_true, Bool.or_eq_true,
            Bool.or_eq_false_iff] at hwakes hasleep
          obtain hfree | hstop := hwakes
          · exact of_decide_eq_true hfree
          · exact absurd hstop (Bool.eq_false_iff.mp hasleep.2)
        · have hsame : (s.shared.apply (.addDepth item.priority)).wakes
              level = s.shared.wakes level := by
            rw [Shared.wakes, Shared.queues_apply, Shared.config_apply]
            simp only [PriorityQueue.apply, hlevel, if_false]
            rfl
          have hwakes' : s.shared.wakes level = true := hsame.symm.trans hwakes
          rw [hasleep] at hwakes'
          cases hwakes'
  | evictDepth v =>
      refine iff_of_true ?_ trivial
      rintro level ⟨w, hmem, hsleeps⟩ -
      have hpolicy : s.shared.config.overflowPolicy = .kDropOldest :=
        hs _ (List.mem_of_getElem? hpc)
      exfalso
      obtain hold | rfl | rfl := State.mem_settle hmem
      · cases w with
        | enqueue item' deadline' stage =>
            cases stage with
            | asleep epoch =>
                have hblock := (hs _ hold).1
                rw [hpolicy] at hblock
                cases hblock
            | _ => cases hsleeps
        | _ => cases hsleeps
      · cases hsleeps
      · cases hsleeps
  | overflow h =>
      refine iff_of_true (noLostWakeup_settle hs hnone rfl ?_ t) trivial
      intro level hsleeps
      cases hpolicy : s.shared.config.overflowPolicy <;>
        simp [hpolicy, OverflowPolicy.stage, Pc.sleeps] at hsleeps
  | _ =>
      refine iff_of_true (noLostWakeup_settle hs hnone rfl ?_ t) trivial
      intro level hsleeps
      cases hsleeps

/-- Requesting a stop is the only move of `Start` and `Stop` that can arouse
a sleeper. -/
theorem StopMoves.settle_noLostWakeup_iff {s : State} (hs : Fits s)
    (hpending : ¬ NotifyPending s)
    (hnone : ∀ level, SleeperAt s level → s.shared.wakes level = false)
    {t : ℕ} {stage : StopStage} {e : Event} {pc : Pc}
    (hpc : s.threads[t]? = some (.stop stage))
    (h : StopMoves s stage e pc) :
    NoLostWakeup (s.settle t e pc) ↔ ArousesNobody s (e, pc) := by
  cases h with
  | setStop =>
      constructor
      · intro hkept level hsleeper
        have hstays := hsleeper.settle hpc rfl (e := .storeStop true) rfl
          (.stop .clearPaused)
        apply not_notifyPending_settle hpending rfl t (hkept _ hstays _)
        simp [Shared.wakes, State.settle, Shared.apply]
      · intro harouses level hsleeper _
        have hslept := hsleeper.of_settle rfl rfl
        exact absurd hslept (harouses level)
  | _ =>
      refine iff_of_true (noLostWakeup_settle hs hnone rfl ?_ t) trivial
      intro level hsleeps
      cases hsleeps

theorem Pc.sleeps_nextLevel (sh : Shared) (purpose : Purpose)
    (l level : Priority) : (nextLevel purpose l).sleeps sh level = false :=
  apply_nextLevel (fun _ _ => rfl) rfl rfl rfl purpose l

/-- A step keeps the scheduler free of lost wake-ups exactly when it meets no
sleeper. -/
theorem step_noLostWakeup_iff {s s' : State} (hs : Fits s)
    (hP : NoLostWakeup s) {a : Action} (h : step s a = some s') :
    NoLostWakeup s' ↔ MeetsNoSleeper s a := by
  by_cases hpending : NotifyPending s
  · exact iff_of_true (step_noLostWakeup_of_pending hs hpending h)
      (.inl hpending)
  have hnone : ∀ level, SleeperAt s level →
      s.shared.wakes level = false := by
    intro level hsleeper
    by_contra hwakes
    exact hpending (hP level hsleeper (Bool.not_eq_false _ ▸ hwakes))
  obtain ⟨pc, e, pc', hpc, haccess, hmoves, rfl⟩ := step_moves h
  have hmeets : MeetsNoSleeper s a ↔ ArousesNobody s (e, pc') := by
    simp [MeetsNoSleeper, hpending, haccess]
  rw [hmeets]
  cases hmoves with
  | enqueue h => exact h.settle_noLostWakeup_iff hs hpending hnone hpc
  | stop h => exact h.settle_noLostWakeup_iff hs hpending hnone hpc
  | dequeue h =>
      cases h with
      | quotaUsed h | empty h =>
          refine iff_of_true (noLostWakeup_settle hs hnone rfl ?_ _) trivial
          intro level hsleeps
          rw [Pc.sleeps_nextLevel] at hsleeps
          cases hsleeps
      | countDepth item =>
          exact absurd ⟨_, List.mem_of_getElem? hpc, rfl⟩ hpending
      | _ =>
          refine iff_of_true (noLostWakeup_settle hs hnone rfl ?_ _) trivial
          intro level hsleeps
          cases hsleeps
  | start h =>
      cases h <;> refine iff_of_true
        (noLostWakeup_settle hs hnone rfl ?_ _) trivial <;>
      · intro level hsleeps
        cases hsleeps
  | _ =>
      refine iff_of_true (noLostWakeup_settle hs hnone rfl ?_ _) trivial
      intro level hsleeps
      cases hsleeps

/-! ## Runs -/

theorem construct_fits (config : QosConfig) (clients : ℕ) :
    Fits (construct config clients) := by
  intro pc hpc
  rw [mem_replicate_idle hpc]
  trivial

theorem construct_noLostWakeup (config : QosConfig) (clients : ℕ) :
    NoLostWakeup (construct config clients) := by
  rintro level ⟨pc, hpc, hsleeps⟩ -
  rw [mem_replicate_idle hpc] at hsleeps
  cases hsleeps

/-- The exact condition for the absence of lost wake-ups: in a run from a new
scheduler no state has a lost wake-up exactly when no step meets a sleeper
without a notification on its way. -/
theorem noMissedWakeup_iff (config : QosConfig) (clients : ℕ)
    (acts : List Action) :
    Transition.AllStates step NoLostWakeup (construct config clients) acts ↔
      Transition.AllSteps step MeetsNoSleeper (construct config clients)
        acts := by
  apply Transition.allStates_iff_allSteps (I := Fits)
  · intro s a s' hs hP h
    exact ⟨step_fits hs h, step_noLostWakeup_iff hs hP h⟩
  · exact construct_fits config clients
  · exact construct_noLostWakeup config clients

/-! ## A stop that nobody hears -/

/-- A level holds one item; a full level blocks the producer. -/
def blockingConfig : QosConfig where
  maxQueueDepth := 1
  wrrQuanta := defaultQuanta
  overflowPolicy := .kBlock

/-- A producer fills the level, another one goes to sleep, and the scheduler
is started and asked to stop. -/
def stopsSleeper : List Action :=
  Action.call 0 (.enqueueTask .kNormal) :: List.replicate 10 (Action.run 0 {}) ++
    Action.call 1 (.enqueueTask .kNormal) :: List.replicate 5 (Action.run 1 {}) ++
      Action.call 0 .start :: List.replicate 5 (Action.run 0 {}) ++
        Action.call 0 .stop :: List.replicate 2 (Action.run 0 {})

theorem stopsSleeper_runs :
    (Transition.run step (construct blockingConfig 2) stopsSleeper).isSome := by
  decide

theorem exists_missedWakeup : ¬ ∀ s, Reachable s → NoLostWakeup s := by
  intro hall
  have hinit : construct blockingConfig 2 ∈ init := ⟨_, _, rfl⟩
  have hreachable := Transition.reachable_get_run hinit stopsSleeper_runs
  have hkept := hall _ hreachable .kNormal (by decide)
    (by decide)
  exact absurd hkept (by decide)

end Qos
end Yacul
