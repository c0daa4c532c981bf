import Yacul.Qos.Lifecycle
import Yacul.Qos.Settlement

/-!
# Stop drains the queues

After the stop flag is set each consumer scans the levels until a scan returns
null, and ends.  A scan leaves a level when its queue is empty, or when its
quota is used up, and expired items use up the quota too.  `Stop` leaves the
queues empty in every run in which a draining scan leaves a level only with an
empty queue.
-/

namespace Yacul
namespace Qos

/-- The queues are empty.  Every accepted item has been executed or has
expired, unless it was evicted or is, or has gone, to a caller of
`TryDequeue`. -/
structure Drained (s : State) : Prop where
  empty : ∀ level, (s.shared.queues level).items = []
  finished : (s.shared.fates .accepted : Multiset Item) =
    s.shared.fates .executed + s.shared.fates .expired +
      (s.shared.fates .evicted + s.shared.fates .handed +
        Roster.tally Pc.taken s.threads)

/-- A thread inside `Stop`, past its exchange. -/
def Pc.stopping : Pc → Bool
  | .stop stage => (Pc.stop stage).pastExchange
  | _ => false

/-- No producer publishes an item while a `Stop` is in progress. -/
def NoProducerInStop (s : State) (a : Action) : Prop :=
  match access s a with
  | some (.publish _, _) => ∀ pc ∈ s.threads, pc.stopping = false
  | _ => True

instance (s : State) (a : Action) : Decidable (NoProducerInStop s a) := by
  unfold NoProducerInStop
  generalize access s a = out
  induction out using Option.casesOn with
  | none => exact inferInstance
  | some out =>
      induction out using Prod.casesOn with
      | mk e pc => induction e using Event.casesOn <;> exact inferInstance

/-- A draining scan that has used up the quota of a level finds its queue
empty. -/
def QuotaSuffices (s : State) (a : Action) : Prop :=
  match s.threads[a.thread]? with
  | some (.dequeue .drain level q .take) =>
      (s.shared.config.wrrQuanta level).toNat ≤ q →
        (s.shared.queues level).items = []
  | _ => True

instance (s : State) (a : Action) : Decidable (QuotaSuffices s a) := by
  unfold QuotaSuffices
  generalize s.threads[a.thread]? = pc
  induction pc using Option.casesOn with
  | none => exact inferInstance
  | some pc =>
      induction pc using Pc.casesOn with
      | dequeue purpose level q stage =>
          induction purpose using Purpose.casesOn <;>
            induction stage using DequeueStage.casesOn <;>
              exact inferInstance
      | _ => exact inferInstance

/-- The steps of a run in which `Start` and `Stop` do not overlap, no item is
published during a `Stop`, and no draining scan is cut short. -/
structure DrainStep (s : State) (a : Action) : Prop where
  serial : SerialExchange s a
  producers : NoProducerInStop s a
  quota : QuotaSuffices s a

instance (s : State) (a : Action) : Decidable (DrainStep s a) :=
  decidable_of_iff
    (SerialExchange s a ∧ NoProducerInStop s a ∧ QuotaSuffices s a)
    ⟨fun h => ⟨h.1, h.2.1, h.2.2⟩, fun h => ⟨h.serial, h.producers, h.quota⟩⟩

/-! ## What a draining scan has seen -/

/-- The value of the enumerator. -/
def Priority.value : Priority → ℕ
  | .kBackground => 0
  | .kLow => 1
  | .kNormal => 2
  | .kHigh => 3
  | .kCritical => 4
  | .kRealtime => 5

theorem Priority.above_below {level lower l : Priority}
    (h : level.below = some lower) (hl : lower.value < l.value) :
    l = level ∨ level.value < l.value := by
  cases level <;> cases h <;> cases l <;> simp_all [value]

theorem Priority.above_last {level l : Priority} (h : level.below = none) :
    l = level ∨ level.value < l.value := by
  cases level <;> cases h
  cases l <;> simp [value]

/-- The levels a draining consumer has passed in its scan are empty; when it
has ended, all levels are. -/
def Pc.SeesEmpty (sh : Shared) : Pc → Prop
  | .dequeue .drain level _ _ =>
      ∀ l : Priority, level.value < l.value → (sh.queues l).items = []
  | .exited => ∀ l, (sh.queues l).items = []
  | _ => True

theorem Pc.seesEmpty_scan (sh : Shared) (purpose : Purpose) :
    (Pc.scan purpose).SeesEmpty sh := by
  cases purpose with
  | drain =>
      intro l hl
      cases l <;> simp [Priority.value] at hl
  | _ => trivial

/-- A scan that leaves an empty level. -/
theorem Pc.seesEmpty_nextLevel {sh : Shared} {purpose : Purpose}
    {level : Priority} {q : ℕ} {stage : DequeueStage}
    (h : (Pc.dequeue purpose level q stage).SeesEmpty sh)
    (hempty : purpose = .drain → (sh.queues level).items = []) :
    (nextLevel purpose level).SeesEmpty sh := by
  cases purpose with
  | drain =>
      have hlevel := hempty rfl
      unfold nextLevel
      split
      · next lower hlower =>
        intro l hl
        obtain rfl | hl := Priority.above_below hlower hl
        · exact hlevel
        · exact h l hl
      · next hlast =>
        intro l
        obtain rfl | hl := Priority.above_last (l := l) hlast
        · exact hlevel
        · exact h l hl
  | tryDequeue | bulk left | consume =>
      unfold nextLevel
      split <;> trivial

/-- Within a level a scan has seen the same levels. -/
theorem Pc.SeesEmpty.within {sh : Shared} {purpose : Purpose}
    {level : Priority} {q q' : ℕ} {stage stage' : DequeueStage}
    (h : (Pc.dequeue purpose level q stage).SeesEmpty sh) :
    (Pc.dequeue purpose level q' stage').SeesEmpty sh := by
  cases purpose with
  | drain => exact h
  | _ => trivial

/-- An event other than a publication adds no item. -/
theorem Shared.items_apply_eq_nil {sh : Shared} {e : Event}
    (he : ∀ item, e ≠ .publish item) {level : Priority}
    (h : (sh.queues level).items = []) :
    ((sh.apply e).queues level).items = [] := by
  rw [List.eq_nil_iff_forall_not_mem] at h ⊢
  intro v hv
  obtain hold | ⟨hpub, -⟩ := mem_items_apply hv
  · exact h v hold
  · exact he v hpub

theorem Pc.SeesEmpty.apply {sh : Shared} {e : Event}
    (he : ∀ item, e ≠ .publish item) {pc : Pc} (h : pc.SeesEmpty sh) :
    pc.SeesEmpty (sh.apply e) := by
  cases pc with
  | dequeue purpose level q stage =>
      cases purpose with
      | drain => exact fun l hl => Shared.items_apply_eq_nil he (h l hl)
      | _ => trivial
  | exited => exact fun l => Shared.items_apply_eq_nil he (h l)
  | _ => trivial

/-- A move keeps what the thread has seen, if its quota suffices. -/
theorem Moves.seesEmpty {s : State} {pc pc' : Pc} {e : Event}
    (h : Moves s pc e pc') (hpc : pc.SeesEmpty s.shared)
    (hquota : ∀ level q, pc = .dequeue .drain level q .take →
      (s.shared.config.wrrQuanta level).toNat ≤ q →
        (s.shared.queues level).items = []) :
    pc'.SeesEmpty s.shared := by
  cases h with
  | enqueue h => cases h <;> trivial
  | start h => cases h <;> trivial
  | stop h => cases h <;> trivial
  | stopped h | notPaused | notifyDrained item | tryDequeue
  | tryDequeueBulk left => exact Pc.seesEmpty_scan _ _
  | dequeue h =>
      cases h with
      | quotaUsed h =>
          apply Pc.seesEmpty_nextLevel hpc
          rintro rfl
          exact hquota _ _ rfl h
      | empty h => exact Pc.seesEmpty_nextLevel hpc fun _ => h
      | hand item h => exact Pc.seesEmpty_scan _ _
      | handLast item h | consume item h | drain item h => trivial
      | _ => exact hpc.within
  | _ => trivial

/-- No consumer of the current crew has passed a level that holds an item. -/
def CrewSeesEmpty (s : State) : Prop :=
  ∀ h ∈ s.shared.consumerThreads, ∀ pc, s.threads[h.thread]? = some pc →
    pc.SeesEmpty s.shared

/-- Outside `Stop` the consumers are in their loop. -/
theorem Serial.looping {s : State} {busy : Option ℕ}
    {old done rest : List Handle} (h : Serial s busy old done rest)
    (hnone : ∀ pc ∈ s.threads, pc.stopping = false) :
    Looping s s.shared.consumerThreads := by
  have hphase := h.phase
  have hpast : ∀ pc ∈ busy.bind fun t => s.threads[t]?,
      pc.stopping = false := by
    intro pc hpc
    obtain ⟨t, -, hat⟩ := Option.bind_eq_some_iff.mp hpc
    exact hnone pc (List.mem_of_getElem? hat)
  rw [h.crew.handles]
  cases hbusy : busy.bind fun t => s.threads[t]? with
  | none =>
      rw [hbusy] at hphase
      cases hphase with
      | stopped _ hdone hrest =>
          subst hdone hrest
          simp [Looping]
      | running _ _ hdone _ hloop =>
          subst hdone
          exact hloop
  | some pc =>
      rw [hbusy] at hphase hpast
      have hstopping := hpast pc rfl
      cases hphase with
      | clearStop _ hdone hrest _ _ =>
          subst hdone hrest
          simp [Looping]
      | startPaused _ _ hdone hrest _ _ =>
          subst hdone hrest
          simp [Looping]
      | spawn _ _ hdone _ _ _ _ hloop =>
          subst hdone
          exact hloop
      | _ => cases hstopping

theorem mem_consumerThreads_settle {s : State} {t : ℕ} {e : Event}
    {pc' : Pc} {h : Handle}
    (hmem : h ∈ (s.settle t e pc').shared.consumerThreads) :
    (∃ h' ∈ s.shared.consumerThreads, h'.thread = h.thread) ∨
      ∃ start, e = .spawn h.thread start := by
  cases e with
  | spawn thread start =>
      obtain hold | hnew := List.mem_append.mp hmem
      · exact .inl ⟨h, hold, rfl⟩
      · obtain rfl := List.mem_singleton.mp hnew
        exact .inr ⟨start, rfl⟩
  | join index =>
      left
      obtain ⟨i, hi⟩ := List.mem_iff_getElem?.mp hmem
      simp only [State.settle, Shared.apply, List.getElem?_modify,
        Option.map_eq_map, Option.map_eq_some_iff] at hi
      obtain ⟨h', hat, heq⟩ := hi
      refine ⟨h', List.mem_of_getElem? hat, ?_⟩
      rw [← heq]
      split <;> rfl
  | clear => cases hmem
  | _ => exact .inl ⟨h, hmem, rfl⟩

theorem Pc.seesEmpty_of_looping {sh : Shared} {pc : Pc}
    (h : pc.looping = true) : pc.SeesEmpty sh := by
  cases pc with
  | dequeue purpose level q stage =>
      cases purpose with
      | drain => cases h
      | _ => trivial
  | exited => cases h
  | _ => trivial

/-- A new consumer is at the head of its loop. -/
theorem Moves.spawned_loopTest {s : State} {t thread start : ℕ}
    {pc pc' x : Pc} (hpc : s.threads[t]? = some pc)
    (h : Moves s pc (.spawn thread start) pc')
    (hx : (s.settle t (.spawn thread start) pc').threads[thread]? = some x) :
    x = .loopTest := by
  have hfresh : s.threads[thread]? = none := by
    cases h with
    | enqueue h => cases h
    | dequeue h => cases h
    | start h =>
        cases h
        exact List.getElem?_eq_none (Nat.le_refl _)
    | stop h => cases h
  obtain ⟨rfl, -⟩ | ⟨-, hx⟩ | rfl := State.getElem?_settle_cases hx
  · rw [hpc] at hfresh
    cases hfresh
  · rw [hfresh] at hx
    cases hx
  · rfl

theorem step_crewSeesEmpty {s s' : State} {busy : Option ℕ}
    {old done rest : List Handle} (hserial : Serial s busy old done rest)
    (hs : CrewSeesEmpty s) {a : Action} (ha : DrainStep s a)
    (hstep : step s a = some s') : CrewSeesEmpty s' := by
  obtain ⟨pc, e, pc', hpc, haccess, hmoves, rfl⟩ := step_moves hstep
  intro h hmem x hx
  obtain ⟨h', hmem', hthread⟩ | ⟨start, rfl⟩ := mem_consumerThreads_settle hmem
  swap
  · rw [hmoves.spawned_loopTest hpc hx]
    trivial
  rw [← hthread] at hx
  by_cases hpub : ∃ item, e = .publish item
  · obtain ⟨item, rfl⟩ := hpub
    have hnone : ∀ pc ∈ s.threads, pc.stopping = false := by
      simpa only [NoProducerInStop, haccess] using ha.producers
    obtain ⟨y, hy, hloop⟩ := hserial.looping hnone h' hmem'
    obtain ⟨-, rfl⟩ | ⟨-, hx⟩ | rfl := State.getElem?_settle_cases hx
    · cases hmoves with
      | enqueue h =>
          cases h
          trivial
      | dequeue h => cases h
      | start h => cases h
      | stop h => cases h
    · obtain rfl := Option.some.inj (hy.symm.trans hx)
      exact Pc.seesEmpty_of_looping hloop
    · trivial
  · have he : ∀ item, e ≠ .publish item := fun item heq => hpub ⟨item, heq⟩
    obtain ⟨ht, rfl⟩ | ⟨-, hx⟩ | rfl := State.getElem?_settle_cases hx
    · have hsees := hs h' hmem' pc (ht ▸ hpc)
      refine Pc.SeesEmpty.apply he (hmoves.seesEmpty hsees ?_)
      rintro level q rfl hq
      have hquota := ha.quota
      rw [QuotaSuffices, hpc] at hquota
      exact hquota hq
    · exact (hs h' hmem' x hx).apply he
    · trivial

/-- The condition that the steps of a run are those of a drain implies that
the exchanges are serial. -/
theorem reachable_serial_of_drain {s : State}
    (hs : Transition.ReachableVia step DrainStep init s) :
    ∃ busy old done rest, Serial s busy old done rest :=
  reachable_serial (hs.mono fun _ _ h => h.serial)

theorem reachable_crewSeesEmpty {s : State}
    (hs : Transition.ReachableVia step DrainStep init s) :
    CrewSeesEmpty s := by
  induction hs with
  | start hs =>
      obtain ⟨config, clients, rfl⟩ := hs
      intro h hmem
      cases hmem
  | next hs ha hstep ih =>
      obtain ⟨busy, old, done, rest, hserial⟩ := reachable_serial_of_drain hs
      exact step_crewSeesEmpty hserial ih ha hstep

/-- When `Stop` is about to clear the vector, some consumer has ended and has
seen all levels empty. -/
theorem Serial.empty_of_clear {s : State} {busy : Option ℕ}
    {old done rest : List Handle} (h : Serial s busy old done rest)
    (hsees : CrewSeesEmpty s) {t : ℕ}
    (hpc : s.threads[t]? = some (.stop .clear)) (level : Priority) :
    (s.shared.queues level).items = [] := by
  obtain rfl := h.only t _ hpc rfl
  have hphase := h.phase
  rw [Option.bind_some, hpc] at hphase
  cases hphase with
  | clear _ hrest hsize =>
      subst hrest
      obtain ⟨c, hc⟩ : ∃ c, c ∈ done := by
        apply List.exists_mem_of_length_pos
        rw [hsize]
        exact s.shared.config.numThreads_pos
      have hexited := h.crew.exited c (List.mem_append_right _ hc)
      have hmem : c.joined ∈ s.shared.consumerThreads := by
        rw [h.crew.handles, List.append_nil]
        exact List.mem_map_of_mem hc
      exact hsees c.joined hmem .exited hexited level

/-- In every run in which no draining scan is cut short by a quota, the queues
are empty when `Stop` returns. -/
theorem stop_drained {s s' : State}
    (hs : Transition.ReachableVia step DrainStep init s) {a : Action}
    (hstep : step s a = some s') {pc' : Pc}
    (hreturns : access s a = some (.clear, pc')) : Drained s' := by
  have hreachable : Reachable s' := .next hs.reachable trivial hstep
  obtain ⟨busy, old, done, rest, hserial⟩ := reachable_serial_of_drain hs
  have hsees := reachable_crewSeesEmpty hs
  obtain ⟨pc, e, pc'', hpc, haccess, hmoves, rfl⟩ := step_moves hstep
  obtain ⟨rfl, rfl⟩ : e = .clear ∧ pc'' = pc' := by
    rw [haccess] at hreturns
    cases hreturns
    exact ⟨rfl, rfl⟩
  have hempty : ∀ level, (s.shared.queues level).items = [] := by
    cases hmoves with
    | enqueue h => cases h
    | dequeue h => cases h
    | start h => cases h
    | stop h =>
        cases h
        exact hserial.empty_of_clear hsees hpc
  refine ⟨hempty, ?_⟩
  have haccepted := reachable_accepted hreachable
  have hqueued : (s.settle a.thread .clear pc'').shared.queuedItems = 0 := by
    simp [Shared.queuedItems, Priority.levels, State.settle, Shared.apply,
      hempty]
  rw [haccepted, hqueued, Shared.finished]
  abel

/-- Items expire one millisecond after their submission. -/
def expiringConfig : QosConfig where
  wrrQuanta := defaultQuanta
  itemTtl := 1

/-- A background item is submitted, then what `more` says; the scheduler is
started and stopped, and the consumer drains two milliseconds after the first
submission.  `Stop` is about to clear the vector. -/
def stopsAfter (more : List Action) : List Action :=
  Action.call 0 (.enqueueTask .kBackground) :: List.replicate 10 (Action.run 0 {}) ++
    more ++ Action.call 0 .start :: List.replicate 5 (Action.run 0 {}) ++
      Action.call 0 .stop :: List.replicate 4 (Action.run 0 {}) ++
        List.replicate 15 (Action.run 1 { now := 2000000 }) ++
          List.replicate 3 (Action.run 0 {})

theorem stopsAfter_runs :
    (Transition.run step (construct expiringConfig 1) (stopsAfter [])).isSome := by
  decide

/-- `Stop` is about to return, the expired item has been drained. -/
def stopsDrained : State :=
  (Transition.run step (construct expiringConfig 1) (stopsAfter [])).get
    stopsAfter_runs

theorem stopsDrained_returns : (step stopsDrained (.run 0 {})).isSome := by
  decide

theorem stop_drained_stopsDrained :
    Drained ((step stopsDrained (.run 0 {})).get stopsDrained_returns) := by
  have hstart : Transition.ReachableVia step DrainStep init
      (construct expiringConfig 1) := .start ⟨_, _, rfl⟩
  have hdrain : Transition.AllSteps step DrainStep
      (construct expiringConfig 1) (stopsAfter []) := by
    decide
  have hreached : Transition.ReachableVia step DrainStep init stopsDrained :=
    hstart.run hdrain (Option.some_get stopsAfter_runs).symm
  have hreturns : access stopsDrained (.run 0 {}) = some (.clear, .idle) := by
    decide
  exact stop_drained hreached (Option.some_get stopsDrained_returns).symm
    hreturns

/-! ## A quota used up by expired items -/

/-- The steps of a run in which `Start` and `Stop` do not overlap and no item
is published during a `Stop`. -/
def QuietStep (s : State) (a : Action) : Prop :=
  SerialExchange s a ∧ NoProducerInStop s a

instance (s : State) (a : Action) : Decidable (QuietStep s a) :=
  inferInstanceAs (Decidable (SerialExchange s a ∧ NoProducerInStop s a))

/-- A second background item, submitted when the first one has expired. -/
def submitsLive : List Action :=
  .call 0 (.enqueueTask .kBackground) ::
    List.replicate 10 (.run 0 { now := 2000000 })

theorem submitsLive_runs :
    (Transition.run step (construct expiringConfig 1)
      (stopsAfter submitsLive)).isSome := by
  decide

/-- `Stop` is about to return; the expired item has used up the quota and the
live one is still queued. -/
def stopsUndrained : State :=
  (Transition.run step (construct expiringConfig 1)
    (stopsAfter submitsLive)).get submitsLive_runs

theorem stopsUndrained_returns :
    (step stopsUndrained (.run 0 {})).isSome := by
  decide

theorem exists_undrained :
    ¬ ∀ s s' a pc, Transition.ReachableVia step QuietStep init s →
      (∀ level, 0 < s.shared.config.wrrQuanta level) →
      step s a = some s' → access s a = some (.clear, pc) → Drained s' := by
  intro hall
  have hstart : Transition.ReachableVia step QuietStep init
      (construct expiringConfig 1) := .start ⟨_, _, rfl⟩
  have hquiet : Transition.AllSteps step QuietStep
      (construct expiringConfig 1) (stopsAfter submitsLive) := by
    decide
  have hreached : Transition.ReachableVia step QuietStep init
      stopsUndrained :=
    hstart.run hquiet (Option.some_get submitsLive_runs).symm
  have hquanta : ∀ level, 0 < stopsUndrained.shared.config.wrrQuanta level := by
    intro level
    cases level <;> decide
  have hreturns : access stopsUndrained (.run 0 {}) =
      some (.clear, .idle) := by
    decide
  have hdrained := hall stopsUndrained _ (.run 0 {}) .idle hreached hquanta
    (Option.some_get stopsUndrained_returns).symm hreturns
  exact absurd (hdrained.empty .kBackground) (by decide)

end Qos
end Yacul
