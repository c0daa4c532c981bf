import Yacul.Qos.Settlement

/-!
# The depth counters

A producer makes its item visible before it raises the depth counters, and a
thread that has taken an item out lowers them.  When an item is taken before
its producer has counted it, a counter at zero wraps around.  `backing` is what
a counter would be if it were not bounded: the counters stay within the number
of accepted items in every run in which only a backed counter is lowered.
-/

namespace Yacul
namespace Qos

open Counting

/-- The depth counters do not exceed the number of items ever enqueued. -/
structure DepthsBounded (sh : Shared) : Prop where
  levels : ∀ level, (sh.queues level).depth.toNat ≤ sh.count level .accepted
  total : sh.totalDepth.toNat ≤ (sh.fates .accepted).length

/-- The items that stand behind the depth of a level: those in its queue and
those taken out but not yet subtracted, less those not yet counted. -/
def State.backing (s : State) (level : Priority) : ℤ :=
  (s.shared.queues level).items.length -
    Roster.tally (Pc.due level .depth) s.threads

/-- The items that stand behind the total depth. -/
def State.totalBacking (s : State) : ℤ :=
  s.shared.queued - Roster.tally Pc.totalDue s.threads

/-- A step that lowers a depth counter finds an item behind it. -/
def LowersBacked (s : State) (a : Action) : Prop :=
  match access s a with
  | some (.subDepth level, _) => 0 < s.backing level
  | some (.subTotal, _) => 0 < s.totalBacking
  | _ => True

instance (s : State) (a : Action) : Decidable (LowersBacked s a) := by
  unfold LowersBacked
  generalize access s a = out
  induction out using Option.casesOn with
  | none => exact inferInstance
  | some out =>
      induction out using Prod.casesOn with
      | mk e pc => induction e using Event.casesOn <;> exact inferInstance

/-! ## The backing follows the counters -/

theorem step_backing {s s' : State} (hs : Sorted s) {a : Action}
    (h : step s a = some s') (level : Priority) :
    ∃ e pc, access s a = some (e, pc) ∧
      s'.backing level = s.backing level + e.raised level .depth ∧
      s'.totalBacking = s.totalBacking + e.raisedTotal := by
  obtain ⟨pc, e, pc', hpc, haccess, hmoves, rfl⟩ := step_moves h
  have hlevel := hs.threads _ (List.mem_of_getElem? hpc)
  have hcounted := Shared.counted_apply hmoves.takes level .depth
  have hqueued := Shared.queued_apply hmoves.takes
  have hdue :=
    State.settle_tally (f := Pc.due level .depth) hpc rfl e pc'
  have htotal := State.settle_tally (f := Pc.totalDue) hpc rfl e pc'
  have hbalance := hmoves.balance hlevel level .depth
  have hbalanceTotal := hmoves.balanceTotal
  refine ⟨e, pc', haccess, ?_, ?_⟩
  · simp only [State.backing, State.settle, Shared.counted] at *
    omega
  · simp only [State.totalBacking, State.settle] at *
    omega

/-- No depth counter is ahead of the items behind it. -/
structure Backed (s : State) : Prop where
  levels : ∀ level, 0 ≤ s.backing level
  total : 0 ≤ s.totalBacking

theorem step_backed {s s' : State} (hs : Sorted s) (hbacked : Backed s)
    {a : Action} (ha : LowersBacked s a) (h : step s a = some s') :
    Backed s' := by
  constructor
  · intro level
    obtain ⟨e, pc, haccess, hlevel, -⟩ := step_backing hs h level
    have hold := hbacked.levels level
    rw [hlevel]
    by_cases hsub : e = .subDepth level
    · subst hsub
      have hpos : 0 < s.backing level := by
        simpa only [LowersBacked, haccess] using ha
      simp only [Event.raised, Account.stat?, reduceCtorEq, if_true, if_false]
      omega
    · have hraised : 0 ≤ e.raised level .depth := by
        simp only [Event.raised, Account.stat?, hsub, if_false]
        split <;> omega
      omega
  · obtain ⟨e, pc, haccess, -, htotal⟩ := step_backing hs h .kNormal
    have hold := hbacked.total
    rw [htotal]
    cases e with
    | subTotal =>
        have hpos : 0 < s.totalBacking := by
          simpa only [LowersBacked, haccess] using ha
        simp only [Event.raisedTotal]
        omega
    | addTotal =>
        simp only [Event.raisedTotal]
        omega
    | _ => simpa only [Event.raisedTotal, add_zero] using hold

theorem reachable_backed {s : State}
    (hs : Transition.ReachableVia step LowersBacked init s) : Backed s := by
  induction hs with
  | start hs =>
      obtain ⟨config, clients, rfl⟩ := hs
      constructor
      · intro level
        rw [State.backing, tally_construct rfl]
        simp
      · rw [State.totalBacking, tally_construct rfl]
        simp
  | next hs ha h ih =>
      exact step_backed (reachable_sorted hs.reachable) ih ha h

/-! ## The backing is within the accepted items -/

/-- What a thread leaves to be subtracted it has taken out of the level. -/
theorem Pc.neg_due_le {pc : Pc} (hpc : pc.AtLevel) (level : Priority) :
    -pc.due level .depth ≤
      (pc.taken.countP fun v => v.priority = level : ℕ) := by
  cases pc with
  | enqueue item deadline stage =>
      cases stage with
      | evictDepth v =>
          have hv : v.priority = item.priority := by
            simpa [AtLevel, EnqueueStage.taken?] using hpc
          simp only [taken, Multiset.coe_countP]
          by_cases hp : item.priority = level <;>
            simp [due, EnqueueStage.due, taken?, EnqueueStage.taken?, hv, hp]
      | _ =>
          simp only [due, EnqueueStage.due]
          split <;> omega
  | dequeue purpose l q stage =>
      cases stage with
      | countDepth v =>
          have hv : v.priority = l := by
            simpa [AtLevel, DequeueStage.taken?] using hpc
          simp only [taken, Multiset.coe_countP]
          by_cases hp : l = level <;>
            simp [due, DequeueStage.due, taken?, DequeueStage.taken?, hv, hp]
      | _ =>
          simp only [due, DequeueStage.due]
          split <;> omega
  | execute draining item stage =>
      simp only [due]
      cases stage <;> simp [ExecuteStage.due]
  | _ => simp [due]

theorem Pc.neg_totalDue_le (pc : Pc) :
    -pc.totalDue ≤ (pc.taken.card : ℕ) := by
  cases pc with
  | enqueue item deadline stage =>
      cases stage <;>
        simp [totalDue, taken, taken?, EnqueueStage.taken?]
  | dequeue purpose l q stage =>
      cases stage <;>
        simp [totalDue, taken, taken?, DequeueStage.taken?]
  | _ => simp [totalDue]

theorem backing_le {s : State} (hs : Reachable s) (level : Priority) :
    s.backing level ≤ s.shared.count level .accepted := by
  have hsorted := reachable_sorted hs
  have haccepted := congrArg (Multiset.countP fun v => v.priority = level)
    (reachable_accepted hs)
  have htaken := Roster.map_tally
    (Multiset.countPAddMonoidHom fun v : Item => v.priority = level)
    Pc.taken s.threads
  have hcovered := Roster.neg_tally_le fun pc hpc =>
    Pc.neg_due_le (hsorted.threads pc hpc) level
  rw [Multiset.countP_add, Multiset.countP_add,
    hsorted.countP_queuedItems level] at haccepted
  simp only [Multiset.coe_countPAddMonoidHom] at htaken
  simp only [Multiset.coe_countP] at haccepted
  simp only [State.backing, Shared.count]
  omega

theorem totalBacking_le {s : State} (hs : Reachable s) :
    s.totalBacking ≤ (s.shared.fates .accepted).length := by
  have haccepted := congrArg Multiset.card (reachable_accepted hs)
  have hqueued := Roster.map_tally Multiset.cardHom
    (fun level => ((s.shared.queues level).items : Multiset Item))
    Priority.levels
  have htaken := Roster.map_tally Multiset.cardHom Pc.taken s.threads
  have hcovered := Roster.neg_tally_le fun pc (_ : pc ∈ s.threads) =>
    Pc.neg_totalDue_le pc
  simp only [Multiset.cardHom_apply, Multiset.coe_card] at hqueued htaken
  rw [Multiset.card_add, Multiset.card_add, Shared.queuedItems, hqueued,
    htaken, Multiset.coe_card] at haccepted
  simp only [State.totalBacking, Shared.queued]
  omega

/-- In every run in which only backed counters are lowered, no depth counter
exceeds the number of items ever enqueued. -/
theorem reachable_depthsBounded {s : State}
    (hs : Transition.ReachableVia step LowersBacked init s) :
    DepthsBounded s.shared := by
  have hbacked := reachable_backed hs
  constructor
  · intro level
    have howes := reachable_owes hs.reachable level .depth
    have hbound := backing_le hs.reachable level
    have hpos := hbacked.levels level
    have hdue : Roster.tally (Pc.due level .depth) s.threads ≤
        (s.shared.counted level .depth : ℤ) := by
      simp only [State.backing, Shared.counted] at *
      omega
    have hle := howes.toNat_le hdue
    simp only [State.backing, Shared.counted, Shared.counter,
      Account.stat?] at *
    omega
  · have howes := reachable_owesTotal hs.reachable
    have hbound := totalBacking_le hs.reachable
    have hpos := hbacked.total
    have hdue : Roster.tally Pc.totalDue s.threads ≤
        (s.shared.queued : ℤ) := by
      simp only [State.totalBacking] at *
      omega
    have hle := howes.toNat_le hdue
    simp only [State.totalBacking] at *
    omega

theorem reachable_depthsBounded_evictsOnce :
    DepthsBounded ((Transition.run step (construct evictingConfig 1)
      evictsOnce).get evictsOnce_runs).shared := by
  apply reachable_depthsBounded
  have hstart : Transition.ReachableVia step LowersBacked init
      (construct evictingConfig 1) := .start ⟨_, _, rfl⟩
  have hbacked : Transition.AllSteps step LowersBacked
      (construct evictingConfig 1) evictsOnce := by
    decide
  exact hstart.run hbacked (Option.some_get evictsOnce_runs).symm

/-! ## An item taken before it is counted -/

/-- A producer publishes an item; before it raises the depth, another thread
takes the item and lowers the depth. -/
def takesUncounted : List Action :=
  Action.call 0 (.enqueueTask .kRealtime) :: List.replicate 6 (Action.run 0 {}) ++
    Action.call 1 .tryDequeue :: List.replicate 2 (Action.run 1 {})

theorem takesUncounted_runs :
    (Transition.run step (construct { wrrQuanta := defaultQuanta } 2)
      takesUncounted).isSome := by
  decide

theorem exists_depthWraps :
    ¬ ∀ s, Reachable s → DepthsBounded s.shared := by
  intro hall
  have hinit : construct { wrrQuanta := defaultQuanta } 2 ∈ init :=
    ⟨_, _, rfl⟩
  have hreachable := Transition.reachable_get_run hinit takesUncounted_runs
  have hbounded := (hall _ hreachable).levels .kRealtime
  exact absurd hbounded (by decide)

end Qos
end Yacul
