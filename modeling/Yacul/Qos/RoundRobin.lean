import Yacul.Support.RoundRobin
import Yacul.Qos.Drain

/-!
# Weighted round robin

`DequeueInternal` keeps nothing from one call to the next: every scan begins
at the highest level with no part of a quantum used, and returns with the
first live item.  While the highest level with a positive quantum has items,
no other level is served, and its quantum bounds nothing.
-/

namespace Yacul
namespace Qos

open RoundRobin

/-! ## The order of the levels -/

theorem Priority.value_injective : Function.Injective Priority.value := by
  intro p l h
  cases p <;> cases l <;> first | rfl | cases h

instance : LinearOrder Priority where
  le p l := p.value ≤ l.value
  lt p l := p.value < l.value
  le_refl p := Nat.le_refl p.value
  le_trans _ _ _ := Nat.le_trans
  lt_iff_le_not_ge _ _ := Nat.lt_iff_le_and_not_ge
  le_antisymm _ _ hle hge :=
    Priority.value_injective (Nat.le_antisymm hle hge)
  le_total p l := Nat.le_total p.value l.value
  toDecidableLE p l := inferInstanceAs (Decidable (p.value ≤ l.value))
  toDecidableEq := inferInstance
  toDecidableLT p l := inferInstanceAs (Decidable (p.value < l.value))

theorem Priority.mem_levels (level : Priority) : level ∈ levels := by
  cases level <;> decide

instance : Fintype Priority where
  elems := ⟨Priority.levels, by decide⟩
  complete := Priority.mem_levels

/-! ## Backlog -/

/-- The quanta of a scheduler. -/
def Shared.quanta (sh : Shared) (level : Priority) : ℕ :=
  (sh.config.wrrQuanta level).toNat

/-- The levels of the items returned by `DequeueInternal`, in the order of
their `OnDequeued`. -/
def Shared.served (sh : Shared) : List Priority :=
  (sh.notices.filter fun n => n.callback = .onDequeued).map fun n =>
    n.item.priority

/-- Every level with a positive quantum has items, and no item has expired but
those of the list. -/
structure Backlogged (expired : List Item) (s : State) : Prop where
  queues : ∀ level, 0 < s.shared.quanta level →
    (s.shared.queues level).items ≠ []
  expired : s.shared.fates .expired = expired

instance (expired : List Item) (s : State) :
    Decidable (Backlogged expired s) :=
  decidable_of_iff
    ((∀ level, 0 < s.shared.quanta level →
      (s.shared.queues level).items ≠ []) ∧
        s.shared.fates .expired = expired)
    ⟨fun h => ⟨h.1, h.2⟩, fun h => ⟨h.queues, h.expired⟩⟩

/-- A thread inside `DequeueInternal`. -/
def Pc.dequeues : Pc → Bool
  | .dequeue _ _ _ _ => true
  | _ => false

theorem Shared.quanta_apply (sh : Shared) (e : Event) :
    (sh.apply e).quanta = sh.quanta := by
  unfold Shared.quanta
  rw [Shared.config_apply]

/-- The level of the item that an event returns. -/
def Event.served : Event → List Priority
  | .notify ⟨.onDequeued, item⟩ => [item.priority]
  | _ => []

theorem Shared.served_apply (sh : Shared) (e : Event) :
    (sh.apply e).served = sh.served ++ e.served := by
  cases e with
  | notify n =>
      obtain ⟨c, item⟩ := n
      cases c <;> simp [Shared.served, Shared.apply, Event.served]
  | _ => exact (List.append_nil _).symm

/-! ## A scan stops at the highest level -/

/-- A scan has passed levels without a quantum only, and takes an item at a
level with one. -/
def Pc.ScansDown (quanta : Priority → ℕ) : Pc → Prop
  | .dequeue _ level q stage =>
      q = 0 ∧ (∀ l, level < l → quanta l = 0) ∧
        (stage ≠ .take → 0 < quanta level)
  | _ => True

theorem Pc.scansDown_scan (quanta : Priority → ℕ) (purpose : Purpose) :
    (Pc.scan purpose).ScansDown quanta := by
  refine ⟨rfl, fun l hl => ?_, fun hne => absurd rfl hne⟩
  cases l <;> exact absurd hl (by decide)

theorem Pc.scansDown_nextLevel {quanta : Priority → ℕ} {purpose : Purpose}
    {level : Priority} {q : ℕ} {stage : DequeueStage}
    (h : (Pc.dequeue purpose level q stage).ScansDown quanta)
    (hzero : quanta level = 0) :
    (nextLevel purpose level).ScansDown quanta := by
  unfold nextLevel
  split
  · next lower hlower =>
    refine ⟨rfl, fun l hl => ?_, fun hne => absurd rfl hne⟩
    obtain rfl | habove := Priority.above_below hlower hl
    · exact hzero
    · exact h.2.1 l habove
  · cases purpose <;> trivial

theorem Moves.scansDown {s : State} {pc pc' : Pc} {e : Event}
    (h : Moves s pc e pc')
    (hqueues : ∀ level, 0 < s.shared.quanta level →
      (s.shared.queues level).items ≠ [])
    (he : ∀ level item, e ≠ .expire level item)
    (hpc : pc.ScansDown s.shared.quanta) :
    pc'.ScansDown s.shared.quanta := by
  cases h with
  | enqueue h => cases h <;> trivial
  | start h => cases h <;> trivial
  | stop h => cases h <;> trivial
  | tryDequeue | tryDequeueBulk left | stopped h | notPaused
  | notifyDrained item => exact Pc.scansDown_scan _ _
  | dequeue h =>
      cases h with
      | quotaUsed h =>
          rw [hpc.1] at h
          exact Pc.scansDown_nextLevel hpc (Nat.le_zero.mp h)
      | empty h =>
          apply Pc.scansDown_nextLevel hpc
          by_contra hne
          exact hqueues _ (Nat.pos_of_ne_zero hne) h
      | take hquota h =>
          rw [hpc.1] at hquota
          exact ⟨hpc.1, hpc.2.1, fun _ => hquota⟩
      | countExpired item => exact absurd rfl (he _ item)
      | hand item h => exact Pc.scansDown_scan _ _
      | handLast item h | consume item h | drain item h => trivial
      | _ => exact ⟨hpc.1, hpc.2.1, fun _ => hpc.2.2 nofun⟩
  | _ => trivial

/-- Only the highest level is served. -/
theorem Moves.served {s : State} {pc pc' : Pc} {e : Event}
    (h : Moves s pc e pc') (hlevel : pc.AtLevel)
    (hpc : pc.ScansDown s.shared.quanta) :
    ∀ l ∈ e.served, Highest s.shared.quanta l := by
  intro l hl
  cases h with
  | dequeue h =>
      cases h with
      | notifyDequeued item =>
          obtain rfl := List.mem_singleton.mp hl
          rw [hlevel item rfl]
          exact ⟨hpc.2.2 nofun, hpc.2.1⟩
      | _ => cases hl
  | enqueue h => cases h <;> cases hl
  | start h => cases h <;> cases hl
  | stop h => cases h <;> cases hl
  | _ => cases hl

/-! ## Runs -/

/-- What a run that began with the record `before` keeps. -/
structure ServesHighest (quanta : Priority → ℕ) (before : List Priority)
    (expired : List Item) (s : State) : Prop where
  reachable : Reachable s
  backlogged : Backlogged expired s
  sameQuanta : s.shared.quanta = quanta
  scans : ∀ pc ∈ s.threads, pc.ScansDown quanta
  served : ∃ new, s.shared.served = before ++ new ∧
    ∀ l ∈ new, Highest quanta l

theorem ServesHighest.step {quanta : Priority → ℕ} {before : List Priority}
    {expired : List Item} {s s' : State} {a : Action}
    (h : ServesHighest quanta before expired s) (hstep : step s a = some s')
    (hbacklogged : Backlogged expired s') :
    ServesHighest quanta before expired s' := by
  have hreachable := h.reachable.next trivial hstep
  obtain ⟨pc, e, pc', hpc, -, hmoves, rfl⟩ := step_moves hstep
  have hmem := List.mem_of_getElem? hpc
  obtain rfl := h.sameQuanta
  have hexpires : ∀ level item, e ≠ .expire level item := by
    rintro level item rfl
    have hsame := hbacklogged.expired
    rw [← h.backlogged.expired] at hsame
    exact absurd hsame (List.cons_ne_self _ _)
  refine ⟨hreachable, hbacklogged, Shared.quanta_apply _ _, ?_, ?_⟩
  · intro w hw
    obtain hold | rfl | rfl := State.mem_settle hw
    · exact h.scans w hold
    · exact hmoves.scansDown h.backlogged.queues hexpires (h.scans pc hmem)
    · trivial
  · obtain ⟨new, hnew, hhighest⟩ := h.served
    refine ⟨new ++ e.served, ?_, ?_⟩
    · rw [State.settle, Shared.served_apply, hnew, List.append_assoc]
    · intro l hl
      obtain hold | hlast := List.mem_append.mp hl
      · exact hhighest l hold
      · exact hmoves.served ((reachable_sorted h.reachable).threads pc hmem)
          (h.scans pc hmem) l hlast

/-- The levels served between two states of a run. -/
def servedSince (s s' : State) : List Priority :=
  s'.shared.served.drop s.shared.served.length

/-- Let a run begin outside `DequeueInternal`, with every level of a positive
quantum backlogged throughout and no item expiring.  Its dequeues are a
weighted round robin exactly if there are no more of them than the quantum of
the highest level, or no other level has a positive quantum. -/
theorem run_fair_iff {s s' : State} {acts : List Action} (hs : Reachable s)
    (hidle : ∀ pc ∈ s.threads, pc.dequeues = false)
    (hbacklogged : Transition.AllStates step
      (Backlogged (s.shared.fates .expired)) s acts)
    (hrun : Transition.run step s acts = some s') :
    Fair s.shared.quanta (servedSince s s') ↔
      ∀ high low, Highest s.shared.quanta high → low ≠ high →
        0 < s.shared.quanta low →
          (servedSince s s').length ≤ s.shared.quanta high := by
  have hstart : ServesHighest s.shared.quanta s.shared.served
      (s.shared.fates .expired) s := by
    refine ⟨hs, ?_, rfl, ?_, [], (List.append_nil _).symm, ?_⟩
    · cases acts with
      | nil => exact hbacklogged
      | cons a acts => exact hbacklogged.1
    · intro pc hpc
      cases pc with
      | dequeue purpose level q stage => cases hidle _ hpc
      | _ => trivial
    · intro l hl
      cases hl
  have hend := (Transition.AllStates.of_allStates
    (fun _ _ _ h hstep hQ => h.step hstep hQ) hstart hbacklogged).last hrun
  obtain ⟨new, hnew, hhighest⟩ := hend.served
  rw [servedSince, hnew, List.drop_left]
  exact fair_iff_of_highest hhighest

/-- A quantum of one item for `kHigh` and for `kNormal`. -/
def twoLevels : QosConfig where
  wrrQuanta
    | .kHigh | .kNormal => 1
    | _ => 0

/-- A quantum of one item for `kNormal`. -/
def oneLevel : QosConfig where
  wrrQuanta
    | .kNormal => 1
    | _ => 0

/-- A producer submits an item. -/
def submits (level : Priority) : List Action :=
  .call 0 (.enqueueTask level) :: List.replicate 10 (.run 0 {})

/-- Three items of a level and one of `kNormal`. -/
def fills (level : Priority) : List Action :=
  submits level ++ submits level ++ submits level ++ submits .kNormal

/-- Two dequeues by the same thread, each at the level below `passed`
others. -/
def dequeuesTwice (passed : ℕ) : List Action :=
  Action.call 0 .tryDequeue :: List.replicate (passed + 8) (Action.run 0 {}) ++
    Action.call 0 .tryDequeue :: List.replicate (passed + 8) (Action.run 0 {})

theorem fills_runs_oneLevel :
    (Transition.run step (construct oneLevel 1) (fills .kNormal)).isSome := by
  decide

theorem dequeuesTwice_runs_oneLevel :
    (Transition.run step ((Transition.run step (construct oneLevel 1)
      (fills .kNormal)).get fills_runs_oneLevel) (dequeuesTwice 3)).isSome := by
  decide

theorem run_fair_iff_oneLevel :
    Fair ((Transition.run step (construct oneLevel 1)
        (fills .kNormal)).get fills_runs_oneLevel).shared.quanta
      (servedSince ((Transition.run step (construct oneLevel 1)
          (fills .kNormal)).get fills_runs_oneLevel)
        ((Transition.run step _ (dequeuesTwice 3)).get
          dequeuesTwice_runs_oneLevel)) := by
  have hinit : construct oneLevel 1 ∈ init := ⟨_, _, rfl⟩
  have hreachable := Transition.reachable_get_run hinit fills_runs_oneLevel
  refine (run_fair_iff hreachable (by decide) (by decide)
    (Option.some_get dequeuesTwice_runs_oneLevel).symm).mpr ?_
  intro high low hhigh hne hlow
  have hnormal : ∀ level, 0 < oneLevel.wrrQuanta level → level = .kNormal := by
    intro level hlevel
    cases level <;> first | rfl | exact absurd hlevel (by decide)
  exact absurd ((hnormal low hlow).trans (hnormal high hhigh.1).symm) hne

theorem fills_runs_twoLevels :
    (Transition.run step (construct twoLevels 1) (fills .kHigh)).isSome := by
  decide

theorem dequeuesTwice_runs_twoLevels :
    (Transition.run step ((Transition.run step (construct twoLevels 1)
      (fills .kHigh)).get fills_runs_twoLevels) (dequeuesTwice 2)).isSome := by
  decide

theorem exists_unfair :
    ¬ ∀ s s' acts, Reachable s → (∀ pc ∈ s.threads, pc.dequeues = false) →
      Transition.AllStates step (Backlogged (s.shared.fates .expired)) s acts →
        Transition.run step s acts = some s' →
          Fair s.shared.quanta (servedSince s s') := by
  intro hall
  have hinit : construct twoLevels 1 ∈ init := ⟨_, _, rfl⟩
  have hreachable := Transition.reachable_get_run hinit fills_runs_twoLevels
  have hfair := hall _ _ _ hreachable (by decide) (by decide)
    (Option.some_get dequeuesTwice_runs_twoLevels).symm
  have hturn := hfair.everyTurn [.kHigh, .kHigh] (by decide) (by decide)
    .kNormal (by decide)
  exact absurd hturn (by decide)

end Qos
end Yacul
