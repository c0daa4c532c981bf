import Yacul.Qos.RoundRobin
import Mathlib.Data.Fintype.EquivFin

/-!
# A call of `TryDequeue` on its own

While no other thread moves, what `TryDequeue` will return is determined when
it is called: at each level, from the highest to the lowest, the first item
that has not expired among as many as the quantum of the level.  Expired items
use up the quantum too, so this is the item that should be returned only if
the quantum reaches past them.
-/

namespace Yacul
namespace Qos

/-! ## A scan -/

section Scan

variable (quanta : Priority → ℕ) (items : Priority → List Item)
  (expired : Item → Bool)

/-- The oldest item of a list that has not expired. -/
def oldestLive (items : List Item) : Option Item :=
  items.find? fun item => !expired item

/-- What a scan returns at a level of which `q` items are used. -/
def scanLevel (level : Priority) (q : ℕ) : Option Item :=
  oldestLive expired ((items level).take (quanta level - q))

/-- The levels below a level, from the highest to the lowest. -/
def Priority.lower (level : Priority) : List Priority :=
  levels.filter fun l => l.value < level.value

/-- What a scan returns from such a place on. -/
def scanFrom (level : Priority) (q : ℕ) : Option Item :=
  (scanLevel quanta items expired level q).or
    (level.lower.findSome? fun l => scanLevel quanta items expired l 0)

/-- What is to be returned: the oldest live item of the highest level with a
positive quantum that has one, or nothing if there is none. -/
def IsRight : Option Item → Prop
  | none => ∀ level, 0 < quanta level → ∀ v ∈ items level, expired v = true
  | some item => ∃ level, 0 < quanta level ∧
      oldestLive expired (items level) = some item ∧
        ∀ higher, level < higher → 0 < quanta higher →
          ∀ v ∈ items higher, expired v = true

/-- At the highest level with a positive quantum and a live item, the quantum
reaches past the expired items in front of it. -/
def QuantumReaches : Prop :=
  ∀ level, 0 < quanta level → (∃ v ∈ items level, expired v = false) →
    (∀ higher, level < higher → 0 < quanta higher →
      ∀ v ∈ items higher, expired v = true) →
    ((items level).takeWhile expired).length < quanta level

end Scan

section Scans

variable {quanta : Priority → ℕ} {items : Priority → List Item}
  {expired : Item → Bool} {level : Priority} {item : Item}

theorem oldestLive_eq_none_iff {l : List Item} :
    oldestLive expired l = none ↔ ∀ v ∈ l, expired v = true := by
  simp [oldestLive]

/-- The oldest live item is among the first `n` exactly when the expired ones
in front of it are fewer. -/
theorem oldestLive_take (l : List Item) (n : ℕ) :
    oldestLive expired (l.take n) =
      if (l.takeWhile expired).length < n then oldestLive expired l
      else none := by
  induction l generalizing n with
  | nil => simp only [oldestLive, List.take_nil, List.find?_nil, ite_self]
  | cons v l ih =>
      cases n with
      | zero => simp [oldestLive]
      | succ n =>
          cases hv : expired v with
          | true =>
              have hrest := ih n
              simp only [oldestLive] at hrest ⊢
              simp [hv, hrest]
          | false => simp [oldestLive, hv]

theorem scanLevel_zero (level : Priority) :
    scanLevel quanta items expired level 0 =
      if ((items level).takeWhile expired).length < quanta level then
        oldestLive expired (items level)
      else none := by
  rw [scanLevel, Nat.sub_zero, oldestLive_take]

/-- A scan down the levels returns what it finds first. -/
theorem findSome?_levels_eq_some_iff {f : Priority → Option Item} :
    Priority.levels.findSome? f = some item ↔
      ∃ level, f level = some item ∧ ∀ higher, level < higher →
        f higher = none := by
  have hsorted : Priority.levels.Pairwise (· > ·) := by decide
  rw [List.findSome?_eq_some_iff]
  constructor
  · rintro ⟨l₁, level, l₂, hsplit, hlevel, hbefore⟩
    refine ⟨level, hlevel, fun higher hhigher => hbefore higher ?_⟩
    have hmem := Priority.mem_levels higher
    rw [hsplit] at hmem hsorted
    rcases List.mem_append.mp hmem with hin | hin
    · exact hin
    · rcases List.mem_cons.mp hin with rfl | hin
      · exact absurd hhigher (lt_irrefl _)
      · have hcons := (List.pairwise_append.mp hsorted).2.1
        have hlt := (List.pairwise_cons.mp hcons).1 higher hin
        exact absurd hhigher (not_lt_of_gt hlt)
  · rintro ⟨level, hlevel, hbefore⟩
    obtain ⟨l₁, l₂, hsplit⟩ :=
      List.append_of_mem (Priority.mem_levels level)
    refine ⟨l₁, level, l₂, hsplit, hlevel, fun higher hin => ?_⟩
    apply hbefore
    rw [hsplit] at hsorted
    exact (List.pairwise_append.mp hsorted).2.2 higher hin level
      List.mem_cons_self

/-- What the whole scan returns. -/
def scanAll (quanta : Priority → ℕ) (items : Priority → List Item)
    (expired : Item → Bool) : Option Item :=
  Priority.levels.findSome? fun l => scanLevel quanta items expired l 0

/-- The highest level with a property. -/
theorem Priority.exists_highest {P : Priority → Prop} (h : ∃ l, P l) :
    ∃ level, P level ∧ ∀ higher, level < higher → ¬ P higher := by
  obtain ⟨level, hP, hmax⟩ :=
    (wellFounded_gt : WellFounded fun a b : Priority => b < a).has_min
      { l | P l } h
  exact ⟨level, hP, fun higher hlt hhigher => hmax higher hhigher hlt⟩

/-- The scan returns what it should exactly when the quantum reaches. -/
theorem isRight_scanAll_iff
    (hsorted : ∀ level, ∀ v ∈ items level, v.priority = level) :
    IsRight quanta items expired (scanAll quanta items expired) ↔
      QuantumReaches quanta items expired := by
  constructor
  · intro hright level hpos hlive hhigher
    by_contra hshort
    -- Nothing is found at this level.
    have hnone : scanLevel quanta items expired level 0 = none := by
      rw [scanLevel_zero, if_neg hshort]
    cases hscan : scanAll quanta items expired with
    | none =>
        rw [hscan] at hright
        obtain ⟨v, hv, hlive⟩ := hlive
        exact absurd (hright level hpos v hv) (by simp [hlive])
    | some item =>
        rw [hscan] at hright
        obtain ⟨right, hrightpos, holdest, habove⟩ := hright
        have heq : right = level := by
          rcases lt_trichotomy right level with hlt | heq | hgt
          · obtain ⟨v, hv, hlive⟩ := hlive
            exact absurd (habove level hlt hpos v hv) (by simp [hlive])
          · exact heq
          · have hall := oldestLive_eq_none_iff.mpr
              (hhigher right hgt hrightpos)
            exact absurd (hall.symm.trans holdest) nofun
        obtain ⟨found, hfound, -⟩ := findSome?_levels_eq_some_iff.mp hscan
        have hfoundIn : item ∈ items found := by
          rw [scanLevel_zero, Option.ite_none_right_eq_some] at hfound
          exact List.mem_of_find?_eq_some hfound.2
        have hrightIn : item ∈ items right :=
          List.mem_of_find?_eq_some holdest
        have hsame : found = level := by
          rw [← heq, ← hsorted found item hfoundIn,
            hsorted right item hrightIn]
        rw [hsame, hnone] at hfound
        cases hfound
  · intro hreaches
    cases hscan : scanAll quanta items expired with
    | none =>
        by_contra hwrong
        have hex : ∃ level, 0 < quanta level ∧
            ∃ v ∈ items level, expired v = false := by
          by_contra hnone
          refine hwrong fun level hpos v hv => ?_
          by_contra hv'
          exact hnone ⟨level, hpos, v, hv, by simpa using hv'⟩
        obtain ⟨level, ⟨hpos, hlive⟩, hmax⟩ := Priority.exists_highest hex
        have hshort := hreaches level hpos hlive (by
          intro higher hlt hhigher v hv
          by_contra hv'
          exact hmax higher hlt ⟨hhigher, v, hv, by simpa using hv'⟩)
        have hnone := List.findSome?_eq_none_iff.mp hscan level
          (Priority.mem_levels level)
        rw [scanLevel_zero, if_pos hshort, oldestLive_eq_none_iff] at hnone
        obtain ⟨v, hv, hlive⟩ := hlive
        exact absurd (hnone v hv) (by simp [hlive])
    | some item =>
        obtain ⟨level, hlevel, habove⟩ :=
          findSome?_levels_eq_some_iff.mp hscan
        rw [scanLevel_zero, Option.ite_none_right_eq_some] at hlevel
        obtain ⟨hreach, holdest⟩ := hlevel
        refine ⟨level, by omega, holdest, fun higher hlt hpos v hv => ?_⟩
        by_contra hlive
        obtain ⟨top, ⟨htoplt, htoppos, htoplive⟩, hmax⟩ :=
          Priority.exists_highest (P := fun l => level < l ∧ 0 < quanta l ∧
            ∃ v ∈ items l, expired v = false)
            ⟨higher, hlt, hpos, v, hv, by simpa using hlive⟩
        have hshort := hreaches top htoppos htoplive (by
          intro l hl hlpos w hw
          by_contra hw'
          exact hmax l hl ⟨htoplt.trans hl, hlpos, w, hw, by simpa using hw'⟩)
        have hnone := habove top htoplt
        rw [scanLevel_zero, if_pos hshort, oldestLive_eq_none_iff] at hnone
        obtain ⟨w, hw, hwlive⟩ := htoplive
        exact absurd (hnone w hw) (by simp [hwlive])

/-- A level of which the quantum is used is passed. -/
theorem scanLevel_of_le {q : ℕ} (h : quanta level ≤ q) :
    scanLevel quanta items expired level q = none := by
  rw [scanLevel, Nat.sub_eq_zero_of_le h]
  rfl

theorem scanLevel_of_nil {q : ℕ} (h : items level = []) :
    scanLevel quanta items expired level q = none := by
  rw [scanLevel, h, List.take_nil]
  rfl

/-- The first item is returned or uses up one of the quantum. -/
theorem scanLevel_of_cons {q : ℕ} {rest : List Item}
    {items' : Priority → List Item} (hquota : q < quanta level)
    (h : items level = item :: rest) (h' : items' level = rest) :
    scanLevel quanta items expired level q =
      if expired item then scanLevel quanta items' expired level (q + 1)
      else some item := by
  have hsucc : quanta level - q = quanta level - (q + 1) + 1 := by omega
  rw [scanLevel, scanLevel, h, h', hsucc, List.take_succ_cons]
  cases hv : expired item <;> simp [oldestLive, hv]

theorem Priority.lower_eq (level : Priority) :
    level.lower = (level.below.map fun l => l :: l.lower).getD [] := by
  cases level <;> decide

theorem findSome?_cons_eq_or (f : Priority → Option Item) (level : Priority)
    (ls : List Priority) :
    (level :: ls).findSome? f = (f level).or (ls.findSome? f) := by
  rw [List.findSome?_cons]
  cases f level <;> rfl

/-- The scan below a level does not see the queue of that level. -/
theorem findSome?_lower_congr {items' : Priority → List Item}
    (h : ∀ l, l ≠ level → items' l = items l) :
    (level.lower.findSome? fun l => scanLevel quanta items' expired l 0) =
      level.lower.findSome? fun l => scanLevel quanta items expired l 0 := by
  have hall : ∀ ls : List Priority, (∀ l ∈ ls, l ≠ level) →
      (ls.findSome? fun l => scanLevel quanta items' expired l 0) =
        ls.findSome? fun l => scanLevel quanta items expired l 0 := by
    intro ls
    induction ls with
    | nil => exact fun _ => rfl
    | cons l ls ih =>
        intro hne
        have hl := h l (hne l List.mem_cons_self)
        have hrest := ih fun l' hl' => hne l' (List.mem_cons_of_mem l hl')
        rw [findSome?_cons_eq_or, findSome?_cons_eq_or, hrest, scanLevel,
          scanLevel, hl]
  apply hall
  rintro l hl rfl
  simp [Priority.lower] at hl

end Scans

/-! ## A call -/

/-- The items of a level. -/
def Shared.contents (sh : Shared) (level : Priority) : List Item :=
  (sh.queues level).items

/-- Thread `t` moves, the queues hand out their items in order, and the
expired items are those of `expired`. -/
def Answers (expired : Item → Bool) (t : ℕ) (s : State) (a : Action) : Prop :=
  ∃ ch, a = .run t ch ∧ ch.index = 0 ∧
    ∀ purpose level q item,
      s.threads[t]? = some (.dequeue purpose level q (.testExpired item)) →
        isExpired s.shared.config item ch.ownExpired ch.now = expired item

/-- The states of a call of `TryDequeue` by thread `t` while no other thread
moves. -/
abbrev CallState (expired : Item → Bool) (t : ℕ) (s : State) : State → Prop :=
  Transition.ReachableVia step (Answers expired t)
    { s' | step s (.call t .tryDequeue) = some s' }

/-- The call comes to an end, and whenever it does it has returned
`result`. -/
structure Returns (expired : Item → Bool) (t : ℕ) (s : State)
    (result : Option Item) : Prop where
  ends : ∃ s', CallState expired t s s' ∧ s'.threads[t]? = some .idle
  returned : ∀ s', CallState expired t s s' → s'.threads[t]? = some .idle →
    s'.shared.fates .handed = result.toList ++ s.shared.fates .handed

/-- What a call will return. -/
def Pc.outcome (sh : Shared) (expired : Item → Bool) : Pc → Option Item
  | .dequeue _ level q stage =>
      match stage with
      | .take => scanFrom sh.quanta sh.contents expired level q
      | .countDepth item | .countTotal item | .countDequeued item
      | .notifyAll item | .testExpired item =>
          if expired item then
            scanFrom sh.quanta sh.contents expired level (q + 1)
          else some item
      | .notifyExpired _ | .countExpired _ =>
          scanFrom sh.quanta sh.contents expired level (q + 1)
      | .notifyDequeued item | .giveBack item => some item
  | _ => none

/-- Inside a call of `TryDequeue`, or after it. -/
def Pc.InTryDequeue : Pc → Prop
  | .idle | .dequeue .tryDequeue _ _ _ => True
  | _ => False

/-- How far a stage is from the next `take`. -/
def DequeueStage.left : DequeueStage → ℕ
  | .take => 0
  | .giveBack _ => 1
  | .notifyDequeued _ => 2
  | .countExpired _ => 3
  | .notifyExpired _ => 4
  | .testExpired _ => 5
  | .notifyAll _ => 6
  | .countDequeued _ => 7
  | .countTotal _ => 8
  | .countDepth _ => 9

/-- A bound on the accesses a call still makes. -/
def Pc.left (sh : Shared) : Pc → ℕ
  | .dequeue _ level _ stage =>
      10 * sh.queued + level.value + 1 + stage.left
  | _ => 0

section Calls

variable {sh : Shared} {expired : Item → Bool} {level : Priority} {q t : ℕ}
  {ch : Choice} {s s' : State}

theorem Shared.contents_apply (sh : Shared) {e : Event}
    (htake : ∀ level item, e ≠ .take level item)
    (hpublish : ∀ item, e ≠ .publish item) :
    (sh.apply e).contents = sh.contents := by
  funext l
  rw [contents, queues_apply, contents]
  cases e with
  | take level item => exact absurd rfl (htake level item)
  | publish item => exact absurd rfl (hpublish item)
  | addDepth level | subDepth level =>
      simp only [PriorityQueue.apply]
      split_ifs <;> rfl
  | _ => rfl

theorem Shared.queued_apply_eq (sh : Shared) {e : Event}
    (htake : ∀ level item, e ≠ .take level item)
    (hpublish : ∀ item, e ≠ .publish item) :
    (sh.apply e).queued = sh.queued := by
  have hcontents := congrFun (sh.contents_apply htake hpublish)
  unfold contents at hcontents
  simp only [queued, hcontents]

theorem Shared.contents_take (sh : Shared) (level : Priority) {item : Item}
    {rest : List Item} (h : sh.contents level = item :: rest) (l : Priority) :
    (sh.apply (.take level item)).contents l =
      if l = level then rest else sh.contents l := by
  rw [contents, queues_apply, PriorityQueue.apply]
  by_cases hl : l = level
  · subst hl
    have hitems : (sh.queues l).items = item :: rest := h
    simp [hitems]
  · rw [if_neg hl, if_neg (Ne.symm hl)]
    rfl

/-- What will be returned from the next level on. -/
theorem outcome_nextLevel (sh : Shared) (expired : Item → Bool)
    (level : Priority) :
    (nextLevel .tryDequeue level).outcome sh expired =
      level.lower.findSome? fun l =>
        scanLevel sh.quanta sh.contents expired l 0 := by
  rw [Priority.lower_eq, nextLevel]
  cases level.below with
  | none => rfl
  | some lower =>
      have hcons := findSome?_cons_eq_or
        (fun l => scanLevel sh.quanta sh.contents expired l 0) lower
        lower.lower
      exact hcons.symm

theorem inTryDequeue_nextLevel (level : Priority) :
    (nextLevel .tryDequeue level).InTryDequeue := by
  rw [nextLevel]
  cases level.below <;> trivial

theorem Pc.outcome_congr {sh' : Shared} (hquanta : sh'.quanta = sh.quanta)
    (hcontents : sh'.contents = sh.contents) (pc : Pc) :
    pc.outcome sh' expired = pc.outcome sh expired := by
  cases pc with
  | dequeue purpose level q stage =>
      cases stage <;> simp only [outcome, hquanta, hcontents]
  | _ => rfl

/-- What has been returned, with what will be. -/
def Pc.promise (sh : Shared) (expired : Item → Bool) (pc : Pc) : List Item :=
  (pc.outcome sh expired).toList ++ sh.fates .handed

/-- The call is promised something by takes and returns only. -/
theorem Pc.promise_apply (sh : Shared) {e : Event}
    (htake : ∀ level item, e ≠ .take level item)
    (hpublish : ∀ item, e ≠ .publish item) (hhand : ∀ item, e ≠ .hand item)
    (pc : Pc) : pc.promise (sh.apply e) expired = pc.promise sh expired := by
  have hcontents := Shared.contents_apply sh htake hpublish
  have hhanded : (sh.apply e).fates .handed = sh.fates .handed := by
    rw [Shared.fates_apply]
    cases e with
    | hand item => exact absurd rfl (hhand item)
    | _ => rfl
  rw [promise, promise, hhanded,
    outcome_congr (Shared.quanta_apply sh e) hcontents]

/-- One access of a call keeps the promise. -/
theorem dequeueStep_promise (hindex : ch.index = 0) {stage : DequeueStage}
    (hexpired : ∀ item, stage = .testExpired item →
      isExpired sh.config item ch.ownExpired ch.now = expired item)
    {e : Event} {pc' : Pc}
    (h : dequeueStep sh .tryDequeue level q ch stage = some (e, pc')) :
    pc'.InTryDequeue ∧ pc'.promise (sh.apply e) expired =
      (Pc.dequeue .tryDequeue level q stage).promise sh expired := by
  cases stage with
  | take =>
      have hpass : scanLevel sh.quanta sh.contents expired level q = none →
          (nextLevel .tryDequeue level).promise (sh.apply .quiet) expired =
            (Pc.dequeue .tryDequeue level q .take).promise sh expired := by
        intro hnone
        rw [Pc.promise, Pc.promise, Pc.outcome, scanFrom, hnone,
          Option.none_or]
        exact congrArg (·.toList ++ sh.fates .handed)
          (outcome_nextLevel sh expired level)
      simp only [dequeueStep] at h
      split at h
      · next hquota =>
        cases h
        exact ⟨inTryDequeue_nextLevel level, hpass (scanLevel_of_le hquota)⟩
      · next hquota =>
        rw [hindex] at h
        cases hitems : sh.contents level with
        | nil =>
            have hqueue : (sh.queues level).items = [] := hitems
            rw [hqueue] at h
            cases h
            exact ⟨inTryDequeue_nextLevel level,
              hpass (scanLevel_of_nil hitems)⟩
        | cons item rest =>
            have hqueue : (sh.queues level).items = item :: rest := hitems
            rw [hqueue] at h
            cases h
            refine ⟨trivial, ?_⟩
            have hcontents := Shared.contents_take sh level hitems
            have hself := hcontents level
            rw [if_pos rfl] at hself
            have hlower : (level.lower.findSome? fun l =>
                scanLevel sh.quanta _ expired l 0) = _ :=
              findSome?_lower_congr fun l hl =>
                (hcontents l).trans (if_neg hl)
            have hlt : q < sh.quanta level := Nat.lt_of_not_le hquota
            have hfirst : scanLevel _ _ expired level q = _ :=
              scanLevel_of_cons hlt hitems hself
            have hscan : scanFrom sh.quanta sh.contents expired level q =
                if expired item then scanFrom sh.quanta
                  (sh.apply (.take level item)).contents expired level (q + 1)
                else some item := by
              rw [scanFrom, hfirst, scanFrom, hlower]
              cases expired item <;> rfl
            rw [Pc.promise, Pc.promise, Pc.outcome, Pc.outcome,
              Shared.quanta_apply, hscan]
            rfl
  | testExpired item =>
      cases h
      rw [hexpired item rfl]
      cases hv : expired item <;>
        exact ⟨trivial, by simp [Pc.promise, Pc.outcome, hv, Shared.apply]⟩
  | giveBack item =>
      cases h
      exact ⟨trivial, rfl⟩
  | notifyDequeued item | notifyExpired item | countExpired item
  | countDepth item | countTotal item | countDequeued item
  | notifyAll item =>
      cases h
      exact ⟨trivial, Pc.promise_apply sh (by simp) (by simp) (by simp) _⟩

/-- Before its deadline and its submission an item is expired exactly when it
says so. -/
theorem isExpired_min (c : QosConfig) (item : Item) (own : Bool) :
    isExpired c item own (min item.deadline item.enqueueTime) = own := by
  have hdeadline : ¬ item.deadline < min item.deadline item.enqueueTime :=
    not_lt_of_ge (min_le_left _ _)
  have hage : (min item.deadline item.enqueueTime - item.enqueueTime) /
      1000000 ≤ 0 := by
    have hsub := sub_nonpos.mpr (min_le_right item.deadline item.enqueueTime)
    exact Int.ediv_nonpos_of_nonpos_of_neg hsub (by decide)
  have httl : 0 < c.itemTtl → ¬ c.itemTtl ≤
      (min item.deadline item.enqueueTime - item.enqueueTime) / 1000000 :=
    fun hpos hle => absurd (hpos.trans_le hle) (not_lt_of_ge hage)
  rw [isExpired, decide_eq_false hdeadline]
  by_cases hpos : 0 < c.itemTtl
  · simp [decide_eq_false (httl hpos)]
  · simp [hpos]

theorem Pc.left_nextLevel (sh : Shared) (level : Priority) :
    (nextLevel .tryDequeue level).left sh <
      10 * sh.queued + level.value + 1 := by
  cases level <;> simp [nextLevel, Priority.below, Pc.left, DequeueStage.left,
    Purpose.onNull, Priority.value]

/-- A call can always go on, and comes nearer to its end. -/
theorem exists_dequeueStep (sh : Shared) (expired : Item → Bool)
    (level : Priority) (q : ℕ) (stage : DequeueStage) :
    ∃ ch : Choice, ch.index = 0 ∧
      (∀ item, stage = .testExpired item →
        isExpired sh.config item ch.ownExpired ch.now = expired item) ∧
      ∃ e pc', dequeueStep sh .tryDequeue level q ch stage = some (e, pc') ∧
        pc'.left (sh.apply e) <
          (Pc.dequeue .tryDequeue level q stage).left sh := by
  cases stage with
  | take =>
      refine ⟨{}, rfl, by simp, ?_⟩
      simp only [dequeueStep]
      split
      · exact ⟨_, _, rfl, Pc.left_nextLevel sh level⟩
      · cases hitems : (sh.queues level).items with
        | nil => exact ⟨_, _, rfl, Pc.left_nextLevel sh level⟩
        | cons item rest =>
            refine ⟨_, _, rfl, ?_⟩
            have htakes : (Event.take level item).Takes sh := by
              rintro l v heq
              cases heq
              rw [hitems]
              exact List.mem_cons_self
            have hqueued := Shared.queued_apply htakes
            simp only [Event.postedTotal] at hqueued
            simp only [Pc.left, DequeueStage.left]
            omega
  | testExpired item =>
      refine ⟨{ now := min item.deadline item.enqueueTime
                ownExpired := expired item }, rfl, ?_, _, _, rfl, ?_⟩
      · rintro v heq
        cases heq
        exact isExpired_min _ _ _
      · rw [isExpired_min]
        cases expired item <;> simp [Pc.left, DequeueStage.left, Shared.apply]
  | giveBack item =>
      refine ⟨{}, rfl, by simp, _, _, rfl, ?_⟩
      simp [Pc.left]
  | _ =>
      refine ⟨{}, rfl, by simp, _, _, rfl, ?_⟩
      simp only [Pc.left, DequeueStage.left]
      rw [Shared.queued_apply_eq]
      · omega
      · simp
      · simp

end Calls

/-! ## A run of a call -/

/-- A scan from the highest level is the whole scan. -/
theorem scanFrom_highest (quanta : Priority → ℕ)
    (items : Priority → List Item) (expired : Item → Bool) :
    scanFrom quanta items expired .kRealtime 0 =
      scanAll quanta items expired :=
  (findSome?_cons_eq_or (fun l => scanLevel quanta items expired l 0)
    .kRealtime Priority.kRealtime.lower).symm

/-- Thread `t` is inside the call, or has returned, and what has been returned
with what will be is `promised`. -/
def Promises (expired : Item → Bool) (t : ℕ) (promised : List Item)
    (s : State) : Prop :=
  ∃ pc, s.threads[t]? = some pc ∧ pc.InTryDequeue ∧
    pc.promise s.shared expired = promised

section Runs

variable {expired : Item → Bool} {t : ℕ} {promised : List Item}
  {s s' : State}

theorem step_run {pc : Pc} (hpc : s.threads[t]? = some pc) (ch : Choice) :
    step s (.run t ch) =
      (advance s pc ch).map fun (e, pc') => s.settle t e pc' := by
  rw [step, access, hpc, Option.bind_some, Action.thread]

theorem Promises.begin (hidle : s.threads[t]? = some .idle)
    (hstep : step s (.call t .tryDequeue) = some s') :
    Promises expired t
      ((scanAll s.shared.quanta s.shared.contents expired).toList ++
        s.shared.fates .handed) s' := by
  rw [step, access, if_pos hidle] at hstep
  cases hstep
  refine ⟨_, State.getElem?_settle_self hidle _ _, trivial, ?_⟩
  rw [← scanFrom_highest]
  rfl

theorem Promises.next {a : Action} (h : Promises expired t promised s)
    (ha : Answers expired t s a) (hstep : step s a = some s') :
    Promises expired t promised s' := by
  obtain ⟨pc, hpc, hin, hpromise⟩ := h
  obtain ⟨ch, rfl, hindex, hexpired⟩ := ha
  rw [step_run hpc] at hstep
  obtain ⟨⟨e, pc'⟩, hadvance, rfl⟩ := Option.map_eq_some_iff.mp hstep
  refine ⟨pc', State.getElem?_settle_self hpc e pc', ?_⟩
  cases pc with
  | idle => cases hadvance
  | dequeue purpose level q stage =>
      cases purpose with
      | tryDequeue =>
          have hkept := dequeueStep_promise hindex
            (fun item hstage => hexpired .tryDequeue level q item
              (hstage ▸ hpc)) hadvance
          exact ⟨hkept.1, hkept.2.trans hpromise⟩
      | _ => cases hin
  | _ => cases hin

/-- A call that has not returned can go on. -/
theorem Promises.exists_step (h : Promises expired t promised s)
    (hbusy : s.threads[t]? ≠ some .idle) :
    ∃ a s', Answers expired t s a ∧ step s a = some s' ∧
      Promises expired t promised s' ∧
        (s'.threads[t]?.elim 0 (Pc.left s'.shared)) <
          s.threads[t]?.elim 0 (Pc.left s.shared) := by
  obtain ⟨pc, hpc, hin, -⟩ := id h
  cases pc with
  | idle => exact absurd hpc hbusy
  | dequeue purpose level q stage =>
      cases purpose with
      | tryDequeue =>
          obtain ⟨ch, hindex, hexpired, e, pc', hnext, hleft⟩ :=
            exists_dequeueStep s.shared expired level q stage
          have hanswers : Answers expired t s (.run t ch) := by
            refine ⟨ch, rfl, hindex, fun purpose l r item hstage => ?_⟩
            rw [hpc] at hstage
            cases hstage
            exact hexpired item rfl
          have hstep : step s (.run t ch) = some (s.settle t e pc') := by
            rw [step_run hpc, advance, hnext]
            rfl
          refine ⟨_, _, hanswers, hstep, h.next hanswers hstep, ?_⟩
          rw [State.getElem?_settle_self hpc, hpc]
          exact hleft
      | _ => cases hin
  | _ => cases hin

/-- A call of `TryDequeue` returns what the scan finds. -/
theorem returns_scanAll (hidle : s.threads[t]? = some .idle)
    (expired : Item → Bool) :
    Returns expired t s
      (scanAll s.shared.quanta s.shared.contents expired) := by
  have hstep : step s (.call t .tryDequeue) =
      some (s.settle t .quiet (.scan .tryDequeue)) := by
    rw [step, access, if_pos hidle]
    rfl
  have hbegin : ∀ s', step s (.call t .tryDequeue) = some s' →
      Promises expired t _ s' :=
    fun s' h => Promises.begin hidle h
  constructor
  · refine Transition.ReachableVia.exists_final
      (I := Promises expired t _) (fun x hx hbusy => hx.exists_step hbusy)
      (.start hstep) (hbegin _ hstep)
  · intro s' hs' hreturned
    obtain ⟨pc, hpc, -, hpromise⟩ := hs'.invariant
      (I := Promises expired t _) hbegin (fun _ _ _ h ha h' => h.next ha h')
    rw [hreturned] at hpc
    cases hpc
    exact hpromise

/-- A call returns one thing. -/
theorem Returns.eq {result result' : Option Item}
    (h : Returns expired t s result) (h' : Returns expired t s result') :
    result = result' := by
  obtain ⟨s', hs', hidle⟩ := h.ends
  have hsame := (h.returned s' hs' hidle).symm.trans (h'.returned s' hs' hidle)
  simpa using congrArg List.head? (List.append_cancel_right hsame)

/-- A call of `TryDequeue` that nothing disturbs returns the oldest live item
of the highest level that has one, among those of a positive quantum, exactly
if the quantum of that level reaches past the expired items in front of it. -/
theorem tryDequeue_right_iff (hs : Reachable s)
    (hidle : s.threads[t]? = some .idle) (expired : Item → Bool) :
    (∃ result, Returns expired t s result ∧
      IsRight s.shared.quanta s.shared.contents expired result) ↔
        QuantumReaches s.shared.quanta s.shared.contents expired := by
  have hreturns := returns_scanAll hidle expired
  have hscan : IsRight s.shared.quanta s.shared.contents expired _ ↔ _ :=
    isRight_scanAll_iff (reachable_sorted hs).queues
  rw [← hscan]
  constructor
  · rintro ⟨result, hresult, hright⟩
    rwa [hreturns.eq hresult]
  · exact fun hright => ⟨_, hreturns, hright⟩

end Runs

/-- The default quanta. -/
def defaultLevels : QosConfig where
  wrrQuanta := defaultQuanta

/-- The first submission has expired. -/
def firstExpired (item : Item) : Bool :=
  item.key = 0

/-- Two items of `kNormal`. -/
def submitsTwo : List Action :=
  submits .kNormal ++ submits .kNormal

instance (quanta : Priority → ℕ) (items : Priority → List Item)
    (expired : Item → Bool) :
    Decidable (QuantumReaches quanta items expired) :=
  inferInstanceAs (Decidable (∀ level, 0 < quanta level →
    (∃ v ∈ items level, expired v = false) →
      (∀ higher, level < higher → 0 < quanta higher →
        ∀ v ∈ items higher, expired v = true) →
          ((items level).takeWhile expired).length < quanta level))

theorem submitsTwo_runs_defaultLevels :
    (Transition.run step (construct defaultLevels 1) submitsTwo).isSome := by
  decide

theorem tryDequeue_right_iff_defaultLevels :
    ∃ result, Returns firstExpired 0 ((Transition.run step
        (construct defaultLevels 1) submitsTwo).get
          submitsTwo_runs_defaultLevels) result ∧
      IsRight ((Transition.run step (construct defaultLevels 1)
          submitsTwo).get submitsTwo_runs_defaultLevels).shared.quanta
        ((Transition.run step (construct defaultLevels 1)
          submitsTwo).get submitsTwo_runs_defaultLevels).shared.contents
        firstExpired result := by
  have hinit : construct defaultLevels 1 ∈ init := ⟨_, _, rfl⟩
  have hreachable :=
    Transition.reachable_get_run hinit submitsTwo_runs_defaultLevels
  exact (tryDequeue_right_iff hreachable (by decide) firstExpired).mpr
    (by decide)

theorem submitsTwo_runs_oneLevel :
    (Transition.run step (construct oneLevel 1) submitsTwo).isSome := by
  decide

theorem exists_live_passed :
    ¬ ∀ s t expired, Reachable s → s.threads[t]? = some .idle →
      ∃ result, Returns expired t s result ∧
        IsRight s.shared.quanta s.shared.contents expired result := by
  intro hall
  have hinit : construct oneLevel 1 ∈ init := ⟨_, _, rfl⟩
  have hreachable :=
    Transition.reachable_get_run hinit submitsTwo_runs_oneLevel
  have hidle : ((Transition.run step (construct oneLevel 1) submitsTwo).get
      submitsTwo_runs_oneLevel).threads[0]? = some .idle := by
    decide
  obtain ⟨result, hreturns, hright⟩ :=
    hall _ 0 firstExpired hreachable hidle
  rw [hreturns.eq (returns_scanAll hidle firstExpired)] at hright
  have hreaches :=
    (isRight_scanAll_iff (reachable_sorted hreachable).queues).mp hright
  exact absurd hreaches (by decide)

end Qos
end Yacul
