import Yacul.Qos.Lifecycle
import Yacul.Qos.TokenBucket

/-!
# What a submission pays

`EnqueueInternal` asks the global bucket first and the bucket of the level
after it, and neither gives anything back.  An item that the second refuses,
or that the queue does not take, has paid the first.  Every other rejected
item has paid nothing, and an accepted one has paid its cost once to each
bucket that applies to it.
-/

namespace Yacul
namespace Qos

/-! ## Limiters -/

/-- A token bucket of the scheduler: `global_rate_limiter_`, or the
`rate_limiter` of a level. -/
inductive Limiter
  | global
  | level (level : Priority)
deriving DecidableEq, Repr

/-- The rates of `QosConfig`. -/
structure RateConfig where
  rateLimitPerPriority : Priority → ℚ := fun _ => 0
  burstMultiplier : ℚ := 2
  globalRateLimit : ℚ := 0
  globalBurstMultiplier : ℚ := 2

def RateConfig.rate (r : RateConfig) : Limiter → ℚ
  | .global => r.globalRateLimit
  | .level l => r.rateLimitPerPriority l

def RateConfig.burst (r : RateConfig) : Limiter → ℚ
  | .global => r.globalBurstMultiplier
  | .level _ => r.burstMultiplier

/-- Which buckets a configuration has. -/
def QosConfig.limits (c : QosConfig) : Limiter → Bool
  | .global => c.globalLimiter
  | .level l => c.rateLimiter l

/-- The configuration with the buckets of its rates. -/
def QosConfig.withRates (c : QosConfig) (r : RateConfig) : QosConfig :=
  { c with
    globalLimiter := 0 < r.globalRateLimit
    rateLimiter := fun l => 0 < r.rateLimitPerPriority l }

/-- `Cost`, as a number of tokens. -/
def Item.price (item : Item) : ℚ := item.cost.toNat

/-- The buckets that an item is to pay. -/
def Limiter.appliesTo (item : Item) : Limiter → Bool
  | .global => true
  | .level l => l = item.priority

/-- What an accepted item is to pay. -/
def QosConfig.charge (c : QosConfig) (item : Item) (x : Limiter) : ℚ :=
  if c.limits x && x.appliesTo item then item.price else 0

namespace TokenBucket

/-- What a `TryConsume` would leave that takes nothing: it refills, unless it
is asked for nothing. -/
def considered (b : TokenBucket) (now : ℤ) (n : ℚ) : TokenBucket :=
  if n ≤ 0 then b else b.refillLocked now

/-- The bucket with fewer tokens. -/
def debited (b : TokenBucket) (n : ℚ) : TokenBucket :=
  { b with tokens := b.tokens - n }

theorem debited_zero (b : TokenBucket) : b.debited 0 = b := by
  rw [debited, sub_zero]

theorem tryConsume_fst (b : TokenBucket) (now : ℤ) (n : ℚ) :
    (b.tryConsume now n).1 =
      (b.considered now n).debited (b.granted now n) := by
  by_cases hn : n ≤ 0
  · have hgrant : b.granted now n = 0 := if_neg fun hpos => hn.not_gt hpos.1
    rw [hgrant, debited_zero, tryConsume, considered, if_pos hn, if_pos hn]
  · rw [granted, tryConsume, considered, if_neg hn, if_neg hn]
    by_cases hshort : (b.refillLocked now).tokens < n
    · simp [hshort, debited_zero]
    · simp [hshort, debited, lt_of_not_ge hn]

theorem granted_of_true {b : TokenBucket} {now : ℤ} {n : ℚ} (hn : 0 ≤ n)
    (h : (b.tryConsume now n).2 = true) : b.granted now n = n := by
  rcases hn.eq_or_lt with rfl | hpos
  · exact if_neg fun hand => lt_irrefl _ hand.1
  · exact if_pos ⟨hpos, h⟩

theorem granted_of_false {b : TokenBucket} {now : ℤ} {n : ℚ}
    (h : (b.tryConsume now n).2 = false) : b.granted now n = 0 := by
  refine if_neg fun hand => ?_
  rw [h] at hand
  cases hand.2

theorem granted_nonneg (b : TokenBucket) (now : ℤ) (n : ℚ) :
    0 ≤ b.granted now n := by
  rw [granted]
  split
  · next h => exact h.1.le
  · exact le_refl 0

/-- Only what costs something is refused. -/
theorem pos_of_refused {b : TokenBucket} {now : ℤ} {n : ℚ}
    (h : (b.tryConsume now n).2 = false) : 0 < n := by
  by_contra hn
  rw [tryConsume, if_pos (le_of_not_gt hn)] at h
  cases h

end TokenBucket

/-! ## The scheduler with its buckets -/

/-- The scheduler, the clock and the buckets.  For each thread `paid` is what
its last call has taken from each bucket, and `held` is what the buckets would
hold if it had taken nothing: the refills of the call and the debits of the
other threads are the same. -/
structure Limited where
  state : State
  clock : ℤ
  buckets : Limiter → Option TokenBucket
  paid : ℕ → Limiter → ℚ
  held : ℕ → Limiter → Option TokenBucket

/-- A step of a thread, or the passing of time. -/
inductive LimitedAction
  | elapse (ns : ℕ)
  | act (a : Action)
deriving DecidableEq, Repr

/-- The bucket that a thread asks next, and for which item. -/
def Pc.consults : Pc → Option (Limiter × Item)
  | .enqueue item _ .globalLimit => some (.global, item)
  | .enqueue item _ .levelLimit => some (.level item.priority, item)
  | _ => none

/-- The bucket that a step asks. -/
def State.consults (s : State) : Action → Option (Limiter × Item)
  | .call _ _ => none
  | .run t _ => s.threads[t]?.bind Pc.consults

/-- The answer that a step goes on with. -/
def Action.answer : Action → Bool
  | .call _ _ => true
  | .run _ ch => ch.answer

namespace Limited

/-- Thread `t` asks bucket `x`, which holds `b`, for `n` tokens. -/
def consume (s : Limited) (state : State) (t : ℕ) (x : Limiter)
    (b : TokenBucket) (n : ℚ) : Limited where
  state := state
  clock := s.clock
  buckets y := if y = x then some (b.tryConsume s.clock n).1 else s.buckets y
  paid u y :=
    if u = t ∧ y = x then s.paid u y + b.granted s.clock n else s.paid u y
  held u y :=
    if y = x then
      (s.held u y).map fun h => (h.considered s.clock n).debited
        (if u = t then 0 else b.granted s.clock n)
    else s.held u y

/-- Thread `t` begins a call. -/
def enter (s : Limited) (state : State) (t : ℕ) : Limited where
  state := state
  clock := s.clock
  buckets := s.buckets
  paid u x := if u = t then 0 else s.paid u x
  held u x := if u = t then s.buckets x else s.held u x

/-- One step.  A thread goes on with the answer that the bucket gives. -/
def step (s : Limited) : LimitedAction → Option Limited
  | .elapse ns => some { s with clock := s.clock + ns }
  | .act a =>
      (Qos.step s.state a).bind fun state =>
        match a with
        | .call t _ => some (s.enter state t)
        | .run t ch =>
            match s.state.consults (.run t ch) with
            | none => some { s with state := state }
            | some (x, item) =>
                match s.buckets x with
                | none => some { s with state := state }
                | some b =>
                    if (b.tryConsume s.clock item.price).2 = ch.answer then
                      some (s.consume state t x b item.price)
                    else none

/-- A new scheduler at the time `now`, with a bucket for each positive rate;
`built` are the times at which the buckets were made. -/
def construct (config : QosConfig) (rates : RateConfig) (clients : ℕ)
    (built : Limiter → ℤ) (now : ℤ) : Limited :=
  let buckets := fun x =>
    if 0 < rates.rate x then
      some (TokenBucket.construct (rates.rate x)
        (rates.rate x * rates.burst x) (built x))
    else none
  { state := Qos.construct (config.withRates rates) clients
    clock := now
    buckets := buckets
    paid := fun _ _ => 0
    held := fun _ => buckets }

def init : Set Limited :=
  { s | ∃ config rates clients built now,
      s = construct config rates clients built now }

/-! ### The property -/

/-- A rejected item has taken nothing from any bucket, and every bucket holds
what it would hold without it; an accepted item has paid its cost to each
bucket that applies to it. -/
structure TokensOk (s : Limited) : Prop where
  rejected : ∀ t item deadline stage,
    s.state.threads[t]? = some (.enqueue item deadline stage) →
      stage = .notifyDropped ∨ stage = .countDropped →
        ∀ x, s.paid t x = 0 ∧ s.held t x = s.buckets x
  accepted : ∀ t item deadline stage,
    s.state.threads[t]? = some (.enqueue item deadline stage) →
      stage = .countDepth ∨ stage = .countTotal ∨ stage = .countEnqueued ∨
          stage = .notifyEnqueued →
        ∀ x, s.paid t x = s.state.shared.config.charge item x

/-- The bucket refuses the item. -/
def refuses (s : Limited) (x : Limiter) (item : Item) : Bool :=
  (s.buckets x).any fun b => !(b.tryConsume s.clock item.price).2

/-- The bucket of a level refuses an item only if there is no global bucket,
and the queue refuses one only if it had nothing to pay. -/
def RefusesUnpaid (s : Limited) : LimitedAction → Prop
  | .elapse _ | .act (.call _ _) => True
  | .act (.run t ch) =>
      match s.state.threads[t]? with
      | some (.enqueue item _ .levelLimit) =>
          s.refuses (.level item.priority) item = true →
            s.state.shared.config.globalLimiter = false
      | some (.enqueue item _ .publish) =>
          ch.answer = false →
            ∀ x, s.state.shared.config.charge item x = 0
      | _ => True

end Limited

/-! ## What is kept along runs -/

/-- What a submission has paid at a stage; a rejected one may have paid
anything. -/
def EnqueueStage.Due (c : QosConfig) (item : Item) (paid : Limiter → ℚ) :
    EnqueueStage → Prop
  | .notifyDropped | .countDropped => True
  | .levelLimit =>
      ∀ x, paid x = if x = .global then c.charge item x else 0
  | .stamp | .publish | .countDepth | .countTotal | .countEnqueued
  | .notifyEnqueued => ∀ x, paid x = c.charge item x
  | _ => ∀ x, paid x = 0

def Pc.Due (c : QosConfig) (paid : Limiter → ℚ) : Pc → Prop
  | .enqueue item _ stage => stage.Due c item paid
  | _ => True

/-- A rejected submission has paid nothing. -/
def Pc.Unpaid (paid : Limiter → ℚ) : Pc → Prop
  | .enqueue _ _ .notifyDropped | .enqueue _ _ .countDropped =>
      ∀ x, paid x = 0
  | _ => True

section Stages

variable {sh : Shared} {c : QosConfig} {item : Item}
  {deadline : Option TimePoint} {stage : EnqueueStage} {paid : Limiter → ℚ}
  {e : Event} {pc' : Pc}

theorem Item.price_nonneg (item : Item) : 0 ≤ item.price := by
  rw [price]
  positivity

theorem charge_global (c : QosConfig) (item : Item) :
    c.charge item .global = if c.globalLimiter then item.price else 0 := by
  rw [QosConfig.charge, Limiter.appliesTo, Bool.and_true, QosConfig.limits]

theorem charge_level (c : QosConfig) (item : Item) (l : Priority) :
    c.charge item (.level l) =
      if c.rateLimiter l = true ∧ l = item.priority then item.price else 0 := by
  simp [QosConfig.charge, Limiter.appliesTo, QosConfig.limits]

/-- The stages that ask no bucket keep what is due. -/
theorem EnqueueMoves.due (h : EnqueueMoves sh item deadline stage e pc')
    (hasks : (Pc.enqueue item deadline stage).consults = none)
    (hdue : stage.Due c item paid) : pc'.Due c paid := by
  cases h with
  | overflow h =>
      cases hpolicy : sh.config.overflowPolicy with
      | kDrop => trivial
      | kDropOldest | kBlock => exact hdue
  | globalOk | globalLimited | levelOk | levelLimited => cases hasks
  | totalFull h | publishFails | notifyDropped | notifyEnqueued
  | countDropped => trivial
  | _ => exact hdue

/-- The stages before the buckets reject what has paid nothing. -/
theorem EnqueueMoves.unpaid (h : EnqueueMoves sh item deadline stage e pc')
    (hasks : (Pc.enqueue item deadline stage).consults = none)
    (hstage : stage ≠ .publish) (hdue : stage.Due c item paid)
    (hunpaid : (Pc.enqueue item deadline stage).Unpaid paid) :
    pc'.Unpaid paid := by
  cases h with
  | overflow h =>
      cases hpolicy : sh.config.overflowPolicy with
      | kDrop => exact hdue
      | kDropOldest | kBlock => trivial
  | globalOk | globalLimited | levelOk | levelLimited => cases hasks
  | publish | publishFails => exact absurd rfl hstage
  | totalFull h => exact hdue
  | notifyDropped => exact hunpaid
  | _ => trivial

end Stages

/-- A thread inside a submission. -/
def Pc.enqueues : Pc → Bool
  | .enqueue _ _ _ => true
  | _ => false

theorem Pc.due_of_not_enqueues {c : QosConfig} {paid : Limiter → ℚ} {pc : Pc}
    (h : pc.enqueues = false) : pc.Due c paid ∧ pc.Unpaid paid := by
  cases pc with
  | enqueue item deadline stage => cases h
  | _ => exact ⟨trivial, trivial⟩

theorem Pc.enqueues_nextLevel (purpose : Purpose) (level : Priority) :
    (nextLevel purpose level).enqueues = false :=
  apply_nextLevel (fun _ _ => rfl) rfl rfl rfl purpose level

theorem Moves.not_enqueues {s : State} {pc pc' : Pc} {e : Event}
    (h : Moves s pc e pc') (hidle : pc ≠ .idle)
    (hpc : pc.enqueues = false) : pc'.enqueues = false := by
  cases h with
  | enqueue h => cases hpc
  | submit deadline h => exact absurd rfl hidle
  | dequeue h =>
      cases h with
      | quotaUsed h | empty h => exact Pc.enqueues_nextLevel _ _
      | _ => rfl
  | start h => cases h <;> rfl
  | stop h => cases h <;> rfl
  | _ => rfl

/-- A fact about each thread is kept by a step exactly if it holds of the
thread that moved, when the others keep theirs. -/
theorem State.forall_settle_iff {Q Q' : ℕ → Pc → Prop} {s : State} {t : ℕ}
    {pc : Pc} (hpc : s.threads[t]? = some pc) (e : Event) (pc' : Pc)
    (hold : ∀ u x, s.threads[u]? = some x → Q u x)
    (hother : ∀ u x, t ≠ u → Q u x → Q' u x)
    (hloop : ∀ u, Q' u .loopTest) :
    (∀ u x, (s.settle t e pc').threads[u]? = some x → Q' u x) ↔ Q' t pc' := by
  constructor
  · intro hall
    exact hall t pc' (State.getElem?_settle_self hpc e pc')
  · intro hself u x hx
    obtain ⟨rfl, rfl⟩ | ⟨hne, hx⟩ | rfl := State.getElem?_settle_cases hx
    · exact hself
    · exact hother u x hne (hold u x hx)
    · exact hloop u

namespace Limited

/-- What every run keeps. -/
structure Books (s : Limited) : Prop where
  buckets : ∀ x, (s.buckets x).isSome = s.state.shared.config.limits x
  paid_nonneg : ∀ t x, 0 ≤ s.paid t x
  held : ∀ t x, s.paid t x = 0 → s.held t x = s.buckets x
  due : ∀ t (pc : Pc), s.state.threads[t]? = some pc →
    pc.Due s.state.shared.config (s.paid t)

/-- What a step does with the buckets, when thread `t` was at `pc`. -/
inductive Pays (s : Limited) (pc : Pc) (state : State) :
    Action → Limited → Prop
  | enter (t : ℕ) (call : Call) :
      Pays s pc state (.call t call) (s.enter state t)
  | quiet (t : ℕ) (ch : Choice) (h : pc.consults = none) :
      Pays s pc state (.run t ch) { s with state := state }
  | unlimited {x : Limiter} {item : Item} (t : ℕ) (ch : Choice)
      (h : pc.consults = some (x, item)) (hb : s.buckets x = none) :
      Pays s pc state (.run t ch) { s with state := state }
  | consume {x : Limiter} {item : Item} {b : TokenBucket} (t : ℕ)
      (ch : Choice) (h : pc.consults = some (x, item))
      (hb : s.buckets x = some b)
      (hanswer : (b.tryConsume s.clock item.price).2 = ch.answer) :
      Pays s pc state (.run t ch) (s.consume state t x b item.price)

theorem step_act {s s' : Limited} {a : Action}
    (h : s.step (.act a) = some s') :
    ∃ pc e pc', s.state.threads[a.thread]? = some pc ∧
      access s.state a = some (e, pc') ∧ Moves s.state pc e pc' ∧
        s.Pays pc (s.state.settle a.thread e pc') a s' := by
  obtain ⟨state, hstate, hrest⟩ := Option.bind_eq_some_iff.mp h
  obtain ⟨pc, e, pc', hpc, haccess, hmoves, rfl⟩ := step_moves hstate
  refine ⟨pc, e, pc', hpc, haccess, hmoves, ?_⟩
  cases a with
  | call t call =>
      cases hrest
      exact .enter t call
  | run t ch =>
      have hconsults : s.state.consults (.run t ch) = pc.consults := by
        rw [State.consults]
        exact (congrArg (·.bind Pc.consults) hpc).trans (Option.bind_some _ _)
      simp only [hconsults] at hrest
      cases hasks : pc.consults with
      | none =>
          rw [hasks] at hrest
          cases hrest
          exact .quiet t ch hasks
      | some asked =>
          obtain ⟨x, item⟩ := asked
          simp only [hasks] at hrest
          cases hb : s.buckets x with
          | none =>
              simp only [hb] at hrest
              cases hrest
              exact .unlimited t ch hasks hb
          | some b =>
              simp only [hb, Option.ite_none_right_eq_some] at hrest
              obtain ⟨hanswer, heq⟩ := hrest
              cases heq
              exact .consume t ch hasks hb hanswer

/-! ### One step -/

section Steps

variable {s s' : Limited} {pc pc' : Pc} {e : Event} {a : Action}

theorem Books.tokensOk_iff_unpaid (h : Books s) :
    s.TokensOk ↔ ∀ t (pc : Pc), s.state.threads[t]? = some pc →
      pc.Unpaid (s.paid t) := by
  constructor
  · intro hok t pc hpc
    cases pc with
    | enqueue item deadline stage =>
        have hrejected := hok.rejected t item deadline stage hpc
        cases stage with
        | notifyDropped => exact fun x => (hrejected (.inl rfl) x).1
        | countDropped => exact fun x => (hrejected (.inr rfl) x).1
        | _ => trivial
    | _ => trivial
  · intro hunpaid
    constructor
    · intro t item deadline stage hpc hstage x
      have hzero := hunpaid t _ hpc
      have hpaid : s.paid t x = 0 := by
        obtain rfl | rfl := hstage
        · exact hzero x
        · exact hzero x
      exact ⟨hpaid, h.held t x hpaid⟩
    · intro t item deadline stage hpc hstage x
      have hdue := h.due t _ hpc
      obtain rfl | rfl | rfl | rfl := hstage <;> exact hdue x

/-- A step leaves to every thread its own account. -/
theorem Pays.books (hpays : s.Pays pc (s.state.settle a.thread e pc') a s')
    (h : Books s) :
    (∀ x, (s'.buckets x).isSome = s'.state.shared.config.limits x) ∧
      (∀ t x, 0 ≤ s'.paid t x) ∧
      ∀ t x, s'.paid t x = 0 → s'.held t x = s'.buckets x := by
  cases hpays with
  | enter t call =>
      refine ⟨fun x => ?_, fun u x => ?_, fun u x hzero => ?_⟩
      · simp only [Limited.enter, State.settle, Shared.config_apply]
        exact h.buckets x
      · simp only [Limited.enter]
        split
        · exact le_refl 0
        · exact h.paid_nonneg u x
      · simp only [Limited.enter] at hzero ⊢
        split
        · rfl
        · next hne =>
          rw [if_neg hne] at hzero
          exact h.held u x hzero
  | quiet t ch hasks | unlimited t ch hasks hb =>
      refine ⟨fun x => ?_, h.paid_nonneg, h.held⟩
      simp only [State.settle, Shared.config_apply]
      exact h.buckets x
  | @consume x item b t ch hasks hb hanswer =>
      have hgrant := b.granted_nonneg s.clock item.price
      refine ⟨fun y => ?_, fun u y => ?_, fun u y hzero => ?_⟩
      · simp only [Limited.consume, State.settle, Shared.config_apply]
        rw [← h.buckets y]
        split
        · next hy => rw [hy, hb, Option.isSome_some, Option.isSome_some]
        · rfl
      · simp only [Limited.consume]
        split
        · exact add_nonneg (h.paid_nonneg u y) hgrant
        · exact h.paid_nonneg u y
      · simp only [Limited.consume] at hzero ⊢
        by_cases hy : y = x
        · subst hy
          rw [if_pos rfl, if_pos rfl, TokenBucket.tryConsume_fst]
          by_cases hu : u = t
          · -- A sum of debits is zero only if each of them is.
            rw [if_pos ⟨hu, rfl⟩] at hzero
            have hpaid := h.paid_nonneg u y
            have hpaid' : s.paid u y = 0 := by linarith
            have hgrant' : b.granted s.clock item.price = 0 := by linarith
            rw [h.held u y hpaid', hb, Option.map_some, if_pos hu, hgrant']
          · rw [if_neg fun hand => hu hand.1] at hzero
            rw [h.held u y hzero, hb, Option.map_some, if_neg hu]
        · rw [if_neg fun hand => hy hand.2] at hzero
          rw [if_neg hy, if_neg hy]
          exact h.held u y hzero

/-- The account of another thread is left alone. -/
theorem Pays.paid_of_ne {state : State} (hpays : s.Pays pc state a s') {u : ℕ}
    (hne : a.thread ≠ u) : s'.paid u = s.paid u := by
  funext x
  cases hpays with
  | enter t call => exact if_neg (Ne.symm hne)
  | quiet t ch hasks | unlimited t ch hasks hb => rfl
  | consume t ch hasks hb hanswer =>
      exact if_neg fun hand => hne hand.1.symm

theorem consults_eq_some {pc : Pc} {x : Limiter} {item : Item}
    (h : pc.consults = some (x, item)) : ∃ deadline,
      (pc = .enqueue item deadline .globalLimit ∧ x = .global) ∨
        (pc = .enqueue item deadline .levelLimit ∧
          x = .level item.priority) := by
  cases pc with
  | enqueue v deadline stage =>
      cases stage with
      | globalLimit =>
          cases h
          exact ⟨deadline, .inl ⟨rfl, rfl⟩⟩
      | levelLimit =>
          cases h
          exact ⟨deadline, .inr ⟨rfl, rfl⟩⟩
      | _ => cases h
  | _ => cases h

/-- A thread that asks a bucket pays what it is granted. -/
theorem Pays.asked {state : State} {t : ℕ} {ch : Choice} {x : Limiter}
    {item : Item} (hpays : s.Pays pc state (.run t ch) s') (h : Books s)
    (hasks : pc.consults = some (x, item)) :
    (∀ y, y ≠ x → s'.paid t y = s.paid t y) ∧
      s'.paid t x = s.paid t x +
        (if s.state.shared.config.limits x && ch.answer then item.price
          else 0) ∧
      s.refuses x item = (s.state.shared.config.limits x && !ch.answer) ∧
        (s.refuses x item = true → 0 < item.price) := by
  have hlimits := h.buckets x
  rw [← hlimits]
  cases hpays with
  | quiet t ch hnone =>
      rw [hasks] at hnone
      cases hnone
  | unlimited t ch hasks' hb =>
      cases hasks.symm.trans hasks'
      rw [refuses, hb]
      exact ⟨fun _ _ => rfl, (add_zero (s.paid t x)).symm, rfl, nofun⟩
  | @consume x' item' b t ch hasks' hb hanswer =>
      cases hasks.symm.trans hasks'
      rw [refuses, hb, Option.any_some, Option.isSome_some, Bool.true_and,
        Bool.true_and, hanswer]
      refine ⟨fun y hy => if_neg fun hand => hy hand.2, ?_, rfl,
        fun hrefused => ?_⟩
      · simp only [Limited.consume, and_self, if_true]
        cases hans : ch.answer with
        | true =>
            rw [hans] at hanswer
            rw [TokenBucket.granted_of_true item.price_nonneg hanswer]
            rfl
        | false =>
            rw [hans] at hanswer
            rw [TokenBucket.granted_of_false hanswer]
            rfl
      · rw [Bool.not_eq_true'] at hrefused
        rw [hrefused] at hanswer
        exact TokenBucket.pos_of_refused hanswer

/-- Past the global bucket an item has paid it, and if it is refused there it
has paid nothing. -/
theorem Pays.globalLimit {state : State} {t : ℕ} {ch : Choice} {item : Item}
    {deadline : Option TimePoint}
    (hpays : s.Pays (.enqueue item deadline .globalLimit) state (.run t ch) s')
    (h : Books s)
    (hpc : s.state.threads[t]? = some (.enqueue item deadline .globalLimit))
    (haccess : access s.state (.run t ch) = some (e, pc')) :
    pc'.Due s.state.shared.config (s'.paid t) ∧ pc'.Unpaid (s'.paid t) := by
  obtain ⟨hother, hself, -, -⟩ := hpays.asked h rfl
  have hzero := h.due t _ hpc
  rw [hzero, zero_add, QosConfig.limits] at hself
  rw [access, hpc, Option.bind_some, advance, enqueueStep] at haccess
  cases haccess
  by_cases hrefused : (s.state.shared.config.globalLimiter && !ch.answer) = true
  · rw [if_pos hrefused]
    rw [Bool.and_eq_true, Bool.not_eq_true'] at hrefused
    refine ⟨trivial, fun y => ?_⟩
    by_cases hy : y = .global
    · rw [hy, hself, hrefused.2, Bool.and_false]
      rfl
    · rw [hother y hy, hzero]
  · rw [if_neg hrefused]
    refine ⟨fun y => ?_, trivial⟩
    by_cases hy : y = .global
    · rw [hy, hself, if_pos rfl, charge_global]
      cases hlimiter : s.state.shared.config.globalLimiter with
      | false => rfl
      | true =>
          rw [hlimiter, Bool.true_and, Bool.not_eq_true', Bool.not_eq_false]
            at hrefused
          rw [hrefused]
          rfl
    · rw [hother y hy, hzero, if_neg hy]

/-- Past the bucket of its level an item has paid both, and if it is refused
there it has paid nothing only if there is no global bucket. -/
theorem Pays.levelLimit {state : State} {t : ℕ} {ch : Choice} {item : Item}
    {deadline : Option TimePoint}
    (hpays : s.Pays (.enqueue item deadline .levelLimit) state (.run t ch) s')
    (h : Books s)
    (hpc : s.state.threads[t]? = some (.enqueue item deadline .levelLimit))
    (haccess : access s.state (.run t ch) = some (e, pc')) :
    pc'.Due s.state.shared.config (s'.paid t) ∧
      (pc'.Unpaid (s'.paid t) ↔ s.RefusesUnpaid (.act (.run t ch))) := by
  obtain ⟨hother, hself, hrefuses, hcost⟩ := hpays.asked h rfl
  have hdue := h.due t _ hpc
  rw [hdue, if_neg (by simp), zero_add, QosConfig.limits] at hself
  have hcondition : s.RefusesUnpaid (.act (.run t ch)) ↔
      (s.refuses (.level item.priority) item = true →
        s.state.shared.config.globalLimiter = false) := by
    simp only [RefusesUnpaid, hpc]
  rw [QosConfig.limits] at hrefuses
  rw [hcondition]
  rw [access, hpc, Option.bind_some, advance, enqueueStep] at haccess
  cases haccess
  by_cases hrefused :
      (s.state.shared.config.rateLimiter item.priority && !ch.answer) = true
  · rw [hrefused] at hrefuses
    rw [if_pos hrefused]
    rw [Bool.and_eq_true, Bool.not_eq_true'] at hrefused
    rw [hrefused.2, Bool.and_false] at hself
    have hpaid : ∀ y, s'.paid t y =
        if y = .global then s.state.shared.config.charge item y else 0 := by
      intro y
      by_cases hy : y = .level item.priority
      · rw [hy, hself]
        rfl
      · rw [hother y hy, hdue]
    refine ⟨trivial, fun hunpaid _ => ?_, fun hlimiter y => ?_⟩
    · have hglobal := hunpaid .global
      rw [hpaid, if_pos rfl, charge_global] at hglobal
      have hpos := hcost hrefuses
      by_contra hlimiter
      rw [Bool.not_eq_false] at hlimiter
      rw [hlimiter, if_pos rfl] at hglobal
      exact absurd hglobal hpos.ne'
    · rw [hpaid]
      by_cases hy : y = .global
      · rw [if_pos hy, hy, charge_global, hlimiter hrefuses]
        rfl
      · exact if_neg hy
  · rw [Bool.not_eq_true] at hrefused
    rw [hrefused] at hrefuses
    rw [hrefused, hrefuses]
    refine ⟨fun y => ?_, fun _ hfalse => Bool.noConfusion hfalse,
      fun _ => trivial⟩
    by_cases hy : y = .level item.priority
    · rw [hy, hself, charge_level]
      cases hlimiter : s.state.shared.config.rateLimiter item.priority with
      | false => simp
      | true =>
          rw [hlimiter, Bool.true_and, Bool.not_eq_false'] at hrefused
          rw [hrefused]
          simp
    · rw [hother y hy, hdue]
      cases y with
      | global => rfl
      | level l =>
          have hne : l ≠ item.priority := fun heq => hy (heq ▸ rfl)
          rw [if_neg (by simp), charge_level, if_neg fun hand => hne hand.2]

/-- A call begins with nothing paid. -/
theorem due_begin {state : State} {c : QosConfig} {paid : Limiter → ℚ}
    (hmoves : Moves state .idle e pc') (hpaid : ∀ x, paid x = 0) :
    pc'.Due c paid ∧ pc'.Unpaid paid := by
  cases hmoves with
  | submit deadline h => exact ⟨hpaid, trivial⟩
  | _ => exact ⟨trivial, trivial⟩

/-- Where no bucket is asked, only a failure of the queue matters. -/
theorem Books.quiet {t : ℕ} {ch : Choice} (h : Books s)
    (hpc : s.state.threads[t]? = some pc)
    (haccess : access s.state (.run t ch) = some (e, pc'))
    (hmoves : Moves s.state pc e pc') (hasks : pc.consults = none)
    (hunpaid : pc.Unpaid (s.paid t)) :
    pc'.Due s.state.shared.config (s.paid t) ∧
      (pc'.Unpaid (s.paid t) ↔ s.RefusesUnpaid (.act (.run t ch))) := by
  have hdue := h.due t pc hpc
  cases pc with
  | enqueue item deadline stage =>
      cases hmoves with
      | enqueue hmoves =>
          refine ⟨hmoves.due hasks hdue, ?_⟩
          by_cases hstage : stage = .publish
          · subst hstage
            have hcondition : s.RefusesUnpaid (.act (.run t ch)) ↔
                (ch.answer = false →
                  ∀ x, s.state.shared.config.charge item x = 0) := by
              simp only [RefusesUnpaid, hpc]
            rw [hcondition]
            rw [access, hpc, Option.bind_some, advance, enqueueStep] at haccess
            cases hans : ch.answer with
            | true =>
                rw [hans] at haccess
                cases haccess
                exact ⟨fun _ hfalse => Bool.noConfusion hfalse,
                  fun _ => trivial⟩
            | false =>
                rw [hans] at haccess
                cases haccess
                constructor
                · intro hzero _ x
                  rw [← hdue]
                  exact hzero x
                · intro hzero x
                  rw [hdue]
                  exact hzero rfl x
          · have hkept := hmoves.unpaid hasks hstage hdue hunpaid
            refine ⟨fun _ => ?_, fun _ => hkept⟩
            rw [RefusesUnpaid, hpc]
            cases stage with
            | levelLimit => cases hasks
            | publish => exact absurd rfl hstage
            | _ => trivial
  | idle =>
      rw [access, hpc] at haccess
      cases haccess
  | _ =>
      obtain ⟨hdue', hunpaid'⟩ : pc'.Due s.state.shared.config (s.paid t) ∧
          pc'.Unpaid (s.paid t) :=
        Pc.due_of_not_enqueues (hmoves.not_enqueues (by simp) rfl)
      refine ⟨hdue', fun _ => ?_, fun _ => hunpaid'⟩
      rw [RefusesUnpaid, hpc]
      trivial

/-- The account of the thread that moves. -/
theorem Pays.own {state : State} (hpays : s.Pays pc state a s') (h : Books s)
    (hpc : s.state.threads[a.thread]? = some pc)
    (haccess : access s.state a = some (e, pc'))
    (hmoves : Moves s.state pc e pc')
    (hunpaid : pc.Unpaid (s.paid a.thread)) :
    pc'.Due s.state.shared.config (s'.paid a.thread) ∧
      (pc'.Unpaid (s'.paid a.thread) ↔ s.RefusesUnpaid (.act a)) := by
  cases a with
  | call t call =>
      cases hpays
      have hidle := Option.ite_none_right_eq_some.mp haccess
      cases hpc.symm.trans hidle.1
      have hpaid : ∀ x, (s.enter state t).paid t x = 0 := fun _ => if_pos rfl
      obtain ⟨hdue, hunpaid'⟩ := due_begin hmoves hpaid
      exact ⟨hdue, fun _ => trivial, fun _ => hunpaid'⟩
  | run t ch =>
      have hthread : s.state.threads[t]? = some pc := hpc
      cases hasks : pc.consults with
      | none =>
          have hsame : s'.paid t = s.paid t := by
            cases hpays with
            | quiet t ch h | unlimited t ch h hb => rfl
            | consume t ch h hb hanswer =>
                rw [hasks] at h
                cases h
          rw [Action.thread, hsame]
          exact h.quiet hpc haccess hmoves hasks hunpaid
      | some asked =>
          obtain ⟨x, item⟩ := asked
          obtain ⟨deadline, ⟨rfl, rfl⟩ | ⟨rfl, rfl⟩⟩ := consults_eq_some hasks
          · obtain ⟨hdue, hunpaid'⟩ := hpays.globalLimit h hpc haccess
            refine ⟨hdue, fun _ => ?_, fun _ => hunpaid'⟩
            rw [RefusesUnpaid, hthread]
            trivial
          · exact hpays.levelLimit h hpc haccess

/-- A step keeps the books, and tokens are taken for accepted items only
exactly if the step is not one that rejects an item that has paid. -/
theorem Books.step {a : LimitedAction} (h : Books s) (hok : s.TokensOk)
    (hstep : s.step a = some s') :
    Books s' ∧ (s'.TokensOk ↔ s.RefusesUnpaid a) := by
  cases a with
  | elapse ns =>
      cases hstep
      exact ⟨⟨h.buckets, h.paid_nonneg, h.held, h.due⟩, fun _ => trivial,
        fun _ => ⟨hok.rejected, hok.accepted⟩⟩
  | act a =>
      obtain ⟨pc, e, pc', hpc, haccess, hmoves, hpays⟩ := step_act hstep
      have hunpaid := h.tokensOk_iff_unpaid.mp hok
      obtain ⟨hdue, hiff⟩ :=
        hpays.own h hpc haccess hmoves (hunpaid _ pc hpc)
      obtain ⟨hbuckets, hnonneg, hheld⟩ := hpays.books h
      have hstate : s'.state = s.state.settle a.thread e pc' := by
        cases hpays <;> rfl
      have hconfig : s'.state.shared.config = s.state.shared.config := by
        rw [hstate, State.settle, Shared.config_apply]
      have hbooks : Books s' := by
        refine ⟨hbuckets, hnonneg, hheld, ?_⟩
        rw [hconfig, hstate]
        refine (State.forall_settle_iff hpc e pc' h.due ?_
          fun _ => trivial).mpr hdue
        intro u x hne hx
        rwa [hpays.paid_of_ne hne]
      refine ⟨hbooks, hbooks.tokensOk_iff_unpaid.trans (Iff.trans ?_ hiff)⟩
      rw [hstate]
      refine State.forall_settle_iff hpc e pc' hunpaid ?_ fun _ => trivial
      intro u x hne hx
      rwa [hpays.paid_of_ne hne]

end Steps

/-! ## Runs -/

theorem Books.init {s : Limited} (hs : s ∈ init) : Books s ∧ s.TokensOk := by
  obtain ⟨config, rates, clients, built, now, rfl⟩ := hs
  have hidle : ∀ (t : ℕ) (pc : Pc), (construct config rates clients built
      now).state.threads[t]? = some pc → pc = .idle := by
    intro t pc hpc
    exact List.eq_of_mem_replicate (List.mem_of_getElem? hpc)
  have hbooks : Books (construct config rates clients built now) := by
    refine ⟨fun x => ?_, fun _ _ => le_refl 0, fun _ _ _ => rfl, ?_⟩
    · simp only [construct]
      cases x with
      | global =>
          by_cases hrate : 0 < rates.globalRateLimit
          · simp [RateConfig.rate, hrate, QosConfig.limits, Qos.construct,
              QosConfig.withRates]
          · simp [RateConfig.rate, hrate, QosConfig.limits, Qos.construct,
              QosConfig.withRates]
      | level l =>
          by_cases hrate : 0 < rates.rateLimitPerPriority l
          · simp [RateConfig.rate, hrate, QosConfig.limits, Qos.construct,
              QosConfig.withRates]
          · simp [RateConfig.rate, hrate, QosConfig.limits, Qos.construct,
              QosConfig.withRates]
    · intro t pc hpc
      rw [hidle t pc hpc]
      trivial
  refine ⟨hbooks, hbooks.tokensOk_iff_unpaid.mpr fun t pc hpc => ?_⟩
  rw [hidle t pc hpc]
  trivial

/-- Along a run tokens are taken for accepted items only, once for each
bucket, exactly if no step of it rejects an item that has paid a bucket. -/
theorem tokensOk_iff {s : Limited} (hs : s ∈ init)
    (acts : List LimitedAction) :
    Transition.AllStates step TokensOk s acts ↔
      Transition.AllSteps step RefusesUnpaid s acts :=
  Transition.allStates_iff_allSteps
    (fun _ _ _ h hok hstep => h.step hok hstep) (Books.init hs).1
    (Books.init hs).2 acts

theorem forall_charge_eq_zero_iff (c : QosConfig) (item : Item) :
    (∀ x, c.charge item x = 0) ↔
      c.charge item .global = 0 ∧ c.charge item (.level item.priority) = 0 := by
  refine ⟨fun h => ⟨h _, h _⟩, fun h x => ?_⟩
  cases x with
  | global => exact h.1
  | level l =>
      by_cases hl : l = item.priority
      · exact hl ▸ h.2
      · rw [charge_level, if_neg fun hand => hl hand.2]

instance (c : QosConfig) (item : Item) :
    Decidable (∀ x, c.charge item x = 0) :=
  decidable_of_iff _ (forall_charge_eq_zero_iff c item).symm

instance (s : Limited) (a : LimitedAction) : Decidable (s.RefusesUnpaid a) := by
  cases a with
  | elapse ns => exact isTrue trivial
  | act a =>
      cases a with
      | call t call => exact isTrue trivial
      | run t ch =>
          unfold RefusesUnpaid
          dsimp only
          split <;> exact inferInstance

/-- One token for each level and ten for all. -/
def smallRates : RateConfig where
  rateLimitPerPriority _ := 1
  burstMultiplier := 1
  globalRateLimit := 10
  globalBurstMultiplier := 1

/-- A scheduler with one token for each level. -/
def smallBuckets : Limited :=
  construct { wrrQuanta := defaultQuanta } smallRates 1 (fun _ => 0) 0

/-- A submission that the buckets admit. -/
def admitted : List LimitedAction :=
  .act (.call 0 (.enqueueTask .kNormal)) ::
    List.replicate 10 (.act (.run 0 {}))

/-- A second submission at the same time, as far as the bucket of its
level. -/
def drained : List LimitedAction :=
  admitted ++ LimitedAction.act (.call 0 (.enqueueTask .kNormal)) ::
    List.replicate 3 (LimitedAction.act (.run 0 {})) ++
      [LimitedAction.act (.run 0 { answer := false })]

theorem tokensOk_iff_admitted :
    Transition.AllStates step TokensOk smallBuckets admitted :=
  (tokensOk_iff ⟨_, _, _, _, _, rfl⟩ admitted).mpr (by decide +kernel)

theorem drained_runs :
    (Transition.run step smallBuckets drained).isSome := by
  decide +kernel

theorem exists_rejected_paying :
    ¬ ∀ s ∈ init, ∀ acts, Transition.AllStates step TokensOk s acts := by
  intro hall
  have hok := (hall smallBuckets ⟨_, _, _, _, _, rfl⟩ drained).last
    (Option.some_get drained_runs).symm
  have hpaid := hok.rejected 0 { key := 1 } none .notifyDropped
    (by decide +kernel) (.inl rfl) .global
  exact absurd hpaid.1 (by decide +kernel)

end Limited

end Qos
end Yacul
