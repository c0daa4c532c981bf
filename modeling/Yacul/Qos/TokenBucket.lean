import Yacul.Support.Budget
import Mathlib.Data.Rat.Cast.Order
import Mathlib.Tactic.Linarith
import Mathlib.Tactic.Positivity

/-!
# The token bucket

`TokenBucket` in exact arithmetic.  Its lock makes every operation one step,
and the clock is read inside; between operations time passes.  What can be
taken at an instant is the stored tokens and what has accrued since the last
refill, up to the capacity: a refill changes the way this is stored and not
what it is, and `TryConsume` takes from it what it grants.
-/

namespace Yacul
namespace Qos

/-- `TokenBucket`. -/
structure TokenBucket where
  rate : ℚ
  capacity : ℚ
  tokens : ℚ
  lastRefillNs : ℤ
deriving DecidableEq, Repr

/-- Nanoseconds as seconds. -/
def seconds (ns : ℤ) : ℚ := ns * (1 / 1000000000)

theorem seconds_nonneg {ns : ℤ} (h : 0 ≤ ns) : 0 ≤ seconds ns := by
  unfold seconds
  positivity

theorem seconds_pos {ns : ℤ} (h : 0 < ns) : 0 < seconds ns := by
  unfold seconds
  positivity

theorem seconds_add (a b : ℤ) : seconds (a + b) = seconds a + seconds b := by
  simp only [seconds, Int.cast_add, add_mul]

namespace TokenBucket

/-- The constructor, at the time `now`. -/
def construct (rate capacity : ℚ) (now : ℤ) : TokenBucket where
  rate := rate
  capacity := capacity
  tokens := capacity
  lastRefillNs := now

/-- `RefillLocked`. -/
def refillLocked (b : TokenBucket) (now : ℤ) : TokenBucket :=
  let elapsed := seconds (now - b.lastRefillNs)
  if elapsed ≤ 0 then b
  else
    let elapsed := min elapsed (b.capacity / b.rate)
    { b with
      tokens := min (b.tokens + elapsed * b.rate) b.capacity
      lastRefillNs := now }

/-- `TryConsume`, with its answer. -/
def tryConsume (b : TokenBucket) (now : ℤ) (tokens : ℚ) :
    TokenBucket × Bool :=
  if tokens ≤ 0 then (b, true)
  else
    let b := b.refillLocked now
    if b.tokens < tokens then (b, false)
    else ({ b with tokens := b.tokens - tokens }, true)

/-- `Refill`. -/
def refill (b : TokenBucket) (tokens : ℚ) : TokenBucket :=
  if tokens ≤ 0 then b
  else { b with tokens := min (b.tokens + tokens) b.capacity }

/-- `Reset`. -/
def reset (b : TokenBucket) (now : ℤ) : TokenBucket :=
  { b with tokens := b.capacity, lastRefillNs := now }

/-- `CurrentTokens`, with its answer. -/
def currentTokens (b : TokenBucket) (now : ℤ) : TokenBucket × ℚ :=
  let b := b.refillLocked now
  (b, b.tokens)

/-- The tokens that can be taken at the time `now`: the stored ones and what
has accrued since the last refill, up to the capacity. -/
def available (b : TokenBucket) (now : ℤ) : ℚ :=
  min (b.tokens + seconds (now - b.lastRefillNs) * b.rate) b.capacity

/-- What the operations keep, when the clock has not passed `now`. -/
structure Valid (b : TokenBucket) (now : ℤ) : Prop where
  rate_pos : 0 < b.rate
  tokens_nonneg : 0 ≤ b.tokens
  tokens_le : b.tokens ≤ b.capacity
  last_le : b.lastRefillNs ≤ now

section Operations

variable {b : TokenBucket} {now later : ℤ} {n : ℚ}

/-- A refill stores what is available. -/
theorem Valid.refillLocked_eq (h : b.Valid now) :
    b.refillLocked now =
      { b with tokens := b.available now, lastRefillNs := now } := by
  rcases h.last_le.eq_or_lt with heq | hlt
  · have hzero : seconds (now - b.lastRefillNs) = 0 := by
      rw [heq, sub_self, seconds, Int.cast_zero, zero_mul]
    have hsame : b.available now = b.tokens := by
      rw [available, hzero, zero_mul, add_zero, min_eq_left h.tokens_le]
    rw [refillLocked, if_pos hzero.le, hsame, ← heq]
  · have hpos : 0 < seconds (now - b.lastRefillNs) := seconds_pos (by omega)
    have hcap : min (seconds (now - b.lastRefillNs)) (b.capacity / b.rate) *
        b.rate = min (seconds (now - b.lastRefillNs) * b.rate) b.capacity := by
      rw [min_mul_of_nonneg _ _ h.rate_pos.le,
        div_mul_cancel₀ _ h.rate_pos.ne']
    have htwice : min (b.tokens + min (seconds (now - b.lastRefillNs) * b.rate)
        b.capacity) b.capacity = b.available now := by
      have hzero := h.tokens_nonneg
      rw [available, ← min_add_add_left, min_assoc]
      congr 1
      exact min_eq_right (by linarith)
    simp only [refillLocked, if_neg hpos.not_ge, hcap, htwice]

theorem Valid.available_nonneg (h : b.Valid now) : 0 ≤ b.available now := by
  have hcap := h.tokens_nonneg.trans h.tokens_le
  have haccrued : 0 ≤ seconds (now - b.lastRefillNs) * b.rate :=
    mul_nonneg (seconds_nonneg (sub_nonneg.mpr h.last_le)) h.rate_pos.le
  exact le_min (add_nonneg h.tokens_nonneg haccrued) hcap

theorem available_le (b : TokenBucket) (now : ℤ) :
    b.available now ≤ b.capacity :=
  min_le_right _ _

theorem Valid.mono (h : b.Valid now) (hle : now ≤ later) : b.Valid later :=
  ⟨h.rate_pos, h.tokens_nonneg, h.tokens_le, h.last_le.trans hle⟩

theorem Valid.refillLocked (h : b.Valid now) :
    (b.refillLocked now).Valid now := by
  rw [h.refillLocked_eq]
  exact ⟨h.rate_pos, h.available_nonneg, b.available_le now, le_refl now⟩

/-- At the time of a refill nothing has accrued since. -/
theorem available_self (b : TokenBucket) (h : b.tokens ≤ b.capacity) :
    b.available b.lastRefillNs = b.tokens := by
  rw [available, sub_self, seconds, Int.cast_zero, zero_mul, zero_mul,
    add_zero, min_eq_left h]

/-- A refill on the way makes no difference. -/
theorem Valid.available_refillLocked (h : b.Valid now) (hle : now ≤ later) :
    (b.refillLocked now).available later = b.available later := by
  have hsplit : seconds (later - b.lastRefillNs) =
      seconds (now - b.lastRefillNs) + seconds (later - now) := by
    rw [← seconds_add]
    congr 1
    omega
  have haccrued : 0 ≤ seconds (later - now) * b.rate :=
    mul_nonneg (seconds_nonneg (by omega)) h.rate_pos.le
  rw [h.refillLocked_eq]
  simp only [available]
  rw [hsplit, add_mul, ← add_assoc, ← min_add_add_right, min_assoc]
  congr 1
  exact min_eq_right (by linarith)

/-- What `TryConsume` takes from the bucket. -/
def granted (b : TokenBucket) (now : ℤ) (n : ℚ) : ℚ :=
  if 0 < n ∧ (b.tryConsume now n).2 = true then n else 0

/-- `TryConsume` leaves the bucket with what it has not granted. -/
theorem Valid.tryConsume (h : b.Valid now) (n : ℚ) :
    (b.tryConsume now n).1.Valid now ∧
      (b.tryConsume now n).1.available now = b.available now - b.granted now n ∧
      (b.tryConsume now n).1.rate = b.rate ∧
      (b.tryConsume now n).1.capacity = b.capacity := by
  have hrefilled := h.refillLocked
  have heq := h.refillLocked_eq
  by_cases hn : n ≤ 0
  · have hgrant : b.granted now n = 0 := if_neg fun hpos => hn.not_gt hpos.1
    rw [TokenBucket.tryConsume, if_pos hn, hgrant, sub_zero]
    exact ⟨h, rfl, rfl, rfl⟩
  · have hpos : 0 < n := lt_of_not_ge hn
    by_cases hshort : (b.refillLocked now).tokens < n
    · have hresult : b.tryConsume now n = (b.refillLocked now, false) := by
        rw [TokenBucket.tryConsume, if_neg hn]
        exact if_pos hshort
      have hgrant : b.granted now n = 0 := by
        rw [granted, hresult]
        exact if_neg fun hand => nomatch hand.2
      rw [hresult, hgrant, sub_zero]
      refine ⟨hrefilled, h.available_refillLocked (le_refl now), ?_, ?_⟩
      · rw [heq]
      · rw [heq]
    · have hresult : b.tryConsume now n =
          ({ b.refillLocked now with
              tokens := (b.refillLocked now).tokens - n }, true) := by
        rw [TokenBucket.tryConsume, if_neg hn]
        exact if_neg hshort
      have hgrant : b.granted now n = n := by
        rw [granted, hresult]
        exact if_pos ⟨hpos, rfl⟩
      rw [heq] at hshort
      have henough : n ≤ b.available now := le_of_not_gt hshort
      have hcap := b.available_le now
      rw [hresult, hgrant, heq]
      refine ⟨⟨h.rate_pos, sub_nonneg.mpr henough, ?_, le_refl now⟩, ?_, rfl,
        rfl⟩
      · exact (sub_le_self _ hpos.le).trans hcap
      · exact available_self { b with
          tokens := b.available now - n, lastRefillNs := now }
          ((sub_le_self _ hpos.le).trans hcap)

/-- `Refill` brings in at most what it is given. -/
theorem Valid.refill (h : b.Valid now) (n : ℚ) :
    (b.refill n).Valid now ∧
      (b.refill n).available now ≤ b.available now + max n 0 ∧
      (b.refill n).rate = b.rate ∧ (b.refill n).capacity = b.capacity := by
  by_cases hn : n ≤ 0
  · rw [TokenBucket.refill, if_pos hn, max_eq_right hn, add_zero]
    exact ⟨h, le_refl _, rfl, rfl⟩
  · have hpos : 0 < n := lt_of_not_ge hn
    have hcap := h.tokens_nonneg.trans h.tokens_le
    rw [TokenBucket.refill, if_neg hn, max_eq_left hpos.le]
    refine ⟨⟨h.rate_pos, le_min (add_nonneg h.tokens_nonneg hpos.le) hcap,
      min_le_right _ _, h.last_le⟩, ?_, rfl, rfl⟩
    simp only [available]
    have hstored := min_le_left (b.tokens + n) b.capacity
    rcases le_total (b.tokens + seconds (now - b.lastRefillNs) * b.rate)
      b.capacity with hroom | hfull
    · rw [min_eq_left hroom]
      refine (min_le_left _ _).trans ?_
      linarith
    · rw [min_eq_right hfull]
      exact (min_le_right _ _).trans (le_add_of_nonneg_right hpos.le)

/-- Over time the bucket gains at most its rate. -/
theorem Valid.available_later (h : b.Valid now) (hle : now ≤ later) :
    b.available later ≤ b.available now + seconds (later - now) * b.rate := by
  have hsplit : seconds (later - b.lastRefillNs) =
      seconds (now - b.lastRefillNs) + seconds (later - now) := by
    rw [← seconds_add]
    congr 1
    omega
  have haccrued : 0 ≤ seconds (later - now) * b.rate :=
    mul_nonneg (seconds_nonneg (by omega)) h.rate_pos.le
  simp only [available]
  rw [hsplit, add_mul, ← add_assoc, ← min_add_add_right]
  exact min_le_min_left _ (le_add_of_nonneg_right haccrued)

end Operations

end TokenBucket

/-! ## A bucket and a clock -/

/-- A token bucket at a time. -/
structure TimedBucket where
  bucket : TokenBucket
  now : ℤ
deriving DecidableEq, Repr

/-- An operation, or the passing of time. -/
inductive BucketAction
  | elapse (ns : ℕ)
  | tryConsume (tokens : ℚ)
  | refill (tokens : ℚ)
  | currentTokens
  | reset
deriving DecidableEq, Repr

namespace TimedBucket

def step (s : TimedBucket) : BucketAction → Option TimedBucket
  | .elapse ns => some { s with now := s.now + ns }
  | .tryConsume n => some { s with bucket := (s.bucket.tryConsume s.now n).1 }
  | .refill n => some { s with bucket := s.bucket.refill n }
  | .currentTokens =>
      some { s with bucket := (s.bucket.currentTokens s.now).1 }
  | .reset => some { s with bucket := s.bucket.reset s.now }

/-- The buckets made with this rate and capacity, at any time. -/
def init (rate capacity : ℚ) : Set TimedBucket :=
  { s | s.bucket = TokenBucket.construct rate capacity s.now }

/-- What a step grants. -/
def spent (s : TimedBucket) : BucketAction → ℚ
  | .tryConsume n => s.bucket.granted s.now n
  | _ => 0

end TimedBucket

/-- What a step is given. -/
def BucketAction.credit : BucketAction → ℚ
  | .refill n => max n 0
  | _ => 0

/-- What is kept along runs. -/
structure TimedBucket.Sound (rate capacity : ℚ) (s : TimedBucket) : Prop where
  valid : s.bucket.Valid s.now
  rate_eq : s.bucket.rate = rate
  capacity_eq : s.bucket.capacity = capacity

section Runs

variable {rate capacity : ℚ} {s s' : TimedBucket} {a : BucketAction}

/-- A step keeps the bucket sound, and grants no more than what the bucket
loses, what time brings and what it is given. -/
theorem TimedBucket.Sound.step (h : s.Sound rate capacity)
    (hstep : s.step a = some s') :
    s'.Sound rate capacity ∧
      (a ≠ .reset →
        s.spent a + (s'.bucket.available s'.now - seconds s'.now * rate) ≤
          s.bucket.available s.now - seconds s.now * rate + a.credit) := by
  obtain ⟨hvalid, rfl, rfl⟩ := h
  cases a with
  | elapse ns =>
      obtain rfl := Option.some.inj hstep
      have hle : s.now ≤ s.now + ns := by omega
      have hlater := hvalid.available_later hle
      refine ⟨⟨hvalid.mono hle, rfl, rfl⟩, fun _ => ?_⟩
      rw [add_sub_cancel_left] at hlater
      simp only [TimedBucket.spent, BucketAction.credit, seconds_add, add_mul]
      linarith
  | tryConsume n =>
      obtain rfl := Option.some.inj hstep
      obtain ⟨hvalid', havail, hrate, hcap⟩ := hvalid.tryConsume n
      refine ⟨⟨hvalid', hrate, hcap⟩, fun _ => ?_⟩
      simp only [TimedBucket.spent, BucketAction.credit, havail]
      linarith
  | refill n =>
      obtain rfl := Option.some.inj hstep
      obtain ⟨hvalid', havail, hrate, hcap⟩ := hvalid.refill n
      refine ⟨⟨hvalid', hrate, hcap⟩, fun _ => ?_⟩
      simp only [TimedBucket.spent, BucketAction.credit]
      linarith
  | currentTokens =>
      obtain rfl := Option.some.inj hstep
      have havail := hvalid.available_refillLocked (le_refl s.now)
      refine ⟨⟨hvalid.refillLocked, ?_, ?_⟩, fun _ => ?_⟩
      · simp only [TokenBucket.currentTokens, hvalid.refillLocked_eq]
      · simp only [TokenBucket.currentTokens, hvalid.refillLocked_eq]
      · simp only [TimedBucket.spent, BucketAction.credit,
          TokenBucket.currentTokens, havail]
        linarith
  | reset =>
      obtain rfl := Option.some.inj hstep
      have hcap := hvalid.tokens_nonneg.trans hvalid.tokens_le
      exact ⟨⟨⟨hvalid.rate_pos, hcap, le_refl _, le_refl _⟩, rfl, rfl⟩,
        fun hne => absurd rfl hne⟩

theorem TimedBucket.sound (hrate : 0 < rate) (hcap : 0 ≤ capacity)
    (hs : Transition.Reachable TimedBucket.step
      (TimedBucket.init rate capacity) s) : s.Sound rate capacity := by
  refine Transition.ReachableVia.invariant ?_
    (fun _ _ _ h _ hstep => (h.step hstep).1) hs
  rintro ⟨b, now⟩ (rfl : b = TokenBucket.construct rate capacity now)
  exact ⟨⟨hrate, hcap, le_refl _, le_refl _⟩, rfl, rfl⟩

/-- The tokens stay between zero and the capacity, a failed `TryConsume` takes
nothing, and in a stretch of a run without `Reset` no more is granted than was
available at its start, accrued at the rate, or was given to `Refill`. -/
theorem tokenBucket_bounded (hrate : 0 < rate) (hcap : 0 ≤ capacity)
    (hs : Transition.Reachable TimedBucket.step
      (TimedBucket.init rate capacity) s) :
    (0 ≤ s.bucket.tokens ∧ s.bucket.tokens ≤ capacity) ∧
    (∀ n, (s.bucket.tryConsume s.now n).2 = false →
      (s.bucket.tryConsume s.now n).1.available s.now =
        s.bucket.available s.now) ∧
    ∀ acts s', (∀ a ∈ acts, a ≠ .reset) →
      Transition.run TimedBucket.step s acts = some s' →
        Transition.total TimedBucket.step TimedBucket.spent s acts ≤
            s.bucket.available s.now + rate * seconds (s'.now - s.now) +
              (acts.map BucketAction.credit).sum ∧
          Transition.total TimedBucket.step TimedBucket.spent s acts ≤
            capacity + rate * seconds (s'.now - s.now) +
              (acts.map BucketAction.credit).sum := by
  have hsound := TimedBucket.sound hrate hcap hs
  refine ⟨⟨hsound.valid.tokens_nonneg, ?_⟩, fun n hfail => ?_,
    fun acts s' hacts hrun => ?_⟩
  · rw [← hsound.capacity_eq]
    exact hsound.valid.tokens_le
  · have hgrant : s.bucket.granted s.now n = 0 := by
      rw [TokenBucket.granted, hfail]
      exact if_neg fun hand => nomatch hand.2
    rw [(hsound.valid.tryConsume n).2.1, hgrant, sub_zero]
  · have hbudget := Transition.total_add_le
      (fun _ _ _ h hstep => (h.step hstep).1)
      (fun _ _ _ h hne hstep => (h.step hstep).2 hne) hsound hacts hrun
    have hsound' := TimedBucket.sound hrate hcap (hs.run hrun)
    have hleft := hsound'.valid.available_nonneg
    have htime : seconds s'.now = seconds s.now + seconds (s'.now - s.now) := by
      rw [← seconds_add]
      congr 1
      omega
    have hfirst := s.bucket.available_le s.now
    rw [hsound.capacity_eq] at hfirst
    rw [htime, add_mul] at hbudget
    constructor
    · linarith
    · linarith

end Runs

/-- Of a bucket of three tokens that gains two in a second, one token and, a
second later, three tokens are taken; a fifth is refused. -/
def spends : List BucketAction :=
  [.tryConsume 1, .elapse 1000000000, .tryConsume 3, .tryConsume 1]

theorem run_spends :
    Transition.run TimedBucket.step
        ⟨TokenBucket.construct 2 3 0, 0⟩ spends =
      some ⟨⟨2, 3, 0, 1000000000⟩, 1000000000⟩ := by
  norm_num [spends, Transition.run, TimedBucket.step, TokenBucket.tryConsume,
    TokenBucket.refillLocked, seconds, TokenBucket.construct]

theorem tokenBucket_bounded_spends :
    Transition.total TimedBucket.step TimedBucket.spent
        ⟨TokenBucket.construct 2 3 0, 0⟩ spends ≤
      3 + 2 * seconds 1000000000 + (spends.map BucketAction.credit).sum :=
  ((tokenBucket_bounded (two_pos : (0 : ℚ) < 2) (three_pos : (0 : ℚ) < 3).le
    (.start rfl)).2.2 spends _ (by simp [spends]) run_spends).2

end Qos
end Yacul
