import Mathlib.Data.List.Basic

/-!
# Sequential readers

A reader of a list stands at a position.  It is asked to read the next
elements, to skip them, or to start again; at the end of the list it reads
what is left.  An implementation is a partial step function on states of its
own; if every request keeps a relation between its state and the position and
is answered as the reader answers it, so is every sequence of requests.
-/

namespace Yacul

/-- What a reader is asked for. -/
inductive ReadRequest
  | read (n : ℕ)
  | skip (n : ℕ)
  | reset
deriving DecidableEq, Repr

namespace ReadRequest

variable {α σ : Type*}

/-- The position afterwards, and what is read. -/
def serve (whole : List α) (pos : ℕ) : ReadRequest → ℕ × List α
  | .read n => (min (pos + n) whole.length, (whole.drop pos).take n)
  | .skip n => (min (pos + n) whole.length, [])
  | .reset => (0, [])

/-- The position after a sequence of requests, and what each of them reads. -/
def serveAll (whole : List α) : ℕ → List ReadRequest → ℕ × List (List α)
  | pos, [] => (pos, [])
  | pos, r :: rs =>
      let served := serveAll whole (r.serve whole pos).1 rs
      (served.1, (r.serve whole pos).2 :: served.2)

/-- The requests are given to an implementation one after the other. -/
def runAll (step : σ → ReadRequest → Option (σ × List α)) :
    σ → List ReadRequest → Option (σ × List (List α))
  | s, [] => some (s, [])
  | s, r :: rs => do
      let (s, out) ← step s r
      let (s, outs) ← runAll step s rs
      some (s, out :: outs)

/-- What is left after `n` more elements. -/
theorem drop_min (whole : List α) (pos n : ℕ) :
    whole.drop (min (pos + n) whole.length) = (whole.drop pos).drop n := by
  rw [List.drop_drop]
  rcases Nat.le_total (pos + n) whole.length with hle | hle
  · rw [Nat.min_eq_left hle]
  · rw [Nat.min_eq_right hle, List.drop_length, List.drop_of_length_le hle]

/-- An implementation that serves each request serves every sequence. -/
theorem runAll_eq_serveAll {step : σ → ReadRequest → Option (σ × List α)}
    {whole : List α} {R : σ → ℕ → Prop}
    (hstep : ∀ s pos r, R s pos →
      ∃ s', step s r = some (s', (r.serve whole pos).2) ∧
        R s' (r.serve whole pos).1)
    {s : σ} {pos : ℕ} (h : R s pos) (rs : List ReadRequest) :
    ∃ s', runAll step s rs = some (s', (serveAll whole pos rs).2) ∧
      R s' (serveAll whole pos rs).1 := by
  induction rs generalizing s pos with
  | nil => exact ⟨s, rfl, h⟩
  | cons r rs ih =>
      obtain ⟨s₁, hs₁, h₁⟩ := hstep s pos r h
      obtain ⟨s₂, hs₂, h₂⟩ := ih h₁
      exact ⟨s₂, by simp [runAll, hs₁, hs₂, serveAll], h₂⟩

end ReadRequest

end Yacul
