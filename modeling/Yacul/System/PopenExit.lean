import Yacul.System.PopenStreams
import Mathlib.Data.Int.Basic

/-!
# The exit status of the child

`WaitpidWithTimeout` asks for the status without blocking until the child has
exited, and at last with a `waitpid` that blocks.  A sequence of answers is
what the calls of `waitpid` return, one after the other.
-/

namespace Yacul
namespace PopenWrapper

/-! ## Results -/

/-- `Result`, without the time that has elapsed. -/
structure Result where
  stdoutData : List UInt8 := []
  stderrData : List UInt8 := []
  rawExitStatus : Int32 := -1
  exitedNormally : Bool := false
  exitCode : Int32 := -1
  killedBySignal : Bool := false
  signalNumber : Int32 := -1
  timedOut : Bool := false
  outputTruncated : Bool := false
deriving DecidableEq, Repr

/-- `Result::Success`. -/
def Result.success (r : Result) : Bool :=
  r.exitedNormally && r.exitCode = 0

/-- The result after `DriveIO`. -/
def Streams.State.result (s : Streams.State) : Result where
  stdoutData := s.stdout.data
  stderrData := s.stderr.data
  outputTruncated := s.outputTruncated

/-! ## Wait statuses -/

/-- `WTERMSIG`. -/
def wtermsig (status : Int32) : Int32 :=
  status &&& 0x7f

/-- `WIFEXITED`. -/
def wifexited (status : Int32) : Bool :=
  wtermsig status = 0

/-- `WEXITSTATUS`. -/
def wexitstatus (status : Int32) : Int32 :=
  (status &&& 0xff00) >>> 8

/-- `WIFSIGNALED`. -/
def wifsignaled (status : Int32) : Bool :=
  (0 : Int8) < (wtermsig status + 1).toInt8 >>> 1

/-- What `WaitpidWithTimeout` does with the status. -/
def Result.decode (r : Result) (status : Int32) : Result :=
  let r := { r with rawExitStatus := status }
  if wifexited status then
    { r with exitedNormally := true, exitCode := wexitstatus status }
  else if wifsignaled status then
    { r with killedBySignal := true, signalNumber := wtermsig status }
  else r

/-! ## Waiting -/

/-- What `waitpid` answers: the status of the child, that it is still running,
`EINTR`, or another error. -/
inductive WaitAnswer
  | status (status : Int32)
  | running
  | interrupted
  | error
deriving DecidableEq, Repr

/-- The return value of `waitpid`, the variable `status`, and the answers that
are left. -/
structure Waited where
  ret : ℤ
  status : Int32
  answers : List WaitAnswer
deriving DecidableEq, Repr

/-- `waitpid`, called again while a signal interrupts it.  While the child is
running it returns 0 with `WNOHANG` and does not return otherwise. -/
def waitpid (childPid : ℤ) (nohang : Bool) (status : Int32) :
    List WaitAnswer → Option Waited
  | [] => none
  | .status st :: answers => some ⟨childPid, st, answers⟩
  | .running :: answers =>
      if nohang then some ⟨0, status, answers⟩
      else waitpid childPid nohang status answers
  | .interrupted :: answers => waitpid childPid nohang status answers
  | .error :: answers => some ⟨-1, status, answers⟩

/-- `max_iterations`, with both times in milliseconds. -/
def maxIterations (timeout killGracePeriod : ℤ) : ℤ :=
  if 0 < timeout then
    ((timeout + killGracePeriod + 1000).tdiv 10).bmod (2 ^ 32)
  else 2 ^ 31 - 1

/-- The loop of `waitpid` with `WNOHANG`. -/
def waitNohang (childPid : ℤ) : ℕ → Waited → Option Waited
  | 0, w => some w
  | i + 1, w => do
      let w ← waitpid childPid true w.status w.answers
      if w.ret = childPid ∨ w.ret = -1 then some w
      else waitNohang childPid i w

/-- The last `waitpid`, which blocks. -/
def waitBlocking (childPid : ℤ) (w : Waited) : Option Waited :=
  if w.ret ≠ childPid then waitpid childPid false w.status w.answers
  else some w

/-- `WaitpidWithTimeout`, with the answers that are left. -/
def waitpidWithTimeout (timeout killGracePeriod childPid : ℤ) (r : Result)
    (answers : List WaitAnswer) : Option (Result × List WaitAnswer) :=
  if childPid ≤ 0 then some (r, answers)
  else do
    let w ← waitNohang childPid (maxIterations timeout killGracePeriod).toNat
      ⟨-1, 0, answers⟩
    let w ← waitBlocking childPid w
    some (r.decode w.status, w.answers)

/-! ## Where the status comes from -/

/-- The fields of an exit come from a status that `waitpid` has stored, and
without one neither field is set. -/
structure ExitIsReal (answers : List WaitAnswer) (r : Result) : Prop where
  exited : r.exitedNormally = true →
    ∃ st, WaitAnswer.status st ∈ answers ∧ wifexited st = true ∧
      r.exitCode = wexitstatus st
  killed : r.killedBySignal = true →
    ∃ st, WaitAnswer.status st ∈ answers ∧ wifsignaled st = true ∧
      r.signalNumber = wtermsig st
  absent : (∀ st, WaitAnswer.status st ∉ answers) →
    r.exitedNormally = false ∧ r.killedBySignal = false ∧ r.success = false

/-- Between `w` and `w'` some answers have been used.  If the pid has been
returned the last of them was a status, which has been stored; otherwise none
was and the variable is as it was. -/
def Uses (childPid : ℤ) (w w' : Waited) : Prop :=
  ∃ used, w.answers = used ++ w'.answers ∧
    if w'.ret = childPid then WaitAnswer.status w'.status ∈ used
    else w'.status = w.status ∧ ∀ st, WaitAnswer.status st ∉ used

section

variable {childPid : ℤ} {w w' w'' : Waited}

theorem Uses.trans (hret : w'.ret ≠ childPid) (h : Uses childPid w w')
    (h' : Uses childPid w' w'') : Uses childPid w w'' := by
  obtain ⟨used, hused, hleft⟩ := h
  obtain ⟨used', hused', hleft'⟩ := h'
  rw [if_neg hret] at hleft
  refine ⟨used ++ used', by rw [hused, hused', List.append_assoc], ?_⟩
  split_ifs at hleft' ⊢ with hret'
  · exact List.mem_append_right used hleft'
  · refine ⟨hleft'.1.trans hleft.1, fun st hst => ?_⟩
    rcases List.mem_append.mp hst with hst | hst
    · exact hleft.2 st hst
    · exact hleft'.2 st hst

/-- An answer that is not a status has been used. -/
theorem Uses.skip {ret : ℤ} {status : Int32} {ans : WaitAnswer}
    {answers : List WaitAnswer} (hans : ∀ st, ans ≠ .status st)
    (h : Uses childPid ⟨ret, status, answers⟩ w') :
    Uses childPid ⟨ret, status, ans :: answers⟩ w' := by
  obtain ⟨used, hused, hleft⟩ := h
  refine ⟨ans :: used, congrArg (ans :: ·) hused, ?_⟩
  split_ifs at hleft ⊢ with hret
  · exact List.mem_cons_of_mem ans hleft
  · refine ⟨hleft.1, fun st hst => ?_⟩
    rcases List.mem_cons.mp hst with hst | hst
    · exact hans st hst.symm
    · exact hleft.2 st hst

theorem waitpid_uses (hpid : 0 < childPid) {nohang : Bool} {ret : ℤ}
    {status : Int32} {answers : List WaitAnswer}
    (h : waitpid childPid nohang status answers = some w') :
    Uses childPid ⟨ret, status, answers⟩ w' := by
  induction answers with
  | nil => cases h
  | cons ans answers ih =>
      cases ans with
      | status st =>
          obtain rfl := Option.some.inj h
          exact ⟨[.status st], rfl, by simp⟩
      | running =>
          cases nohang with
          | false => exact (ih h).skip (by simp)
          | true =>
              obtain rfl := Option.some.inj h
              have hne : (0 : ℤ) ≠ childPid := by omega
              exact ⟨[.running], rfl, by simp [hne]⟩
      | interrupted => exact (ih h).skip (by simp)
      | error =>
          obtain rfl := Option.some.inj h
          have hne : (-1 : ℤ) ≠ childPid := by omega
          exact ⟨[.error], rfl, by simp [hne]⟩

theorem waitNohang_uses (hpid : 0 < childPid) {i : ℕ}
    (hret : w.ret ≠ childPid) (h : waitNohang childPid i w = some w') :
    Uses childPid w w' := by
  induction i generalizing w with
  | zero =>
      obtain rfl := Option.some.inj h
      exact ⟨[], rfl, by simp [hret]⟩
  | succ i ih =>
      obtain ⟨w₁, hw₁, hrest⟩ := Option.bind_eq_some_iff.mp h
      have huses : Uses childPid w w₁ := waitpid_uses hpid hw₁
      split_ifs at hrest with hbreak
      · obtain rfl := Option.some.inj hrest
        exact huses
      · have hret₁ : w₁.ret ≠ childPid := fun h => hbreak (.inl h)
        exact huses.trans hret₁ (ih hret₁ hrest)

/-- The status that is decoded is the one that has been stored, or else the
initial 0. -/
theorem waitpidWithTimeout_decodes {timeout killGracePeriod : ℤ}
    {r r' : Result} {answers rest : List WaitAnswer} (hpid : 0 < childPid)
    (h : waitpidWithTimeout timeout killGracePeriod childPid r answers =
      some (r', rest)) :
    ∃ used status, answers = used ++ rest ∧ r' = r.decode status ∧
      (WaitAnswer.status status ∈ used ∨
        status = 0 ∧ ∀ st, WaitAnswer.status st ∉ used) := by
  rw [waitpidWithTimeout, if_neg (not_le.mpr hpid)] at h
  obtain ⟨w₁, hw₁, h⟩ := Option.bind_eq_some_iff.mp h
  obtain ⟨w₂, hw₂, h⟩ := Option.bind_eq_some_iff.mp h
  obtain ⟨rfl, rfl⟩ := Prod.mk.inj (Option.some.inj h)
  have hret : (⟨-1, 0, answers⟩ : Waited).ret ≠ childPid := by
    change (-1 : ℤ) ≠ childPid
    omega
  have huses : Uses childPid ⟨-1, 0, answers⟩ w₂ := by
    have hloop := waitNohang_uses hpid hret hw₁
    rw [waitBlocking] at hw₂
    split_ifs at hw₂ with hret₁
    · exact hloop.trans hret₁ (waitpid_uses hpid hw₂)
    · obtain rfl := Option.some.inj hw₂
      exact hloop
  obtain ⟨used, hused, hleft⟩ := huses
  refine ⟨used, w₂.status, hused, rfl, ?_⟩
  split_ifs at hleft with hret₂
  · exact .inl hleft
  · exact .inr hleft

theorem decode_exitIsReal {s : Streams.State} {status : Int32}
    {answers : List WaitAnswer} (hst : WaitAnswer.status status ∈ answers) :
    ExitIsReal answers (s.result.decode status) where
  exited h := by
    refine ⟨status, hst, ?_⟩
    unfold Result.decode at h ⊢
    split_ifs at h ⊢ with hexited hsignaled
    · exact ⟨hexited, rfl⟩
    · cases h
    · cases h
  killed h := by
    refine ⟨status, hst, ?_⟩
    unfold Result.decode at h ⊢
    split_ifs at h ⊢ with hexited hsignaled
    · cases h
    · exact ⟨hsignaled, rfl⟩
    · cases h
  absent h := absurd hst (h status)

/-- The result of a call that `waitpid` has answered so is real exactly if there
is no child or `waitpid` has stored a status. -/
theorem waitpidWithTimeout_exitIsReal_iff {timeout killGracePeriod : ℤ}
    {s : Streams.State} {r : Result} {answers : List WaitAnswer}
    (h : waitpidWithTimeout timeout killGracePeriod s.childPid s.result
      answers = some (r, [])) :
    ExitIsReal answers r ↔
      s.childPid ≤ 0 ∨ ∃ st, WaitAnswer.status st ∈ answers := by
  by_cases hpid : s.childPid ≤ 0
  · rw [waitpidWithTimeout, if_pos hpid] at h
    obtain ⟨rfl, rfl⟩ := Prod.mk.inj (Option.some.inj h)
    refine ⟨fun _ => .inl hpid, fun _ => ⟨fun h => ?_, fun h => ?_, fun _ => ?_⟩⟩
    · cases h
    · cases h
    · exact ⟨rfl, rfl, rfl⟩
  · obtain ⟨used, status, hused, rfl, hstatus⟩ :=
      waitpidWithTimeout_decodes (not_le.mp hpid) h
    rw [List.append_nil] at hused
    subst hused
    rcases hstatus with hstatus | ⟨rfl, habsent⟩
    · exact ⟨fun _ => .inr ⟨status, hstatus⟩, fun _ => decode_exitIsReal hstatus⟩
    · constructor
      · intro hreal
        have hexited : (s.result.decode 0).exitedNormally = true := rfl
        rw [(hreal.absent habsent).1] at hexited
        exact Bool.noConfusion hexited
      · rintro (hle | ⟨st, hst⟩)
        · exact absurd hle hpid
        · exact absurd hst (habsent st)

end

/-- The state of a `Run` that has nothing to read or to write. -/
def writesNothing : Streams.State where
  pc := .done
  stdout := { written := [], taken := 0, isOpen := false, data := [] }
  stderr := { written := [], taken := 0, isOpen := false, data := [] }
  stdinOpen := false
  stdinOffset := 0
  delivered := []
  outputTruncated := false
  timedOut := false
  childPid := 42
  terminated := []

theorem reachable_writesNothing :
    Transition.Reachable (Streams.step { mode := .kWriteOnly })
      {Streams.init { mode := .kWriteOnly } 42} writesNothing := by
  have hrun : Transition.run (Streams.step { mode := .kWriteOnly })
      (Streams.init { mode := .kWriteOnly } 42)
      (List.replicate 4 (Streams.Action.parent {})) = some writesNothing := rfl
  have hinit : Transition.Reachable (Streams.step { mode := .kWriteOnly })
      {Streams.init { mode := .kWriteOnly } 42}
      (Streams.init { mode := .kWriteOnly } 42) := .start rfl
  exact hinit.run hrun

/-- The child runs at first and then exits with code 3. -/
theorem waitpidWithTimeout_exitIsReal_iff_exited :
    ExitIsReal [.running, .interrupted, .status 0x300]
        (writesNothing.result.decode 0x300) ↔
      writesNothing.childPid ≤ 0 ∨
        ∃ st, WaitAnswer.status st ∈
          [WaitAnswer.running, .interrupted, .status 0x300] := by
  have hwait : waitpidWithTimeout 100 3000 writesNothing.childPid
      writesNothing.result [.running, .interrupted, .status 0x300] =
        some (writesNothing.result.decode 0x300, []) := rfl
  exact waitpidWithTimeout_exitIsReal_iff hwait

/-- When the child is lost, as when `SIGCHLD` is ignored, both calls of
`waitpid` fail, and the result is a success. -/
theorem exists_unrealExit :
    ∃ s answers r,
      Transition.Reachable (Streams.step { mode := .kWriteOnly })
        {Streams.init { mode := .kWriteOnly } 42} s ∧
      waitpidWithTimeout 0 3000 s.childPid s.result answers = some (r, []) ∧
      r.success = true ∧ ¬ ExitIsReal answers r := by
  refine ⟨writesNothing, [.error, .error], writesNothing.result.decode 0,
    reachable_writesNothing, rfl, rfl, fun h => ?_⟩
  have hsuccess := (h.absent (by simp)).2.2
  exact Bool.noConfusion hsuccess

end PopenWrapper
end Yacul
