import Yacul.System.PopenReaping

/-!
# The descriptors of the timer pipe

`Wait` writes the cancel byte and closes the write end of the timer pipe
before it joins the timer thread; the destructor joins first.  A thread that
has timed out writes to the pipe at its end, whether or not `Wait` has closed
it.
-/

namespace Yacul
namespace PopenWrapper

/-- The timer thread does not run. -/
def TimerPc.ended : TimerPc → Bool
  | .absent | .finished => true
  | _ => false

/-- The timer thread has timed out and is going to write to its pipe. -/
def TimerPc.expired : TimerPc → Bool
  | .store | .terminate | .grace | .kill | .signal => true
  | _ => false

namespace Lifecycle

/-- No closed end of the timer pipe has been polled or written to. -/
def NoLateUse (s : State) : Prop :=
  s.lateUse = false

instance (s : State) : Decidable (NoLateUse s) := by
  unfold NoLateUse
  exact inferInstance

/-- `Wait` does not close the write end while the timer thread, having timed
out, is still going to write. -/
def ClosesInTime (s : State) : Action → Prop
  | .main _ => s.main = .closeWrite → s.run.timer.expired = false
  | .call _ | .throws | .timer _ | .child _ => True

instance (s : State) (a : Action) : Decidable (ClosesInTime s a) := by
  induction a using Action.casesOn <;> unfold ClosesInTime <;>
    exact inferInstance

/-- In `Wait`, or past the call that makes it possible. -/
def MainPc.waiting : MainPc → Bool
  | .driveIo | .waitpid | .loadTimedOut | .cancel | .closeWrite | .join
  | .closeRead => true
  | _ => false

/-- Where the owner may still poll the timer pipe. -/
def mayPoll (s : State) : Bool :=
  match s.main with
  | .idle => s.started && !s.waited
  | .startTimer _ | .runInput | .driveIo => true
  | _ => false

/-- The ends of the timer pipe are closed when nobody is going to use them. -/
structure Closing (opts : Options) (s : State) : Prop where
  fresh : s.started = false → s.timerJoinable = false
  joinable : s.timerJoinable = false → s.run.timer.ended = true
  read : s.timerRead = false → s.run.timer.ended = true
  write : s.timerWrite = false →
    s.run.timer.ended = true ∨
      s.run.timer = .poll ∧ s.run.timerByte = true
  starting : ∀ run, s.main = .startTimer run →
    s.started = true ∧ s.timerRead = decide (0 < opts.timeout) ∧
      s.timerWrite = decide (0 < opts.timeout)
  cancelled : s.main = .closeWrite → s.run.timerByte = true
  joined : s.main = .closeRead ∨ s.main = .destroyClose →
    s.timerJoinable = false
  waited : s.main.waiting = true → s.waited = true
  polled : mayPoll s = true → 0 < opts.timeout → s.timerRead = true
  lateUse : s.lateUse = false

section

variable {opts : Options} {s s' : State}

theorem Closing.fork (hs : Closing opts s) (hstarted : s.started = false)
    (run : Bool) : Closing opts (forkExec opts s run) := by
  have hjoinable := hs.fresh hstarted
  have hended := hs.joinable hjoinable
  exact
    { fresh := fun h => Bool.noConfusion h
      joinable := fun _ => hended
      read := fun _ => hended
      write := fun _ => .inl hended
      starting := fun _ _ => ⟨rfl, rfl, rfl⟩
      cancelled := fun h => MainPc.noConfusion h
      joined := fun _ => hjoinable
      waited := fun h => Bool.noConfusion h
      polled := fun _ h => decide_eq_true h
      lateUse := hs.lateUse }

/-- A step that leaves the timer and its pipe alone, but for a byte. -/
structure SamePipe (s s' : State) : Prop where
  started : s'.started = s.started
  timerJoinable : s'.timerJoinable = s.timerJoinable
  timerRead : s'.timerRead = s.timerRead
  timerWrite : s'.timerWrite = s.timerWrite
  timer : s'.run.timer = s.run.timer
  timerByte : s.run.timerByte = true → s'.run.timerByte = true
  lateUse : s'.lateUse = s.lateUse

/-- The places of the owner about which only `waited` and `polled` say
something. -/
def MainPc.plain : MainPc → Bool
  | .startTimer _ | .closeWrite | .closeRead | .destroyClose => false
  | _ => true

theorem Closing.goto (hs : Closing opts s) (h : SamePipe s s')
    (hstarting : ∀ run, s'.main ≠ .startTimer run)
    (hcancelled : s'.main = .closeWrite → s'.run.timerByte = true)
    (hjoined : s'.main = .closeRead ∨ s'.main = .destroyClose →
      s.timerJoinable = false)
    (hwaited : s'.main.waiting = true → s'.waited = true)
    (hpolled : mayPoll s' = true → mayPoll s = true) : Closing opts s' where
  fresh hfresh := h.timerJoinable.trans (hs.fresh (h.started ▸ hfresh))
  joinable hjoinable := by
    rw [h.timer]
    exact hs.joinable (h.timerJoinable ▸ hjoinable)
  read hread := by
    rw [h.timer]
    exact hs.read (h.timerRead ▸ hread)
  write hwrite := by
    rw [h.timer]
    exact (hs.write (h.timerWrite ▸ hwrite)).imp_right
      (And.imp_right h.timerByte)
  starting run hrun := absurd hrun (hstarting run)
  cancelled := hcancelled
  joined hjoin := h.timerJoinable.trans (hjoined hjoin)
  waited := hwaited
  polled hpoll htimeout := h.timerRead.trans (hs.polled (hpolled hpoll) htimeout)
  lateUse := h.lateUse.trans hs.lateUse

theorem Closing.plain (hs : Closing opts s) (h : SamePipe s s')
    (hplain : s'.main.plain = true)
    (hwaited : s'.main.waiting = true → s'.waited = true)
    (hpolled : mayPoll s' = true → mayPoll s = true) : Closing opts s' := by
  apply hs.goto h _ _ _ hwaited hpolled
  · intro run hrun
    rw [hrun] at hplain
    exact Bool.noConfusion hplain
  · intro hclose
    rw [hclose] at hplain
    exact Bool.noConfusion hplain
  · rintro (hclose | hclose) <;> rw [hclose] at hplain <;>
      exact Bool.noConfusion hplain

theorem begin_closing (hs : Closing opts s) (hmain : s.main = .idle)
    (c : Call) : Closing opts (begin opts s c) := by
  have hkill : Closing opts (kill s) :=
    ⟨hs.1, hs.2, hs.3, hs.4, hs.5, hs.6, hs.7, hs.8, hs.9, hs.10⟩
  cases c with
  | Start =>
      simp only [begin]
      split_ifs with hstarted
      · exact hs
      · exact hs.fork (Bool.eq_false_of_not_eq_true hstarted) false
  | Run =>
      simp only [begin]
      split_ifs with hstarted
      · exact hs
      · exact hs.fork (Bool.eq_false_of_not_eq_true hstarted) true
  | Wait =>
      simp only [begin]
      split_ifs with hrefused
      · exact hs
      · refine hs.plain ⟨rfl, rfl, rfl, rfl, rfl, id, rfl⟩ rfl
          (fun _ => rfl) fun _ => ?_
        rw [Bool.or_eq_true, not_or] at hrefused
        simp only [mayPoll, hmain]
        simpa using hrefused
  | Terminate | Kill =>
      simp only [begin]
      split_ifs
      · exact hkill
      · exact hs
  | destroy =>
      simp only [begin]
      split_ifs
      · exact hkill.plain ⟨rfl, rfl, rfl, rfl, rfl, id, rfl⟩ rfl
          (fun h => Bool.noConfusion h) fun h => Bool.noConfusion h
      · exact hs.plain ⟨rfl, rfl, rfl, rfl, rfl, id, rfl⟩ rfl
          (fun h => Bool.noConfusion h) fun h => Bool.noConfusion h

/-- What the poll loop uses is open. -/
theorem Closing.pollTimer (hs : Closing opts s)
    (hmain : s.main = .driveIo) :
    SamePipe s (pollTimer opts (abortKill s)) := by
  have hopen := hs.polled (by rw [mayPoll, hmain])
  have habort : SamePipe s (abortKill s) := by
    unfold abortKill
    split
    · split_ifs <;> exact ⟨rfl, rfl, rfl, rfl, rfl, id, rfl⟩
    · exact ⟨rfl, rfl, rfl, rfl, rfl, id, rfl⟩
  refine ⟨habort.1, habort.2, habort.3, habort.4, habort.5, habort.6, ?_⟩
  simp only [Lifecycle.pollTimer, habort.lateUse, habort.timerRead]
  by_cases htimeout : 0 < opts.timeout
  · simp [hopen htimeout]
  · simp [htimeout]

theorem Closing.startTimer (hs : Closing opts s) {run : Bool}
    (hmain : s.main = .startTimer run) :
    Closing opts
      { s with
        run :=
          { s.run with timer := if 0 < opts.timeout then .poll else .absent }
        timerJoinable := 0 < opts.timeout
        main := if run then .runInput else .idle } := by
  obtain ⟨hstarted, hread, hwrite⟩ := hs.starting run hmain
  have hended : decide (0 < opts.timeout) = false →
      (if 0 < opts.timeout then TimerPc.poll else .absent).ended = true := by
    intro htimeout
    rw [if_neg (of_decide_eq_false htimeout)]
    rfl
  refine
    { fresh := fun h => Bool.noConfusion (hstarted.symm.trans h)
      joinable := hended
      read := fun h => hended (hread ▸ h)
      write := fun h => .inl (hended (hwrite ▸ h))
      starting := fun run' h => ?_
      cancelled := fun h => ?_
      joined := fun h => ?_
      waited := fun h => ?_
      polled := fun _ htimeout => hread.trans (decide_eq_true htimeout)
      lateUse := hs.lateUse }
  · cases run <;> exact MainPc.noConfusion h
  · cases run <;> exact MainPc.noConfusion h
  · cases run <;> rcases h with h | h <;> exact MainPc.noConfusion h
  · cases run <;> exact Bool.noConfusion h

/-- The owner joins a timer thread that has finished. -/
theorem Closing.joins (hs : Closing opts s)
    (hfinished : s.run.timer = .finished) {main : MainPc}
    (hmain : main = .closeRead ∨ main = .destroyClose)
    (hwaited : main.waiting = true → s.waited = true) :
    Closing opts { s with timerJoinable := false, main := main } where
  fresh _ := rfl
  joinable _ := by
    dsimp only
    rw [hfinished]
    rfl
  read := hs.read
  write := hs.write
  starting run h := by rcases hmain with rfl | rfl <;> exact MainPc.noConfusion h
  cancelled h := by rcases hmain with rfl | rfl <;> exact MainPc.noConfusion h
  joined _ := rfl
  waited := hwaited
  polled h := by rcases hmain with rfl | rfl <;> exact Bool.noConfusion h
  lateUse := hs.lateUse

/-- Without doing anything the owner passes the join only of a thread that
is not joinable. -/
theorem Closing.goes (hs : Closing opts s) {next : MainPc}
    (h : Goes s next) : Closing opts { s with main := next } := by
  have hwaited := hs.waited
  cases h with
  | noChild hmain | toCancel hmain | toJoin hmain =>
      rw [hmain] at hwaited
      exact hs.plain ⟨rfl, rfl, rfl, rfl, rfl, id, rfl⟩ rfl
        (fun _ => hwaited rfl) fun h => Bool.noConfusion h
  | toDestroyJoin =>
      exact hs.plain ⟨rfl, rfl, rfl, rfl, rfl, id, rfl⟩ rfl
        (fun h => Bool.noConfusion h) fun h => Bool.noConfusion h
  | toCloseRead hmain hjoinable =>
      rw [hmain] at hwaited
      exact hs.goto ⟨rfl, rfl, rfl, rfl, rfl, id, rfl⟩
        (fun run h => MainPc.noConfusion h) (fun h => MainPc.noConfusion h)
        (fun _ => hjoinable) (fun _ => hwaited rfl)
        fun h => Bool.noConfusion h
  | toDestroyClose hmain hjoinable =>
      exact hs.goto ⟨rfl, rfl, rfl, rfl, rfl, id, rfl⟩
        (fun run h => MainPc.noConfusion h) (fun h => MainPc.noConfusion h)
        (fun _ => hjoinable) (fun h => Bool.noConfusion h)
        fun h => Bool.noConfusion h

/-- The write end is closed while the timer thread is not going to write. -/
theorem Closing.closesWrite (hs : Closing opts s)
    (hmain : s.main = .closeWrite) (hexpired : s.run.timer.expired = false) :
    Closing opts { s with timerWrite := false, main := .join } where
  fresh := hs.fresh
  joinable := hs.joinable
  read := hs.read
  write _ := by
    dsimp only
    cases htimer : s.run.timer with
    | poll => exact .inr ⟨rfl, hs.cancelled hmain⟩
    | absent | finished => exact .inl rfl
    | store | terminate | grace | kill | signal =>
        rw [htimer] at hexpired
        exact Bool.noConfusion hexpired
  starting run h := MainPc.noConfusion h
  cancelled h := MainPc.noConfusion h
  joined h := by rcases h with h | h <;> exact MainPc.noConfusion h
  waited _ := hs.waited (by rw [hmain]; rfl)
  polled h := Bool.noConfusion h
  lateUse := hs.lateUse

theorem mainStep_closing (hs : Closing opts s) {ch : Choice}
    (htime : s.main = .closeWrite → s.run.timer.expired = false)
    (h : mainStep opts s ch = some s') : Closing opts s' := by
  have hwaited := hs.waited
  cases mainStep_effect h with
  | startsTimer hmain => exact hs.startTimer hmain
  | writes hmain hsame =>
      refine hs.plain ⟨rfl, rfl, rfl, rfl, hsame.timer,
        hsame.timerByte.trans, rfl⟩ rfl (fun h => Bool.noConfusion h) ?_
      exact fun _ => by rw [mayPoll, hmain]
  | waits hmain hsame =>
      refine hs.plain ⟨rfl, rfl, rfl, rfl, hsame.timer,
        hsame.timerByte.trans, rfl⟩ rfl (fun _ => rfl) ?_
      exact fun _ => by rw [mayPoll, hmain]
  | drives hmain hsame hnext =>
      have huse := hs.pollTimer hmain
      have hwait := (main_pollTimer opts s).2
      rw [hmain] at hwaited
      refine hs.plain ⟨huse.1, huse.2, huse.3, huse.4, hsame.timer,
        hsame.timerByte.trans, huse.7⟩ ?_ (fun _ => hwait.trans (hwaited rfl))
        fun _ => by rw [mayPoll, hmain]
      rcases hnext with rfl | rfl <;> rfl
  | reaps hmain =>
      rw [hmain] at hwaited
      exact hs.plain ⟨rfl, rfl, rfl, rfl, rfl, id, rfl⟩ rfl
        (fun _ => hwaited rfl) fun h => Bool.noConfusion h
  | destroyReaps =>
      exact hs.plain ⟨rfl, rfl, rfl, rfl, rfl, id, rfl⟩ rfl
        (fun h => Bool.noConfusion h) fun h => Bool.noConfusion h
  | goes hgoes => exact hs.goes hgoes
  | cancels hcancels =>
      generalize hmain : s.main = main at hcancels
      cases hcancels with
      | wait =>
          rw [hmain] at hwaited
          refine hs.goto ⟨rfl, rfl, rfl, rfl, rfl, fun _ => rfl, rfl⟩
            (fun run h => MainPc.noConfusion h) (fun _ => rfl) ?_
            (fun _ => hwaited rfl) fun h => Bool.noConfusion h
          rintro (h | h) <;> exact MainPc.noConfusion h
      | destroy =>
          exact hs.plain ⟨rfl, rfl, rfl, rfl, rfl, fun _ => rfl, rfl⟩ rfl
            (fun h => Bool.noConfusion h) fun h => Bool.noConfusion h
  | closesWrite hmain => exact hs.closesWrite hmain (htime hmain)
  | joins hjoins hfinished =>
      generalize hmain : s.main = main at hjoins
      cases hjoins with
      | wait =>
          rw [hmain] at hwaited
          exact hs.joins hfinished (.inl rfl) fun _ => hwaited rfl
      | destroy =>
          exact hs.joins hfinished (.inr rfl) fun h => Bool.noConfusion h
  | closesRead hmain =>
      rw [hmain] at hwaited
      have hended := hs.joinable (hs.joined (.inl hmain))
      exact
        { fresh := hs.fresh
          joinable := hs.joinable
          read := fun _ => hended
          write := hs.write
          starting := fun run h => MainPc.noConfusion h
          cancelled := fun h => MainPc.noConfusion h
          joined := fun _ => hs.joined (.inl hmain)
          waited := fun h => Bool.noConfusion h
          polled := fun h => by simp [mayPoll, hwaited rfl] at h
          lateUse := hs.lateUse }
  | closesBoth hmain =>
      have hended := hs.joinable (hs.joined (.inr hmain))
      exact
        { fresh := hs.fresh
          joinable := hs.joinable
          read := fun _ => hended
          write := fun _ => .inl hended
          starting := fun run h => MainPc.noConfusion h
          cancelled := fun h => MainPc.noConfusion h
          joined := fun _ => hs.joined (.inr hmain)
          waited := fun h => Bool.noConfusion h
          polled := fun h => Bool.noConfusion h
          lateUse := hs.lateUse }

/-- The timer thread finds its pipe open. -/
theorem Closing.timerEffect (hs : Closing opts s)
    {interrupted : Bool} {r : PopenWrapper.State}
    (h : timerStep opts s.run interrupted = some r) :
    (timerEffect s).lateUse = false := by
  have hread : s.run.timer.ended = false → s.timerRead = true := by
    intro hrunning
    by_contra hclosed
    have hended := hs.read (Bool.eq_false_of_not_eq_true hclosed)
    rw [hrunning] at hended
    exact Bool.noConfusion hended
  cases htimer : s.run.timer with
  | absent | finished => simp [timerStep, htimer] at h
  | store | terminate | kill =>
      simpa [Lifecycle.timerEffect, htimer, kill] using hs.lateUse
  | poll | grace =>
      simp [Lifecycle.timerEffect, htimer, hs.lateUse,
        hread (by rw [htimer]; rfl)]
  | signal =>
      have hwrite : s.timerWrite = true := by
        by_contra hclosed
        rcases hs.write (Bool.eq_false_of_not_eq_true hclosed) with
          hended | ⟨hpoll, -⟩
        · rw [htimer] at hended
          exact Bool.noConfusion hended
        · rw [htimer] at hpoll
          exact TimerPc.noConfusion hpoll
      simp [Lifecycle.timerEffect, htimer, hs.lateUse, hwrite]

/-- Where the owner is and what it holds. -/
structure SameOwner (s s' : State) : Prop where
  main : s'.main = s.main
  started : s'.started = s.started
  waited : s'.waited = s.waited
  timerJoinable : s'.timerJoinable = s.timerJoinable
  timerRead : s'.timerRead = s.timerRead
  timerWrite : s'.timerWrite = s.timerWrite

theorem timerStep_closing (hs : Closing opts s) {interrupted : Bool}
    {r : PopenWrapper.State}
    (h : timerStep opts s.run interrupted = some r) :
    Closing opts { timerEffect s with run := r } := by
  have huse := hs.timerEffect h
  have hrunning : s.run.timer.ended = false := by
    cases htimer : s.run.timer with
    | absent | finished => simp [timerStep, htimer] at h
    | poll | store | terminate | grace | kill | signal => rfl
  have hrun : ∀ {P : Prop}, s.run.timer.ended = true → P := by
    intro P hended
    rw [hrunning] at hended
    exact Bool.noConfusion hended
  have hsame : SameOwner s (timerEffect s) := by
    unfold Lifecycle.timerEffect
    split <;> exact ⟨rfl, rfl, rfl, rfl, rfl, rfl⟩
  have hbyte : s.run.timerByte = true → r.timerByte = true := by
    intro hbyte
    unfold timerStep at h
    split at h <;> cases h <;> first | exact hbyte | rfl
  refine
    { fresh := fun h => hsame.timerJoinable.trans (hs.fresh (hsame.started ▸ h))
      joinable := fun h => hrun (hs.joinable (hsame.timerJoinable ▸ h))
      read := fun h => hrun (hs.read (hsame.timerRead ▸ h))
      write := fun hclosed => ?_
      starting := ?_
      cancelled := fun h => hbyte (hs.cancelled (hsame.main ▸ h))
      joined := fun h => hsame.timerJoinable.trans (hs.joined (hsame.main ▸ h))
      waited := fun h => hsame.waited.trans (hs.waited (hsame.main ▸ h))
      polled := ?_
      lateUse := huse }
  · rcases hs.write (hsame.timerWrite ▸ hclosed) with hended | ⟨hpoll, hset⟩
    · exact hrun hended
    · simp only [timerStep, hpoll, Option.some.injEq] at h
      subst h
      simp [hset, TimerPc.ended]
  · simpa only [hsame.main, hsame.started, hsame.timerRead, hsame.timerWrite]
      using hs.starting
  · simpa only [mayPoll, hsame.main, hsame.started, hsame.waited,
      hsame.timerRead] using hs.polled

theorem step_closing {a : Action} (hs : Closing opts s)
    (htime : ClosesInTime s a) (h : step opts s a = some s') :
    Closing opts s' := by
  cases a with
  | call c =>
      simp only [step] at h
      split_ifs at h with hmain
      obtain rfl := Option.some.inj h
      exact begin_closing hs hmain c
  | main ch => exact mainStep_closing hs htime h
  | throws =>
      simp only [step] at h
      split_ifs at h with hmain
      obtain rfl := Option.some.inj h
      have hwaited := hs.waited (by rw [hmain.1]; rfl)
      refine hs.plain ⟨rfl, rfl, rfl, rfl, rfl, id, rfl⟩ rfl
        (fun h => Bool.noConfusion h) fun h => ?_
      simp [mayPoll, hwaited] at h
  | timer interrupted =>
      obtain ⟨r, hr, rfl⟩ := Option.map_eq_some_iff.mp h
      exact timerStep_closing hs hr
  | child m =>
      simp only [step] at h
      split_ifs at h
      obtain ⟨r, hr, rfl⟩ := Option.map_eq_some_iff.mp h
      have hsame := childStep_sameTimer hr
      exact
        { fresh := hs.fresh
          joinable := by simpa only [hsame.timer] using hs.joinable
          read := by simpa only [hsame.timer] using hs.read
          write := by
            simpa only [hsame.timer, hsame.timerByte] using hs.write
          starting := hs.starting
          cancelled := by simpa only [hsame.timerByte] using hs.cancelled
          joined := hs.joined
          waited := hs.waited
          polled := hs.polled
          lateUse := hs.lateUse }

theorem closing_initial (opts : Options) (caps : Capacities) :
    Closing opts (initial opts caps) where
  fresh _ := rfl
  joinable _ := rfl
  read _ := rfl
  write _ := .inl rfl
  starting _ h := MainPc.noConfusion h
  cancelled h := MainPc.noConfusion h
  joined _ := rfl
  waited h := Bool.noConfusion h
  polled h := Bool.noConfusion h
  lateUse := rfl

/-- As long as `Wait` does not close the write end before a timer thread that
has timed out has written to it, no closed end is used. -/
theorem reachable_noLateUse (opts : Options) (caps : Capacities)
    (hs : Reachable opts caps ClosesInTime s) : NoLateUse s := by
  have hclosing : Closing opts s := by
    refine hs.invariant ?_ fun s a s' hI htime h => step_closing hI htime h
    intro s hinit
    obtain rfl := Set.mem_singleton_iff.mp hinit
    exact closing_initial opts caps
  exact hclosing.lateUse

end

theorem reachable_noLateUse_reapsInTime :
    NoLateUse ((Transition.run (step reads) (initial reads usualCapacities)
      reapsInTime).get reapsInTime_isSome) := by
  have hstart : Reachable reads usualCapacities ClosesInTime
      (initial reads usualCapacities) := .start (Set.mem_singleton _)
  have hall : Transition.AllSteps (step reads) ClosesInTime
      (initial reads usualCapacities) reapsInTime := by
    decide
  exact reachable_noLateUse reads usualCapacities
    (hstart.run hall (Option.some_get reapsInTime_isSome).symm)

/-- The timer has expired; `Wait` closes the write end, and the thread, woken
by the cancel byte, writes to it. -/
def closesBeforeSignal : List Action :=
  runsToWait ++
    [Action.timer false, Action.timer false, Action.timer false] ++ moves 4 ++
    [Action.timer false, Action.timer false]

theorem closesBeforeSignal_isSome :
    (Transition.run (step reads) (initial reads usualCapacities)
      closesBeforeSignal).isSome = true := by
  decide

/-- The timer thread writes to a closed descriptor. -/
theorem exists_lateUse :
    ¬ ∀ (opts : Options) (caps : Capacities) (s : State),
      Reachable opts caps (fun _ _ => True) s → NoLateUse s := by
  intro hall
  have hreach : Reachable reads usualCapacities (fun _ _ => True) _ :=
    Transition.reachable_get_run (Set.mem_singleton _)
      closesBeforeSignal_isSome
  have hlate := hall reads usualCapacities _ hreach
  exact absurd hlate (by decide)

end Lifecycle
end PopenWrapper
end Yacul
