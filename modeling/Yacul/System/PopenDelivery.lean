import Yacul.System.PopenStreams
import Yacul.Support.Transition
import Mathlib.Algebra.Group.Nat.Defs
import Mathlib.Data.Set.Insert

/-!
# What the child gets on its stdin

In `kReadWrite` mode `DriveIO` goes on after a short `write` with the bytes
that are left.  In `kWriteOnly` mode `WriteStdin` makes one `write`, `Run` does
not look at its result, and closes stdin.
-/

namespace Yacul
namespace PopenWrapper
namespace Streams

/-- The child's stdin has been given its data in order, and all of it when it
has been closed or `DriveIO` is over. -/
structure Delivers (opts : Options) (s : State) : Prop where
  inOrder : s.delivered <+: opts.stdinData
  all : s.stdinOpen = false ∨ s.pc = .done → s.delivered = opts.stdinData

/-- A `write` to a child that keeps reading. -/
def WriteAnswer.Proceeds : WriteAnswer → Prop
  | .bytes n => 0 < n
  | .interrupted => True
  | .error => False

/-- A `read` that succeeds, to a callback that accepts or within the limit. -/
def Answer.Proceeds (opts : Options) (s : State) (o : Output)
    (ans : Answer) : Prop :=
  match ans.read with
  | .bytes n =>
      if opts.callback o then ans.accepts = true
      else
        0 < opts.maxOutputBytes →
          (s.source o).data.length + n ≤ opts.maxOutputBytes
  | .nothing | .interrupted => True
  | .error => False

/-- The timer has not expired, and stdin is not reported as closed. -/
def PollAnswer.Proceeds (pfds : List Fd) : PollAnswer → Prop
  | .ready revents =>
      ∀ fd ∈ pfds, (revents fd).any = true →
        fd ≠ .timer ∧ (fd = .stdin → (revents fd).pollout = true)
  | .interrupted => True
  | .error => False

/-- The child keeps reading, and no timeout, callback, limit or failing system
call ends the I/O. -/
def Undisturbed (opts : Options) (s : State) : Action → Prop
  | .parent ans =>
      match s.pc with
      | .writeStdin | .write _ => ans.write.Proceeds
      | .poll pfds => ans.poll.Proceeds pfds
      | .drain o _ _ | .drainLast o => ans.Proceeds opts s o
      | .start | .rebuild | .dispatch _ | .done => True
  | .child _ _ | .timeout => True

/-- A `write` that returns takes so many bytes. -/
def WriteAnswer.Takes (size : ℕ) : WriteAnswer → Prop
  | .bytes n => n = size
  | .interrupted | .error => True

/-- The `write` of `WriteStdin` takes all of the data. -/
def WritesWhole (opts : Options) (s : State) : Action → Prop
  | .parent ans =>
      s.pc = .writeStdin → ans.write.Takes opts.stdinData.length
  | .child _ _ | .timeout => True

instance (w : WriteAnswer) : Decidable w.Proceeds :=
  match w with
  | .bytes n => inferInstanceAs (Decidable (0 < n))
  | .interrupted => isTrue trivial
  | .error => isFalse id

instance (w : WriteAnswer) (size : ℕ) : Decidable (w.Takes size) :=
  match w with
  | .bytes n => inferInstanceAs (Decidable (n = size))
  | .interrupted | .error => isTrue trivial

instance (pfds : List Fd) (p : PollAnswer) : Decidable (p.Proceeds pfds) :=
  match p with
  | .ready revents =>
      inferInstanceAs (Decidable (∀ fd ∈ pfds, (revents fd).any = true →
        fd ≠ .timer ∧ (fd = .stdin → (revents fd).pollout = true)))
  | .interrupted => isTrue trivial
  | .error => isFalse id

instance (opts : Options) (s : State) (o : Output) (ans : Answer) :
    Decidable (ans.Proceeds opts s o) := by
  unfold Answer.Proceeds
  generalize ans.read = r
  induction r using ReadAnswer.casesOn <;> exact inferInstance

instance (opts : Options) (s : State) (a : Action) :
    Decidable (Undisturbed opts s a) := by
  induction a using Action.casesOn with
  | parent ans =>
      unfold Undisturbed
      generalize s.pc = pc
      induction pc using Pc.casesOn <;> exact inferInstance
  | child o bytes => exact isTrue trivial
  | timeout => exact isTrue trivial

instance (opts : Options) (s : State) (a : Action) :
    Decidable (WritesWhole opts s a) :=
  match a with
  | .parent ans =>
      inferInstanceAs (Decidable (s.pc = .writeStdin →
        ans.write.Takes opts.stdinData.length))
  | .child _ _ | .timeout => isTrue trivial

/-! ## Where the data is -/

/-- While stdin is open, what has been delivered are the bytes before the
offset, and there are more. -/
def Interleaved (opts : Options) (s : State) : Prop :=
  s.stdinOpen = true →
    s.delivered = opts.stdinData.take s.stdinOffset ∧
      s.stdinOffset < opts.stdinData.length

/-- A pass that does not abort, and finds stdin writable if it reports it. -/
def Calm (p : Pass) : Prop :=
  p.abort = false ∧
    ∀ x ∈ p.ready, x.1 ≠ .timer ∧ (x.1 = .stdin → x.2.pollout = true)

/-- Where the data is at each point of an undisturbed run. -/
def Feeds (opts : Options) (s : State) : Prop :=
  match s.pc with
  | .start =>
      s.stdinOpen = opts.needStdin ∧ s.stdinOffset = 0 ∧ s.delivered = []
  | .writeStdin => s.delivered = []
  | .rebuild | .poll _ => Interleaved opts s
  | .dispatch p | .drain _ _ p => Interleaved opts s ∧ Calm p
  | .write p => Interleaved opts s ∧ Calm p ∧ s.stdinOpen = true
  | .drainLast _ | .done => s.stdinOpen = false

/-- The same stdin. -/
structure SameStdin (s s' : State) : Prop where
  stdinOpen : s'.stdinOpen = s.stdinOpen
  stdinOffset : s'.stdinOffset = s.stdinOffset
  delivered : s'.delivered = s.delivered

section

variable {opts : Options} {s s' : State} {ans : Answer} {p : Pass}

theorem Interleaved.same (hs : Interleaved opts s) (h : SameStdin s s') :
    Interleaved opts s' := by
  intro hopen
  rw [h.delivered, h.stdinOffset]
  exact hs (h.stdinOpen ▸ hopen)

theorem sameStdin_setSource (s : State) (o : Output) (t : Source) :
    SameStdin s (s.setSource o t) := by
  cases o <;> exact ⟨rfl, rfl, rfl⟩

theorem Calm.tail {x : Fd × Revents} {rest : List (Fd × Revents)} {b : Bool}
    (h : Calm ⟨x :: rest, b⟩) : Calm ⟨rest, b⟩ :=
  ⟨h.1, fun y hy => h.2 y (List.mem_cons_of_mem _ hy)⟩

/-- With nothing to poll, stdin is closed. -/
theorem stdinOpen_of_rebuildPfds (hs : Interleaved opts s)
    (hnone : rebuildPfds opts s = []) : s.stdinOpen = false := by
  cases hopen : s.stdinOpen with
  | false => rfl
  | true =>
      obtain ⟨-, hlt⟩ := hs hopen
      simp [rebuildPfds, hopen, hlt] at hnone

/-- At the end stdin is closed. -/
theorem Feeds.delivers (hs : Feeds opts s)
    (hstart : s.delivered <+: opts.stdinData)
    (hclosed : s.stdinOpen = false → s.delivered = opts.stdinData) :
    Delivers opts s := by
  refine ⟨hstart, ?_⟩
  rintro (hclose | hdone)
  · exact hclosed hclose
  · rw [Feeds, hdone] at hs
    exact hclosed hs

theorem Delivers.same (hP : Delivers opts s) (h : SameStdin s s')
    (hs : Feeds opts s') : Delivers opts s' := by
  apply hs.delivers
  · rw [h.delivered]
    exact hP.inOrder
  · intro hclosed
    rw [h.delivered]
    exact hP.all (Or.inl (h.stdinOpen ▸ hclosed))

/-! ## The moves of the parent -/

theorem runInput_feeds (hneed : opts.needStdin = true) (hpc : s.pc = .start)
    (hs : Feeds opts s) :
    Feeds opts (runInput opts s) ∧ Delivers opts (runInput opts s) := by
  rw [Feeds, hpc] at hs
  obtain ⟨hopen, hoffset, hdelivered⟩ := hs
  rw [hneed] at hopen
  have hstart : s.delivered <+: opts.stdinData :=
    hdelivered ▸ List.nil_prefix
  rw [runInput, if_pos hneed]
  split_ifs with hempty hmode
  · have hfeeds : Feeds opts { closeStdin s with pc := .rebuild } :=
      fun hfalse => Bool.noConfusion hfalse
    exact ⟨hfeeds, hfeeds.delivers hstart fun _ => hdelivered.trans hempty.symm⟩
  · have hfeeds : Feeds opts { s with pc := .writeStdin } := hdelivered
    refine ⟨hfeeds, hfeeds.delivers hstart fun hclosed => ?_⟩
    rw [hopen] at hclosed
    cases hclosed
  · have hfeeds : Feeds opts { s with pc := .rebuild } := by
      intro _
      refine ⟨?_, ?_⟩
      · rw [hdelivered, hoffset, List.take_zero]
      · rw [hoffset]
        exact List.length_pos_iff.mpr hempty
    refine ⟨hfeeds, hfeeds.delivers hstart fun hclosed => ?_⟩
    rw [hopen] at hclosed
    cases hclosed

theorem writeStdin_feeds (hpc : s.pc = .writeStdin) (hs : Feeds opts s)
    (hP : Delivers opts s) {w : WriteAnswer} (hw : w.Proceeds)
    (h : writeStdin opts s w = some s') :
    Feeds opts s' ∧
      (Delivers opts s' ↔ w.Takes opts.stdinData.length) := by
  cases w with
  | error => exact absurd hw id
  | interrupted =>
      obtain rfl := Option.some.inj h
      exact ⟨hs, iff_of_true hP trivial⟩
  | bytes n =>
      rw [Feeds, hpc] at hs
      dsimp only at hs
      simp only [writeStdin] at h
      split at h
      · next hle =>
        obtain rfl := Option.some.inj h
        have hdelivered : ({ closeStdin (s.deliver opts.stdinData n) with
            pc := .rebuild } : State).delivered = opts.stdinData.take n := by
          simp [closeStdin, State.deliver, hs]
        have hfeeds : Feeds opts { closeStdin (s.deliver opts.stdinData n) with
            pc := .rebuild } := fun hfalse => Bool.noConfusion hfalse
        refine ⟨hfeeds, ?_⟩
        constructor
        · intro hdelivers
          have hall := hdelivers.all (Or.inl rfl)
          rw [hdelivered] at hall
          have hlength := congrArg List.length hall
          rw [List.length_take] at hlength
          exact (Nat.min_eq_left hle).symm.trans hlength
        · intro hn
          apply hfeeds.delivers
          · rw [hdelivered]
            exact List.take_prefix _ _
          · intro _
            rw [hdelivered, show n = opts.stdinData.length from hn,
              List.take_length]
      · cases h

theorem write_feeds (hpc : s.pc = .write p) (hs : Feeds opts s)
    (hP : Delivers opts s) {w : WriteAnswer} (hw : w.Proceeds)
    (h : write opts s p w = some s') : Feeds opts s' ∧ Delivers opts s' := by
  cases w with
  | error => exact absurd hw id
  | interrupted =>
      obtain rfl := Option.some.inj h
      exact ⟨hs, hP⟩
  | bytes n =>
      rw [Feeds, hpc] at hs
      obtain ⟨hinterleaved, hcalm, hopen⟩ := hs
      obtain ⟨hdelivered, hlt⟩ := hinterleaved hopen
      have hpos : n ≠ 0 := Nat.pos_iff_ne_zero.mp hw
      simp only [write] at h
      split at h
      · next hle =>
        rw [List.length_drop] at hle
        have hnext : s.delivered ++ (opts.stdinData.drop s.stdinOffset).take n =
            opts.stdinData.take (s.stdinOffset + n) := by
          rw [hdelivered, ← List.take_add]
        obtain rfl := Option.some.inj h
        split
        · next hend =>
          have hlength : s.stdinOffset + n = opts.stdinData.length := by
            have hmore : opts.stdinData.length ≤ s.stdinOffset + n :=
              hend.resolve_right hpos
            omega
          have hfeeds : Feeds opts (closeStdin
              { s.deliver (opts.stdinData.drop s.stdinOffset) n with
                stdinOffset := s.stdinOffset + n, pc := .dispatch p }) :=
            ⟨fun hfalse => Bool.noConfusion hfalse, hcalm⟩
          refine ⟨hfeeds, hfeeds.delivers ?_ fun _ => ?_⟩
          · simp only [closeStdin, State.deliver]
            rw [hnext]
            exact List.take_prefix _ _
          · simp only [closeStdin, State.deliver]
            rw [hnext, hlength, List.take_length]
        · next hend =>
          have hfeeds : Feeds opts
              { s.deliver (opts.stdinData.drop s.stdinOffset) n with
                stdinOffset := s.stdinOffset + n, pc := .dispatch p } := by
            refine ⟨fun _ => ⟨hnext, ?_⟩, hcalm⟩
            exact Nat.lt_of_not_le (not_or.mp hend).1
          refine ⟨hfeeds, hfeeds.delivers ?_ fun hclosed => ?_⟩
          · simp only [State.deliver]
            rw [hnext]
            exact List.take_prefix _ _
          · simp only [State.deliver] at hclosed
            rw [hopen] at hclosed
            cases hclosed
      · cases h

theorem dispatch_feeds (hpc : s.pc = .dispatch p) (hs : Feeds opts s)
    (hP : Delivers opts s) :
    Feeds opts (dispatch s p) ∧ Delivers opts (dispatch s p) := by
  rw [Feeds, hpc] at hs
  obtain ⟨hinterleaved, hcalm⟩ := hs
  obtain ⟨ready, abort⟩ := p
  obtain rfl : abort = false := hcalm.1
  unfold dispatch
  cases ready with
  | nil =>
      simp only [Bool.false_eq_true, if_false]
      by_cases hclosed : allClosed s = true
      · have hstdin : s.stdinOpen = false := by
          simp only [allClosed, Bool.and_eq_true, Bool.not_eq_true'] at hclosed
          exact hclosed.2
        rw [if_pos hclosed]
        exact ⟨hstdin, hP.same ⟨rfl, rfl, rfl⟩ hstdin⟩
      · rw [if_neg hclosed]
        exact ⟨hinterleaved, hP.same ⟨rfl, rfl, rfl⟩ hinterleaved⟩
  | cons x rest =>
      obtain ⟨fd, r⟩ := x
      have hskip : Feeds opts { s with pc := .dispatch ⟨rest, false⟩ } :=
        ⟨hinterleaved, hcalm.tail⟩
      have hskipped : Delivers opts { s with pc := .dispatch ⟨rest, false⟩ } :=
        hP.same ⟨rfl, rfl, rfl⟩ hskip
      cases fd with
      | timer =>
          exact absurd rfl (hcalm.2 _ List.mem_cons_self).1
      | output o =>
          dsimp only
          split
          · have hdrain : Feeds opts
                { s with pc := .drain o r.pollhup ⟨rest, false⟩ } :=
              ⟨hinterleaved, hcalm.tail⟩
            exact ⟨hdrain, hP.same ⟨rfl, rfl, rfl⟩ hdrain⟩
          · exact ⟨hskip, hskipped⟩
      | stdin =>
          have hpollout : r.pollout = true :=
            (hcalm.2 _ List.mem_cons_self).2 rfl
          dsimp only
          rw [hpollout, Bool.and_true]
          by_cases hopen : s.stdinOpen = true
          · have hwrite : Feeds opts { s with pc := .write ⟨rest, false⟩ } :=
              ⟨hinterleaved, hcalm.tail, hopen⟩
            rw [if_pos hopen]
            exact ⟨hwrite, hP.same ⟨rfl, rfl, rfl⟩ hwrite⟩
          · have hclosed : ¬ (s.stdinOpen && r.pollhup) = true := by
              simp [hopen]
            rw [if_neg hopen, if_neg hclosed]
            exact ⟨hskip, hskipped⟩

/-- A `read` that proceeds does not end the I/O. -/
theorem drainRead_proceeds (hmax : opts.maxOutputBytes < 2 ^ 64) {o : Output}
    {t : Source} {truncated : Bool} {result : Option Bool}
    (huntruncated : s.outputTruncated = false) (hans : ans.Proceeds opts s o)
    (hread : drainRead opts (opts.callback o) (s.source o) s.outputTruncated
      ans = some (t, truncated, result)) :
    truncated = false ∧ result ≠ some false := by
  rw [huntruncated] at hread
  unfold Answer.Proceeds at hans
  unfold drainRead at hread
  cases hanswer : ans.read with
  | error =>
      rw [hanswer] at hans
      exact absurd hans id
  | interrupted | nothing =>
      rw [hanswer] at hread
      obtain ⟨-, hrest⟩ := Prod.mk.inj (Option.some.inj hread)
      obtain ⟨rfl, rfl⟩ := Prod.mk.inj hrest
      exact ⟨rfl, by simp⟩
  | bytes n =>
      rw [hanswer] at hans hread
      dsimp only at hans hread
      split at hread
      · next hn =>
        obtain ⟨hpos, -, hle⟩ := hn
        have hchunk : (((s.source o).written.drop (s.source o).taken).take
            n).length = n := by
          rw [List.length_take, List.length_drop]
          omega
        have hcollect := Option.some.inj hread
        simp only [collect, hchunk] at hcollect
        have hnext : (if n < opts.readBufferSize then some true else none) ≠
            some false := by
          split <;> simp
        by_cases hcallback : opts.callback o = true
        · rw [if_pos hcallback] at hans hcollect
          rw [hans, if_pos rfl] at hcollect
          obtain ⟨-, hrest⟩ := Prod.mk.inj hcollect
          obtain ⟨rfl, rfl⟩ := Prod.mk.inj hrest
          exact ⟨rfl, hnext⟩
        · rw [if_neg hcallback] at hans hcollect
          simp only [Bool.false_eq_true, if_false] at hcollect
          by_cases hlimit : 0 < opts.maxOutputBytes
          · have hfits := hans hlimit
            have hspace : space opts (s.source o).data.length =
                opts.maxOutputBytes - (s.source o).data.length := by
              unfold space Basic.wrapSub
              omega
            have hsome : ¬ opts.maxOutputBytes -
                (s.source o).data.length = 0 := by omega
            have henough : ¬ opts.maxOutputBytes -
                (s.source o).data.length < n := by omega
            rw [if_pos hlimit, hspace, if_neg hsome, if_neg henough] at hcollect
            obtain ⟨-, hrest⟩ := Prod.mk.inj hcollect
            obtain ⟨rfl, rfl⟩ := Prod.mk.inj hrest
            exact ⟨rfl, hnext⟩
          · rw [if_neg hlimit] at hcollect
            obtain ⟨-, hrest⟩ := Prod.mk.inj hcollect
            obtain ⟨rfl, rfl⟩ := Prod.mk.inj hrest
            exact ⟨rfl, hnext⟩
      · cases hread

/-- What `DrainFd` in the pass does to stdin, the flag and the pass. -/
theorem drain_cases {o : Output} {hup : Bool}
    (h : drain opts s o hup p ans = some s') :
    ∃ t result, drainRead opts (opts.callback o) (s.source o)
        s.outputTruncated ans = some (t, s'.outputTruncated, result) ∧
      SameStdin s s' ∧
        (s'.pc = s.pc ∨ ∃ ok, result = some ok ∧
          s'.pc = .dispatch ⟨p.ready, p.abort || !ok⟩) := by
  obtain ⟨⟨t, truncated, result⟩, hread, rfl⟩ := Option.map_eq_some_iff.mp h
  cases result with
  | none =>
      refine ⟨t, none, hread, ?_, Or.inl ?_⟩
      · cases o <;> exact ⟨rfl, rfl, rfl⟩
      · cases o <;> rfl
  | some ok =>
      refine ⟨t, some ok, ?_, ?_, Or.inr ⟨ok, rfl, rfl⟩⟩
      · rw [hread]
        cases o <;> cases ok <;> cases hup <;> rfl
      · cases o <;> cases ok <;> cases hup <;> exact ⟨rfl, rfl, rfl⟩

theorem drain_feeds (hmax : opts.maxOutputBytes < 2 ^ 64) {o : Output}
    {hup : Bool} (hpc : s.pc = .drain o hup p) (hs : Feeds opts s)
    (huntruncated : s.outputTruncated = false) (hP : Delivers opts s)
    (hans : ans.Proceeds opts s o) (h : drain opts s o hup p ans = some s') :
    Feeds opts s' ∧ Delivers opts s' ∧ s'.outputTruncated = false := by
  rw [Feeds, hpc] at hs
  obtain ⟨hinterleaved, hcalm⟩ := hs
  obtain ⟨t, result, hread, hsame, hpc'⟩ := drain_cases h
  obtain ⟨htruncated, hresult⟩ :=
    drainRead_proceeds hmax huntruncated hans hread
  have hfeeds : Feeds opts s' := by
    obtain hpc' | ⟨ok, rfl, hpc'⟩ := hpc'
    · rw [Feeds, hpc', hpc]
      exact ⟨hinterleaved.same hsame, hcalm⟩
    · obtain rfl : ok = true := by
        cases ok with
        | true => rfl
        | false => exact absurd rfl hresult
      rw [Feeds, hpc']
      refine ⟨hinterleaved.same hsame, ?_, hcalm.2⟩
      rw [hcalm.1]
      rfl
  exact ⟨hfeeds, hP.same hsame hfeeds, htruncated⟩

/-- After the loop stdin stays closed. -/
theorem drainLast_cases {o : Output} (hclosed : s.stdinOpen = false)
    (h : drainLast opts s o ans = some s') :
    SameStdin s s' ∧ (s'.pc = s.pc ∨ s'.pc = .drainLast .stderr ∨
      s'.pc = .done) ∧
      (s'.outputTruncated = s.outputTruncated ∨
        ∃ t result, drainRead opts (opts.callback o) (s.source o)
          s.outputTruncated ans = some (t, s'.outputTruncated, result)) := by
  unfold drainLast at h
  split at h
  · obtain ⟨⟨t, truncated, result⟩, hread, rfl⟩ :=
      Option.map_eq_some_iff.mp h
    refine ⟨?_, ?_, Or.inr ⟨t, result, ?_⟩⟩
    · cases o <;> cases result <;>
        exact ⟨by simp [drainNext, closeStdin, State.closeSource,
          State.setSource, hclosed], rfl, rfl⟩
    · cases o <;> cases result <;> simp [drainNext, State.setSource]
    · rw [hread]
      cases o <;> cases result <;> rfl
  · obtain rfl := Option.some.inj h
    refine ⟨?_, ?_, Or.inl ?_⟩
    · cases o <;>
        exact ⟨by simp [drainNext, closeStdin, hclosed], rfl, rfl⟩
    · cases o <;> simp [drainNext]
    · cases o <;> rfl

theorem drainLast_feeds (hmax : opts.maxOutputBytes < 2 ^ 64) {o : Output}
    (hpc : s.pc = .drainLast o) (hs : Feeds opts s)
    (huntruncated : s.outputTruncated = false) (hP : Delivers opts s)
    (hans : ans.Proceeds opts s o) (h : drainLast opts s o ans = some s') :
    Feeds opts s' ∧ Delivers opts s' ∧ s'.outputTruncated = false := by
  rw [Feeds, hpc] at hs
  obtain ⟨hsame, hpc', hflag⟩ := drainLast_cases hs h
  have hclosed : s'.stdinOpen = false := hsame.stdinOpen.trans hs
  have hfeeds : Feeds opts s' := by
    obtain hpc' | hpc' | hpc' := hpc'
    · rw [Feeds, hpc', hpc]
      exact hclosed
    · rw [Feeds, hpc']
      exact hclosed
    · rw [Feeds, hpc']
      exact hclosed
  refine ⟨hfeeds, hP.same hsame hfeeds, ?_⟩
  obtain hflag | ⟨t, result, hread⟩ := hflag
  · exact hflag.trans huntruncated
  · exact (drainRead_proceeds hmax huntruncated hans hread).1

theorem outputTruncated_runInput (opts : Options) (s : State) :
    (runInput opts s).outputTruncated = s.outputTruncated := by
  unfold runInput
  split_ifs <;> rfl

theorem outputTruncated_dispatch (s : State) (p : Pass) :
    (dispatch s p).outputTruncated = s.outputTruncated := by
  unfold dispatch
  split
  · split
    · unfold abortKill
      split <;> rfl
    · rfl
  · split <;> rfl
  · split_ifs <;> rfl
  · rfl

theorem outputTruncated_write {w : WriteAnswer}
    (h : write opts s p w = some s') :
    s'.outputTruncated = s.outputTruncated := by
  cases w with
  | interrupted => rw [← Option.some.inj h]
  | error =>
      rw [← Option.some.inj h]
      rfl
  | bytes n =>
      simp only [write] at h
      split at h
      · rw [← Option.some.inj h]
        split <;> rfl
      · cases h

theorem outputTruncated_writeStdin {w : WriteAnswer}
    (h : writeStdin opts s w = some s') :
    s'.outputTruncated = s.outputTruncated := by
  cases w with
  | interrupted => rw [← Option.some.inj h]
  | error =>
      rw [← Option.some.inj h]
      rfl
  | bytes n =>
      simp only [writeStdin] at h
      split at h
      · rw [← Option.some.inj h]
        rfl
      · cases h

/-- What holds along an undisturbed run. -/
structure Fed (opts : Options) (s : State) : Prop where
  feeds : Feeds opts s
  untruncated : s.outputTruncated = false

theorem Fed.poll {pfds : List Fd} (hpc : s.pc = .poll pfds)
    (hs : Fed opts s) (hP : Delivers opts s) (ha : ans.poll.Proceeds pfds)
    (h : parentStep opts s ans = some s') : Fed opts s' ∧ Delivers opts s' := by
  have hinterleaved := hs.feeds
  rw [Feeds, hpc] at hinterleaved
  simp only [parentStep, hpc] at h
  cases hans : ans.poll with
  | error =>
      rw [hans] at ha
      exact absurd ha id
  | interrupted =>
      rw [hans] at h
      obtain rfl := Option.some.inj h
      have hfeeds : Feeds opts { s with pc := .rebuild } := hinterleaved
      exact ⟨⟨hfeeds, hs.untruncated⟩, hP.same ⟨rfl, rfl, rfl⟩ hfeeds⟩
  | ready revents =>
      rw [hans] at h ha
      obtain rfl := Option.some.inj h
      have hcalm : Calm ⟨(pfds.map fun fd => (fd, revents fd)).filter
          fun x => x.2.any, false⟩ := by
        refine ⟨rfl, fun x hx => ?_⟩
        obtain ⟨hmem, hany⟩ := List.mem_filter.mp hx
        obtain ⟨fd, hfd, rfl⟩ := List.mem_map.mp hmem
        exact ha fd hfd hany
      have hfeeds : Feeds opts { s with
          pc := .dispatch ⟨(pfds.map fun fd => (fd, revents fd)).filter
            fun x => x.2.any, false⟩ } := ⟨hinterleaved, hcalm⟩
      exact ⟨⟨hfeeds, hs.untruncated⟩, hP.same ⟨rfl, rfl, rfl⟩ hfeeds⟩

theorem Fed.rebuild (hpc : s.pc = .rebuild) (hs : Fed opts s)
    (hP : Delivers opts s) (h : parentStep opts s ans = some s') :
    Fed opts s' ∧ Delivers opts s' := by
  have hinterleaved := hs.feeds
  rw [Feeds, hpc] at hinterleaved
  simp only [parentStep, hpc] at h
  obtain rfl := Option.some.inj h
  by_cases hnone : rebuildPfds opts s = []
  · rw [if_pos hnone]
    have hfeeds : Feeds opts { s with pc := .drainLast .stdout } :=
      stdinOpen_of_rebuildPfds hinterleaved hnone
    exact ⟨⟨hfeeds, hs.untruncated⟩, hP.same ⟨rfl, rfl, rfl⟩ hfeeds⟩
  · rw [if_neg hnone]
    have hfeeds : Feeds opts { s with pc := .poll (rebuildPfds opts s) } :=
      hinterleaved
    exact ⟨⟨hfeeds, hs.untruncated⟩, hP.same ⟨rfl, rfl, rfl⟩ hfeeds⟩

/-- An undisturbed move delivers, unless it is a short `write` in
`WriteStdin`. -/
theorem parentStep_fed (hneed : opts.needStdin = true)
    (hmax : opts.maxOutputBytes < 2 ^ 64) (hs : Fed opts s)
    (hP : Delivers opts s) (ha : Undisturbed opts s (.parent ans))
    (h : parentStep opts s ans = some s') :
    Fed opts s' ∧ (Delivers opts s' ↔ WritesWhole opts s (.parent ans)) := by
  have hfeeds := hs.feeds
  have huntruncated := hs.untruncated
  simp only [Undisturbed] at ha
  by_cases hwrite : s.pc = .writeStdin
  · simp only [parentStep, hwrite] at ha h
    obtain ⟨hfeeds', hiff⟩ := writeStdin_feeds hwrite hfeeds hP ha h
    have hflag := outputTruncated_writeStdin h
    refine ⟨⟨hfeeds', hflag.trans huntruncated⟩, hiff.trans ?_⟩
    simp only [WritesWhole, hwrite, forall_const]
  · -- No other move can be one that does not deliver.
    have hwhole : WritesWhole opts s (.parent ans) :=
      fun hpc => absurd hpc hwrite
    suffices hnext : Fed opts s' ∧ Delivers opts s' from
      ⟨hnext.1, iff_of_true hnext.2 hwhole⟩
    cases hpc : s.pc with
    | writeStdin => exact absurd hpc hwrite
    | poll pfds =>
        rw [hpc] at ha
        exact hs.poll hpc hP ha h
    | rebuild => exact hs.rebuild hpc hP h
    | start =>
        simp only [parentStep, hpc] at h
        obtain rfl := Option.some.inj h
        obtain ⟨hfeeds', hdelivers⟩ := runInput_feeds hneed hpc hfeeds
        have hflag := outputTruncated_runInput opts s
        exact ⟨⟨hfeeds', hflag.trans huntruncated⟩, hdelivers⟩
    | dispatch p =>
        simp only [parentStep, hpc] at h
        obtain rfl := Option.some.inj h
        obtain ⟨hfeeds', hdelivers⟩ := dispatch_feeds hpc hfeeds hP
        have hflag := outputTruncated_dispatch s p
        exact ⟨⟨hfeeds', hflag.trans huntruncated⟩, hdelivers⟩
    | drain o hup p =>
        simp only [parentStep, hpc] at ha h
        obtain ⟨hfeeds', hdelivers, hflag⟩ :=
          drain_feeds hmax hpc hfeeds huntruncated hP ha h
        exact ⟨⟨hfeeds', hflag⟩, hdelivers⟩
    | write p =>
        simp only [parentStep, hpc] at ha h
        obtain ⟨hfeeds', hdelivers⟩ := write_feeds hpc hfeeds hP ha h
        have hflag := outputTruncated_write h
        exact ⟨⟨hfeeds', hflag.trans huntruncated⟩, hdelivers⟩
    | drainLast o =>
        simp only [parentStep, hpc] at ha h
        obtain ⟨hfeeds', hdelivers, hflag⟩ :=
          drainLast_feeds hmax hpc hfeeds huntruncated hP ha h
        exact ⟨⟨hfeeds', hflag⟩, hdelivers⟩
    | done =>
        simp only [parentStep, hpc] at h
        cases h

theorem step_fed {a : Action} (hneed : opts.needStdin = true)
    (hmax : opts.maxOutputBytes < 2 ^ 64) (hs : Fed opts s)
    (hP : Delivers opts s) (ha : Undisturbed opts s a)
    (h : step opts s a = some s') :
    Fed opts s' ∧ (Delivers opts s' ↔ WritesWhole opts s a) := by
  cases a with
  | parent ans => exact parentStep_fed hneed hmax hs hP ha h
  | child o bytes =>
      obtain rfl := Option.some.inj h
      have hsame : SameStdin s (childWrite s o bytes) :=
        sameStdin_setSource s o _
      have hfeeds : Feeds opts (childWrite s o bytes) := by
        cases o <;> exact hs.feeds
      have hflag : (childWrite s o bytes).outputTruncated = false := by
        cases o <;> exact hs.untruncated
      exact ⟨⟨hfeeds, hflag⟩, iff_of_true (hP.same hsame hfeeds) trivial⟩
  | timeout =>
      obtain rfl := Option.some.inj h
      have hfeeds : Feeds opts { s with timedOut := true } := hs.feeds
      exact ⟨⟨hfeeds, hs.untruncated⟩,
        iff_of_true (hP.same ⟨rfl, rfl, rfl⟩ hfeeds) trivial⟩

/-- In every undisturbed run all the data is delivered exactly when each
`write` of `WriteStdin` takes all of it. -/
theorem run_delivers_iff {pid : ℤ} (hneed : opts.needStdin = true)
    (hmax : opts.maxOutputBytes < 2 ^ 64) {acts : List Action}
    (hundisturbed : Transition.AllSteps (step opts) (Undisturbed opts)
      (init opts pid) acts) :
    Transition.AllStates (step opts) (Delivers opts) (init opts pid) acts ↔
      Transition.AllSteps (step opts) (WritesWhole opts) (init opts pid)
        acts := by
  have hfed : Fed opts (init opts pid) := ⟨⟨rfl, rfl, rfl⟩, rfl⟩
  have hdelivers : Delivers opts (init opts pid) := by
    refine ⟨List.nil_prefix, ?_⟩
    rintro (hclosed | hdone)
    · exact absurd hclosed (by simp [init, hneed])
    · cases hdone
  exact Transition.allStates_iff_allSteps_of_allSteps
    (fun s a s' hs hP ha h => step_fed hneed hmax hs hP ha h) hfed hdelivers
    hundisturbed

end

/-! ## Short writes -/

/-- A `write` takes the first of two bytes, and another one the second. -/
def twoWrites : List Action :=
  [.parent {}, .parent {},
    .parent { poll := .ready fun _ => ⟨false, true, false⟩ }, .parent {},
    .parent {}, .parent {}, .parent { write := .bytes 1 }, .parent {},
    .parent {}, .parent { poll := .ready fun _ => ⟨false, true, false⟩ },
    .parent {}, .parent {}, .parent {}, .parent { write := .bytes 1 }]

theorem run_delivers_iff_twoWrites :
    Transition.AllStates
      (step { mode := .kReadWrite, stdinData := [1, 2] })
      (Delivers { mode := .kReadWrite, stdinData := [1, 2] })
      (init { mode := .kReadWrite, stdinData := [1, 2] } 7) twoWrites :=
  (run_delivers_iff (by decide) (by decide) (by decide)).mpr (by decide)

/-- In `kWriteOnly` mode the one `write` takes `n` bytes. -/
def shortWrite (n : ℕ) : List Action :=
  [.parent {}, .parent { write := .bytes n }]

/-- The bytes it leaves are lost. -/
theorem not_delivers_shortWrite {opts : Options} {n : ℕ}
    (hmode : opts.mode = .kWriteOnly) (hpos : 0 < n)
    (hn : n < opts.stdinData.length) (pid : ℤ) :
    Transition.AllSteps (step opts) (Undisturbed opts) (init opts pid)
        (shortWrite n) ∧
      ¬ Transition.AllStates (step opts) (Delivers opts) (init opts pid)
        (shortWrite n) := by
  have hneed : opts.needStdin = true := by simp [Options.needStdin, hmode]
  have hne : opts.stdinData ≠ [] := List.ne_nil_of_length_pos (by omega)
  have hstart : step opts (init opts pid) (.parent {}) =
      some { init opts pid with pc := .writeStdin } := by
    simp [step, parentStep, init, runInput, hneed, hmode, hne]
  have hwrite : step opts { init opts pid with pc := .writeStdin }
      (.parent { write := .bytes n }) =
        some { init opts pid with
          delivered := opts.stdinData.take n
          stdinOpen := false
          pc := .rebuild } := by
    simp [step, parentStep, writeStdin, hn.le, closeStdin, State.deliver, init]
  constructor
  · intro s hs
    obtain rfl := Option.some.inj (hstart.symm.trans hs)
    exact ⟨trivial, fun _ _ => ⟨hpos, trivial⟩⟩
  · intro hall
    have hrun : Transition.run (step opts) (init opts pid) (shortWrite n) =
        some { init opts pid with
          delivered := opts.stdinData.take n
          stdinOpen := false
          pc := .rebuild } := by
      rw [shortWrite, Transition.run, hstart, Option.bind_some,
        Transition.run, hwrite]
      rfl
    have hlast := hall.last hrun
    have hlen := congrArg List.length (hlast.all (.inl rfl))
    rw [List.length_take, Nat.min_eq_left hn.le] at hlen
    omega

/-- A `write` of more than the pipe holds waits for the child.  A signal that
is handled while it waits makes it return what the pipe has taken. -/
theorem exists_undelivered :
    ¬ ∀ opts pid acts, opts.needStdin = true →
      opts.maxOutputBytes < 2 ^ 64 →
      Transition.AllSteps (step opts) (Undisturbed opts) (init opts pid)
        acts →
      Transition.AllStates (step opts) (Delivers opts) (init opts pid)
        acts := by
  intro hall
  obtain ⟨opts, hmode, hmax, hlen⟩ : ∃ opts : Options,
      opts.mode = .kWriteOnly ∧ opts.maxOutputBytes = 0 ∧
        opts.stdinData.length = 2 ^ 16 + 1 :=
    ⟨{ mode := .kWriteOnly, stdinData := List.replicate (2 ^ 16 + 1) 0 },
      rfl, rfl, List.length_replicate⟩
  obtain ⟨hundisturbed, hlost⟩ := not_delivers_shortWrite (n := 2 ^ 16) hmode
    (by decide) (by omega) 7
  exact hlost (hall opts 7 _ (by simp [Options.needStdin, hmode]) (by omega)
    hundisturbed)

end Streams
end PopenWrapper
end Yacul
