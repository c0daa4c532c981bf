import Yacul.System.PopenWrapper
import Mathlib.Data.List.Nodup
import Mathlib.Data.Set.Insert

/-!
# A child that copies its input

The write end of the child's stdin is a blocking descriptor, so the one
`write` of the poll loop returns when the whole input is stored.  Meanwhile
nobody reads what the child writes.  The module shows how much input the two
pipes and the child have to take for both sides to block.
-/

namespace Yacul
namespace PopenWrapper
namespace Copier

/-- `Run` with a child that copies its stdin to its stdout; `held` is what it
has read and not yet written. -/
structure State where
  run : PopenWrapper.State
  held : ℕ
deriving DecidableEq, Repr

inductive Action
  | parent (ch : Choice)
  | timer (interrupted : Bool)
  | read (n : ℕ)
  | write (n : ℕ)
  | exit
deriving DecidableEq, Repr

/-- The child writes out what it has read before it reads again, at most
`bufferSize` bytes at a time. -/
def step (opts : Options) (bufferSize : ℕ) (s : State) :
    Action → Option State
  | .parent ch => (parentStep opts s.run ch).map fun r => { s with run := r }
  | .timer interrupted =>
      (timerStep opts s.run interrupted).map fun r => { s with run := r }
  | .read n =>
      if s.held = 0 ∧ n ≤ bufferSize then
        (childStep s.run (.read n)).map fun r => { run := r, held := n }
      else none
  | .write n =>
      if n ≤ s.held then
        (childStep s.run (.write .stdout n)).map fun r =>
          { run := r, held := s.held - n }
      else none
  | .exit =>
      let stdout := s.run.stdout
      let stderr := s.run.stderr
      some
        { run := { s.run with
            exited := true
            stdin := { s.run.stdin with child := false }
            stdout := { stdout with pipe := { stdout.pipe with child := false } }
            stderr :=
              { stderr with pipe := { stderr.pipe with child := false } } }
          held := 0 }

abbrev Reachable (opts : Options) (caps : Capacities) (bufferSize : ℕ) :
    State → Prop :=
  Transition.Reachable (step opts bufferSize)
    {{ run := init opts caps, held := 0 }}

/-- The parent is blocked in its write to the full stdin of the child, and the
child in its write to its full stdout. -/
def Deadlocked (s : State) : Prop :=
  (match s.run.pc with
    | .write left _ _ => 0 < left
    | _ => False) ∧
    s.run.stdin.child = true ∧
    s.run.stdin.capacity ≤ s.run.stdin.used ∧
    0 < s.held ∧
    s.run.stdout.pipe.parent = true ∧
    s.run.stdout.pipe.capacity ≤ s.run.stdout.pipe.used

/-! ## Where the input is -/

end Copier

/-- The descriptors that the pass over `pfds` has not finished with. -/
def Pc.pending : Pc → List Fd
  | .dispatch p | .drain _ _ p => p.ready.map Prod.fst
  | .write _ _ p => .stdin :: p.ready.map Prod.fst
  | _ => []

theorem nodup_rebuildPfds (opts : Options) (s : State) :
    (rebuildPfds opts s).Nodup := by
  unfold rebuildPfds
  split_ifs <;> decide

theorem ready_sublist (opts : Options) (s : State) :
    ((ready opts s).map Prod.fst).Sublist (rebuildPfds opts s) := by
  have hfilter := (List.filter_sublist (p := fun x : Fd × Revents => x.2.any)
    (l := (rebuildPfds opts s).map fun fd => (fd, revents s fd))).map Prod.fst
  simpa [ready, Function.comp_def] using hfilter

theorem stdin_mem_rebuildPfds {opts : Options} {s : State}
    (h : .stdin ∈ rebuildPfds opts s) : s.stdin.parent = true := by
  unfold rebuildPfds at h
  split_ifs at h <;> simp_all

/-- The pipe of `r` is that of `t` with bytes taken out of it. -/
def Stream.DrainsTo (t r : Stream) : Prop :=
  ∃ k, r.pipe = { t.pipe with used := t.pipe.used - k }

theorem Stream.drainsTo_ite {c : Prop} [Decidable c] {t : Stream}
    {x y : Stream × Bool × Option Bool} (hx : t.DrainsTo x.1)
    (hy : t.DrainsTo y.1) : t.DrainsTo (if c then x else y).1 := by
  split
  · exact hx
  · exact hy

theorem drainsTo_drainRead (opts : Options) (callback : Bool) (t : Stream)
    (truncated : Bool) (ch : Choice) :
    t.DrainsTo (drainRead opts callback t truncated ch).1 := by
  have htaken : ∀ size truncated' next, t.DrainsTo
      (Prod.fst ((⟨{ t.pipe with
        used := t.pipe.used - min t.pipe.used opts.readBufferSize }, size⟩,
          truncated', next) : Stream × Bool × Option Bool)) :=
    fun _ _ _ => ⟨_, rfl⟩
  unfold drainRead
  apply Stream.drainsTo_ite ⟨0, rfl⟩
  apply Stream.drainsTo_ite ⟨0, rfl⟩
  apply Stream.drainsTo_ite (htaken _ _ _)
  apply Stream.drainsTo_ite
  · apply Stream.drainsTo_ite (htaken _ _ _)
    exact Stream.drainsTo_ite (htaken _ _ _) (htaken _ _ _)
  · exact htaken _ _ _

theorem drainRead_used_le (opts : Options) (callback : Bool) (t : Stream)
    (truncated : Bool) (ch : Choice) :
    (drainRead opts callback t truncated ch).1.pipe.used ≤ t.pipe.used := by
  obtain ⟨k, hpipe⟩ := drainsTo_drainRead opts callback t truncated ch
  rw [hpipe]
  exact Nat.sub_le _ _

theorem drainRead_capacity (opts : Options) (callback : Bool) (t : Stream)
    (truncated : Bool) (ch : Choice) :
    (drainRead opts callback t truncated ch).1.pipe.capacity =
      t.pipe.capacity := by
  obtain ⟨k, hpipe⟩ := drainsTo_drainRead opts callback t truncated ch
  rw [hpipe]

/-- In a `write`. -/
def Pc.writes : Pc → Bool
  | .writeStdin _ _ | .write _ _ _ => true
  | _ => false

/-- Reading and closing leaves what is on its way through the child. -/
structure Drained (s s' : State) : Prop where
  stdinUsed : s'.stdin.used = s.stdin.used
  stdinCapacity : s'.stdin.capacity = s.stdin.capacity
  stdinParent : s'.stdin.parent = true → s.stdin.parent = true
  stdinChild : s'.stdin.child = s.stdin.child
  stdinOffset : s'.stdinOffset = s.stdinOffset
  stdoutUsed : s'.stdout.pipe.used ≤ s.stdout.pipe.used
  stdoutCapacity : s'.stdout.pipe.capacity = s.stdout.pipe.capacity

section

variable {opts : Options} {s s' : State}

/-- Moving on. -/
theorem drained_pc (s : State) (pc : Pc) : Drained s { s with pc := pc } :=
  ⟨rfl, rfl, id, rfl, rfl, Nat.le_refl _, rfl⟩

theorem Drained.trans {s'' : State} (h : Drained s s')
    (h' : Drained s' s'') : Drained s s'' where
  stdinUsed := h'.stdinUsed.trans h.stdinUsed
  stdinCapacity := h'.stdinCapacity.trans h.stdinCapacity
  stdinParent hparent := h.stdinParent (h'.stdinParent hparent)
  stdinChild := h'.stdinChild.trans h.stdinChild
  stdinOffset := h'.stdinOffset.trans h.stdinOffset
  stdoutUsed := h'.stdoutUsed.trans h.stdoutUsed
  stdoutCapacity := h'.stdoutCapacity.trans h.stdoutCapacity

theorem drained_closeStdin (s : State) : Drained s (closeStdin s) :=
  ⟨rfl, rfl, fun h => Bool.noConfusion h, rfl, rfl, Nat.le_refl _, rfl⟩

theorem drained_setOutput {o : Output} {t : Stream}
    (hused : t.pipe.used ≤ (s.output o).pipe.used)
    (hcapacity : t.pipe.capacity = (s.output o).pipe.capacity) :
    Drained s (s.setOutput o t) := by
  cases o with
  | stdout => exact ⟨rfl, rfl, id, rfl, rfl, hused, hcapacity⟩
  | stderr => exact ⟨rfl, rfl, id, rfl, rfl, Nat.le_refl _, rfl⟩

theorem drained_closeOutput (s : State) (o : Output) :
    Drained s (s.closeOutput o) :=
  drained_setOutput (Nat.le_refl _) rfl

/-- The part that the two drains share. -/
theorem drained_drainRead (opts : Options) (s : State) (o : Output)
    (ch : Choice) (truncated : Bool) :
    Drained s
      { s.setOutput o (drainRead opts (opts.callback o) (s.output o)
          s.outputTruncated ch).1 with outputTruncated := truncated } := by
  have hset := drained_setOutput (s := s) (o := o)
    (drainRead_used_le opts (opts.callback o) (s.output o)
      s.outputTruncated ch)
    (drainRead_capacity opts (opts.callback o) (s.output o)
      s.outputTruncated ch)
  exact ⟨hset.1, hset.2, hset.3, hset.4, hset.5, hset.6, hset.7⟩

theorem drain_drained (opts : Options) (s : State) (o : Output) (hup : Bool)
    (p : Pass) (ch : Choice) : Drained s (drain opts s o hup p ch) := by
  have hread := drained_drainRead opts s o ch
    (drainRead opts (opts.callback o) (s.output o) s.outputTruncated ch).2.1
  unfold drain
  dsimp only
  split
  · exact hread
  · apply hread.trans
    split
    · exact (drained_closeOutput _ o).trans (drained_pc _ _)
    · exact drained_pc _ _

theorem drain_pending (opts : Options) {o : Output} {hup : Bool} {p : Pass}
    (hpc : s.pc = .drain o hup p) (ch : Choice) :
    (drain opts s o hup p ch).pc.pending = p.ready.map Prod.fst ∧
      (drain opts s o hup p ch).pc.writes = false ∧
      (drain opts s o hup p ch).stdin = s.stdin := by
  unfold drain
  dsimp only
  split
  · simp [hpc, Pc.pending, Pc.writes]
  · refine ⟨rfl, rfl, ?_⟩
    split <;> simp [State.closeOutput]

theorem drained_drainNext (s : State) (o : Output) :
    Drained s (drainNext s o) := by
  cases o with
  | stdout => exact drained_pc s _
  | stderr => exact (drained_closeStdin s).trans (drained_pc _ _)

theorem drainLast_drained (opts : Options) (s : State) (o : Output)
    (ch : Choice) : Drained s (drainLast opts s o ch) := by
  have hread := drained_drainRead opts s o ch
    (drainRead opts (opts.callback o) (s.output o) s.outputTruncated ch).2.1
  unfold drainLast
  split
  · dsimp only
    split
    · exact hread
    · apply hread.trans
      exact (drained_closeOutput _ o).trans (drained_drainNext _ o)
  · exact drained_drainNext s o

theorem drainLast_pending (opts : Options) {o : Output} (hpc : s.pc = .drainLast o)
    (ch : Choice) :
    (drainLast opts s o ch).pc.pending = [] ∧
      (drainLast opts s o ch).pc.writes = false := by
  have hnext : ∀ s : State, (drainNext s o).pc.pending = [] ∧
      (drainNext s o).pc.writes = false := by
    intro s
    cases o <;> exact ⟨rfl, rfl⟩
  unfold drainLast
  split
  · dsimp only
    split
    · simp [hpc, Pc.pending, Pc.writes]
    · exact hnext _
  · exact hnext s

/-- What a move inside a blocking `write` can do. -/
theorem blockingWrite_cases {p q : Pipe} {left stored : ℕ} {ch : Choice}
    {move : WriteMove}
    (h : blockingWrite p left stored ch = some (q, move)) :
    (left = 0 ∧ q = p ∧ move = .returned stored) ∨
      (p.child = false ∧ q = p ∧
        (move = .killed ∨ ∃ n, move = .returned n)) ∨
      ∃ k, 0 < k ∧ k ≤ left ∧ p.used + k ≤ p.capacity ∧
        q = { p with used := p.used + k } ∧
        move = .storing (left - k) (stored + k) := by
  unfold blockingWrite at h
  split at h
  · cases h
    exact .inl ⟨‹_›, rfl, rfl⟩
  split at h
  · rename_i hchild
    simp only [Option.some.injEq, Prod.mk.injEq] at h
    obtain ⟨rfl, rfl⟩ := h
    refine .inr (.inl ⟨by simpa using hchild, rfl, ?_⟩)
    split
    · exact .inl rfl
    · exact .inr ⟨_, rfl⟩
  split at h
  · rename_i hroom
    cases h
    exact .inr (.inr ⟨_, hroom.1, hroom.2.1, hroom.2.2, rfl, rfl⟩)
  · cases h

end

namespace Copier

/-- Nothing of the input has been written. -/
structure Unwritten (s : State) : Prop where
  stdin : s.run.stdin.used = 0
  held : s.held = 0
  stdout : s.run.stdout.pipe.used = 0
  stdinOffset : s.run.stdinOffset = 0

/-- Before its write the parent has written nothing; while it writes, what is
stored is in a pipe or held by the child. -/
structure Flow (opts : Options) (s : State) : Prop where
  unwritten : s.run.pc.writes = false → Unwritten s
  stored : ∀ left stored p, s.run.pc = .write left stored p →
    left + stored = opts.stdinData.length ∧
      stored = s.run.stdin.used + s.held + s.run.stdout.pipe.used

/-- The invariant of the copier: as long as stdin is open on both sides, the
parent is before or in its only write. -/
structure Copying (opts : Options) (caps : Capacities) (s : State) :
    Prop where
  mode : ∀ left stored, s.run.pc ≠ .writeStdin left stored
  nodup : s.run.pc.pending.Nodup
  parent : .stdin ∈ s.run.pc.pending → s.run.stdin.parent = true
  stdinCapacity : s.run.stdin.capacity = caps.stdin
  stdoutCapacity : s.run.stdout.pipe.capacity = caps.stdout
  flow : s.run.stdin.parent = true → s.run.stdin.child = true → Flow opts s

variable {opts : Options} {caps : Capacities} {bufferSize : ℕ}
  {s s' : State} {r : PopenWrapper.State}

theorem Unwritten.flow (h : Unwritten s) (hpc : s.run.pc.writes = false) :
    Flow opts s where
  unwritten _ := h
  stored left stored p heq := by
    rw [heq] at hpc
    cases hpc

/-- A move of the parent outside its write. -/
theorem Copying.drained (hs : Copying opts caps s)
    (hpc : s.run.pc.writes = false) (hr : Drained s.run r)
    (hpc' : r.pc.writes = false) (hnodup : r.pc.pending.Nodup)
    (hparent : .stdin ∈ r.pc.pending → r.stdin.parent = true) :
    Copying opts caps { s with run := r } where
  mode left stored h := by
    rw [h] at hpc'
    cases hpc'
  nodup := hnodup
  parent := hparent
  stdinCapacity := hr.stdinCapacity.trans hs.stdinCapacity
  stdoutCapacity := hr.stdoutCapacity.trans hs.stdoutCapacity
  flow hopen hchild := by
    have hflow := hs.flow (hr.stdinParent hopen)
      (hr.stdinChild.symm.trans hchild)
    have hempty := hflow.unwritten hpc
    apply Unwritten.flow _ hpc'
    exact
      { stdin := hr.stdinUsed.trans hempty.stdin
        held := hempty.held
        stdout := Nat.eq_zero_of_le_zero (hempty.stdout ▸ hr.stdoutUsed)
        stdinOffset := hr.stdinOffset.trans hempty.stdinOffset }

theorem Copying.dispatch (hs : Copying opts caps s) {p : Pass}
    (hpc : s.run.pc = .dispatch p) :
    Copying opts caps { s with run := dispatch opts s.run p } := by
  have hnodup : (p.ready.map Prod.fst).Nodup := by
    have hpending := hs.nodup
    rwa [hpc] at hpending
  have hparent : .stdin ∈ p.ready.map Prod.fst →
      s.run.stdin.parent = true := by
    have hpending := hs.parent
    rwa [hpc] at hpending
  have hwrites : s.run.pc.writes = false := by rw [hpc]; rfl
  obtain ⟨ready, abort⟩ := p
  match ready with
  | [] =>
      refine hs.drained hwrites (drained_pc _ _) ?_ ?_ ?_
      all_goals dsimp only [PopenWrapper.dispatch]; split
      all_goals simp [Pc.writes, Pc.pending]
  | (.output o, e) :: rest =>
      refine hs.drained hwrites (drained_pc _ _) rfl ?_ fun h => hparent ?_
      · exact (List.nodup_cons.mp hnodup).2
      · exact List.mem_cons_of_mem _ h
  | (.timer, e) :: rest =>
      refine hs.drained hwrites (drained_pc _ _) rfl ?_ fun h => hparent ?_
      · exact (List.nodup_cons.mp hnodup).2
      · exact List.mem_cons_of_mem _ h
  | (.stdin, e) :: rest =>
      have hopen := hparent (List.mem_cons_self ..)
      have hrest := List.nodup_cons.mp hnodup
      simp only [PopenWrapper.dispatch]
      split
      · exact
          { mode := fun left stored h => Pc.noConfusion h
            nodup := hnodup
            parent := fun _ => hopen
            stdinCapacity := hs.stdinCapacity
            stdoutCapacity := hs.stdoutCapacity
            flow := fun _ hchild => by
              have hempty := (hs.flow hopen hchild).unwritten hwrites
              refine ⟨fun h => Bool.noConfusion h, fun left stored q heq => ?_⟩
              cases heq
              simp [hempty.stdin, hempty.held, hempty.stdout,
                hempty.stdinOffset] }
      · refine hs.drained hwrites ((drained_closeStdin _).trans
          (drained_pc _ _)) rfl hrest.2 ?_
        intro h
        exact absurd h hrest.1

/-- A write that has returned, with stdin closed on one side. -/
theorem Copying.returned (hs : Copying opts caps s) {p : Pass} {n : ℤ}
    (hnodup : (p.ready.map Prod.fst).Nodup)
    (hmem : .stdin ∉ p.ready.map Prod.fst)
    (hdone : s.run.stdin.child = true →
      (writeReturned opts s.run p n).stdin.parent = false) :
    Copying opts caps { s with run := writeReturned opts s.run p n } := by
  have hpc : (writeReturned opts s.run p n).pc = .dispatch p := by
    simp only [writeReturned]
    split_ifs <;> rfl
  have hpending : (writeReturned opts s.run p n).pc.pending =
      p.ready.map Prod.fst := by rw [hpc]; rfl
  have hpipes : (writeReturned opts s.run p n).stdout = s.run.stdout ∧
      (writeReturned opts s.run p n).stdin.capacity = s.run.stdin.capacity ∧
      (writeReturned opts s.run p n).stdin.child = s.run.stdin.child := by
    simp only [writeReturned]
    split_ifs <;> exact ⟨rfl, rfl, rfl⟩
  exact
    { mode := fun left stored h => by simp [hpc] at h
      nodup := hpending ▸ hnodup
      parent := fun h => absurd (hpending ▸ h) hmem
      stdinCapacity := hpipes.2.1.trans hs.stdinCapacity
      stdoutCapacity := by
        dsimp only
        rw [hpipes.1]
        exact hs.stdoutCapacity
      flow := fun hopen hchild => by
        have hclosed := hdone (hpipes.2.2.symm.trans hchild)
        exact absurd hopen (by simp [hclosed]) }

/-- When everything is stored, the offset has reached the end of the input. -/
theorem writeReturned_closes {r : PopenWrapper.State} {p : Pass} {n : ℕ}
    (h : n = opts.stdinData.length) :
    (writeReturned opts r p n).stdin.parent = false := by
  have hend : opts.stdinData.length ≤
      (if (0 : ℤ) < n then r.stdinOffset + (n : ℤ).toNat
        else r.stdinOffset) ∨ (n : ℤ) ≤ 0 := by
    rcases Nat.eq_zero_or_pos n with hzero | hpos
    · right
      omega
    · left
      rw [if_pos (by omega), Int.toNat_natCast]
      omega
  simp only [writeReturned, if_pos hend]
  rfl

/-- The only write either goes on, or it ends with stdin closed on one
side. -/
theorem Copying.write (hs : Copying opts caps s) {left stored : ℕ} {p : Pass}
    (hpc : s.run.pc = .write left stored p) {ch : Choice}
    (h : parentStep opts s.run ch = some r) :
    Copying opts caps { s with run := r } := by
  have hnodup : (Fd.stdin :: p.ready.map Prod.fst).Nodup := by
    have hpending := hs.nodup
    rwa [hpc] at hpending
  have hrest := List.nodup_cons.mp hnodup
  have hopen : s.run.stdin.parent = true := by
    apply hs.parent
    rw [hpc]
    exact List.mem_cons_self ..
  simp only [parentStep, hpc, Option.map_eq_some_iff] at h
  obtain ⟨⟨q, move⟩, hwrite, rfl⟩ := h
  rcases blockingWrite_cases hwrite with
    ⟨hleft, rfl, rfl⟩ | ⟨hchild, rfl, rfl | ⟨n, rfl⟩⟩ |
      ⟨k, -, hk, -, rfl, rfl⟩
  · apply hs.returned hrest.2 hrest.1
    intro hchild
    have hstored := (hs.flow hopen hchild).stored left stored p hpc
    apply writeReturned_closes
    omega
  · exact
      { mode := fun left stored h => Pc.noConfusion h
        nodup := List.nodup_nil
        parent := fun _ => hopen
        stdinCapacity := hs.stdinCapacity
        stdoutCapacity := hs.stdoutCapacity
        flow := fun _ h => absurd h (by simp [hchild]) }
  · apply hs.returned hrest.2 hrest.1
    intro h
    exact absurd h (by simp [hchild])
  · exact
      { mode := fun left stored h => Pc.noConfusion h
        nodup := hnodup
        parent := fun _ => hopen
        stdinCapacity := hs.stdinCapacity
        stdoutCapacity := hs.stdoutCapacity
        flow := fun _ hchild => by
          have hstored := (hs.flow hopen hchild).stored left stored p hpc
          refine ⟨fun h => Bool.noConfusion h, fun left' stored' q heq => ?_⟩
          cases heq
          dsimp only
          omega }

theorem parentStep_copying (hmode : opts.mode = .kReadWrite)
    (hs : Copying opts caps s) {ch : Choice}
    (h : parentStep opts s.run ch = some r) :
    Copying opts caps { s with run := r } := by
  cases hpc : s.run.pc with
  | start =>
      have hwrites : s.run.pc.writes = false := by rw [hpc]; rfl
      simp only [parentStep, hpc, Option.some.injEq] at h
      subst h
      unfold runInput
      split_ifs with hneed hempty hwriteOnly
      · exact hs.drained hwrites ((drained_closeStdin _).trans
          (drained_pc _ _)) rfl List.nodup_nil
          fun h => absurd h List.not_mem_nil
      · simp [hmode] at hwriteOnly
      · exact hs.drained hwrites (drained_pc _ _) rfl List.nodup_nil
          fun h => absurd h List.not_mem_nil
      · exact hs.drained hwrites (drained_pc _ _) rfl List.nodup_nil
          fun h => absurd h List.not_mem_nil
  | writeStdin left stored => exact absurd hpc (hs.mode left stored)
  | rebuild =>
      simp only [parentStep, hpc, Option.some.injEq] at h
      subst h
      refine hs.drained (by rw [hpc]; rfl) (drained_pc _ _) ?_ ?_ ?_
      all_goals dsimp only; split
      all_goals simp [Pc.writes, Pc.pending]
  | poll =>
      have hwrites : s.run.pc.writes = false := by rw [hpc]; rfl
      simp only [parentStep, hpc] at h
      split_ifs at h <;> cases h
      · exact hs.drained hwrites (drained_pc _ _) rfl List.nodup_nil
          fun h => absurd h List.not_mem_nil
      · exact hs.drained hwrites (drained_pc _ _) rfl List.nodup_nil
          fun h => absurd h List.not_mem_nil
      · have hsublist := ready_sublist opts s.run
        refine hs.drained hwrites (drained_pc _ _) rfl ?_ ?_
        · exact hsublist.nodup (nodup_rebuildPfds opts s.run)
        · intro h
          exact stdin_mem_rebuildPfds (hsublist.subset h)
  | dispatch p =>
      simp only [parentStep, hpc, Option.some.injEq] at h
      subst h
      exact hs.dispatch hpc
  | drain o hup p =>
      simp only [parentStep, hpc, Option.some.injEq] at h
      subst h
      have hnext := drain_pending opts hpc ch
      have hdrained := drain_drained opts s.run o hup p ch
      have hnodup := hs.nodup
      have hparent := hs.parent
      rw [hpc] at hnodup hparent
      refine hs.drained (by rw [hpc]; rfl) hdrained hnext.2.1 ?_ ?_
      · rw [hnext.1]
        exact hnodup
      · rw [hnext.1, hnext.2.2]
        exact hparent
  | write left stored p => exact hs.write hpc h
  | drainLast o =>
      simp only [parentStep, hpc, Option.some.injEq] at h
      subst h
      have hnext := drainLast_pending opts hpc ch
      refine hs.drained (by rw [hpc]; rfl)
        (drainLast_drained opts s.run o ch) hnext.2 ?_ ?_
      · rw [hnext.1]
        exact List.nodup_nil
      · rw [hnext.1]
        intro h
        exact absurd h List.not_mem_nil
  | waitpid =>
      simp only [parentStep, hpc] at h
      split_ifs at h
      cases h
      exact hs.drained (by rw [hpc]; rfl) (drained_pc _ _) rfl
        List.nodup_nil fun h => absurd h List.not_mem_nil
  | done => simp [parentStep, hpc] at h
  | killed => simp [parentStep, hpc] at h

theorem timerStep_copying (hs : Copying opts caps s) {interrupted : Bool}
    (h : timerStep opts s.run interrupted = some r) :
    Copying opts caps { s with run := r } := by
  have hflow : ∀ r : PopenWrapper.State, r.pc = s.run.pc →
      r.stdin = s.run.stdin → r.stdout = s.run.stdout →
      r.stdinOffset = s.run.stdinOffset →
      Copying opts caps { s with run := r } := by
    intro r hpc hstdin hstdout hoffset
    constructor
    · simpa [hpc] using hs.mode
    · simpa [hpc] using hs.nodup
    · simpa [hpc, hstdin] using hs.parent
    · simpa [hstdin] using hs.stdinCapacity
    · simpa [hstdout] using hs.stdoutCapacity
    · intro hopen hchild
      have hflow := hs.flow (hstdin ▸ hopen) (hstdin ▸ hchild)
      constructor
      · intro h
        have hempty := hflow.unwritten (hpc ▸ h)
        constructor
        · simpa [hstdin] using hempty.stdin
        · exact hempty.held
        · simpa [hstdout] using hempty.stdout
        · simpa [hoffset] using hempty.stdinOffset
      · simpa [hpc, hstdin, hstdout] using hflow.stored
  unfold timerStep at h
  split at h <;> cases h
  all_goals exact hflow _ rfl rfl rfl rfl

/-- The child moves what it has read from one pipe to the other. -/
theorem Copying.move (hs : Copying opts caps s) (held inUsed outUsed : ℕ)
    (hsum : inUsed + held + outUsed =
      s.run.stdin.used + s.held + s.run.stdout.pipe.used)
    (hmoved : 0 < s.run.stdin.used + s.held) :
    Copying opts caps
      { run := { s.run with
          stdin := { s.run.stdin with used := inUsed }
          stdout := { s.run.stdout with
            pipe := { s.run.stdout.pipe with used := outUsed } } }
        held := held } where
  mode := hs.mode
  nodup := hs.nodup
  parent := hs.parent
  stdinCapacity := hs.stdinCapacity
  stdoutCapacity := hs.stdoutCapacity
  flow hopen hchild := by
    have hflow := hs.flow hopen hchild
    constructor
    · intro hpc
      have hempty := hflow.unwritten hpc
      rw [hempty.stdin, hempty.held] at hmoved
      exact absurd hmoved (Nat.lt_irrefl 0)
    · intro left stored p hpc
      have hstored := hflow.stored left stored p hpc
      exact ⟨hstored.1, hstored.2.trans hsum.symm⟩

theorem step_copying (hmode : opts.mode = .kReadWrite)
    (hs : Copying opts caps s) {a : Action}
    (h : step opts bufferSize s a = some s') : Copying opts caps s' := by
  cases a with
  | parent ch =>
      obtain ⟨r, hr, rfl⟩ := Option.map_eq_some_iff.mp h
      exact parentStep_copying hmode hs hr
  | timer interrupted =>
      obtain ⟨r, hr, rfl⟩ := Option.map_eq_some_iff.mp h
      exact timerStep_copying hs hr
  | read n =>
      simp only [step] at h
      split_ifs at h with hread
      obtain ⟨r, hr, rfl⟩ := Option.map_eq_some_iff.mp h
      simp only [childStep] at hr
      split_ifs at hr with hn
      cases hr
      exact hs.move n (s.run.stdin.used - n) s.run.stdout.pipe.used
        (by omega) (by omega)
  | write n =>
      simp only [step] at h
      split_ifs at h with hheld
      obtain ⟨r, hr, rfl⟩ := Option.map_eq_some_iff.mp h
      simp only [childStep] at hr
      split at hr
      · rename_i hn
        obtain rfl := Option.some.inj hr
        have hpos := hn.2.2.1
        exact hs.move (s.held - n) s.run.stdin.used
          (s.run.stdout.pipe.used + n) (by omega) (by omega)
      · cases hr
  | exit =>
      cases h
      exact ⟨hs.1, hs.2, hs.3, hs.4, hs.5, fun _ h => Bool.noConfusion h⟩

theorem copying_init (opts : Options) (caps : Capacities) :
    Copying opts caps { run := init opts caps, held := 0 } where
  mode _ _ := Pc.noConfusion
  nodup := List.nodup_nil
  parent h := absurd h List.not_mem_nil
  stdinCapacity := rfl
  stdoutCapacity := rfl
  flow _ _ := Unwritten.flow ⟨rfl, rfl, rfl, rfl⟩ rfl

/-- A deadlock needs input for both pipes, a byte in the child and a byte to
write. -/
theorem Copying.not_deadlocked (hs : Copying opts caps s)
    (hfits : opts.stdinData.length ≤ caps.stdin + caps.stdout + 1) :
    ¬ Deadlocked s := by
  rintro ⟨hpc, hchild, hin, hheld, -, hout⟩
  split at hpc
  · rename_i left stored p heq
    have hopen : s.run.stdin.parent = true := by
      apply hs.parent
      rw [heq]
      exact List.mem_cons_self ..
    have hstored := (hs.flow hopen hchild).stored left stored p heq
    rw [hs.stdinCapacity] at hin
    rw [hs.stdoutCapacity] at hout
    omega
  · exact hpc

/-! ## A run into the deadlock -/

/-- The parent is in its write. -/
def writing (opts : Options) (caps : Capacities)
    (left stored inUsed held outUsed : ℕ) : State where
  run := { init opts caps with
    pc := .write left stored ⟨[], false⟩
    stdin := { Pipe.create caps.stdin true with used := inUsed }
    stdout :=
      { pipe := { Pipe.create caps.stdout true with used := outUsed }
        size := 0 } }
  held := held

/-- The first `poll` reports room in stdin, and the parent offers all of its
input. -/
theorem reachable_writing (hmode : opts.mode = .kReadWrite)
    (hdata : opts.stdinData ≠ []) :
    Reachable opts caps bufferSize
      (writing opts caps opts.stdinData.length 0 0 0 0) := by
  have hstart : Reachable opts caps bufferSize
      { run := init opts caps, held := 0 } := .start (Set.mem_singleton _)
  have hstdin : opts.needStdin = true := by simp [Options.needStdin, hmode]
  have hstdout : opts.needStdout = true := by simp [Options.needStdout, hmode]
  have hpos := List.length_pos_iff.mpr hdata
  have hrun : Transition.run (step opts bufferSize)
      { run := init opts caps, held := 0 } (List.replicate 4 (.parent {})) =
        some (writing opts caps opts.stdinData.length 0 0 0 0) := by
    have hinput : runInput opts (init opts caps) =
        { init opts caps with pc := .rebuild } := by
      simp [runInput, hstdin, hdata, hmode]
    have hready : ready opts { init opts caps with pc := .poll } =
        [(.stdin, ⟨false, true, false⟩)] := by
      cases hstderr : opts.needStderr <;>
        by_cases htimeout : 0 < opts.timeout <;>
        simp [ready, rebuildPfds, init, Pipe.create, hstdin, hstdout, hstderr,
          hpos, htimeout, revents, Revents.any, State.output, caps.stdin_pos]
    have hpolled : rebuildPfds opts { init opts caps with pc := .rebuild } ≠
        [] := by
      simp [rebuildPfds, init, Pipe.create, hstdout]
    have hpc : (init opts caps).pc = .start := rfl
    simp only [List.replicate, Transition.run, step, parentStep, hpc, hinput,
      if_neg hpolled, hready, Option.map_some, Option.bind_some]
    simp [dispatch, writing, init, Pipe.create, hstdin, hstdout]
  exact hstart.run hrun

section

variable {left stored inUsed held outUsed k : ℕ}

theorem step_writing_parent (hk : 0 < k)
    (hroom : inUsed + k ≤ caps.stdin) :
    step opts bufferSize
        (writing opts caps (left + k) stored inUsed held outUsed)
        (.parent { count := k }) =
      some (writing opts caps left (stored + k) (inUsed + k) held outUsed) := by
  have hwrite : blockingWrite
      { Pipe.create caps.stdin true with used := inUsed } (left + k) stored
        { count := k } =
      some ({ Pipe.create caps.stdin true with used := inUsed + k },
        .storing left (stored + k)) := by
    simp [blockingWrite, hk, hk.ne', hroom, Pipe.create]
  simp only [step, parentStep, writing, hwrite, Option.map_some]

theorem step_writing_read (hk : 0 < k) (hbuffer : k ≤ bufferSize) :
    step opts bufferSize
        (writing opts caps left stored (inUsed + k) 0 outUsed) (.read k) =
      some (writing opts caps left stored inUsed k outUsed) := by
  simp [step, writing, childStep, Pipe.create, hk, hbuffer]

theorem step_writing_write (hk : 0 < k) (hroom : outUsed + k ≤ caps.stdout) :
    step opts bufferSize
        (writing opts caps left stored inUsed (held + k) outUsed) (.write k) =
      some (writing opts caps left stored inUsed held (outUsed + k)) := by
  simp [step, writing, childStep, State.output, State.setOutput, Pipe.create,
    hk, hroom]

end

/-- Byte by byte, the child fills its stdout. -/
theorem reachable_copied (hmode : opts.mode = .kReadWrite)
    (hbuffer : 0 < bufferSize) {n left : ℕ} (hn : n ≤ caps.stdout)
    (hlength : opts.stdinData.length = left + n)
    (hdata : opts.stdinData ≠ []) :
    Reachable opts caps bufferSize (writing opts caps left n 0 0 n) := by
  induction n generalizing left with
  | zero =>
      have hstart : Reachable opts caps bufferSize
          (writing opts caps opts.stdinData.length 0 0 0 0) :=
        reachable_writing hmode hdata
      rwa [hlength] at hstart
  | succ n ih =>
      have hprev : Reachable opts caps bufferSize
          (writing opts caps (left + 1) n 0 0 n) :=
        ih (by omega) (by omega)
      have hwritten := hprev.next trivial
        (step_writing_parent Nat.one_pos caps.stdin_pos)
      have hread := hwritten.next trivial
        (step_writing_read Nat.one_pos hbuffer)
      exact hread.next trivial (step_writing_write Nat.one_pos hn)

/-- With its stdout full the child takes one more byte, and the parent fills
stdin. -/
theorem reachable_deadlock (hmode : opts.mode = .kReadWrite)
    (hbuffer : 0 < bufferSize) {left : ℕ}
    (hlength : opts.stdinData.length =
      left + caps.stdin + 1 + caps.stdout) :
    Reachable opts caps bufferSize
      (writing opts caps left (caps.stdout + 1 + caps.stdin) caps.stdin 1
        caps.stdout) := by
  have hdata : opts.stdinData ≠ [] := by
    intro hempty
    simp [hempty] at hlength
    omega
  have hcopied := reachable_copied hmode hbuffer (Nat.le_refl _) hlength hdata
  have hwritten := hcopied.next trivial
    (step_writing_parent Nat.one_pos caps.stdin_pos)
  have hread := hwritten.next trivial (step_writing_read Nat.one_pos hbuffer)
  have hfull := hread.next trivial
    (step_writing_parent caps.stdin_pos (Nat.zero_add _).le)
  rwa [Nat.zero_add] at hfull

theorem deadlocked_writing {left stored : ℕ} (hleft : 0 < left) :
    Deadlocked
      (writing opts caps left stored caps.stdin 1 caps.stdout) :=
  ⟨hleft, rfl, Nat.le_refl _, Nat.one_pos, rfl, Nat.le_refl _⟩

/-- `Run` with a child that copies its input cannot deadlock if and only if
the two pipes and one byte in the child take the input. -/
theorem deadlockFree_iff (opts : Options) (caps : Capacities)
    (bufferSize : ℕ) (hmode : opts.mode = .kReadWrite)
    (hbuffer : 0 < bufferSize) :
    (∀ s, Reachable opts caps bufferSize s → ¬ Deadlocked s) ↔
      opts.stdinData.length ≤ caps.stdin + caps.stdout + 1 := by
  constructor
  · intro hall
    by_contra hlong
    obtain ⟨left, hleft⟩ := Nat.exists_eq_add_of_lt (Nat.lt_of_not_le hlong)
    have hlength : opts.stdinData.length =
        left + 1 + caps.stdin + 1 + caps.stdout := by omega
    exact hall _ (reachable_deadlock hmode hbuffer hlength)
      (deadlocked_writing (Nat.succ_pos left))
  · intro hfits s hs
    have hcopying : Copying opts caps s := by
      refine hs.invariant ?_ fun s a s' hI _ h => step_copying hmode hI h
      intro s hinit
      obtain rfl := Set.mem_singleton_iff.mp hinit
      exact copying_init opts caps
    exact hcopying.not_deadlocked hfits

/-- One byte more than two pipes and the child take. -/
def floods : Options where
  mode := .kReadWrite
  stdinData := List.replicate 131074 0

theorem deadlockFree_iff_floods :
    (∀ s, Reachable floods usualCapacities 1 s → ¬ Deadlocked s) ↔
      floods.stdinData.length ≤
        usualCapacities.stdin + usualCapacities.stdout + 1 :=
  deadlockFree_iff floods usualCapacities 1 rfl Nat.one_pos

/-- The parent writes to a full stdin while the child writes to a full
stdout. -/
theorem exists_deadlock :
    ¬ ∀ (opts : Options) (caps : Capacities) (bufferSize : ℕ),
      opts.mode = .kReadWrite → 0 < bufferSize →
        ∀ s, Reachable opts caps bufferSize s → ¬ Deadlocked s := by
  intro hall
  have hlength : floods.stdinData.length =
      1 + usualCapacities.stdin + 1 + usualCapacities.stdout :=
    List.length_replicate
  exact hall floods usualCapacities 1 rfl Nat.one_pos _
    (reachable_deadlock rfl Nat.one_pos hlength)
    (deadlocked_writing Nat.one_pos)

end Copier
end PopenWrapper
end Yacul
