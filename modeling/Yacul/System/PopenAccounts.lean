import Yacul.System.PopenDescriptors

/-!
# No descriptor and no child is lost

Every open descriptor belongs to one member of one wrapper or to the rest of
the program.  Every child belongs to a wrapper that has yet to wait for it,
unless a `waitpid` failed or a `Wait` threw.  The ledgers of both go through
every operation, whatever fails, and through moves and destructors.
-/

namespace Yacul
namespace PopenWrapper
namespace Descriptors

/-! ## What an operation can do -/

section

variable {s s' : State} {w w' : Wrapper} {ch : Choice} {op : Op} {flow : Flow}
  {rest : List Op}

/-- The operations that close a member. -/
inductive Closes (w : Wrapper) : Op → Member → Flow → Prop
  | closeFd {m : Member} : Closes w (.closeFd m) m .next
  | loop {m : Member} (hm : m.parent = true) : Closes w .loop m .again
  | drain {m : Member} : Closes w (.drain m) m .next
  | cancelTimer (hjoinable : w.timerJoinable = true) :
      Closes w .cancelTimer (.writeEnd .timerPipe) .next

/-- The operations that wait for the child, and what they make of the object. -/
inductive Waits (w : Wrapper) : Op → Wrapper → Prop
  | waitpid : Waits w .waitpid { w with childPid := none }
  | reap (hwaited : w.waited = false) : Waits w .reap { w with reaped := true }

/-- What an operation can do. -/
inductive Effect (s : State) (w : Wrapper) (ch : Choice) :
    Op → State → Wrapper → Flow → Prop
  | created {p : PipeMember} {r e : ℕ} (hne : r ≠ e) (hr : r ∉ s.table)
      (he : e ∉ s.table) :
      Effect s w ch (.createPipe p)
        { s with table := insert r (insert e s.table) }
        ((w.set (.readEnd p) (some r)).set (.writeEnd p) (some e)) .next
  | startThrows {op : Op}
      (hop : (∃ p, op = .createPipe p) ∨ op = .startTimer) :
      Effect s w ch op s { w with startThrew := true } (.throws [])
  | forked {pid : ℕ} (hnew : pid ∉ s.children) :
      Effect s w ch .fork { s with children := insert pid s.children }
        { w with childPid := some pid } .next
  | forkThrows :
      Effect s w ch .fork s { w with childPid := none, startThrew := true }
        (.throws forkCleanup)
  | closed {op : Op} {m : Member} {flow : Flow} (hop : Closes w op m flow) :
      Effect s w ch op (s.close (w.members m)) (w.set m none) flow
  | handedOver {dst src : Member} :
      Effect s w ch (.handOver dst src) s
        ((w.set dst (w.members src)).set src none) .next
  | timerStarted :
      Effect s w ch .startTimer
        { s with terminated := s.terminated || w.timerJoinable }
        { w with timerJoinable := true } .next
  | noTimer (hnone : ¬ ((w.members (.readEnd .timerPipe)).isSome = true ∧
      (w.members (.writeEnd .timerPipe)).isSome = true)) :
      Effect s w ch .startTimer s w .next
  | entered (hstarted : w.started = true) (hwaited : w.waited = false) :
      Effect s w ch .enterWait s { w with waited := true } .next
  | refused (hnot : w.started = false ∨ w.waited = true) :
      Effect s w ch .enterWait s w (.throws [])
  | looped : Effect s w ch .loop s w .next
  | ioThrows {op : Op} (hfails : ch.fails = true)
      (hop : op = .loop ∨ ∃ m, op = .drain m) :
      Effect s w ch op s { w with waitThrew := true } (.throws [])
  | drained {m : Member} (hnone : w.members m = none) :
      Effect s w ch (.drain m) s w .next
  | noChild {op : Op} (hop : op = .waitpid ∨ op = .reap)
      (hnone : w.childPid = none) : Effect s w ch op s w .next
  | hasWaited {pid : ℕ} (hpid : w.childPid = some pid)
      (hwaited : w.waited = true) : Effect s w ch .reap s w .next
  | gaveUp {op : Op} {w' : Wrapper} {pid : ℕ} (hfails : ch.fails = true)
      (hpid : w.childPid = some pid) (hop : Waits w op w') :
      Effect s w ch op
        { s with abandoned := (pid, .waitpidFailed) :: s.abandoned } w' .next
  | waited {op : Op} {w' : Wrapper} {pid : ℕ} (hpid : w.childPid = some pid)
      (hop : Waits w op w') :
      Effect s w ch op { s with children := s.children.erase pid } w' .next
  | notJoinable (hjoinable : w.timerJoinable = false) :
      Effect s w ch .cancelTimer s w .next
  | joined :
      Effect s w ch .joinTimer s { w with timerJoinable := false } .next

theorem exec_effect (h : exec s w ch op = some (s', w', flow)) :
    Effect s w ch op s' w' flow := by
  cases op with
  | createPipe p =>
      simp only [exec] at h
      split at h
      · cases h
        exact .startThrows (.inl ⟨p, rfl⟩)
      · split at h
        · next hfree =>
            cases h
            exact .created hfree.1 hfree.2.1 hfree.2.2
        · cases h
  | fork =>
      simp only [exec] at h
      split at h
      · cases h
        exact .forkThrows
      · split at h
        · next hpid =>
            cases h
            exact .forked hpid.2
        · cases h
  | closeFd m =>
      cases h
      exact .closed .closeFd
  | handOver dst src =>
      cases h
      exact .handedOver
  | startTimer =>
      simp only [exec] at h
      split at h
      · split at h
        · cases h
          exact .startThrows (.inr rfl)
        · cases h
          exact .timerStarted
      · next hnone =>
          cases h
          exact .noTimer (by simpa using hnone)
  | enterWait =>
      simp only [exec] at h
      split at h
      · next hnot =>
          cases h
          exact .refused (by simpa using hnot)
      · next hnot =>
          cases h
          simp only [Bool.or_eq_true, Bool.not_eq_true', not_or,
            Bool.not_eq_false, Bool.not_eq_true] at hnot
          exact .entered hnot.1 hnot.2
  | loop =>
      simp only [exec] at h
      split at h
      · next hfails =>
          cases h
          exact .ioThrows hfails (.inl rfl)
      · split at h
        · cases h
          exact .looped
        · split at h
          · next hm =>
              cases h
              exact .closed (.loop hm)
          · cases h
  | drain m =>
      simp only [exec] at h
      split at h
      · split at h
        · next hfails =>
            cases h
            exact .ioThrows hfails (.inr ⟨m, rfl⟩)
        · cases h
          exact .closed .drain
      · next hnone =>
          cases h
          exact .drained (by simpa using hnone)
  | waitpid =>
      simp only [exec] at h
      split at h
      · next hnone =>
          cases h
          exact .noChild (.inl rfl) hnone
      · next pid hpid =>
          split at h
          · next hfails =>
              cases h
              exact .gaveUp hfails hpid .waitpid
          · cases h
            exact .waited hpid .waitpid
  | cancelTimer =>
      simp only [exec] at h
      split at h
      · next hjoinable =>
          cases h
          exact .closed (.cancelTimer hjoinable)
      · next hjoinable =>
          cases h
          exact .notJoinable (Bool.eq_false_of_not_eq_true hjoinable)
  | joinTimer =>
      cases h
      exact .joined
  | reap =>
      simp only [exec] at h
      split at h
      · next hnone =>
          cases h
          exact .noChild (.inr rfl) hnone
      · next pid hpid =>
          split at h
          · next hwaited =>
              cases h
              exact .hasWaited hpid hwaited
          · next hwaited =>
              have hreap : Waits w .reap { w with reaped := true } :=
                .reap (Bool.eq_false_of_not_eq_true hwaited)
              split at h
              · next hfails =>
                  cases h
                  exact .gaveUp hfails hpid hreap
              · cases h
                exact .waited hpid hreap
  | free | transfer => cases h

theorem set_self {m : Member} (hnone : w.members m = none) :
    w.set m none = w := by
  rw [Wrapper.set, ← hnone, Function.update_eq_self]

/-- An operation that closes leads to what it is safe for. -/
theorem ready_closed {m : Member} (h : Ready w (op :: rest))
    (hop : Closes w op m flow) :
    Ready (w.set m none) (flow.ops op rest) := by
  cases hop with
  | closeFd => exact h
  | loop hm =>
      have hsame : ∀ members : Member → Option ℕ,
          (∀ m', m'.parent = false →
            members m' = (w.set m none).members m') →
              ∀ m', m'.parent = false → members m' = w.members m' := by
        intro members hmembers m' hm'
        rw [hmembers m' hm', set_members_of_ne]
        rintro rfl
        rw [hm] at hm'
        cases hm'
      exact ⟨fun members hmembers => h.1 members (hsame members hmembers),
        fun members hmembers => h.2 members (hsame members hmembers)⟩
  | drain => exact h.1
  | cancelTimer hjoinable =>
      simp only [Ready, Op.Safe, if_pos hjoinable] at h
      exact h

theorem ready_waits (h : Ready w (op :: rest))
    {pid : ℕ} (hpid : w.childPid = some pid) (hop : Waits w op w') :
    Ready w' rest := by
  cases hop with
  | waitpid => exact h.2
  | reap hwaited =>
      have hreap := h.2
      rwa [if_pos (by simp [hpid, hwaited])] at hreap

/-- One operation leaves what comes next safe. -/
theorem Effect.ready (heffect : Effect s w ch op s' w' flow)
    (h : Ready w (op :: rest)) : Ready w' (flow.ops op rest) := by
  cases heffect with
  | created => exact h.2.2.1 _ _
  | startThrows hop =>
      obtain ⟨p, rfl⟩ | rfl := hop
      · exact h.2.2.2
      · exact h.2.2.2.2
  | forked => exact h.2.2.1 _
  | forkThrows =>
      show Ready { w with childPid := none, startThrew := true }
        (pipeEnds.map Op.closeFd)
      rw [← List.append_nil (pipeEnds.map Op.closeFd)]
      apply ready_closes
      obtain ⟨members, heq, -⟩ := closeAll_eq
        { w with childPid := none, startThrew := true } pipeEnds
      rw [heq]
      exact h.2.2.2 members
  | closed hop => exact ready_closed h hop
  | handedOver => exact h.2.2
  | timerStarted => exact h.2.2.2.1
  | noTimer hnone => exact absurd ⟨h.1, h.2.1⟩ hnone
  | entered hstarted hwaited => exact h.1 hstarted hwaited
  | refused hnot => exact h.2 hnot
  | looped => exact h.1 w.members fun _ _ => rfl
  | ioThrows hfails hop =>
      obtain rfl | ⟨m, rfl⟩ := hop
      · exact h.2 w.members fun _ _ => rfl
      · exact h.2
  | drained hnone =>
      have hclosed := h.1
      rwa [set_self hnone] at hclosed
  | noChild hop hnone =>
      obtain rfl | rfl := hop
      · have hself : { w with childPid := none } = w := by rw [← hnone]
        have hgone := h.2
        rwa [hself] at hgone
      · have hkept := h.2
        rwa [hnone] at hkept
  | hasWaited hpid hwaited =>
      have hkept := h.2
      rwa [hpid, hwaited] at hkept
  | gaveUp hfails hpid hop | waited hpid hop => exact ready_waits h hpid hop
  | notJoinable hjoinable =>
      simp only [Ready, Op.Safe, hjoinable, Bool.false_eq_true, if_false] at h
      exact h
  | joined => exact h

end

/-! ## The ledgers -/

section

variable {w w' : Wrapper} {s s' : State} {ch : Choice} {op : Op} {flow : Flow}
  {rest : List Op} {F C : Multiset ℕ}

theorem nodup_all : Member.all.Nodup := by decide

/-- Setting a member trades what it held for what it holds. -/
theorem held_set (w : Wrapper) (m : Member) (fd : Option ℕ) :
    (w.set m fd).held + Multiset.ofList (w.members m).toList =
      w.held + Multiset.ofList fd.toList := by
  have h := Roster.tally_of_differ nodup_all (Member.mem_all m)
    (f := fun m' => Multiset.ofList ((w.set m fd).members m').toList)
    (g := fun m' => Multiset.ofList (w.members m').toList)
    fun m' hm' => by rw [set_members_of_ne hm']
  rw [set_members_self] at h
  exact h

/-- Closing what is held gives it back. -/
theorem close_ledger (h : s.table.val = F + w.held) (m : Member) :
    (s.close (w.members m)).table.val = F + (w.set m none).held ∧
      (s.close (w.members m)).badClose = s.badClose := by
  have hheld := held_set w m none
  cases hfd : w.members m with
  | none =>
      rw [set_self hfd]
      exact ⟨h, rfl⟩
  | some fd =>
      rw [hfd] at hheld
      have hval : s.table.val = fd ::ₘ (F + (w.set m none).held) := by
        rw [h, ← Multiset.singleton_add, add_left_comm]
        simp only [Option.toList_some, Option.toList_none, Multiset.coe_nil,
          add_zero, Multiset.coe_singleton] at hheld
        rw [← hheld, add_comm ({fd} : Multiset ℕ)]
      have hmem : fd ∈ s.table := by
        rw [← Finset.mem_val, hval]
        exact Multiset.mem_cons_self ..
      simp only [State.close, hmem, if_true, Finset.erase_val, hval,
        Multiset.erase_cons_head, and_self]

/-- Two new descriptors. -/
theorem insert_ledger {r e : ℕ} (h : s.table.val = F + w.held)
    {p : PipeMember} (hread : w.members (.readEnd p) = none)
    (hwrite : w.members (.writeEnd p) = none) (hne : r ≠ e)
    (hr : r ∉ s.table) (he : e ∉ s.table) :
    (insert r (insert e s.table)).val =
      F + ((w.set (.readEnd p) (some r)).set (.writeEnd p) (some e)).held := by
  have hset := held_set w (.readEnd p) (some r)
  have hset' := held_set (w.set (.readEnd p) (some r)) (.writeEnd p) (some e)
  rw [set_members_of_ne (by simp)] at hset'
  simp only [hread, hwrite, Option.toList_none, Option.toList_some,
    Multiset.coe_nil, add_zero, Multiset.coe_singleton] at hset hset'
  rw [Finset.insert_val_of_notMem (by simp [hne, hr]),
    Finset.insert_val_of_notMem he, h, hset', hset]
  simp only [← Multiset.singleton_add]
  ac_rfl

/-- Handing a descriptor over keeps what is held. -/
theorem held_handOver {dst src : Member} (hne : dst ≠ src)
    (hnone : w.members dst = none) :
    ((w.set dst (w.members src)).set src none).held = w.held := by
  have hdst := held_set w dst (w.members src)
  have hsrc := held_set (w.set dst (w.members src)) src none
  rw [hnone] at hdst
  rw [set_members_of_ne hne.symm] at hsrc
  simp only [Option.toList_none, Multiset.coe_nil, add_zero] at hdst hsrc
  exact add_right_cancel (hsrc.trans hdst)

theorem close_frame (s : State) (fd : Option ℕ) :
    (s.close fd).foreign = s.foreign ∧ (s.close fd).objects = s.objects := by
  cases fd with
  | none => exact ⟨rfl, rfl⟩
  | some fd =>
      simp only [State.close]
      split <;> exact ⟨rfl, rfl⟩

/-- An operation leaves the rest of the program and the other objects. -/
theorem Effect.frame (heffect : Effect s w ch op s' w' flow) :
    s'.foreign = s.foreign ∧ s'.objects = s.objects := by
  cases heffect with
  | closed => exact close_frame s _
  | _ => exact ⟨rfl, rfl⟩

/-- What an operation does to the descriptors, when `held` is held by the
object afterwards. -/
structure KeepsTable (F held : Multiset ℕ) (s s' : State) : Prop where
  table : s'.table.val = F + held
  badClose : s'.badClose = s.badClose

/-- The ledger of the descriptors goes through every operation. -/
theorem Effect.keepsTable (heffect : Effect s w ch op s' w' flow)
    (hready : Ready w (op :: rest)) (h : s.table.val = F + w.held) :
    KeepsTable F w'.held s s' := by
  have hsame : ∀ {t : State} {v : Wrapper}, t.table = s.table →
      t.badClose = s.badClose → v.members = w.members →
        KeepsTable F v.held s t := by
    intro t v htable hbad hmembers
    refine ⟨?_, hbad⟩
    rw [htable, h, Wrapper.held, Wrapper.held, hmembers]
  cases heffect with
  | created hne hr he =>
      obtain ⟨hread, hwrite, -⟩ := hready
      exact ⟨insert_ledger h hread hwrite hne hr he, rfl⟩
  | closed hop => exact ⟨(close_ledger h _).1, (close_ledger h _).2⟩
  | handedOver =>
      obtain ⟨hne, hnone, -⟩ := hready
      refine ⟨?_, rfl⟩
      rw [h, held_handOver hne hnone]
  | gaveUp hfails hpid hop | waited hpid hop =>
      cases hop with
      | waitpid | reap => exact hsame rfl rfl rfl
  | _ => exact hsame rfl rfl rfl

/-- What an operation does to the children. -/
structure KeepsChildren (C child : Multiset ℕ) (s s' : State) : Prop where
  children : s'.children.val = s'.given + (C + child)
  remembered : (∀ c ∈ s.abandoned, c.2 ≠ .forgotten) →
    ∀ c ∈ s'.abandoned, c.2 ≠ .forgotten
  terminated : s'.terminated = s.terminated

theorem child_of_pid {pid : ℕ} (hreaped : w.reaped = false)
    (hpid : w.childPid = some pid) : w.child = {pid} := by
  simp [Wrapper.child, hreaped, hpid]

theorem child_of_none (hpid : w.childPid = none) : w.child = 0 := by
  simp [Wrapper.child, hpid]

/-- The object has a child before it waits, and none afterwards. -/
theorem Waits.child (hop : Waits w op w') (hready : Ready w (op :: rest)) :
    w.reaped = false ∧ w'.child = 0 := by
  cases hop with
  | waitpid => exact ⟨hready.1, child_of_none rfl⟩
  | reap => exact ⟨hready.1, rfl⟩

/-- The child is given up or waited for. -/
theorem release_ledger {pid : ℕ}
    (h : s.children.val = s.given + (C + {pid})) :
    s.children.val = pid ::ₘ s.given + C ∧
      (s.children.erase pid).val = s.given + C := by
  have hcons : s.children.val = pid ::ₘ (s.given + C) := by
    rw [h, ← Multiset.singleton_add]
    ac_rfl
  refine ⟨?_, ?_⟩
  · rw [hcons, Multiset.cons_add]
  · rw [Finset.erase_val, hcons, Multiset.erase_cons_head]

/-- The ledger of the children goes through every operation. -/
theorem Effect.keepsChildren (heffect : Effect s w ch op s' w' flow)
    (hready : Ready w (op :: rest))
    (h : s.children.val = s.given + (C + w.child)) :
    KeepsChildren C w'.child s s' := by
  have hsame : ∀ {t : State} {v : Wrapper}, t.children = s.children →
      t.abandoned = s.abandoned → t.terminated = s.terminated →
        v.childPid = w.childPid → v.reaped = w.reaped →
          KeepsChildren C v.child s t := by
    intro t v hchildren habandoned hterminated hpid hreaped
    refine ⟨?_, fun hs => habandoned ▸ hs, hterminated⟩
    rw [hchildren, h, State.given, State.given, habandoned, Wrapper.child,
      Wrapper.child, hpid, hreaped]
  cases heffect with
  | @forked pid hnew =>
      obtain ⟨hnone, hreaped, -⟩ := hready
      refine ⟨?_, fun hs => hs, rfl⟩
      rw [child_of_none hnone] at h
      rw [child_of_pid (w := { w with childPid := some pid }) hreaped rfl,
        Finset.insert_val_of_notMem hnew, h,
        add_zero, ← Multiset.singleton_add]
      ac_rfl
  | forkThrows =>
      obtain ⟨hnone, -⟩ := hready
      exact hsame rfl rfl rfl hnone.symm rfl
  | closed hop =>
      cases w.members _ with
      | none => exact hsame rfl rfl rfl rfl rfl
      | some fd =>
          simp only [State.close]
          split <;> exact hsame rfl rfl rfl rfl rfl
  | timerStarted =>
      obtain ⟨-, -, hjoinable, -⟩ := hready
      exact hsame rfl rfl (by simp [hjoinable]) rfl rfl
  | gaveUp hfails hpid hop =>
      obtain ⟨hreaped, hnone⟩ := hop.child hready
      rw [child_of_pid hreaped hpid] at h
      refine ⟨?_, fun hs => ?_, rfl⟩
      · rw [hnone, add_zero]
        exact (release_ledger h).1
      · exact List.forall_mem_cons.mpr ⟨by simp, hs⟩
  | waited hpid hop =>
      obtain ⟨hreaped, hnone⟩ := hop.child hready
      rw [child_of_pid hreaped hpid] at h
      refine ⟨?_, fun hs => hs, rfl⟩
      rw [hnone, add_zero]
      exact (release_ledger h).2
  | _ => exact hsame rfl rfl rfl rfl rfl

end

/-! ## Every run -/

section

variable {s s' t : State} {w w' : Wrapper} {ch : Choice} {op : Op}
  {ops rest : List Op} {place place' : Option Place} {o src : ℕ}

/-- The ledgers are right, and what is left of every call is safe. -/
structure Sound (s : State) : Prop where
  table : s.table.val = s.foreign.val + s.held
  children : s.children.val = s.given + s.childrenHeld
  remembered : ∀ c ∈ s.abandoned, c.2 ≠ .forgotten
  badClose : s.badClose = false
  terminated : s.terminated = false
  ready : ∀ p, some p ∈ s.objects → Ready p.wrapper p.ops

theorem held_of_none (h : ∀ m, w.members m = none) : w.held = 0 :=
  Roster.tally_eq_zero fun m _ => by rw [h m]; rfl

theorem idle_construct (opts : Options) :
    Wrapper.Idle { opts := opts } where
  fresh _ := ⟨fun _ => rfl, rfl, rfl, rfl⟩
  running h := nomatch h
  waited h := nomatch h
  child h := nomatch h
  reaped := rfl

theorem State.idle?_eq (h : s.idle? o = some w) :
    s.objects[o]? = some (some ⟨w, []⟩) := by
  unfold State.idle? at h
  split at h
  · next heq => rw [heq, Option.some.inj h]
  · cases h

/-- What the end of an object does to the ledger of the children. -/
theorem bury_children {C : Multiset ℕ}
    (hC : s.children.val = s.given + (C + w.child)) :
    s.children.val = (s.bury w).given + C := by
  rw [hC, State.bury, Wrapper.child]
  cases hreaped : w.reaped with
  | true =>
      rw [if_pos rfl, if_pos rfl, add_zero]
      rfl
  | false =>
      rw [if_neg (by decide), State.given, State.given, if_neg (by decide),
        List.map_append, List.map_map, ← Multiset.coe_add]
      have hpids : w.childPid.toList.map (Prod.fst ∘ fun pid =>
          (pid, if w.waitThrew then Reason.waitThrew else .forgotten)) =
            w.childPid.toList := List.map_id _
      rw [hpids]
      ac_rfl

/-- An object that has not forgotten its child ends. -/
theorem Wrapper.Spent.bury_remembered (h : w.Spent)
    (hs : ∀ c ∈ s.abandoned, c.2 ≠ .forgotten) :
    ∀ c ∈ (s.bury w).abandoned, c.2 ≠ .forgotten := by
  unfold State.bury
  cases hreaped : w.reaped with
  | true => exact hs
  | false =>
      cases hpid : w.childPid with
      | none => exact hs
      | some pid =>
          have hthrew := h.child (by rw [hpid]; rfl) hreaped
          rw [hthrew]
          exact List.forall_mem_cons.mpr ⟨by simp, hs⟩

/-- An object changes, and the ledgers with it. -/
theorem Sound.replace (hs : Sound s) (ho : s.objects[o]? = some place)
    (hobjects : t.objects = s.objects.set o place')
    (hforeign : t.foreign = s.foreign)
    (htable : ∀ F, s.table.val = F + Place.tally Wrapper.held place →
      KeepsTable F (Place.tally Wrapper.held place') s t)
    (hchildren : ∀ C, s.children.val =
        s.given + (C + Place.tally Wrapper.child place) →
      KeepsChildren C (Place.tally Wrapper.child place') s t)
    (hready : ∀ p, place' = some p → Ready p.wrapper p.ops) : Sound t := by
  obtain ⟨F, hF, hFset⟩ := Roster.exists_rest (Place.tally Wrapper.held) ho
  obtain ⟨C, hC, hCset⟩ := Roster.exists_rest (Place.tally Wrapper.child) ho
  have hkeepsTable := htable (s.foreign.val + F)
    (by rw [hs.table, State.held, hF, add_comm _ F, add_assoc])
  have hkeepsChildren := hchildren C
    (by rw [hs.children, State.childrenHeld, hC, add_comm _ C])
  constructor
  · rw [hforeign, State.held, hobjects, hFset, add_comm _ F, ← add_assoc]
    exact hkeepsTable.table
  · rw [State.childrenHeld, hobjects, hCset, add_comm _ C]
    exact hkeepsChildren.children
  · exact hkeepsChildren.remembered hs.remembered
  · exact hkeepsTable.badClose.trans hs.badClose
  · exact hkeepsChildren.terminated.trans hs.terminated
  · intro p hp
    rw [hobjects] at hp
    obtain hold | rfl := List.mem_or_eq_of_mem_set hp
    · exact hs.ready p hold
    · exact hready p rfl

/-- An object changes that holds what it held. -/
theorem Sound.put {p : Place} (hs : Sound s)
    (ho : s.objects[o]? = some (some p)) {ops : List Op}
    (hmembers : w.members = p.wrapper.members)
    (hpid : w.childPid = p.wrapper.childPid)
    (hreaped : w.reaped = p.wrapper.reaped) (hready : Ready w ops) :
    Sound (s.put o w ops) := by
  refine hs.replace ho rfl rfl (fun F hF => ⟨hF.trans ?_, rfl⟩)
    (fun C hC => ⟨hC.trans ?_, fun hr => hr, rfl⟩) fun p' hp' => ?_
  · show F + p.wrapper.held = F + w.held
    rw [Wrapper.held, Wrapper.held, hmembers]
  · show _ + (C + p.wrapper.child) = _ + (C + w.child)
    rw [Wrapper.child, Wrapper.child, hpid, hreaped]
    rfl
  · obtain rfl := Option.some.inj hp'
    exact hready

theorem Sound.exec (hs : Sound s)
    (ho : s.objects[o]? = some (some ⟨w, op :: rest⟩)) {flow : Flow}
    (hexec : exec s w ch op = some (s', w', flow)) :
    Sound (s'.put o w' (flow.ops op rest)) := by
  have heffect := exec_effect hexec
  obtain ⟨hforeign, hobjects⟩ := heffect.frame
  have hready := hs.ready _ (List.mem_of_getElem? ho)
  refine hs.replace ho (congrArg (List.set · o _) hobjects) hforeign
    (fun F hF => ?_) (fun C hC => ?_) fun p hp => ?_
  · have hkeeps := heffect.keepsTable hready hF
    exact ⟨hkeeps.table, hkeeps.badClose⟩
  · have hkeeps := heffect.keepsChildren hready hC
    exact ⟨hkeeps.children, hkeeps.remembered, hkeeps.terminated⟩
  · obtain rfl := Option.some.inj hp
    exact heffect.ready hready

theorem Sound.free (hs : Sound s)
    (ho : s.objects[o]? = some (some ⟨w, .free :: rest⟩)) :
    Sound { s.bury w with objects := s.objects.set o none } := by
  have hspent : w.Spent := hs.ready _ (List.mem_of_getElem? ho)
  refine hs.replace ho rfl rfl (fun F hF => ⟨?_, rfl⟩)
    (fun C hC => ⟨?_, hspent.bury_remembered, ?_⟩) fun p hp => nomatch hp
  · exact hF.trans (congrArg (F + ·) (held_of_none hspent.members))
  · exact (bury_children hC).trans (congrArg
      ((s.bury w).given + ·) (add_zero C).symm)
  · show (s.terminated || w.timerJoinable) = s.terminated
    rw [hspent.timerJoinable, Bool.or_false]

theorem held_movedFrom (w : Wrapper) : w.movedFrom.held = 0 :=
  held_of_none fun _ => rfl

theorem Sound.transfer (hs : Sound s)
    (ho : s.objects[o]? = some (some ⟨w, .transfer src :: rest⟩))
    (hsrc : s.objects[src]? = some (some ⟨w', []⟩)) :
    Sound (((s.bury w).put o w' []).put src w'.movedFrom []) := by
  have hspent : w.Spent := hs.ready _ (List.mem_of_getElem? ho)
  have hne : o ≠ src := by
    rintro rfl
    rw [ho] at hsrc
    cases hsrc
  have hheld := Roster.tally_move (f := Place.tally Wrapper.held) ho hsrc hne
    (some ⟨w'.movedFrom, []⟩)
  have hchild := Roster.tally_move (f := Place.tally Wrapper.child) ho hsrc hne
    (some ⟨w'.movedFrom, []⟩)
  simp only [Place.tally, held_of_none hspent.members, held_movedFrom,
    zero_add] at hheld
  have hchild' : w.child + Roster.tally (Place.tally Wrapper.child)
      ((s.objects.set o (some ⟨w', []⟩)).set src (some ⟨w'.movedFrom, []⟩)) =
        Roster.tally (Place.tally Wrapper.child) s.objects :=
    hchild.trans (zero_add _)
  constructor
  · exact hs.table.trans (congrArg (s.foreign.val + ·) hheld.symm)
  · have hrest : s.children.val = s.given +
        (Roster.tally (Place.tally Wrapper.child) ((s.objects.set o
          (some ⟨w', []⟩)).set src (some ⟨w'.movedFrom, []⟩)) + w.child) := by
      rw [hs.children, State.childrenHeld, ← hchild', add_comm w.child]
    exact bury_children hrest
  · exact hspent.bury_remembered hs.remembered
  · exact hs.badClose
  · show (s.terminated || w.timerJoinable) = false
    rw [hspent.timerJoinable, Bool.or_false, hs.terminated]
  · intro p hp
    obtain hp | heq := List.mem_or_eq_of_mem_set hp
    · obtain hold | heq := List.mem_or_eq_of_mem_set hp
      · exact hs.ready p hold
      · obtain rfl := Option.some.inj heq
        exact hs.ready _ (List.mem_of_getElem? hsrc)
    · obtain rfl := Option.some.inj heq
      exact idle_movedFrom w'

theorem Sound.moveConstruct (hs : Sound s)
    (hsrc : s.objects[src]? = some (some ⟨w, []⟩)) :
    Sound { s with
      objects := s.objects.set src (some ⟨w.movedFrom, []⟩) ++
        [some ⟨w, []⟩] } := by
  have hsum : ∀ f : Wrapper → Multiset ℕ, f w.movedFrom = 0 →
      Roster.tally (Place.tally f)
        (s.objects.set src (some ⟨w.movedFrom, []⟩) ++ [some ⟨w, []⟩]) =
          Roster.tally (Place.tally f) s.objects := by
    intro f hf
    have hset := Roster.tally_set (f := Place.tally f) hsrc
      (some ⟨w.movedFrom, []⟩)
    rw [Roster.tally_append, Roster.tally_cons, Roster.tally_nil, add_zero,
      add_comm]
    refine hset.trans ?_
    show f w.movedFrom + _ = _
    rw [hf, zero_add]
  constructor
  · exact hs.table.trans (congrArg (s.foreign.val + ·)
      (hsum _ (held_movedFrom w)).symm)
  · exact hs.children.trans (congrArg (s.given + ·)
      (hsum Wrapper.child rfl).symm)
  · exact hs.remembered
  · exact hs.badClose
  · exact hs.terminated
  · intro p hp
    obtain hp | hp := List.mem_append.mp hp
    · obtain hold | heq := List.mem_or_eq_of_mem_set hp
      · exact hs.ready p hold
      · obtain rfl := Option.some.inj heq
        exact idle_movedFrom w
    · obtain rfl := Option.some.inj (List.mem_singleton.mp hp)
      exact hs.ready _ (List.mem_of_getElem? hsrc)

theorem Sound.construct (hs : Sound s) (opts : Options) :
    Sound { s with objects := s.objects ++ [some ⟨{ opts := opts }, []⟩] } := by
  have hsum : ∀ f : Wrapper → Multiset ℕ, f { opts := opts } = 0 →
      Roster.tally (Place.tally f)
        (s.objects ++ [some ⟨{ opts := opts }, []⟩]) =
          Roster.tally (Place.tally f) s.objects := by
    intro f hf
    rw [Roster.tally_append, Roster.tally_cons, Roster.tally_nil, add_zero]
    show _ + f { opts := opts } = _
    rw [hf, add_zero]
  constructor
  · exact hs.table.trans (congrArg (s.foreign.val + ·)
      (hsum _ (held_of_none fun _ => rfl)).symm)
  · exact hs.children.trans (congrArg (s.given + ·)
      (hsum Wrapper.child rfl).symm)
  · exact hs.remembered
  · exact hs.badClose
  · exact hs.terminated
  · intro p hp
    obtain hold | hp := List.mem_append.mp hp
    · exact hs.ready p hold
    · obtain rfl := Option.some.inj (List.mem_singleton.mp hp)
      exact idle_construct opts

theorem step_sound (hs : Sound s) {a : Action} (h : step s a = some s') :
    Sound s' := by
  cases a with
  | construct opts =>
      cases h
      exact hs.construct opts
  | moveConstruct src =>
      obtain ⟨w, hw, rfl⟩ := Option.map_eq_some_iff.mp h
      exact hs.moveConstruct (State.idle?_eq hw)
  | moveAssign dst src =>
      simp only [step] at h
      split at h
      · cases h
        exact hs
      · obtain ⟨w, hw, rfl⟩ := Option.map_eq_some_iff.mp h
        have hdst := State.idle?_eq hw
        have hidle : w.Idle := hs.ready _ (List.mem_of_getElem? hdst)
        exact hs.put hdst rfl rfl rfl (ready_destructor hidle (.inr ⟨src, rfl⟩))
  | begin o c =>
      obtain ⟨w, hw, rfl⟩ := Option.map_eq_some_iff.mp h
      have ho := State.idle?_eq hw
      have hidle : w.Idle := hs.ready _ (List.mem_of_getElem? ho)
      have hsame : (begin w c).wrapper.members = w.members ∧
          (begin w c).wrapper.childPid = w.childPid ∧
            (begin w c).wrapper.reaped = w.reaped := by
        cases c with
        | Start | Run =>
            simp only [begin]
            split <;> exact ⟨rfl, rfl, rfl⟩
        | _ => exact ⟨rfl, rfl, rfl⟩
      exact hs.put ho hsame.1 hsame.2.1 hsame.2.2 (ready_begin hidle c)
  | op o ch =>
      simp only [step, opStep] at h
      split at h
      · next w op rest ho =>
          split at h
          · cases h
            exact hs.free ho
          · next src =>
              obtain ⟨other, hother, rfl⟩ := Option.map_eq_some_iff.mp h
              exact hs.transfer ho (State.idle?_eq hother)
          · obtain ⟨⟨t, w', flow⟩, hexec, rfl⟩ := Option.map_eq_some_iff.mp h
            exact hs.exec ho hexec
      · cases h
  | openOther fd =>
      simp only [step] at h
      split at h
      · cases h
      · next hfd =>
          cases h
          have hfd' : fd ∉ s.foreign := fun hmem => hfd (by
            rw [← Finset.mem_val, hs.table]
            exact Multiset.mem_add.mpr (.inl hmem))
          refine ⟨?_, hs.children, hs.remembered, hs.badClose, hs.terminated,
            hs.ready⟩
          show (insert fd s.table).val = (insert fd s.foreign).val + s.held
          rw [Finset.insert_val_of_notMem hfd, Finset.insert_val_of_notMem hfd',
            hs.table, Multiset.cons_add]
  | closeOther fd =>
      simp only [step] at h
      split at h
      · next hfd =>
          cases h
          refine ⟨?_, hs.children, hs.remembered, hs.badClose, hs.terminated,
            hs.ready⟩
          show (s.table.erase fd).val = (s.foreign.erase fd).val + s.held
          rw [Finset.erase_val, Finset.erase_val, hs.table,
            Multiset.erase_add_left_pos _ hfd]
      · cases h

/-- Every descriptor and every child is in one place. -/
structure Accounted (s : State) : Prop where
  descriptors : s.table.val = s.foreign.val + s.held
  children : s.children.val = s.given + s.childrenHeld
  /-- A child is given up by a `waitpid` that fails or a `Wait` that throws. -/
  reasons : ∀ c ∈ s.abandoned, c.2 = .waitpidFailed ∨ c.2 = .waitThrew
  badClose : s.badClose = false
  terminated : s.terminated = false
  /-- A `Wait` that returns leaves nothing open, and no child. -/
  waited : ∀ w, some ⟨w, []⟩ ∈ s.objects → w.waited = true →
    w.startThrew = false → w.waitThrew = false →
      (∀ m, w.members m = none) ∧ w.childPid = none

theorem reachable_sound (hs : Transition.Reachable step init s) : Sound s := by
  refine hs.invariant (fun t ht => ?_) fun _ _ _ ht _ h => step_sound ht h
  obtain ⟨htable, hchildren, hobjects, habandoned, hbad, hterm⟩ := ht
  constructor
  · rw [htable, State.held, hobjects, Roster.tally_nil, add_zero]
  · rw [hchildren, State.given, habandoned, State.childrenHeld, hobjects]
    rfl
  · rw [habandoned]
    exact fun c hc => absurd hc List.not_mem_nil
  · exact hbad
  · exact hterm
  · intro p hp
    rw [hobjects] at hp
    exact absurd hp List.not_mem_nil

/-- Whatever calls are made on whichever wrappers, and whatever fails, no
descriptor is lost or closed twice, no child is forgotten except by a `waitpid`
that fails or a `Wait` that throws, and no running thread is destroyed. -/
theorem reachable_accounted (hs : Transition.Reachable step init s) :
    Accounted s := by
  have hsound := reachable_sound hs
  refine ⟨hsound.table, hsound.children, fun c hc => ?_, hsound.badClose,
    hsound.terminated, fun w hw hwaited hthrew hthrew' => ?_⟩
  · have hreason := hsound.remembered c hc
    cases hwhy : c.2 with
    | waitpidFailed => exact .inl rfl
    | waitThrew => exact .inr rfl
    | forgotten => exact absurd hwhy hreason
  have hidle : w.Idle := hsound.ready _ hw
  exact ⟨hidle.waited hwaited hthrew hthrew', hidle.child hwaited hthrew'⟩

/-- A reader with a timeout, run to its end. -/
def timedRun : List Action :=
  [.construct { timeout := 10 }, .begin 0 .Run,
    .op 0 { readEnd := 3, writeEnd := 4 },
    .op 0 { readEnd := 5, writeEnd := 6 }, .op 0 { pid := 100 }] ++
  List.replicate 12 (.op 0 {})

theorem timedRun_ends : (Transition.run step {} timedRun).map
    (fun s => (s.table, s.children)) = some (∅, ∅) := by decide

theorem initial_mem : ({} : State) ∈ init :=
  ⟨rfl, rfl, rfl, rfl, rfl, rfl⟩

theorem reachable_accounted_timedRun :
    ∃ s, Transition.run step {} timedRun = some s ∧ Accounted s ∧
      s.table = ∅ ∧ s.children = ∅ := by
  obtain ⟨s, hrun, heq⟩ := Option.map_eq_some_iff.mp timedRun_ends
  obtain ⟨htable, hchildren⟩ := Prod.mk.inj heq
  exact ⟨s, hrun, reachable_accounted (.run (.start initial_mem) hrun),
    htable, hchildren⟩

/-! ## When only `Start` fails -/

/-- The operations of `Start` that may fail. -/
def Op.starts : Op → Bool
  | .createPipe _ | .fork | .startTimer => true
  | _ => false

/-- No callback throws, and no `waitpid` fails. -/
def Regular (s : State) : Action → Prop
  | .op o ch => ∀ w op rest, s.objects[o]? = some (some ⟨w, op :: rest⟩) →
      ch.fails = true → op.starts = true
  | _ => True

/-- No child is lost, and every `Wait` so far has returned. -/
structure Unlost (s : State) : Prop extends Sound s where
  abandoned : s.abandoned = []
  returned : ∀ p, some p ∈ s.objects → p.wrapper.waitThrew = false

theorem Effect.unlost {flow : Flow} (heffect : Effect s w ch op s' w' flow)
    (hregular : ch.fails = true → op.starts = true) :
    s'.abandoned = s.abandoned ∧ w'.waitThrew = w.waitThrew := by
  cases heffect with
  | ioThrows hfails hop =>
      obtain rfl | ⟨m, rfl⟩ := hop <;> cases hregular hfails
  | gaveUp hfails hpid hop =>
      cases hop <;> cases hregular hfails
  | waited hpid hop => cases hop <;> exact ⟨rfl, rfl⟩
  | closed hop =>
      refine ⟨?_, rfl⟩
      cases w.members _ with
      | none => rfl
      | some fd =>
          simp only [State.close]
          split <;> rfl
  | _ => exact ⟨rfl, rfl⟩

theorem Wrapper.Spent.bury_abandoned (h : w.Spent)
    (hreturned : w.waitThrew = false) :
    (s.bury w).abandoned = s.abandoned := by
  unfold State.bury
  cases hreaped : w.reaped with
  | true => rfl
  | false =>
      cases hpid : w.childPid with
      | none => rfl
      | some pid =>
          have hthrew := h.child (by rw [hpid]; rfl) hreaped
          rw [hreturned] at hthrew
          cases hthrew

theorem returned_set {objects : List (Option Place)}
    (hs : ∀ p, some p ∈ objects → p.wrapper.waitThrew = false)
    (hplace : ∀ p, place = some p → p.wrapper.waitThrew = false) :
    ∀ p, some p ∈ objects.set o place → p.wrapper.waitThrew = false := by
  intro p hp
  obtain hold | heq := List.mem_or_eq_of_mem_set hp
  · exact hs p hold
  · exact hplace p heq.symm

theorem returned_append {objects : List (Option Place)}
    (hs : ∀ p, some p ∈ objects → p.wrapper.waitThrew = false)
    {q : Place} (hq : q.wrapper.waitThrew = false) :
    ∀ p, some p ∈ objects ++ [some q] → p.wrapper.waitThrew = false := by
  intro p hp
  obtain hold | hp := List.mem_append.mp hp
  · exact hs p hold
  · obtain rfl := Option.some.inj (List.mem_singleton.mp hp)
    exact hq

theorem begin_waitThrew (w : Wrapper) (c : Call) :
    (begin w c).wrapper.waitThrew = w.waitThrew := by
  cases c with
  | Start | Run =>
      simp only [begin]
      split <;> rfl
  | _ => rfl

theorem step_unlost (hs : Unlost s) {a : Action} (hregular : Regular s a)
    (h : step s a = some s') : Unlost s' := by
  have hsome : ∀ {p q : Place}, q.wrapper.waitThrew = false →
      some q = some p → p.wrapper.waitThrew = false := by
    rintro p q hq heq
    obtain rfl := Option.some.inj heq
    exact hq
  have hobject : ∀ {o : ℕ} {p : Place}, s.objects[o]? = some (some p) →
      p.wrapper.waitThrew = false :=
    fun ho => hs.returned _ (List.mem_of_getElem? ho)
  have hkept : s'.abandoned = [] ∧
      ∀ p, some p ∈ s'.objects → p.wrapper.waitThrew = false := by
    cases a with
    | construct opts =>
        cases h
        exact ⟨hs.abandoned, returned_append hs.returned rfl⟩
    | moveConstruct src =>
        obtain ⟨w, hw, rfl⟩ := Option.map_eq_some_iff.mp h
        refine ⟨hs.abandoned, returned_append (returned_set hs.returned
          fun p => hsome rfl) ?_⟩
        exact hobject (State.idle?_eq hw)
    | moveAssign dst src =>
        simp only [step] at h
        split at h
        · cases h
          exact ⟨hs.abandoned, hs.returned⟩
        · obtain ⟨w, hw, rfl⟩ := Option.map_eq_some_iff.mp h
          have hreturned := hobject (State.idle?_eq hw)
          exact ⟨hs.abandoned, returned_set hs.returned fun p =>
            hsome hreturned⟩
    | begin o c =>
        obtain ⟨w, hw, rfl⟩ := Option.map_eq_some_iff.mp h
        exact ⟨hs.abandoned, returned_set hs.returned fun p =>
          hsome ((begin_waitThrew w c).trans (hobject (State.idle?_eq hw)))⟩
    | op o ch =>
        simp only [step, opStep] at h
        split at h
        · next w op rest ho =>
            have hreturned : w.waitThrew = false := hobject ho
            have hready := hs.ready _ (List.mem_of_getElem? ho)
            split at h
            · cases h
              refine ⟨?_, returned_set hs.returned fun p hp => nomatch hp⟩
              exact (hready.bury_abandoned hreturned).trans hs.abandoned
            · obtain ⟨other, hother, rfl⟩ := Option.map_eq_some_iff.mp h
              refine ⟨?_, returned_set (returned_set hs.returned
                fun p => hsome ?_) fun p => hsome rfl⟩
              · exact (hready.bury_abandoned hreturned).trans hs.abandoned
              · exact hobject (State.idle?_eq hother)
            · obtain ⟨⟨t, w', flow⟩, hexec, rfl⟩ :=
                Option.map_eq_some_iff.mp h
              have heffect := exec_effect hexec
              obtain ⟨habandoned, hthrew⟩ :=
                heffect.unlost (hregular w op rest ho)
              refine ⟨habandoned.trans hs.abandoned, ?_⟩
              show ∀ p, some p ∈ t.objects.set o _ → _
              rw [heffect.frame.2]
              exact returned_set hs.returned fun p =>
                hsome (hthrew.trans hreturned)
        · cases h
    | openOther fd | closeOther fd =>
        simp only [step] at h
        split at h
        all_goals
          cases h
        all_goals exact ⟨hs.abandoned, hs.returned⟩
  exact ⟨step_sound hs.toSound h, hkept.1, hkept.2⟩

/-- Where no callback throws and no `waitpid` fails, every child that nobody
has waited for belongs to an object that is there; once all objects are gone,
no child and no descriptor is left. -/
theorem reachableVia_unlost
    (hs : Transition.ReachableVia step Regular init s) :
    s.children.val = s.childrenHeld ∧
      ((∀ place ∈ s.objects, place = none) →
        s.children = ∅ ∧ s.table = s.foreign) := by
  have hunlost : Unlost s := by
    refine hs.invariant (fun t ht => ?_) fun _ _ _ ht ha h =>
      step_unlost ht ha h
    refine ⟨reachable_sound (.start ht), ht.2.2.2.1, fun p hp => ?_⟩
    rw [ht.2.2.1] at hp
    exact absurd hp List.not_mem_nil
  have hchildren : s.children.val = s.childrenHeld := by
    rw [hunlost.children, State.given, hunlost.abandoned, List.map_nil,
      Multiset.coe_nil, zero_add]
  refine ⟨hchildren, fun hgone => ⟨?_, ?_⟩⟩
  · apply Finset.val_eq_zero.mp
    rw [hchildren]
    exact Roster.tally_eq_zero fun place hplace => hgone place hplace ▸ rfl
  · apply Finset.val_injective
    rw [hunlost.table, State.held, Roster.tally_eq_zero, add_zero]
    exact fun place hplace => hgone place hplace ▸ rfl

def Action.fails : Action → Bool
  | .op _ ch => ch.fails
  | _ => false

theorem regular_of_not_fails {a : Action} (h : a.fails = false) :
    Regular s a := by
  cases a with
  | op o ch =>
      intro w op rest _ hfails
      rw [show ch.fails = false from h] at hfails
      cases hfails
  | _ => trivial

theorem allSteps_regular {acts : List Action}
    (h : acts.all (fun a => !a.fails) = true) :
    Transition.AllSteps step Regular s acts := by
  induction acts generalizing s with
  | nil => trivial
  | cons a acts ih =>
      rw [List.all_cons, Bool.and_eq_true, Bool.not_eq_true'] at h
      exact fun _ _ => ⟨regular_of_not_fails h.1, ih h.2⟩

/-- A reader that is destroyed without a `Wait`. -/
def destroyedRun : List Action :=
  [.construct {}, .begin 0 .Start, .op 0 { readEnd := 3, writeEnd := 4 },
    .op 0 { pid := 100 }, .op 0 {}, .op 0 {}, .begin 0 .destroy] ++
  List.replicate 14 (.op 0 {})

theorem destroyedRun_ends : (Transition.run step {} destroyedRun).map
    (fun s => s.objects.map Option.isSome) = some [false] := by decide

theorem reachableVia_unlost_destroyedRun :
    ∃ s, Transition.run step {} destroyedRun = some s ∧ s.children = ∅ ∧
      s.table = s.foreign := by
  obtain ⟨s, hrun, heq⟩ := Option.map_eq_some_iff.mp destroyedRun_ends
  have hall : Transition.AllSteps step Regular {} destroyedRun :=
    allSteps_regular (by decide)
  have hend := reachableVia_unlost
    ((Transition.ReachableVia.start initial_mem).run hall hrun)
  refine ⟨s, hrun, hend.2 fun place hplace => ?_⟩
  have hnone := List.mem_map_of_mem (f := Option.isSome) hplace
  rw [heq, List.mem_singleton] at hnone
  exact Option.not_isSome_iff_eq_none.mp (hnone ▸ by decide)

/-- A callback that throws costs the child. -/
example : (Transition.run step {}
    ([.construct {}, .begin 0 .Run, .op 0 { readEnd := 3, writeEnd := 4 },
      .op 0 { pid := 100 }, .op 0 {}, .op 0 {}, .op 0 {},
      .op 0 { fails := true }, .begin 0 .destroy] ++
        List.replicate 14 (.op 0 {}))).map (fun s => s.abandoned) =
      some [(100, .waitThrew)] := by decide

end

end Descriptors
end PopenWrapper
end Yacul
