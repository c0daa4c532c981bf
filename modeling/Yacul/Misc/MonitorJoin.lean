import Yacul.Misc.MonitorState

/-!
# Joining the monitor threads

The invariant speaks of the numbers of joins of the threads, of the handle and
whether it is valid.  A `WaitForStop` that has read the valid handle owns it
until it invalidates it; a valid handle nobody owns is that of a thread that
has not been joined.
-/

namespace Yacul
namespace MonitorProcess

/-- The numbers of joins of the threads. -/
def State.joined (s : State) : List ℕ := s.monitors.map Monitor.joined

/-- What a caller knows of the handle: before and after its join, and before
it makes a new handle valid. -/
def Role.Owns (joined : List ℕ) (handle : ℕ) (valid : Bool) : Role → Prop
  | .joining tid =>
      valid = true ∧ handle = tid ∧ joined[handle]? = some 0
  | .invalidating => valid = true ∧ joined[handle]? = some 1
  | .validating => valid = false ∧ joined[handle]? = some 0
  | _ => True

/-- The invariant of the joins. -/
structure JoinInv (joined : List ℕ) (handle : ℕ) (valid : Bool)
    (clients : List Pc) : Prop where
  counts : ∀ i n, joined[i]? = some n →
    n = 1 ∨ n = 0 ∧ handle = i ∧
      (valid = true ∨ ∃ pc ∈ clients, pc.validating = true)
  alone : clients.countP Pc.joining ≤ 1
  owns : ∀ pc ∈ clients, pc.role.Owns joined handle valid
  next : valid = true → clients.countP Pc.joining = 0 →
    joined[handle]? = some 0

section

variable {s s' : State} {a : Action} {joined : List ℕ} {handle t : ℕ}
  {valid : Bool} {clients : List Pc} {pc pc' : Pc}

theorem joining_iff :
    pc.joining = true ↔
      (∃ tid, pc.role = .joining tid) ∨ pc.role = .invalidating := by
  constructor
  · intro h
    cases pc with
    | waitJoin tid => exact .inl ⟨tid, rfl⟩
    | waitInvalidate => exact .inr rfl
    | _ => exact Bool.noConfusion h
  · rintro (⟨tid, h⟩ | h) <;> cases pc <;> first | rfl | cases h

theorem validating_iff : pc.validating = true ↔ pc.role = .validating := by
  constructor <;> intro h <;> cases pc <;> first | rfl | cases h

theorem joining_congr (h : pc'.role = pc.role) : pc'.joining = pc.joining := by
  rw [Bool.eq_iff_iff, joining_iff, joining_iff, h]

theorem validating_congr (h : pc'.role = pc.role) :
    pc'.validating = pc.validating := by
  rw [Bool.eq_iff_iff, validating_iff, validating_iff, h]

/-- A caller that has nothing to do with the handle. -/
def Role.neutral : Role → Bool
  | .joining _ | .invalidating | .validating => false
  | _ => true

theorem neutral_iff :
    pc.role.neutral = true ↔ pc.joining = false ∧ pc.validating = false := by
  constructor
  · intro h
    cases pc <;> first | exact ⟨rfl, rfl⟩ | cases h
  · rintro ⟨hjoining, hvalidating⟩
    cases pc <;>
      first
      | rfl
      | exact Bool.noConfusion hjoining
      | exact Bool.noConfusion hvalidating

theorem Role.Owns.of_neutral {r : Role} (h : r.neutral = true) :
    r.Owns joined handle valid := by
  cases r with
  | joining | invalidating | validating => cases h
  | outside | entered | notRunning | inactive | creating | failing => trivial

/-- While the handle is not valid no caller joins. -/
theorem not_joining_of_owns (h : pc.role.Owns joined handle false) :
    pc.joining = false := by
  apply Bool.eq_false_iff.mpr
  intro hjoining
  rcases joining_iff.mp hjoining with ⟨tid, hrole⟩ | hrole
  · rw [hrole] at h
    cases h.1
  · rw [hrole] at h
    cases h.1

/-- While the handle is valid no caller is about to make it so. -/
theorem not_validating_of_owns (h : pc.role.Owns joined handle true) :
    pc.validating = false := by
  apply Bool.eq_false_iff.mpr
  intro hvalidating
  rw [validating_iff.mp hvalidating] at h
  cases h.1

theorem joins_of_joinInv
    (h : JoinInv s.joined s.shared.monitor_thread
      s.shared.monitor_thread_valid s.clients) : Joins s := by
  intro i m hm
  apply h.counts i m.joined
  rw [State.joined, List.getElem?_map, hm]
  rfl

/-- The others after a caller has moved. -/
theorem forall_mem_set {p : Pc → Prop} (hpc' : p pc')
    (hothers : ∀ i other, t ≠ i → clients[i]? = some other → p other) :
    ∀ other ∈ clients.set t pc', p other := by
  intro other hother
  obtain ⟨i, hi⟩ := List.mem_iff_getElem?.mp hother
  by_cases hit : t = i
  · subst hit
    obtain ⟨hlt, -⟩ := List.getElem?_eq_some_iff.mp hi
    rw [List.length_set] at hlt
    rw [List.getElem?_set_self hlt] at hi
    obtain rfl := Option.some.inj hi
    exact hpc'
  · rw [List.getElem?_set_ne hit] at hi
    exact hothers i other hit hi

/-- A caller that keeps its role. -/
theorem JoinInv.keep (hs : JoinInv joined handle valid clients)
    (hpc : clients[t]? = some pc)
    (hjoining : pc'.joining = pc.joining)
    (hvalidating : pc'.validating = pc.validating)
    (howns : pc'.role.Owns joined handle valid) :
    JoinInv joined handle valid (clients.set t pc') := by
  have hcount := Roster.countP_set_add (p := Pc.joining) hpc pc'
  rw [hjoining] at hcount
  have heq := Nat.add_left_cancel hcount
  refine ⟨?_, heq ▸ hs.alone, ?_, ?_⟩
  · intro i n hn
    rcases hs.counts i n hn with hone | ⟨hzero, hi, hheld⟩
    · exact .inl hone
    · refine .inr ⟨hzero, hi, hheld.imp_right ?_⟩
      rintro ⟨other, hother, hv⟩
      have hset := Roster.countP_set_add (p := Pc.validating) hpc pc'
      rw [hvalidating] at hset
      have hpos : 0 < clients.countP Pc.validating :=
        List.countP_pos_iff.mpr ⟨other, hother, hv⟩
      rw [← Nat.add_left_cancel hset] at hpos
      exact List.countP_pos_iff.mp hpos
  · exact forall_mem_set howns fun i other _ hi =>
      hs.owns other (List.mem_of_getElem? hi)
  · rw [heq]
    exact hs.next

/-- A caller that has nothing to do with the handle before and after. -/
theorem JoinInv.neutral (hs : JoinInv joined handle valid clients)
    (hpc : clients[t]? = some pc) (h : pc.role.neutral = true)
    (h' : pc'.role.neutral = true) :
    JoinInv joined handle valid (clients.set t pc') := by
  refine hs.keep hpc ?_ ?_ (.of_neutral h')
  · rw [(neutral_iff.mp h).1, (neutral_iff.mp h').1]
  · rw [(neutral_iff.mp h).2, (neutral_iff.mp h').2]

/-- A `Start` creates a thread while no handle is valid. -/
theorem JoinInv.create (hs : JoinInv joined handle false clients)
    (hpc : clients[t]? = some .startCreate)
    (hnone : ∀ pc ∈ clients, pc.validating = false) :
    JoinInv (joined ++ [0]) joined.length false
      (clients.set t .startValidate) := by
  have hlt := (List.getElem?_eq_some_iff.mp hpc).1
  have hnew : (joined ++ [0])[joined.length]? = some 0 := by simp
  have hcount := Roster.countP_set_add (p := Pc.joining) hpc .startValidate
  have heq := Nat.add_left_cancel (n := 0) hcount
  refine ⟨?_, ?_, ?_, fun h => by cases h⟩
  · intro i n hn
    by_cases hi : i < joined.length
    · rw [List.getElem?_append_left hi] at hn
      rcases hs.counts i n hn with hone | ⟨-, -, hvalid | hvalid⟩
      · exact .inl hone
      · cases hvalid
      · obtain ⟨other, hother, hv⟩ := hvalid
        rw [hnone other hother] at hv
        cases hv
    · have hlength : i < (joined ++ [0]).length :=
        (List.getElem?_eq_some_iff.mp hn).1
      obtain rfl : i = joined.length := by
        rw [List.length_append] at hlength
        simp only [List.length_cons, List.length_nil] at hlength
        omega
      refine .inr ⟨Option.some.inj (hn.symm.trans hnew), rfl, .inr ?_⟩
      exact ⟨_, List.mem_set hlt _, rfl⟩
  · rw [heq]
    exact hs.alone
  · refine forall_mem_set ⟨rfl, hnew⟩ fun i other _ hi => ?_
    have hmem := List.mem_of_getElem? hi
    exact .of_neutral (neutral_iff.mpr
      ⟨not_joining_of_owns (hs.owns other hmem), hnone other hmem⟩)

/-- A `Start` makes the handle valid. -/
theorem JoinInv.validate (hs : JoinInv joined handle valid clients)
    (hpc : clients[t]? = some .startValidate)
    (hnone : ∀ i other, t ≠ i → clients[i]? = some other →
      other.validating = false) :
    JoinInv joined handle true (clients.set t .idle) := by
  obtain ⟨rfl, hzero⟩ := hs.owns _ (List.mem_of_getElem? hpc)
  have hcount := Roster.countP_set_add (p := Pc.joining) hpc .idle
  have heq := Nat.add_left_cancel (n := 0) hcount
  refine ⟨?_, ?_, ?_, fun _ _ => hzero⟩
  · intro i n hn
    rcases hs.counts i n hn with hone | ⟨hn0, hi, -⟩
    · exact .inl hone
    · exact .inr ⟨hn0, hi, .inl rfl⟩
  · rw [heq]
    exact hs.alone
  · refine forall_mem_set trivial fun i other hne hi => ?_
    have howns := hs.owns other (List.mem_of_getElem? hi)
    exact .of_neutral (neutral_iff.mpr
      ⟨not_joining_of_owns howns, hnone i other hne hi⟩)

/-- A `WaitForStop` reads a valid handle that no other has. -/
theorem JoinInv.read (hs : JoinInv joined handle true clients)
    (hpc : clients[t]? = some .waitRead)
    (hnone : ∀ pc ∈ clients, pc.joining = false) :
    JoinInv joined handle true (clients.set t (.waitJoin handle)) := by
  have hzero : clients.countP Pc.joining = 0 := by
    apply List.countP_eq_zero.mpr
    intro pc hpc'
    rw [hnone pc hpc']
    exact Bool.false_ne_true
  have hcount := Roster.countP_set_add (p := Pc.joining) hpc
    (.waitJoin handle)
  rw [hzero] at hcount
  change 0 + _ = 1 + 0 at hcount
  rw [Nat.zero_add] at hcount
  refine ⟨?_, ?_, ?_, ?_⟩
  · intro i n hn
    rcases hs.counts i n hn with hone | ⟨hn0, hi, -⟩
    · exact .inl hone
    · exact .inr ⟨hn0, hi, .inl rfl⟩
  · omega
  · exact forall_mem_set ⟨rfl, rfl, hs.next rfl hzero⟩ fun i other _ hi =>
      hs.owns other (List.mem_of_getElem? hi)
  · intro _ hnone'
    omega

/-- The other callers while one has the handle. -/
theorem JoinInv.others (hs : JoinInv joined handle true clients)
    (hpc : clients[t]? = some pc) (hjoining : pc.joining = true) {i : ℕ}
    {other : Pc} (hne : t ≠ i) (hi : clients[i]? = some other) :
    other.role.neutral = true := by
  apply neutral_iff.mpr
  constructor
  · apply Bool.eq_false_iff.mpr
    intro hother
    exact hne
      (Roster.eq_of_countP_le_one hs.alone hpc hjoining hi hother)
  · exact not_validating_of_owns (hs.owns other (List.mem_of_getElem? hi))

/-- The thread is joined. -/
theorem JoinInv.join (hs : JoinInv joined handle valid clients) {tid : ℕ}
    (hpc : clients[t]? = some (.waitJoin tid)) {n : ℕ}
    (hn : joined[tid]? = some n) :
    JoinInv (joined.set tid (n + 1)) handle valid
      (clients.set t .waitInvalidate) := by
  obtain ⟨rfl, rfl, hzero⟩ := hs.owns _ (List.mem_of_getElem? hpc)
  obtain rfl : n = 0 := Option.some.inj (hn.symm.trans hzero)
  have hlt := (List.getElem?_eq_some_iff.mp hn).1
  have hcount := Roster.countP_set_add (p := Pc.joining) hpc .waitInvalidate
  have heq := Nat.add_left_cancel (n := 1) hcount
  have hpos : 0 < clients.countP Pc.joining :=
    List.countP_pos_iff.mpr ⟨_, List.mem_of_getElem? hpc, rfl⟩
  refine ⟨?_, ?_, ?_, ?_⟩
  · intro i m hm
    by_cases hi : handle = i
    · subst hi
      rw [List.getElem?_set_self hlt] at hm
      exact .inl (Option.some.inj hm).symm
    · rw [List.getElem?_set_ne hi] at hm
      rcases hs.counts i m hm with hone | ⟨-, heq', -⟩
      · exact .inl hone
      · exact absurd heq' hi
  · rw [heq]
    exact hs.alone
  · refine forall_mem_set ⟨rfl, List.getElem?_set_self hlt⟩ ?_
    intro i other hne hi
    exact .of_neutral (hs.others hpc rfl hne hi)
  · intro _ hnone
    rw [heq] at hnone
    omega

/-- The handle of a joined thread is given up. -/
theorem JoinInv.invalidate (hs : JoinInv joined handle valid clients)
    (hpc : clients[t]? = some .waitInvalidate) :
    JoinInv joined handle false (clients.set t .waitStoreState) := by
  obtain ⟨rfl, hone⟩ := hs.owns _ (List.mem_of_getElem? hpc)
  have hcount := Roster.countP_set_add (p := Pc.joining) hpc .waitStoreState
  change 1 + _ = 0 + _ at hcount
  have halone := hs.alone
  refine ⟨?_, by omega, ?_, fun h => by cases h⟩
  · intro i n hn
    rcases hs.counts i n hn with hn1 | ⟨rfl, rfl, -⟩
    · exact .inl hn1
    · rw [hone] at hn
      cases hn
  · refine forall_mem_set trivial ?_
    intro i other hne hi
    exact .of_neutral (hs.others hpc rfl hne hi)

/-! ## Steps -/

/-- The invariant of the joins in a state. -/
def State.JoinInv (s : State) : Prop :=
  MonitorProcess.JoinInv s.joined s.shared.monitor_thread
    s.shared.monitor_thread_valid s.clients

theorem joinInv_init (clients : ℕ) : (init clients).JoinInv := by
  have hidle : ∀ pc ∈ (init clients).clients, pc = .idle :=
    fun pc hpc => List.eq_of_mem_replicate hpc
  have hzero : (init clients).clients.countP Pc.joining = 0 := by
    apply List.countP_eq_zero.mpr
    intro pc hpc
    rw [hidle pc hpc]
    exact Bool.false_ne_true
  have howns : ∀ pc ∈ (init clients).clients,
      pc.role.Owns (init clients).joined 0 false := by
    intro pc hpc
    rw [hidle pc hpc]
    trivial
  exact JoinInv.mk (fun i n hn => by cases hn) (by omega) howns
    (fun h => by cases h)

theorem State.JoinInv.clientMoves (hs : s.JoinInv) (hmutex : MutexInv s)
    {created : Bool} (hpc : s.clients[t]? = some pc)
    (hturn : TakesTurns s (.client t created))
    {sh : Shared} {monitors : List Monitor}
    (h : ClientMoves s.shared s.monitors pc sh monitors pc') :
    State.JoinInv
      { shared := sh, monitors := monitors,
        clients := s.clients.set t pc' } := by
  have hturn : pc.TakesTurn s := hturn pc hpc
  cases h with
  | quiet hsame hrole =>
      unfold State.JoinInv
      simp only [hsame.handle, hsame.valid]
      refine JoinInv.keep hs hpc (joining_congr hrole)
        (validating_congr hrole) ?_
      rw [hrole]
      exact hs.owns pc (List.mem_of_getElem? hpc)
  | lock | notRunning | refuse | notStopping | unlock | storeRunning
  | createFails | fail | storeStopping | storeIdle =>
      exact JoinInv.neutral hs hpc rfl rfl
  | create =>
      have hvalid : s.shared.monitor_thread_valid = false := hturn
      have hnone : ∀ pc ∈ s.clients, pc.validating = false := by
        intro other hother
        apply Bool.eq_false_iff.mpr
        intro hv
        obtain ⟨i, hi⟩ := List.mem_iff_getElem?.mp hother
        have hne : t ≠ i := by
          rintro rfl
          obtain rfl := Option.some.inj (hpc.symm.trans hi)
          cases hv
        have hlocks := hmutex.alone hpc rfl hi hne
        rw [validating_iff.mp hv] at hlocks
        cases hlocks
      unfold State.JoinInv at hs ⊢
      rw [hvalid] at hs
      have hnew := hs.create hpc hnone
      simp only [State.joined, List.map_append, List.map_cons, List.map_nil,
        List.length_map, hvalid] at hnew ⊢
      exact hnew
  | validate =>
      refine JoinInv.validate hs hpc ?_
      intro i other hne hi
      apply Bool.eq_false_iff.mpr
      intro hv
      have hlocks := hmutex.alone hpc rfl hi hne
      rw [validating_iff.mp hv] at hlocks
      cases hlocks
  | read _ hvalid =>
      have hnone := hturn hvalid
      unfold State.JoinInv at hs ⊢
      rw [hvalid] at hs ⊢
      exact hs.read hpc hnone
  | @join tid m hm =>
      have hn : s.joined[tid]? = some m.joined := by
        rw [State.joined, List.getElem?_map, hm]
        rfl
      have hnew := JoinInv.join hs hpc hn
      unfold State.JoinInv
      simp only [State.joined, List.map_set] at hnew ⊢
      exact hnew
  | invalidate => exact JoinInv.invalidate hs hpc

theorem LoopMoves.handle_eq {sh sh' : Shared} {pc pc' : LoopPc}
    (h : LoopMoves sh pc sh' pc') :
    sh'.monitor_thread = sh.monitor_thread ∧
      sh'.monitor_thread_valid = sh.monitor_thread_valid := by
  cases h with
  | quiet hsame => exact ⟨hsame.handle, hsame.valid⟩
  | store => exact ⟨rfl, rfl⟩

theorem step_joinInv (hs : s.JoinInv) (hmutex : MutexInv s)
    (hturn : TakesTurns s a) (h : step s a = some s') : s'.JoinInv := by
  cases step_moves h with
  | @call t c hpc =>
      refine JoinInv.neutral hs hpc rfl ?_
      rw [role_begin]
      rfl
  | client hpc hmoves => exact hs.clientMoves hmutex hpc hturn hmoves
  | @monitor i ch m sh pc hm hmoves =>
      have hjoined : (s.monitors.set i { m with pc := pc }).map
          Monitor.joined = s.monitors.map Monitor.joined := by
        have hget : (s.monitors.map Monitor.joined)[i]? = some m.joined := by
          rw [List.getElem?_map, hm]
          rfl
        obtain ⟨hlt, hget⟩ := List.getElem?_eq_some_iff.mp hget
        rw [List.map_set]
        change (s.monitors.map Monitor.joined).set i m.joined = _
        rw [← hget]
        exact List.set_getElem_self hlt
      obtain ⟨hhandle, hvalid⟩ := hmoves.handle_eq
      unfold State.JoinInv at hs ⊢
      simp only [State.joined, hjoined, hhandle, hvalid]
      exact hs

/-- As long as the calls take turns, every monitor thread is joined once and
no handle is lost before that. -/
theorem reachable_joins (clients : ℕ)
    (hs : Transition.ReachableVia step TakesTurns {init clients} s) :
    Joins s := by
  have hinv : MutexInv s ∧ s.JoinInv := by
    refine hs.invariant (I := fun s => MutexInv s ∧ s.JoinInv) ?_
      fun s a s' hs hturn h =>
        ⟨step_mutexInv hs.1 h, step_joinInv hs.2 hs.1 hturn h⟩
    intro s hinit
    obtain rfl := Set.mem_singleton_iff.mp hinit
    exact ⟨mutexInv_init clients, joinInv_init clients⟩
  exact joins_of_joinInv hinv.2

end

/-! ## Runs of one caller -/

theorem stopsInTurn_takesTurns :
    Transition.AllSteps step TakesTurns (init 1) stopsInTurn := by
  decide

theorem reachable_joins_stopsInTurn :
    Joins ((Transition.run step (init 1) stopsInTurn).get
      stopsInTurn_isSome) := by
  have hstart : Transition.ReachableVia step TakesTurns {init 1} (init 1) :=
    .start rfl
  exact reachable_joins 1
    (hstart.run stopsInTurn_takesTurns
      (Option.some_get stopsInTurn_isSome).symm)

/-- The loop ends by itself when the child has exited once too often, and the
caller starts another one. -/
def startsTwice : List Action :=
  .call 0 (.Start { argv := ["child"], max_restarts := 1 }) ::
    accesses 11 ++ iterations 26 ++ starts

theorem startsTwice_isSome :
    (Transition.run step (init 1) startsTwice).isSome = true := by
  decide

/-- The handle of the first thread is overwritten before it is joined. -/
theorem exists_unjoined : ¬ ∀ s, Reachable s → Joins s := by
  intro hall
  have hreach : Transition.Reachable step {init 1} _ :=
    Transition.reachable_get_run (Set.mem_singleton (init 1)) startsTwice_isSome
  have hjoins := hall _ ⟨1, hreach⟩ 0 { pc := .exited, joined := 0 }
    (by decide)
  rcases hjoins with hone | ⟨-, hhandle, -⟩
  · cases hone
  · exact absurd hhandle (by decide)

end MonitorProcess
end Yacul
