import Yacul.Qos.Ledger

/-!
# Start and Stop

`Start` and `Stop` exchange the running flag atomically, and store the stop
flag and work on the vector of threads afterwards.  While one of them does so,
the other can pass its own exchange, and then the flags and the threads
disagree.  They agree, and every thread is joined once, in every run in which
an exchange succeeds only while no other call is past its own.
-/

namespace Yacul
namespace Qos

/-! ## The property -/

/-- A thread inside `Start` or `Stop`. -/
def Pc.inCall : Pc → Bool
  | .start _ | .stop _ => true
  | _ => false

/-- A thread inside `Start` or `Stop`, past its exchange. -/
def Pc.pastExchange : Pc → Bool
  | .start .exchange | .stop .exchange => false
  | .start _ | .stop _ => true
  | _ => false

/-- A consumer thread that has been created and has not ended. -/
def Alive (s : State) (i : ℕ) : Prop :=
  (∃ c ∈ s.shared.created, c.thread = i) ∧ s.threads[i]? ≠ some .exited

/-- The flags, the threads and the vector agree. -/
structure LifecycleOk (s : State) : Prop where
  running : s.shared.running = true → ∃ n,
    (s.shared.created.filter fun c => c.start = n).length =
        s.shared.config.numThreads ∧
      ∀ i, Alive s i ↔ ∃ c ∈ s.shared.created, c.thread = i ∧ c.start = n
  stopped : s.shared.running = false → ∀ i, ¬ Alive s i
  joined : ∀ c ∈ s.shared.created,
    (s.shared.joined.count c.thread = 1 ∧
      ∀ h ∈ s.shared.consumerThreads, h.thread ≠ c.thread) ∨
    (s.shared.joined.count c.thread = 0 ∧
      ∃ h ∈ s.shared.consumerThreads, h.thread = c.thread ∧ h.joinable = true)

/-- Whenever no `Start` or `Stop` is in progress, the flags, the threads and
the vector agree. -/
def LifecycleSound (s : State) : Prop :=
  (∀ pc ∈ s.threads, pc.inCall = false) → LifecycleOk s

/-- An exchange on the running flag succeeds only while no other `Start` or
`Stop` is past its exchange. -/
def SerialExchange (s : State) (a : Action) : Prop :=
  match access s a with
  | some (.exchange _, _) => ∀ pc ∈ s.threads, pc.pastExchange = false
  | _ => True

instance (s : State) (a : Action) : Decidable (SerialExchange s a) := by
  unfold SerialExchange
  cases access s a with
  | none => exact inferInstance
  | some out =>
      obtain ⟨e, pc⟩ := out
      cases e <;> exact inferInstance

/-! ## The threads of one `Start` -/

/-- A consumer inside the loop that waits for a stop. -/
def Pc.looping : Pc → Bool
  | .loopTest | .pausedTest | .dequeue .consume _ _ _
  | .execute false _ _ => true
  | _ => false

/-- `join` leaves a handle that is not joinable. -/
def Handle.joined (h : Handle) : Handle :=
  { h with joinable := false }

/-- The created threads: `old` ones of earlier calls of `Start`, joined and
gone from the vector; of the last call, `done` have been joined and `rest`
have not. -/
structure Crew (s : State) (old done rest : List Handle) : Prop where
  created : s.shared.created = old ++ (done ++ rest)
  handles : s.shared.consumerThreads = done.map Handle.joined ++ rest
  joined : s.shared.joined = (old ++ done).map Handle.thread
  exited : ∀ c ∈ old ++ done, s.threads[c.thread]? = some .exited
  distinct : (s.shared.created.map Handle.thread).Nodup
  spawned : ∀ c ∈ s.shared.created, c.thread < s.threads.length
  joinable : ∀ c ∈ s.shared.created, c.joinable = true
  starts : ∀ c ∈ s.shared.created, c.start < s.shared.starts
  older : ∀ c ∈ old, ∀ c' ∈ done ++ rest, c.start < c'.start
  same : ∀ c ∈ done ++ rest, ∀ c' ∈ done ++ rest, c.start = c'.start

/-- The threads wait for a stop. -/
def Looping (s : State) (crew : List Handle) : Prop :=
  ∀ c ∈ crew, ∃ pc, s.threads[c.thread]? = some pc ∧ pc.looping = true

/-- How far the call that is past its exchange has come; `none` when there is
no such call. -/
inductive Phase (s : State) (old done rest : List Handle) : Option Pc → Prop
  | stopped (hrunning : s.shared.running = false) (hdone : done = [])
      (hrest : rest = []) : Phase s old done rest none
  | running (hrunning : s.shared.running = true)
      (hstop : s.shared.stopRequested = false) (hdone : done = [])
      (hsize : rest.length = s.shared.config.numThreads)
      (hloop : Looping s rest) : Phase s old done rest none
  | clearStop {n : ℕ} (hrunning : s.shared.running = true)
      (hdone : done = []) (hrest : rest = []) (hn : n < s.shared.starts)
      (hold : ∀ c ∈ old, c.start < n) :
      Phase s old done rest (some (.start (.clearStop n)))
  | startPaused {n : ℕ} (hrunning : s.shared.running = true)
      (hstop : s.shared.stopRequested = false)
      (hdone : done = []) (hrest : rest = []) (hn : n < s.shared.starts)
      (hold : ∀ c ∈ old, c.start < n) :
      Phase s old done rest (some (.start (.clearPaused n)))
  | spawn {n left : ℕ} (hrunning : s.shared.running = true)
      (hstop : s.shared.stopRequested = false) (hdone : done = [])
      (hn : n < s.shared.starts) (hold : ∀ c ∈ old, c.start < n)
      (hstart : ∀ c ∈ rest, c.start = n)
      (hsize : rest.length + left = s.shared.config.numThreads)
      (hloop : Looping s rest) :
      Phase s old done rest (some (.start (.spawn n left)))
  | setStop (hrunning : s.shared.running = false)
      (hstop : s.shared.stopRequested = false) (hdone : done = [])
      (hsize : rest.length = s.shared.config.numThreads)
      (hloop : Looping s rest) : Phase s old done rest (some (.stop .setStop))
  | stopPaused (hrunning : s.shared.running = false)
      (hdone : done = []) (hsize : rest.length = s.shared.config.numThreads) :
      Phase s old done rest (some (.stop .clearPaused))
  | iterate (hrunning : s.shared.running = false)
      (hdone : done = []) (hsize : rest.length = s.shared.config.numThreads) :
      Phase s old done rest (some (.stop .iterate))
  | testJoinable (hrunning : s.shared.running = false)
      (hsize : done.length + rest.length = s.shared.config.numThreads) :
      Phase s old done rest
        (some (.stop (.testJoinable done.length (done.length + rest.length))))
  | joining (hrunning : s.shared.running = false)
      (hsize : done.length + rest.length = s.shared.config.numThreads) :
      Phase s old done rest
        (some (.stop (.joining done.length (done.length + rest.length))))
  | clear (hrunning : s.shared.running = false) (hrest : rest = [])
      (hsize : done.length = s.shared.config.numThreads) :
      Phase s old done rest (some (.stop .clear))

/-- At most one call is past its exchange, and the threads are as far as it
has come. -/
structure Serial (s : State) (busy : Option ℕ) (old done rest : List Handle) :
    Prop where
  only : ∀ t pc, s.threads[t]? = some pc → pc.pastExchange = true →
    busy = some t
  past : ∀ t ∈ busy, ∃ pc, s.threads[t]? = some pc ∧ pc.pastExchange = true
  crew : Crew s old done rest
  phase : Phase s old done rest (busy.bind fun t => s.threads[t]?)

/-! ## Frames -/

/-- The events of `Start` and `Stop` that the threads depend on. -/
def Event.lifecycle : Event → Bool
  | .exchange _ | .storeStop _ | .spawn _ _ | .join _ | .clear => true
  | _ => false

/-- The records of the threads are the same. -/
structure SameCrew (sh sh' : Shared) : Prop where
  consumerThreads : sh'.consumerThreads = sh.consumerThreads
  created : sh'.created = sh.created
  joined : sh'.joined = sh.joined
  starts : sh.starts ≤ sh'.starts

/-- The flags are the same too. -/
structure SameLifecycle (sh sh' : Shared) : Prop extends SameCrew sh sh' where
  config : sh'.config = sh.config
  running : sh'.running = sh.running
  stopRequested : sh'.stopRequested = sh.stopRequested

theorem Shared.sameLifecycle_apply (sh : Shared) {e : Event}
    (he : e.lifecycle = false) : SameLifecycle sh (sh.apply e) := by
  cases e with
  | exchange running | storeStop value | spawn thread start | join index
  | clear => cases he
  | _ => exact ⟨⟨rfl, rfl, rfl, Nat.le_refl _⟩, rfl, rfl, rfl⟩

theorem Moves.exchange_or_past {s : State} {pc pc' : Pc} {e : Event}
    (h : Moves s pc e pc') (he : e.lifecycle = true) :
    (∃ running, e = .exchange running) ∨ pc.pastExchange = true := by
  cases h with
  | enqueue h => cases h <;> cases he
  | dequeue h => cases h <;> cases he
  | start h =>
      cases h with
      | refused h => cases he
      | exchange h => exact .inl ⟨_, rfl⟩
      | _ => exact .inr rfl
  | stop h =>
      cases h with
      | refused h => cases he
      | exchange h => exact .inl ⟨_, rfl⟩
      | _ => exact .inr rfl
  | _ => cases he

theorem Pc.pastExchange_nextLevel (purpose : Purpose) (level : Priority) :
    (nextLevel purpose level).pastExchange = false :=
  apply_nextLevel (fun _ _ => rfl) rfl rfl rfl purpose level

/-- A thread gets past an exchange by its exchange. -/
theorem Moves.pastExchange {s : State} {pc pc' : Pc} {e : Event}
    (h : Moves s pc e pc') (hpc : pc.pastExchange = false)
    (he : ∀ running, e ≠ .exchange running) : pc'.pastExchange = false := by
  cases h with
  | enqueue h => cases h <;> rfl
  | dequeue h =>
      cases h with
      | quotaUsed h | empty h => exact Pc.pastExchange_nextLevel _ _
      | _ => rfl
  | start h =>
      cases h with
      | refused h => rfl
      | exchange h => exact absurd rfl (he true)
      | _ => cases hpc
  | stop h =>
      cases h with
      | refused h => rfl
      | exchange h => exact absurd rfl (he false)
      | _ => cases hpc
  | _ => rfl

theorem Moves.not_exited {s : State} {pc' : Pc} {e : Event}
    (h : Moves s .exited e pc') : False := by
  cases h

/-- A consumer stays in its loop until a stop is requested. -/
theorem Moves.looping {s : State} {pc pc' : Pc} {e : Event}
    (h : Moves s pc e pc') (hpc : pc.looping = true)
    (hstop : s.shared.stopRequested = false) : pc'.looping = true := by
  cases h with
  | stopped h =>
      rw [hstop] at h
      cases h
  | notStopped h | paused | notPaused => rfl
  | execute draining item | countExecuted draining item
  | countLatency draining item latency =>
      cases draining with
      | false => rfl
      | true => cases hpc
  | notifyExecuted item => rfl
  | @dequeue purpose level q stage e pc' h =>
      cases purpose with
      | consume =>
          cases h with
          | quotaUsed h | empty h =>
              obtain ⟨lower, h⟩ | h := nextLevel_cases .consume level
              · rw [h]
                rfl
              · rw [h]
                rfl
          | handLast item h => cases h <;> contradiction
          | hand item h => cases h
          | drain item h => cases h
          | _ => rfl
      | _ => cases hpc
  | _ => cases hpc

/-! ## Threads by index -/

theorem State.getElem?_settle_self {s : State} {t : ℕ} {pc : Pc}
    (hpc : s.threads[t]? = some pc) (e : Event) (pc' : Pc) :
    (s.settle t e pc').threads[t]? = some pc' := by
  obtain ⟨ht, -⟩ := List.getElem?_eq_some_iff.mp hpc
  exact Roster.getElem?_append (List.getElem?_set_self ht) _

theorem State.getElem?_settle_of_ne {s : State} {t i : ℕ} {pc : Pc}
    (hi : s.threads[i]? = some pc) (hne : t ≠ i) (e : Event) (pc' : Pc) :
    (s.settle t e pc').threads[i]? = some pc := by
  apply Roster.getElem?_append
  rw [List.getElem?_set_ne hne, hi]

/-- What stands at an index after a step. -/
theorem State.getElem?_settle_cases {s : State} {t i : ℕ} {e : Event}
    {pc' x : Pc} (hi : (s.settle t e pc').threads[i]? = some x) :
    (t = i ∧ x = pc') ∨ (t ≠ i ∧ s.threads[i]? = some x) ∨ x = .loopTest := by
  by_cases hlt : i < s.threads.length
  · rw [State.settle, List.getElem?_append_left (by simpa using hlt)] at hi
    by_cases hti : t = i
    · subst hti
      rw [List.getElem?_set_self hlt] at hi
      exact .inl ⟨rfl, (Option.some.inj hi).symm⟩
    · rw [List.getElem?_set_ne hti] at hi
      exact .inr (.inl ⟨hti, hi⟩)
  · right
    right
    rw [State.settle, List.getElem?_append_right (by simpa using hlt)] at hi
    have hmem := List.mem_of_getElem? hi
    cases e with
    | spawn thread start => exact List.mem_singleton.mp hmem
    | _ => cases hmem

theorem State.length_settle_le {s : State} (t : ℕ) (e : Event) (pc' : Pc) :
    s.threads.length ≤ (s.settle t e pc').threads.length := by
  simp [State.settle]

/-- A thread that has ended stays ended. -/
theorem State.exited_settle {s : State} {t : ℕ} {pc pc' : Pc} {e : Event}
    (hpc : s.threads[t]? = some pc) (hmoves : Moves s pc e pc') (i : ℕ)
    (hi : s.threads[i]? = some Pc.exited) :
    (s.settle t e pc').threads[i]? = some Pc.exited := by
  have hne : t ≠ i := by
    rintro rfl
    obtain rfl := Option.some.inj (hi.symm.trans hpc)
    exact hmoves.not_exited
  exact State.getElem?_settle_of_ne hi hne e pc'

/-! ## Steps of the other threads -/

theorem Crew.of_frame {s s' : State} {old done rest : List Handle}
    (h : Crew s old done rest) (hsame : SameCrew s.shared s'.shared)
    (hlength : s.threads.length ≤ s'.threads.length)
    (hexited : ∀ i : ℕ, s.threads[i]? = some Pc.exited →
      s'.threads[i]? = some Pc.exited) : Crew s' old done rest where
  created := hsame.created.trans h.created
  handles := hsame.consumerThreads.trans h.handles
  joined := hsame.joined.trans h.joined
  exited := fun c hc => hexited _ (h.exited c hc)
  distinct := hsame.created.symm ▸ h.distinct
  spawned := fun c hc =>
    Nat.lt_of_lt_of_le (h.spawned c (hsame.created ▸ hc)) hlength
  joinable := fun c hc => h.joinable c (hsame.created ▸ hc)
  starts := fun c hc =>
    Nat.lt_of_lt_of_le (h.starts c (hsame.created ▸ hc)) hsame.starts
  older := h.older
  same := h.same

theorem Phase.of_frame {s s' : State} {old done rest : List Handle}
    {pc : Option Pc} (h : Phase s old done rest pc)
    (hsame : SameLifecycle s.shared s'.shared)
    (hloop : s.shared.stopRequested = false → Looping s rest →
      Looping s' rest) : Phase s' old done rest pc := by
  obtain ⟨⟨-, -, -, hstarts⟩, hconfig, hrun, hstop'⟩ := hsame
  cases h with
  | stopped hrunning hdone hrest =>
      exact .stopped (hrun.trans hrunning) hdone hrest
  | running hrunning hstop hdone hsize hlooping =>
      exact .running (hrun.trans hrunning) (hstop'.trans hstop) hdone
        (hconfig.symm ▸ hsize) (hloop hstop hlooping)
  | clearStop hrunning hdone hrest hn hold =>
      exact .clearStop (hrun.trans hrunning) hdone hrest
        (Nat.lt_of_lt_of_le hn hstarts) hold
  | startPaused hrunning hstop hdone hrest hn hold =>
      exact .startPaused (hrun.trans hrunning) (hstop'.trans hstop) hdone
        hrest (Nat.lt_of_lt_of_le hn hstarts) hold
  | spawn hrunning hstop hdone hn hold hstart hsize hlooping =>
      exact .spawn (hrun.trans hrunning) (hstop'.trans hstop) hdone
        (Nat.lt_of_lt_of_le hn hstarts) hold hstart (hconfig.symm ▸ hsize)
        (hloop hstop hlooping)
  | setStop hrunning hstop hdone hsize hlooping =>
      exact .setStop (hrun.trans hrunning) (hstop'.trans hstop) hdone
        (hconfig.symm ▸ hsize) (hloop hstop hlooping)
  | stopPaused hrunning hdone hsize =>
      exact .stopPaused (hrun.trans hrunning) hdone (hconfig.symm ▸ hsize)
  | iterate hrunning hdone hsize =>
      exact .iterate (hrun.trans hrunning) hdone (hconfig.symm ▸ hsize)
  | testJoinable hrunning hsize =>
      exact .testJoinable (hrun.trans hrunning) (hconfig.symm ▸ hsize)
  | joining hrunning hsize =>
      exact .joining (hrun.trans hrunning) (hconfig.symm ▸ hsize)
  | clear hrunning hrest hsize =>
      exact .clear (hrun.trans hrunning) hrest (hconfig.symm ▸ hsize)

/-- A thread that is not past an exchange, and makes none, leaves the calls
and the threads as they are. -/
theorem Serial.step_other {s : State} {busy : Option ℕ}
    {old done rest : List Handle} (h : Serial s busy old done rest) {t : ℕ}
    {pc pc' : Pc} {e : Event} (hpc : s.threads[t]? = some pc)
    (hmoves : Moves s pc e pc') (hother : pc.pastExchange = false)
    (he : ∀ running, e ≠ .exchange running) :
    Serial (s.settle t e pc') busy old done rest := by
  have hquiet : e.lifecycle = false := by
    by_contra hlife
    obtain ⟨running, hex⟩ | hpast :=
      hmoves.exchange_or_past (Bool.not_eq_false _ ▸ hlife)
    · exact he running hex
    · rw [hother] at hpast
      cases hpast
  have hsame := s.shared.sameLifecycle_apply hquiet
  have hpc' := hmoves.pastExchange hother he
  have hbusy : ∀ u ∈ busy, (s.settle t e pc').threads[u]? = s.threads[u]? := by
    intro u hu
    obtain ⟨x, hx, hpast⟩ := h.past u hu
    have hne : t ≠ u := by
      rintro rfl
      obtain rfl := Option.some.inj (hx.symm.trans hpc)
      rw [hother] at hpast
      cases hpast
    rw [hx]
    exact State.getElem?_settle_of_ne hx hne e pc'
  refine ⟨?_, ?_, ?_, ?_⟩
  · intro u x hx hpast
    obtain ⟨rfl, rfl⟩ | ⟨-, hx⟩ | rfl := State.getElem?_settle_cases hx
    · rw [hpc'] at hpast
      cases hpast
    · exact h.only u x hx hpast
    · cases hpast
  · intro u hu
    obtain ⟨x, hx, hpast⟩ := h.past u hu
    exact ⟨x, (hbusy u hu).trans hx, hpast⟩
  · exact h.crew.of_frame hsame.toSameCrew (State.length_settle_le t e pc')
      (State.exited_settle hpc hmoves)
  · have hphase : (busy.bind fun u => (s.settle t e pc').threads[u]?) =
        busy.bind fun u => s.threads[u]? := by
      cases busy with
      | none => rfl
      | some u => exact hbusy u rfl
    rw [hphase]
    apply h.phase.of_frame hsame
    intro hstop hlooping c hc
    obtain ⟨x, hx, hxloop⟩ := hlooping c hc
    by_cases hti : t = c.thread
    · subst hti
      obtain rfl := Option.some.inj (hx.symm.trans hpc)
      exact ⟨pc', State.getElem?_settle_self hpc e pc',
        hmoves.looping hxloop hstop⟩
    · exact ⟨x, State.getElem?_settle_of_ne hx hti e pc', hxloop⟩

/-! ## Steps of `Start` and `Stop` -/

/-- The bookkeeping of a step by the only thread that is past an exchange. -/
theorem Serial.settle {s : State} {busy : Option ℕ}
    {old done rest old' done' rest' : List Handle}
    (h : Serial s busy old done rest) {t : ℕ} {pc pc' : Pc} {e : Event}
    (hpc : s.threads[t]? = some pc) (hbusy : ∀ u ∈ busy, u = t)
    (hcrew : Crew (s.settle t e pc') old' done' rest')
    (hphase : Phase (s.settle t e pc') old' done' rest'
      (if pc'.pastExchange then some pc' else none)) :
    ∃ busy', Serial (s.settle t e pc') busy' old' done' rest' := by
  have hself := State.getElem?_settle_self hpc e pc'
  refine ⟨if pc'.pastExchange then some t else none, ?_, ?_, hcrew, ?_⟩
  · intro u x hx hpast
    obtain ⟨rfl, rfl⟩ | ⟨hne, hx⟩ | rfl := State.getElem?_settle_cases hx
    · rw [if_pos hpast]
    · have hu := hbusy u (h.only u x hx hpast)
      exact absurd hu.symm hne
    · cases hpast
  · intro u hu
    split at hu
    · next hpast =>
      obtain rfl := Option.some.inj hu
      exact ⟨pc', hself, hpast⟩
    · cases hu
  · split at hphase
    · next hpast =>
      rw [if_pos hpast, Option.bind_some, hself]
      exact hphase
    · next hpast =>
      rw [if_neg hpast]
      exact hphase

theorem Looping.settle {s : State} {crew : List Handle}
    (h : Looping s crew) {t : ℕ} {pc : Pc} (hpc : s.threads[t]? = some pc)
    (hother : pc.looping = false) (e : Event) (pc' : Pc) :
    Looping (s.settle t e pc') crew := by
  intro c hc
  obtain ⟨x, hx, hloop⟩ := h c hc
  have hne : t ≠ c.thread := by
    rintro rfl
    obtain rfl := Option.some.inj (hx.symm.trans hpc)
    rw [hother] at hloop
    cases hloop
  exact ⟨x, State.getElem?_settle_of_ne hx hne e pc', hloop⟩

theorem QosConfig.numThreads_pos (c : QosConfig) : 0 < c.numThreads := by
  unfold QosConfig.numThreads
  omega

/-- `Start` creates one more thread. -/
theorem Crew.spawn {s : State} {old rest : List Handle} {n left t : ℕ}
    (h : Crew s old [] rest) (hn : n < s.shared.starts)
    (hold : ∀ c ∈ old, c.start < n) (hstart : ∀ c ∈ rest, c.start = n)
    (hpc : s.threads[t]? = some (.start (.spawn n (left + 1)))) :
    Crew (s.settle t (.spawn s.threads.length n) (.start (.spawn n left)))
      old [] (rest ++ [{ thread := s.threads.length, start := n }]) := by
  have hcreated : ∀ c ∈ s.shared.created ++
      [{ thread := s.threads.length, start := n }],
      c ∈ s.shared.created ∨ c = { thread := s.threads.length, start := n } :=
    fun c hc => (List.mem_append.mp hc).imp id List.mem_singleton.mp
  have hstart' : ∀ c ∈ [] ++ (rest ++
      [({ thread := s.threads.length, start := n } : Handle)]),
      c.start = n := by
    intro c hc
    rw [List.nil_append] at hc
    obtain hc | hc := List.mem_append.mp hc
    · exact hstart c hc
    · obtain rfl := List.mem_singleton.mp hc
      rfl
  refine ⟨?_, ?_, h.joined, ?_, ?_, ?_, ?_, ?_, ?_, ?_⟩
  · simp [State.settle, Shared.apply, h.created]
  · simp [State.settle, Shared.apply, h.handles]
  · intro c hc
    exact State.exited_settle hpc (.start (.spawn n left)) _ (h.exited c hc)
  · have hfresh : s.threads.length ∉ s.shared.created.map Handle.thread := by
      intro hmem
      obtain ⟨c, hc, heq⟩ := List.mem_map.mp hmem
      have hlt := h.spawned c hc
      omega
    simp only [State.settle, Shared.apply, List.map_append, List.map_cons,
      List.map_nil]
    rw [List.nodup_append_comm, List.singleton_append, List.nodup_cons]
    exact ⟨hfresh, h.distinct⟩
  · intro c hc
    have hlength : (s.settle t (.spawn s.threads.length n)
        (.start (.spawn n left))).threads.length = s.threads.length + 1 := by
      simp [State.settle, Event.spawned]
    rw [hlength]
    obtain hc | rfl := hcreated c hc
    · exact Nat.lt_succ_of_lt (h.spawned c hc)
    · exact Nat.lt_succ_self _
  · intro c hc
    obtain hc | rfl := hcreated c hc
    · exact h.joinable c hc
    · rfl
  · intro c hc
    obtain hc | rfl := hcreated c hc
    · exact h.starts c hc
    · exact hn
  · intro c hc c' hc'
    rw [hstart' c' hc']
    exact hold c hc
  · intro c hc c' hc'
    rw [hstart' c hc, hstart' c' hc']

theorem modify_append_cons {l r : List Handle} {c : Handle}
    (f : Handle → Handle) :
    (l ++ c :: r).modify l.length f = l ++ f c :: r := by
  induction l with
  | nil => rfl
  | cons x l ih => simp [ih]

/-- The next handle of the loop in `Stop` is the first one not joined. -/
theorem Crew.next {s : State} {old done rest : List Handle} {c : Handle}
    (h : Crew s old done rest)
    (hat : s.shared.consumerThreads[done.length]? = some c) :
    c.joinable = true ∧ ∃ rest', rest = c :: rest' := by
  have hlength : (done.map Handle.joined).length = done.length := by simp
  rw [h.handles, ← hlength, List.getElem?_append_right (Nat.le_refl _),
    Nat.sub_self] at hat
  cases rest with
  | nil => cases hat
  | cons c' rest' =>
      obtain rfl : c' = c := Option.some.inj hat
      refine ⟨h.joinable c' ?_, rest', rfl⟩
      rw [h.created]
      simp

/-- `Stop` joins one more thread. -/
theorem Crew.join {s : State} {old done rest : List Handle} {c : Handle}
    {t n : ℕ} (h : Crew s old done (c :: rest))
    (hexited : s.threads[c.thread]? = some .exited)
    (hpc : s.threads[t]? = some (.stop (.joining done.length n)))
    (hmoves : Moves s (.stop (.joining done.length n)) (.join done.length)
      (.stop (.testJoinable (done.length + 1) n))) :
    Crew (s.settle t (.join done.length)
      (.stop (.testJoinable (done.length + 1) n))) old (done ++ [c]) rest := by
  have hcrew : done ++ [c] ++ rest = done ++ c :: rest := by simp
  have hlength : (done.map Handle.joined).length = done.length := by simp
  refine ⟨?_, ?_, ?_, ?_, h.distinct, ?_, h.joinable, h.starts, ?_, ?_⟩
  · rw [hcrew]
    exact h.created
  · have hmodify := modify_append_cons (l := done.map Handle.joined)
      (r := rest) (c := c) Handle.joined
    rw [hlength, ← h.handles] at hmodify
    rw [List.map_append, List.append_assoc]
    exact hmodify
  · have hat : s.shared.consumerThreads[done.length]? = some c := by
      rw [h.handles, ← hlength, List.getElem?_append_right (Nat.le_refl _)]
      simp
    simp only [State.settle, Shared.apply, hat, h.joined]
    simp
  · intro c' hc'
    apply State.exited_settle hpc hmoves
    rw [← List.append_assoc] at hc'
    obtain hold | hnew := List.mem_append.mp hc'
    · exact h.exited c' hold
    · obtain rfl := List.mem_singleton.mp hnew
      exact hexited
  · intro c' hc'
    exact Nat.lt_of_lt_of_le (h.spawned c' hc') (State.length_settle_le _ _ _)
  · rw [hcrew]
    exact h.older
  · rw [hcrew]
    exact h.same

/-- `Stop` clears the vector. -/
theorem Crew.clear {s : State} {old done : List Handle} {t : ℕ}
    (h : Crew s old done [])
    (hpc : s.threads[t]? = some (.stop .clear))
    (hmoves : Moves s (.stop .clear) .clear .idle) :
    Crew (s.settle t .clear .idle) (old ++ done) [] [] := by
  refine ⟨?_, rfl, ?_, ?_, h.distinct, ?_, h.joinable, h.starts, ?_, ?_⟩
  · have hcreated := h.created
    simp only [List.append_nil] at hcreated ⊢
    exact hcreated
  · rw [List.append_nil]
    exact h.joined
  · intro c hc
    rw [List.append_nil] at hc
    exact State.exited_settle hpc hmoves _ (h.exited c hc)
  · intro c hc
    exact Nat.lt_of_lt_of_le (h.spawned c hc) (State.length_settle_le _ _ _)
  · simp
  · simp

theorem Serial.step_start {s : State} {t : ℕ} {old done rest : List Handle}
    {stage : StartStage} {pc' : Pc} {e : Event}
    (h : Serial s (some t) old done rest)
    (hpc : s.threads[t]? = some (.start stage))
    (hmoves : StartMoves s stage e pc')
    (hpast : (Pc.start stage).pastExchange = true) :
    ∃ busy' old' done' rest',
      Serial (s.settle t e pc') busy' old' done' rest' := by
  have hphase := h.phase
  rw [Option.bind_some, hpc] at hphase
  have hbusy : ∀ u ∈ some t, u = t := fun u hu => (Option.some.inj hu).symm
  have hlength := State.length_settle_le (s := s) t e pc'
  have hexited := State.exited_settle hpc (.start hmoves)
  cases hmoves with
  | refused h => cases hpast
  | exchange h => cases hpast
  | clearStop n =>
      cases hphase with
      | clearStop hrunning hdone hrest hn hold =>
          obtain ⟨busy', h'⟩ := h.settle hpc hbusy
            (h.crew.of_frame ⟨rfl, rfl, rfl, Nat.le_refl _⟩ hlength hexited)
            (.startPaused hrunning rfl hdone hrest hn hold)
          exact ⟨busy', _, _, _, h'⟩
  | clearPaused n =>
      cases hphase with
      | startPaused hrunning hstop hdone hrest hn hold =>
          subst hdone hrest
          obtain ⟨busy', h'⟩ := h.settle hpc hbusy
            (h.crew.of_frame ⟨rfl, rfl, rfl, Nat.le_refl _⟩ hlength hexited)
            (.spawn hrunning hstop rfl hn hold (by simp) (Nat.zero_add _)
              (by simp [Looping]))
          exact ⟨busy', _, _, _, h'⟩
  | spawned n =>
      cases hphase with
      | spawn hrunning hstop hdone hn hold hstart hsize hloop =>
          obtain ⟨busy', h'⟩ := h.settle hpc hbusy
            (h.crew.of_frame ⟨rfl, rfl, rfl, Nat.le_refl _⟩ hlength hexited)
            (.running hrunning hstop hdone hsize (hloop.settle hpc rfl _ _))
          exact ⟨busy', _, _, _, h'⟩
  | spawn n left =>
      cases hphase with
      | spawn hrunning hstop hdone hn hold hstart hsize hloop =>
          subst hdone
          have hstart' : ∀ c ∈ rest ++
              [({ thread := s.threads.length, start := n } : Handle)],
              c.start = n := by
            intro c hc
            obtain hc | hc := List.mem_append.mp hc
            · exact hstart c hc
            · rw [List.mem_singleton.mp hc]
          have hsize' : (rest ++
              [({ thread := s.threads.length, start := n } : Handle)]).length +
                left = s.shared.config.numThreads := by
            rw [List.length_append, List.length_singleton]
            omega
          have hloop' : Looping (s.settle t (.spawn s.threads.length n)
              (.start (.spawn n left))) (rest ++
                [{ thread := s.threads.length, start := n }]) := by
            intro c hc
            obtain hc | hc := List.mem_append.mp hc
            · exact hloop.settle hpc rfl _ _ c hc
            · obtain rfl := List.mem_singleton.mp hc
              refine ⟨.loopTest, ?_, rfl⟩
              simp [State.settle, Event.spawned]
          obtain ⟨busy', h'⟩ := h.settle hpc hbusy
            (h.crew.spawn hn hold hstart hpc)
            (.spawn hrunning hstop rfl hn hold hstart' hsize' hloop')
          exact ⟨busy', _, _, _, h'⟩

theorem Serial.step_stop {s : State} {t : ℕ} {old done rest : List Handle}
    {stage : StopStage} {pc' : Pc} {e : Event}
    (h : Serial s (some t) old done rest)
    (hpc : s.threads[t]? = some (.stop stage))
    (hmoves : StopMoves s stage e pc')
    (hpast : (Pc.stop stage).pastExchange = true) :
    ∃ busy' old' done' rest',
      Serial (s.settle t e pc') busy' old' done' rest' := by
  have hphase := h.phase
  rw [Option.bind_some, hpc] at hphase
  have hbusy : ∀ u ∈ some t, u = t := fun u hu => (Option.some.inj hu).symm
  have hlength := State.length_settle_le (s := s) t e pc'
  have hexited := State.exited_settle hpc (.stop hmoves)
  cases hmoves with
  | refused h => cases hpast
  | exchange h => cases hpast
  | setStop =>
      cases hphase with
      | setStop hrunning hstop hdone hsize hloop =>
          obtain ⟨busy', h'⟩ := h.settle hpc hbusy
            (h.crew.of_frame ⟨rfl, rfl, rfl, Nat.le_refl _⟩ hlength hexited)
            (.stopPaused hrunning hdone hsize)
          exact ⟨busy', _, _, _, h'⟩
  | clearPaused =>
      cases hphase with
      | stopPaused hrunning hdone hsize =>
          obtain ⟨busy', h'⟩ := h.settle hpc hbusy
            (h.crew.of_frame ⟨rfl, rfl, rfl, Nat.le_refl _⟩ hlength hexited)
            (.iterate hrunning hdone hsize)
          exact ⟨busy', _, _, _, h'⟩
  | iterate =>
      cases hphase with
      | iterate hrunning hdone hsize =>
          subst hdone
          have hall : s.shared.consumerThreads.length =
              ([] : List Handle).length + rest.length := by
            rw [h.crew.handles]
            simp
          have hphase' : Phase (s.settle t .quiet (.stop (.testJoinable 0
              s.shared.consumerThreads.length))) old [] rest
              (some (.stop (.testJoinable 0
                s.shared.consumerThreads.length))) := by
            rw [hall]
            exact .testJoinable hrunning ((Nat.zero_add _).trans hsize)
          obtain ⟨busy', h'⟩ := h.settle hpc hbusy
            (h.crew.of_frame ⟨rfl, rfl, rfl, Nat.le_refl _⟩ hlength hexited)
            hphase'
          exact ⟨busy', _, _, _, h'⟩
  | joined hn =>
      cases hphase with
      | testJoinable hrunning hsize =>
          obtain rfl : rest = [] := List.length_eq_zero_iff.mp (by omega)
          obtain ⟨busy', h'⟩ := h.settle hpc hbusy
            (h.crew.of_frame ⟨rfl, rfl, rfl, Nat.le_refl _⟩ hlength hexited)
            (.clear hrunning rfl hsize)
          exact ⟨busy', _, _, _, h'⟩
  | joinable hi hat hjoinable =>
      cases hphase with
      | testJoinable hrunning hsize =>
          obtain ⟨busy', h'⟩ := h.settle hpc hbusy
            (h.crew.of_frame ⟨rfl, rfl, rfl, Nat.le_refl _⟩ hlength hexited)
            (.joining hrunning hsize)
          exact ⟨busy', _, _, _, h'⟩
  | notJoinable hi hat hjoinable =>
      cases hphase with
      | testJoinable hrunning hsize =>
          rw [(h.crew.next hat).1] at hjoinable
          cases hjoinable
  | @join i n c hat hexit =>
      cases hphase with
      | joining hrunning hsize =>
          obtain ⟨-, rest', rfl⟩ := h.crew.next hat
          have hindex : done.length + 1 = (done ++ [c]).length := by simp
          have hend : done.length + (c :: rest').length =
              (done ++ [c]).length + rest'.length := by
            simp
            omega
          have hcrew := h.crew.join hexit hpc (.stop (.join hat hexit))
          have hphase' : Phase
              (s.settle t (.join done.length) (.stop (.testJoinable
                (done.length + 1) (done.length + (c :: rest').length))))
              old (done ++ [c]) rest' (some (.stop (.testJoinable
                (done.length + 1) (done.length + (c :: rest').length)))) := by
            rw [hindex, hend]
            exact .testJoinable hrunning (hend.symm.trans hsize)
          obtain ⟨busy', h'⟩ := h.settle hpc hbusy hcrew hphase'
          exact ⟨busy', _, _, _, h'⟩
  | clear hnone =>
      cases hphase with
      | clear hrunning hrest hsize =>
          subst hrest
          obtain ⟨busy', h'⟩ := h.settle hpc hbusy
            (h.crew.clear hpc (.stop (.clear hnone)))
            (.stopped hrunning rfl rfl)
          exact ⟨busy', _, _, _, h'⟩

/-! ## Every run -/

/-- A step with a serial exchange keeps the calls serial. -/
theorem step_serial {s s' : State} {busy : Option ℕ}
    {old done rest : List Handle} (h : Serial s busy old done rest)
    {a : Action} (ha : SerialExchange s a) (hstep : step s a = some s') :
    ∃ busy' old' done' rest', Serial s' busy' old' done' rest' := by
  obtain ⟨pc, e, pc', hpc, haccess, hmoves, rfl⟩ := step_moves hstep
  by_cases hex : ∃ running, e = .exchange running
  · obtain ⟨running, rfl⟩ := hex
    have hnone : ∀ pc ∈ s.threads, pc.pastExchange = false := by
      simpa only [SerialExchange, haccess] using ha
    have hidle : busy = none := by
      cases busy with
      | none => rfl
      | some u =>
          obtain ⟨x, hx, hpast⟩ := h.past u rfl
          rw [hnone x (List.mem_of_getElem? hx)] at hpast
          cases hpast
    subst hidle
    have hbusy : ∀ u ∈ (none : Option ℕ), u = a.thread := by simp
    have hphase := h.phase
    rw [Option.bind_none] at hphase
    have hlength := State.length_settle_le (s := s) a.thread
      (.exchange running) pc'
    have hexited := State.exited_settle hpc hmoves
    cases hmoves with
    | enqueue h => cases h
    | dequeue h => cases h
    | start hstart =>
        cases hstart with
        | exchange hrunning =>
            cases hphase with
            | stopped hrunning' hdone hrest =>
                have hold : ∀ c ∈ old, c.start < s.shared.starts := by
                  intro c hc
                  apply h.crew.starts c
                  rw [h.crew.created]
                  exact List.mem_append_left _ hc
                obtain ⟨busy', h'⟩ := h.settle hpc hbusy
                  (h.crew.of_frame ⟨rfl, rfl, rfl, Nat.le_succ _⟩ hlength
                    hexited)
                  (.clearStop rfl hdone hrest (Nat.lt_succ_self _) hold)
                exact ⟨busy', _, _, _, h'⟩
            | running hrunning' =>
                rw [hrunning] at hrunning'
                cases hrunning'
    | stop hstop =>
        cases hstop with
        | exchange hrunning =>
            cases hphase with
            | stopped hrunning' =>
                rw [hrunning] at hrunning'
                cases hrunning'
            | running hrunning' hstop' hdone hsize hloop =>
                obtain ⟨busy', h'⟩ := h.settle hpc hbusy
                  (h.crew.of_frame ⟨rfl, rfl, rfl, Nat.le_refl _⟩ hlength
                    hexited)
                  (.setStop rfl hstop' hdone hsize
                    (hloop.settle hpc rfl _ _))
                exact ⟨busy', _, _, _, h'⟩
  · have hother : ∀ running, e ≠ .exchange running :=
      fun running he => hex ⟨running, he⟩
    cases hpast : pc.pastExchange with
    | false => exact ⟨busy, _, _, _, h.step_other hpc hmoves hpast hother⟩
    | true =>
        obtain rfl := h.only a.thread pc hpc hpast
        cases hmoves with
        | start hmoves => exact h.step_start hpc hmoves hpast
        | stop hmoves => exact h.step_stop hpc hmoves hpast
        | _ => cases hpast

theorem construct_serial (config : QosConfig) (clients : ℕ) :
    Serial (construct config clients) none [] [] [] := by
  refine ⟨?_, by simp, ?_, .stopped rfl rfl rfl⟩
  · intro t pc hpc hpast
    rw [mem_replicate_idle (List.mem_of_getElem? hpc)] at hpast
    cases hpast
  · constructor <;> simp [construct]

theorem reachable_serial {s : State}
    (hs : Transition.ReachableVia step SerialExchange init s) :
    ∃ busy old done rest, Serial s busy old done rest := by
  induction hs with
  | start hs =>
      obtain ⟨config, clients, rfl⟩ := hs
      exact ⟨_, _, _, _, construct_serial config clients⟩
  | next _ ha hstep ih =>
      obtain ⟨busy, old, done, rest, h⟩ := ih
      exact step_serial h ha hstep

/-- Between calls every created thread has been joined once or is still in
the vector. -/
theorem Crew.accounted {s : State} {old rest : List Handle}
    (h : Crew s old [] rest) (c : Handle) (hc : c ∈ s.shared.created) :
    (s.shared.joined.count c.thread = 1 ∧
      ∀ h ∈ s.shared.consumerThreads, h.thread ≠ c.thread) ∨
    (s.shared.joined.count c.thread = 0 ∧
      ∃ h ∈ s.shared.consumerThreads,
        h.thread = c.thread ∧ h.joinable = true) := by
  have hdistinct := h.distinct
  have hjoined := h.joined
  have hhandles : s.shared.consumerThreads = rest := h.handles
  have hjoinable := h.joinable c hc
  rw [h.created, List.nil_append] at hc hdistinct
  rw [List.map_append, List.nodup_append] at hdistinct
  obtain ⟨hold, -, hapart⟩ := hdistinct
  rw [List.append_nil] at hjoined
  rw [hjoined, hhandles]
  obtain hc | hc := List.mem_append.mp hc
  · left
    have hmem : c.thread ∈ old.map Handle.thread := List.mem_map_of_mem hc
    refine ⟨List.count_eq_one_of_mem hold hmem, fun x hx heq => ?_⟩
    exact hapart _ hmem _ (List.mem_map_of_mem hx) heq.symm
  · right
    refine ⟨?_, c, hc, rfl, hjoinable⟩
    apply List.count_eq_zero_of_not_mem
    intro hmem
    exact hapart _ hmem _ (List.mem_map_of_mem hc) rfl

/-- Between calls the threads alive are those of the last `Start`. -/
theorem Crew.alive_iff {s : State} {old rest : List Handle} {n : ℕ}
    (h : Crew s old [] rest) (hloop : Looping s rest)
    (hold : ∀ c ∈ old, c.start < n) (hrest : ∀ c ∈ rest, c.start = n)
    (i : ℕ) :
    Alive s i ↔ ∃ c ∈ s.shared.created, c.thread = i ∧ c.start = n := by
  have hcreated : s.shared.created = old ++ rest := h.created
  unfold Alive
  rw [hcreated]
  constructor
  · rintro ⟨⟨c, hc, rfl⟩, halive⟩
    obtain hc' | hc' := List.mem_append.mp hc
    · exact absurd (h.exited c (List.mem_append_left _ hc')) halive
    · exact ⟨c, hc, rfl, hrest c hc'⟩
  · rintro ⟨c, hc, rfl, hstart⟩
    refine ⟨⟨c, hc, rfl⟩, fun hexited => ?_⟩
    obtain hc' | hc' := List.mem_append.mp hc
    · have hlt := hold c hc'
      omega
    · obtain ⟨x, hx, hlooping⟩ := hloop c hc'
      obtain rfl := Option.some.inj (hx.symm.trans hexited)
      cases hlooping

theorem Crew.lifecycleOk {s : State} {old rest : List Handle}
    (h : Crew s old [] rest) (hphase : Phase s old [] rest none) :
    LifecycleOk s := by
  have hcreated : s.shared.created = old ++ rest := h.created
  cases hphase with
  | stopped hrunning _ hrest =>
      subst hrest
      refine ⟨?_, ?_, h.accounted⟩
      · intro hrunning'
        rw [hrunning] at hrunning'
        cases hrunning'
      · rintro - i ⟨⟨c, hc, rfl⟩, halive⟩
        rw [hcreated] at hc
        exact halive (h.exited c hc)
  | running hrunning hstop _ hsize hloop =>
      refine ⟨fun _ => ?_, ?_, h.accounted⟩
      · obtain ⟨c, hc⟩ : ∃ c, c ∈ rest := by
          apply List.exists_mem_of_length_pos
          rw [hsize]
          exact s.shared.config.numThreads_pos
        have hold : ∀ x ∈ old, x.start < c.start :=
          fun x hx => h.older x hx c hc
        have hrest : ∀ x ∈ rest, x.start = c.start :=
          fun x hx => h.same x hx c hc
        refine ⟨c.start, ?_, h.alive_iff hloop hold hrest⟩
        rw [← hsize, hcreated, List.filter_append]
        have hnone : old.filter (fun x => x.start = c.start) = [] := by
          rw [List.filter_eq_nil_iff]
          intro x hx
          have hlt := hold x hx
          simp
          omega
        have hall : rest.filter (fun x => x.start = c.start) = rest := by
          rw [List.filter_eq_self]
          intro x hx
          simp [hrest x hx]
        rw [hnone, hall, List.nil_append]
      · intro hrunning'
        rw [hrunning] at hrunning'
        cases hrunning'

/-- A scheduler is started, stopped and started again. -/
def restarts : List Action :=
  Action.call 0 .start :: List.replicate 5 (Action.run 0 {}) ++
    Action.call 0 .stop :: List.replicate 4 (Action.run 0 {}) ++
      List.replicate 7 (Action.run 1 {}) ++ List.replicate 4 (Action.run 0 {}) ++
        Action.call 0 .start :: List.replicate 5 (Action.run 0 {})

theorem restarts_runs :
    (Transition.run step (construct { wrrQuanta := defaultQuanta } 1)
      restarts).isSome := by
  decide

/-- A thread passes the exchange of `Start`; another one runs `Stop`; the
first thread goes on and creates its consumer. -/
def stopsInsideStart : List Action :=
  Action.call 0 .start :: Action.run 0 {} ::
    Action.call 1 .stop :: List.replicate 6 (Action.run 1 {}) ++
      List.replicate 4 (Action.run 0 {})

theorem stopsInsideStart_runs :
    (Transition.run step (construct { wrrQuanta := defaultQuanta } 2)
      stopsInsideStart).isSome := by
  decide

end Qos
end Yacul
