import Yacul.Support.Roster
import Yacul.Support.Transition
import Yacul.Transformation.Compressors

/-!
# Concurrent calls on one compressor

Threads call `Compress` and `Decompress` on one object.  A library call has a
begin and an end; it works on the context it is given.  A context whose use
overlaps is damaged, and a library call that ends on a damaged context may
return anything; otherwise it returns what it returns alone.
-/

namespace Yacul
namespace Transformation
namespace Sharing

/-- The methods that `ICompressor` wants to be safe for concurrent calls. -/
inductive Method
  | Compress
  | Decompress
deriving DecidableEq, Repr

/-- A call with its arguments. -/
inductive Call
  | Compress (src dst : ByteBuffer)
  | Decompress (src dst : ByteBuffer) (original_size : UInt64)
deriving DecidableEq, Repr

/-- The method of a call. -/
def Call.method : Call → Method
  | .Compress _ _ => .Compress
  | .Decompress _ _ _ => .Decompress

/-- What a call returns when no other call is in progress. -/
def Call.alone (object : ICompressor) : Call → Outcome
  | .Compress src dst => object.Compress src dst
  | .Decompress src dst original_size =>
      object.Decompress src dst original_size

/-- Where the library call of a method finds its context: it takes none, it
takes a member of the object, or one that the method creates before the call
and frees after it. -/
inductive ContextUse
  | none
  | member (ctx : ℕ)
  | created
deriving DecidableEq, Repr

/-- `LZ4F_compressFrame` and the Snappy functions take no context;
`Lz4Compressor::Decompress` creates one; `ZstdCompressor` has `cctx_` and
`dctx_`. -/
def contextUse : CompressorType → Method → ContextUse
  | .kLZ4, .Compress => .none
  | .kLZ4, .Decompress => .created
  | .kZstd, .Compress => .member 0
  | .kZstd, .Decompress => .member 1
  | .kSnappy, _ => .none

/-- The number of contexts that the constructor creates. -/
def members : CompressorType → ℕ
  | .kZstd => 2
  | .kLZ4 | .kSnappy => 0

/-- Where a thread is in a call: before it has a context, with its context in
hand, inside the library call, or back with a result. -/
inductive Phase
  | idle
  | entered (call : Call)
  | ready (call : Call) (ctx : Option ℕ)
  | inside (call : Call) (ctx : Option ℕ)
  | returned (call : Call) (result : Outcome)
deriving DecidableEq, Repr

/-- For each context ever created whether it is damaged, and the threads. -/
structure State where
  damaged : List Bool
  threads : List Phase
deriving DecidableEq, Repr

/-- One step of a thread.  What comes back from a damaged context is chosen by
the environment. -/
inductive Action
  | enter (t : ℕ) (call : Call)
  | prepare (t : ℕ)
  | begin (t : ℕ)
  | finish (t : ℕ) (garbage : Outcome)
  | leave (t : ℕ)
deriving DecidableEq, Repr

/-- The thread is inside a library call on the context. -/
def Phase.uses (ctx : ℕ) : Phase → Bool
  | .inside _ (some c) => c == ctx
  | _ => false

/-- The call of a thread that is about to begin a library call, or inside it,
with the context. -/
def Phase.job : Phase → Option (Call × Option ℕ)
  | .ready call ctx | .inside call ctx => some (call, ctx)
  | _ => none

/-- The method whose library call the thread is inside. -/
def Phase.method : Phase → Option Method
  | .inside call _ => some call.method
  | _ => none

namespace State

/-- A thread goes on to another phase. -/
def put (s : State) (t : ℕ) (p : Phase) : State :=
  { s with threads := s.threads.set t p }

/-- The number of threads that are using a context. -/
def users (s : State) (ctx : ℕ) : ℕ :=
  s.threads.countP (Phase.uses ctx)

/-- A library call begins on a context. -/
def use (s : State) : Option ℕ → State
  | none => s
  | some ctx =>
      if s.users ctx = 0 then s
      else { s with damaged := s.damaged.set ctx true }

/-- The context a library call ends on is damaged. -/
def spoilt (s : State) : Option ℕ → Bool
  | none => false
  | some ctx => s.damaged.getD ctx false

end State

section Machine

variable (libs : Libraries) (type : CompressorType) (level : ℤ)

def step (s : State) : Action → Option State
  | .enter t call =>
      match s.threads[t]? with
      | some .idle => some (s.put t (.entered call))
      | _ => none
  | .prepare t =>
      match s.threads[t]? with
      | some (.entered call) =>
          match contextUse type call.method with
          | .none => some (s.put t (.ready call none))
          | .member ctx => some (s.put t (.ready call (some ctx)))
          | .created =>
              if libs.lz4.createDecompressionContext then
                some
                  { damaged := s.damaged ++ [false]
                    threads :=
                      s.threads.set t (.ready call (some s.damaged.length)) }
              else
                some (s.put t
                  (.returned call (call.alone (compressor libs type level))))
      | _ => none
  | .begin t =>
      match s.threads[t]? with
      | some (.ready call ctx) => some ((s.use ctx).put t (.inside call ctx))
      | _ => none
  | .finish t garbage =>
      match s.threads[t]? with
      | some (.inside call ctx) =>
          let result :=
            if s.spoilt ctx then garbage
            else call.alone (compressor libs type level)
          some (s.put t (.returned call result))
      | _ => none
  | .leave t =>
      match s.threads[t]? with
      | some (.returned _ _) => some (s.put t .idle)
      | _ => none

/-- The object is constructed, and no thread is in a call. -/
def init (clients : ℕ) : State where
  damaged := List.replicate (members type) false
  threads := List.replicate clients .idle

/-- A reachable state. -/
def Reachable (s : State) : Prop :=
  ∃ clients, Transition.Reachable (step libs type level)
    {init type clients} s

/-- No context is in use by two calls, and every call has returned what it
returns alone. -/
structure Isolated (s : State) : Prop where
  users : ∀ ctx, s.users ctx ≤ 1
  results : ∀ call result, Phase.returned call result ∈ s.threads →
    result = call.alone (compressor libs type level)

/-- A library call of a zstd object begins while no thread is inside a library
call of the same method. -/
def BeginsAlone (s : State) (a : Action) : Prop :=
  match a with
  | .begin t =>
      match s.threads[t]? with
      | some (.ready call _) =>
          type = .kZstd → ∀ p ∈ s.threads, p.method ≠ some call.method
      | _ => True
  | _ => True

end Machine

/-! ## Which thread has which context -/

section Fits

variable {libs : Libraries} {type : CompressorType} {level : ℤ}
  {s s' : State} {a : Action} {t ctx : ℕ} {p q : Phase} {call : Call}

/-- The thread has the context. -/
def Phase.has (ctx : ℕ) (p : Phase) : Bool :=
  p.job.any fun r => r.2 == some ctx

theorem Phase.has_iff :
    p.has ctx = true ↔ ∃ call, p.job = some (call, some ctx) := by
  unfold has
  cases p.job with
  | none => simp
  | some r =>
      obtain ⟨call, c⟩ := r
      simp

theorem Phase.uses_iff :
    p.uses ctx = true ↔ ∃ call, p = .inside call (some ctx) := by
  cases p with
  | inside call c => cases c <;> simp [uses]
  | idle | entered | ready | returned => simp [uses]

theorem Phase.has_of_uses (h : p.uses ctx = true) : p.has ctx = true := by
  obtain ⟨call, rfl⟩ := uses_iff.mp h
  exact has_iff.mpr ⟨call, rfl⟩

/-- The context of a call is the one its method takes: a member, or one of
its own. -/
def Suits (type : CompressorType) (created : ℕ) (call : Call) :
    Option ℕ → Prop
  | none => contextUse type call.method = .none
  | some ctx =>
      contextUse type call.method = .member ctx ∨
        contextUse type call.method = .created ∧ members type ≤ ctx ∧
          ctx < created

theorem Suits.mono {created created' : ℕ} {ctx : Option ℕ}
    (h : Suits type created call ctx) (hle : created ≤ created') :
    Suits type created' call ctx := by
  cases ctx with
  | none => exact h
  | some ctx =>
      rcases h with huse | ⟨huse, hge, hlt⟩
      · exact .inl huse
      · exact .inr ⟨huse, hge, Nat.lt_of_lt_of_le hlt hle⟩

/-- Every thread has the context its method takes, and what is not a member
is had by one thread. -/
structure Fits (type : CompressorType) (s : State) : Prop where
  length : members type ≤ s.damaged.length
  context : ∀ p ∈ s.threads, ∀ call ctx, p.job = some (call, ctx) →
    Suits type s.damaged.length call ctx
  own : ∀ ctx, members type ≤ ctx →
    s.threads.countP (Phase.has ctx) ≤ 1

theorem contextUse_member {method : Method}
    (h : contextUse type method = .member ctx) :
    type = .kZstd ∧ ctx < members type := by
  cases type <;> cases method <;> simp only [contextUse] at h
  all_goals
    cases h
  all_goals exact ⟨rfl, by decide⟩

theorem contextUse_created {method : Method}
    (h : contextUse type method = .created) : type ≠ .kZstd := by
  rintro rfl
  cases method <;> cases h

/-- The two methods of a zstd object take different contexts. -/
theorem method_eq_of_member {method method' : Method}
    (h : contextUse type method = .member ctx)
    (h' : contextUse type method' = .member ctx) : method = method' := by
  obtain ⟨rfl, -⟩ := contextUse_member h
  cases method <;> cases method' <;> cases h <;>
    first | rfl | cases h'

theorem fits_init (type : CompressorType) (clients : ℕ) :
    Fits type (init type clients) where
  length := by simp [init]
  context p hp call ctx hctx := by
    obtain rfl := List.eq_of_mem_replicate hp
    cases hctx
  own ctx _ := by
    have hzero : (init type clients).threads.countP (Phase.has ctx) = 0 := by
      apply List.countP_eq_zero.mpr
      intro p hp
      obtain rfl := List.eq_of_mem_replicate hp
      exact Bool.false_ne_true
    omega

/-- A step that gives a thread no context it did not have. -/
theorem Fits.put (hs : Fits type s) (hp : s.threads[t]? = some p)
    (hq : q.job = p.job ∨ q.job = none)
    {damaged : List Bool} (hlength : damaged.length = s.damaged.length) :
    Fits type { damaged := damaged, threads := s.threads.set t q } := by
  have hmem := List.mem_of_getElem? hp
  refine ⟨hlength ▸ hs.length, ?_, ?_⟩
  · intro r hr call ctx hctx
    simp only [hlength]
    rcases List.mem_or_eq_of_mem_set hr with hold | rfl
    · exact hs.context r hold call ctx hctx
    · rcases hq with hq | hq
      · exact hs.context p hmem call ctx (hq.symm.trans hctx)
      · rw [hq] at hctx
        cases hctx
  · intro ctx hctx
    have hcount := Roster.countP_set_add (p := Phase.has ctx) hp q
    have hle : (q.has ctx).toNat ≤ (p.has ctx).toNat := by
      unfold Phase.has
      rcases hq with hq | hq
      · rw [hq]
      · rw [hq]
        exact Nat.zero_le _
    have hown := hs.own ctx hctx
    simp only
    omega

/-- A thread takes a member of the object, or no context. -/
theorem Fits.take (hs : Fits type s) (hp : s.threads[t]? = some p)
    {taken : Option ℕ} (hsuits : Suits type s.damaged.length call taken)
    (hmember : ∀ ctx, taken = some ctx → ctx < members type) :
    Fits type (s.put t (.ready call taken)) := by
  refine ⟨hs.length, ?_, ?_⟩
  · intro r hr call' ctx' hctx
    rcases List.mem_or_eq_of_mem_set hr with hold | rfl
    · exact hs.context r hold call' ctx' hctx
    · obtain ⟨rfl, rfl⟩ := Prod.mk.inj (Option.some.inj hctx)
      exact hsuits
  · intro ctx' hctx'
    have hcount := Roster.countP_set_add (p := Phase.has ctx') hp
      (.ready call taken)
    have hother : Phase.has ctx' (.ready call taken) = false := by
      apply Bool.eq_false_iff.mpr
      intro hhas
      obtain ⟨call', hjob⟩ := Phase.has_iff.mp hhas
      have hlt := hmember ctx' (Prod.mk.inj (Option.some.inj hjob)).2
      omega
    rw [hother, Bool.toNat_false, zero_add] at hcount
    have hown := hs.own ctx' hctx'
    simp only [State.put]
    omega

/-- A thread creates a context of its own. -/
theorem Fits.create (hs : Fits type s) (hp : s.threads[t]? = some p)
    (huse : contextUse type call.method = .created) :
    Fits type
      { damaged := s.damaged ++ [false]
        threads :=
          s.threads.set t (.ready call (some s.damaged.length)) } := by
  have hlength := hs.length
  refine ⟨?_, ?_, ?_⟩
  · simp only [List.length_append]
    omega
  · intro r hr call' ctx' hctx
    simp only [List.length_append, List.length_cons, List.length_nil]
    rcases List.mem_or_eq_of_mem_set hr with hold | rfl
    · exact (hs.context r hold call' ctx' hctx).mono (Nat.le_add_right _ _)
    · obtain ⟨rfl, rfl⟩ := Prod.mk.inj (Option.some.inj hctx)
      exact .inr ⟨huse, hlength, Nat.lt_succ_self _⟩
  · intro ctx' hctx'
    have hcount := Roster.countP_set_add (p := Phase.has ctx') hp
      (.ready call (some s.damaged.length))
    have hown := hs.own ctx' hctx'
    have hnew : s.damaged.length = ctx' →
        s.threads.countP (Phase.has ctx') = 0 := by
      rintro rfl
      apply List.countP_eq_zero.mpr
      intro r hr hhas
      obtain ⟨call', hctx⟩ := Phase.has_iff.mp hhas
      rcases hs.context r hr call' _ hctx with huse' | ⟨-, -, hlt⟩
      · have hmember := (contextUse_member huse').2
        omega
      · exact Nat.lt_irrefl _ hlt
    have hle := Bool.toNat_le
      (Phase.has ctx' (.ready call (some s.damaged.length)))
    by_cases heq : s.damaged.length = ctx'
    · have hzero := hnew heq
      simp only
      omega
    · have hother : Phase.has ctx'
          (.ready call (some s.damaged.length)) = false := by
        simpa [Phase.has, Phase.job] using heq
      rw [hother, Bool.toNat_false, zero_add] at hcount
      simp only
      omega

end Fits

/-! ## Steps -/

section Steps

variable {libs : Libraries} {type : CompressorType} {level : ℤ}
  {s s' : State} {a : Action}

/-- What a step can do. -/
inductive Moves (libs : Libraries) (type : CompressorType) (level : ℤ)
    (s : State) : Action → State → Prop
  | enter {t : ℕ} {call : Call} (hp : s.threads[t]? = some .idle) :
      Moves libs type level s (.enter t call) (s.put t (.entered call))
  | plain {t : ℕ} {call : Call}
      (hp : s.threads[t]? = some (.entered call))
      (huse : contextUse type call.method = .none) :
      Moves libs type level s (.prepare t) (s.put t (.ready call none))
  | member {t ctx : ℕ} {call : Call}
      (hp : s.threads[t]? = some (.entered call))
      (huse : contextUse type call.method = .member ctx) :
      Moves libs type level s (.prepare t)
        (s.put t (.ready call (some ctx)))
  | create {t : ℕ} {call : Call}
      (hp : s.threads[t]? = some (.entered call))
      (huse : contextUse type call.method = .created) :
      Moves libs type level s (.prepare t)
        { damaged := s.damaged ++ [false]
          threads :=
            s.threads.set t (.ready call (some s.damaged.length)) }
  | refuse {t : ℕ} {call : Call}
      (hp : s.threads[t]? = some (.entered call)) :
      Moves libs type level s (.prepare t)
        (s.put t (.returned call (call.alone (compressor libs type level))))
  | begin {t : ℕ} {call : Call} {ctx : Option ℕ}
      (hp : s.threads[t]? = some (.ready call ctx)) :
      Moves libs type level s (.begin t)
        ((s.use ctx).put t (.inside call ctx))
  | finish {t : ℕ} {call : Call} {ctx : Option ℕ}
      {garbage : Outcome}
      (hp : s.threads[t]? = some (.inside call ctx)) :
      Moves libs type level s (.finish t garbage)
        (s.put t (.returned call
          (if s.spoilt ctx then garbage
            else call.alone (compressor libs type level))))
  | leave {t : ℕ} {call : Call} {result : Outcome}
      (hp : s.threads[t]? = some (.returned call result)) :
      Moves libs type level s (.leave t) (s.put t .idle)

theorem step_moves (h : step libs type level s a = some s') :
    Moves libs type level s a s' := by
  cases a with
  | enter t call =>
      simp only [step] at h
      split at h
      · next hp =>
        obtain rfl := Option.some.inj h
        exact .enter hp
      · cases h
  | prepare t =>
      simp only [step] at h
      split at h
      · next call hp =>
        split at h
        · next huse =>
          obtain rfl := Option.some.inj h
          exact .plain hp huse
        · next huse =>
          obtain rfl := Option.some.inj h
          exact .member hp huse
        · next huse =>
          split at h
          · obtain rfl := Option.some.inj h
            exact .create hp huse
          · obtain rfl := Option.some.inj h
            exact .refuse hp
      · cases h
  | begin t =>
      simp only [step] at h
      split at h
      · next hp =>
        obtain rfl := Option.some.inj h
        exact .begin hp
      · cases h
  | finish t garbage =>
      simp only [step] at h
      split at h
      · next hp =>
        obtain rfl := Option.some.inj h
        exact .finish hp
      · cases h
  | leave t =>
      simp only [step] at h
      split at h
      · next hp =>
        obtain rfl := Option.some.inj h
        exact .leave hp
      · cases h

theorem threads_use (s : State) (ctx : Option ℕ) :
    (s.use ctx).threads = s.threads := by
  cases ctx with
  | none => rfl
  | some ctx =>
      simp only [State.use]
      split_ifs <;> rfl

theorem length_damaged_use (s : State) (ctx : Option ℕ) :
    (s.use ctx).damaged.length = s.damaged.length := by
  cases ctx with
  | none => rfl
  | some ctx =>
      simp only [State.use]
      split_ifs
      · rfl
      · exact List.length_set

theorem step_fits (hs : Fits type s)
    (h : step libs type level s a = some s') : Fits type s' := by
  cases step_moves h with
  | enter hp | refuse hp | finish hp | leave hp =>
      exact hs.put hp (.inr rfl) rfl
  | plain hp huse => exact hs.take hp huse (fun _ h => by cases h)
  | member hp huse =>
      refine hs.take hp (.inl huse) ?_
      rintro ctx ⟨⟩
      exact (contextUse_member huse).2
  | create hp huse => exact hs.create hp huse
  | @begin t call ctx hp =>
      have hput := hs.put (q := .inside call ctx) hp
        (.inl rfl) (length_damaged_use s ctx)
      have hthreads := threads_use s ctx
      unfold State.put
      rw [hthreads]
      exact hput

/-- No context is damaged. -/
def Clean (s : State) : Prop := ∀ flag ∈ s.damaged, flag = false

theorem Clean.spoilt (hs : Clean s) (ctx : Option ℕ) :
    s.spoilt ctx = false := by
  cases ctx with
  | none => rfl
  | some ctx =>
      rw [State.spoilt, List.getD_eq_getElem?_getD]
      cases hflag : s.damaged[ctx]? with
      | none => rfl
      | some flag => exact hs flag (List.mem_of_getElem? hflag)

/-- A step that lets no thread begin a library call keeps the object isolated:
the users are not more, and a result is what the call returns alone. -/
theorem Isolated.put {t : ℕ} {p q : Phase} {damaged : List Bool}
    (hP : Isolated libs type level s) (hp : s.threads[t]? = some p)
    (huses : ∀ ctx, q.uses ctx = false)
    (hresult : ∀ call result, q = .returned call result →
      result = call.alone (compressor libs type level)) :
    Isolated libs type level
      { damaged := damaged, threads := s.threads.set t q } where
  users ctx := by
    have hcount := Roster.countP_set_add (p := Phase.uses ctx) hp q
    have hone := hP.users ctx
    rw [huses, Bool.toNat_false, zero_add] at hcount
    simp only [State.users] at hone ⊢
    omega
  results call result hmem := by
    rcases List.mem_or_eq_of_mem_set hmem with hold | heq
    · exact hP.results call result hold
    · exact hresult call result heq.symm

/-- The number of users after a library call has begun. -/
theorem users_begin {t c : ℕ} {call : Call} {ctx : Option ℕ}
    (hp : s.threads[t]? = some (.ready call ctx)) :
    ((s.use ctx).put t (.inside call ctx)).users c =
      (Phase.uses c (.inside call ctx)).toNat + s.users c := by
  have hcount := Roster.countP_set_add (p := Phase.uses c) hp
    (.inside call ctx)
  have hready : Phase.uses c (.ready call ctx) = false := rfl
  rw [hready, Bool.toNat_false, zero_add] at hcount
  unfold State.users State.put
  rw [threads_use]
  exact hcount

/-- Beginning a library call keeps the object isolated exactly when nobody is
using the context. -/
theorem isolated_begin_iff {t : ℕ} {call : Call} {ctx : Option ℕ}
    (hP : Isolated libs type level s)
    (hp : s.threads[t]? = some (.ready call ctx)) :
    Isolated libs type level ((s.use ctx).put t (.inside call ctx)) ↔
      ∀ c, ctx = some c → s.users c = 0 := by
  constructor
  · rintro hP' c rfl
    have hone := hP'.users c
    rw [users_begin hp] at hone
    have huses : Phase.uses c (.inside call (some c)) = true := by
      simp [Phase.uses]
    rw [huses, Bool.toNat_true] at hone
    omega
  · intro hnone
    refine ⟨?_, ?_⟩
    · intro c
      rw [users_begin hp]
      have hone := hP.users c
      cases huses : Phase.uses c (.inside call ctx) with
      | false => simpa using hone
      | true =>
          have hctx : ctx = some c := by
            cases ctx with
            | none => cases huses
            | some c' => simpa [Phase.uses] using huses
          rw [hnone c hctx]
          rfl
    · intro call' result hmem
      unfold State.put at hmem
      rw [threads_use] at hmem
      rcases List.mem_or_eq_of_mem_set hmem with hold | heq
      · exact hP.results call' result hold
      · cases heq

/-- A context is unused exactly when a zstd object has no library call of the
same method in progress. -/
theorem users_eq_zero_iff (hs : Fits type s) {t c : ℕ} {call : Call}
    (hp : s.threads[t]? = some (.ready call (some c))) :
    s.users c = 0 ↔
      (type = .kZstd → ∀ p ∈ s.threads, p.method ≠ some call.method) := by
  have hmem := List.mem_of_getElem? hp
  unfold State.users
  rw [List.countP_eq_zero]
  rcases hs.context _ hmem call (some c) rfl with huse | ⟨huse, hge, -⟩
  · obtain ⟨htype, -⟩ := contextUse_member huse
    constructor
    · intro hnone _ p hp' hmethod
      cases p with
      | inside call' ctx' =>
          have hsame : call'.method = call.method := Option.some.inj hmethod
          have hsuits := hs.context _ hp' call' ctx' rfl
          have hctx : ctx' = some c := by
            cases ctx' with
            | none => simp [Suits, hsame, huse] at hsuits
            | some c' => simpa [Suits, hsame, huse, eq_comm] using hsuits
          exact hnone _ hp' (Phase.uses_iff.mpr ⟨call', by rw [hctx]⟩)
      | idle | entered | ready | returned => cases hmethod
    · intro halone p hp' huses
      obtain ⟨call', rfl⟩ := Phase.uses_iff.mp huses
      have hmethod : call'.method = call.method := by
        rcases hs.context _ hp' call' (some c) rfl with huse' | ⟨huse', -⟩
        · exact method_eq_of_member huse' huse
        · exact absurd htype (contextUse_created huse')
      exact halone htype _ hp' (congrArg some hmethod)
  · refine iff_of_true ?_ (fun htype => absurd htype (contextUse_created huse))
    -- The thread itself is the one that has the context.
    have hset := Roster.countP_set_add (p := Phase.has c) hp .idle
    have hself : Phase.has c (.ready call (some c)) = true :=
      Phase.has_iff.mpr ⟨call, rfl⟩
    have hown := hs.own c hge
    rw [hself] at hset
    have hidle : Phase.has c .idle = false := rfl
    rw [hidle, Bool.toNat_false, Bool.toNat_true, zero_add] at hset
    have hzero : (s.threads.set t .idle).countP (Phase.has c) = 0 := by
      omega
    intro p hp' huses
    obtain ⟨i, hi⟩ := List.mem_iff_getElem?.mp hp'
    have hne : t ≠ i := by
      rintro rfl
      obtain rfl := Option.some.inj (hp.symm.trans hi)
      cases huses
    have hother : p ∈ s.threads.set t .idle := by
      apply List.mem_of_getElem? (i := i)
      rw [List.getElem?_set_ne hne]
      exact hi
    exact List.countP_eq_zero.mp hzero p hother (Phase.has_of_uses huses)

/-- A step that keeps an object isolated damages no context. -/
theorem step_clean (hclean : Clean s) (hP : Isolated libs type level s)
    (h : step libs type level s a = some s')
    (hP' : Isolated libs type level s') : Clean s' := by
  cases step_moves h with
  | enter | plain | member | refuse | finish | leave => exact hclean
  | create =>
      intro flag hflag
      rcases List.mem_append.mp hflag with hold | hnew
      · exact hclean flag hold
      · exact List.mem_singleton.mp hnew
  | @begin t call ctx hp =>
      have hunused := (isolated_begin_iff hP hp).mp hP'
      have hsame : s.use ctx = s := by
        cases ctx with
        | none => rfl
        | some c => exact if_pos (hunused c rfl)
      rw [hsame]
      exact hclean

/-- One step keeps an object with no damaged context isolated exactly under
the condition. -/
theorem step_isolated_iff (hs : Fits type s) (hclean : Clean s)
    (hP : Isolated libs type level s)
    (h : step libs type level s a = some s') :
    Isolated libs type level s' ↔ BeginsAlone type s a := by
  cases step_moves h with
  | enter hp | plain hp | member hp | create hp | leave hp =>
      refine iff_of_true (hP.put hp (fun _ => rfl) ?_) trivial
      intro call result heq
      cases heq
  | refuse hp =>
      refine iff_of_true (hP.put hp (fun _ => rfl) ?_) trivial
      intro call result heq
      obtain ⟨rfl, rfl⟩ := Phase.returned.inj heq
      rfl
  | finish hp =>
      refine iff_of_true (hP.put hp (fun _ => rfl) ?_) trivial
      intro call' result heq
      rw [hclean.spoilt] at heq
      obtain ⟨rfl, rfl⟩ := Phase.returned.inj heq
      rfl
  | @begin t call ctx hp =>
      rw [isolated_begin_iff hP hp]
      simp only [BeginsAlone, hp]
      cases ctx with
      | none =>
          have hnone : contextUse type call.method = .none :=
            hs.context _ (List.mem_of_getElem? hp) call none rfl
          refine iff_of_true (fun _ h => by cases h) ?_
          rintro rfl
          cases hmethod : call.method <;>
            simp [contextUse, hmethod] at hnone
      | some c =>
          rw [← users_eq_zero_iff hs hp]
          simp

end Steps

section Runs

variable (libs : Libraries) (type : CompressorType) (level : ℤ)

theorem isolated_init (clients : ℕ) :
    Isolated libs type level (init type clients) where
  users ctx := by
    have hzero : (init type clients).users ctx = 0 := by
      apply List.countP_eq_zero.mpr
      intro p hp
      obtain rfl := List.eq_of_mem_replicate hp
      exact Bool.false_ne_true
    omega
  results call result hmem := by
    cases List.eq_of_mem_replicate hmem

/-- In any run the calls stay isolated in all states exactly when no zstd
library call begins while another of the same method is in progress. -/
theorem allIsolated_iff (clients : ℕ) (acts : List Action) :
    Transition.AllStates (step libs type level) (Isolated libs type level)
      (init type clients) acts ↔
    Transition.AllSteps (step libs type level) (BeginsAlone type)
      (init type clients) acts := by
  have hclean : Clean (init type clients) :=
    fun _ hflag => List.eq_of_mem_replicate hflag
  have hinit := isolated_init libs type level clients
  have hrun :
      Transition.AllStates (step libs type level)
        (fun s => Isolated libs type level s ∧ Clean s)
        (init type clients) acts ↔
      Transition.AllSteps (step libs type level) (BeginsAlone type)
        (init type clients) acts := by
    apply Transition.allStates_iff_allSteps (I := Fits type) ?_
      (fits_init type clients) ⟨hinit, hclean⟩
    intro s a s' hs hP h
    refine ⟨step_fits hs h, ?_⟩
    rw [← step_isolated_iff hs hP.2 hP.1 h]
    exact and_iff_left_of_imp (step_clean hP.2 hP.1 h)
  rw [← hrun]
  constructor
  · intro hall
    refine hall.of_allStates ?_ ⟨hinit, hclean⟩
    intro s a s' hs h hP'
    exact ⟨hP', step_clean hs.2 hs.1 h hP'⟩
  · intro hall
    exact hall.mono fun _ hs => hs.1

end Runs

/-- Two threads compress with one zstd object; the second begins while the
first is inside the library. -/
def compressesTwice : List Action :=
  [.enter 0 (.Compress ab []), .enter 1 (.Compress ab []), .prepare 0,
    .prepare 1, .begin 0, .begin 1]

theorem compressesTwice_isSome :
    (Transition.run (step abLibraries .kZstd 3) (init .kZstd 2)
      compressesTwice).isSome = true := by
  decide

/-- Two calls use `cctx_` at the same time. -/
theorem exists_sharedContext :
    ¬ ∀ (libs : Libraries) (type : CompressorType) (level : ℤ) (s : State),
      Reachable libs type level s → Isolated libs type level s := by
  intro hall
  have hreach : Transition.Reachable (step abLibraries .kZstd 3)
      {init .kZstd 2} _ :=
    Transition.reachable_get_run (Set.mem_singleton (init .kZstd 2))
      compressesTwice_isSome
  have hisolated := hall abLibraries .kZstd 3 _ ⟨2, hreach⟩
  exact absurd (hisolated.users 0) (by decide)

end Sharing
end Transformation
end Yacul
