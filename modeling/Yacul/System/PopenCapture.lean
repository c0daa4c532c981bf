import Yacul.System.PopenStreams
import Yacul.Support.Transition
import Mathlib.Algebra.Group.Nat.Defs
import Mathlib.Data.Set.Insert

/-!
# The captured output

Every `read` of `DrainFd` takes the next bytes of its stream, and what is kept
of them fills the result up to `max_output_bytes`.  So however the reads fall,
and whichever stream has set the flag that both share, what is collected of a
stream is what has been read of it, up to the limit.
-/

namespace Yacul
namespace PopenWrapper
namespace Streams

/-- A state of `Run` that is reached from its start. -/
abbrev Reachable (opts : Options) (pid : ℤ) : State → Prop :=
  Transition.Reachable (step opts) {init opts pid}

/-- How much is kept of what has been read. -/
def Options.kept (opts : Options) (n : ℕ) : ℕ :=
  if 0 < opts.maxOutputBytes then min n opts.maxOutputBytes else n

/-- What has been read of a stream is kept up to the limit. -/
structure Source.Keeps (opts : Options) (t : Source) : Prop where
  taken : t.taken ≤ t.written.length
  data : t.data = t.written.take (Options.kept opts t.taken)

/-- What is kept of each stream, and the flag, which says that more than the
limit has been read of one of them. -/
structure Kept (opts : Options) (s : State) : Prop where
  keeps : ∀ o, (s.source o).Keeps opts
  truncated : s.outputTruncated = true ↔
    0 < opts.maxOutputBytes ∧ ∃ o, opts.maxOutputBytes < (s.source o).taken

/-- What is captured of each stream is what has been read of it up to the
limit: a prefix of the stream within the limit, which the subtraction from the
limit rests on. -/
structure Captures (opts : Options) (s : State) : Prop
    extends Kept opts s where
  isPrefix : ∀ o, (s.source o).data <+: (s.source o).written
  bounded : ∀ o, 0 < opts.maxOutputBytes →
    (s.source o).data.length ≤ opts.maxOutputBytes

/-! ## One read -/

/-- The same bytes, with the parent's end open or closed. -/
structure Source.Same (t t' : Source) : Prop where
  written : t'.written = t.written
  taken : t'.taken = t.taken
  data : t'.data = t.data

section

variable {opts : Options} {t t' : Source} {s s' : State} {ans : Answer}
  {truncated truncated' accepts : Bool} {result : Option Bool} {n : ℕ}

theorem Source.Same.refl (t : Source) : t.Same t := ⟨rfl, rfl, rfl⟩

theorem Source.Keeps.same (h : t.Keeps opts) (hsame : t.Same t') :
    t'.Keeps opts := by
  constructor
  · rw [hsame.taken, hsame.written]
    exact h.taken
  · rw [hsame.data, hsame.written, hsame.taken]
    exact h.data

theorem Source.Keeps.length (h : t.Keeps opts) :
    t.data.length = Options.kept opts t.taken := by
  have htaken := h.taken
  rw [h.data, List.length_take]
  unfold Options.kept
  split_ifs <;> omega

/-- The subtraction does not wrap. -/
theorem space_eq (h : t.Keeps opts) (hpos : 0 < opts.maxOutputBytes)
    (hmax : opts.maxOutputBytes < 2 ^ 64) :
    space opts t.data.length = opts.maxOutputBytes - t.taken := by
  have hlength := h.length
  rw [Options.kept, if_pos hpos] at hlength
  unfold space Basic.wrapSub
  omega

/-- The bytes of a `read` go to the end of what is kept. -/
theorem collect_keeps (h : t.Keeps opts)
    (hmax : opts.maxOutputBytes < 2 ^ 64) (hpositive : 0 < n)
    (hn : t.taken + n ≤ t.written.length)
    (hcollect : collect opts false accepts t truncated n =
      (t', truncated', result)) :
    t'.Keeps opts ∧ t'.taken = t.taken + n ∧
      (truncated' = true ↔ truncated = true ∨
        0 < opts.maxOutputBytes ∧ opts.maxOutputBytes < t'.taken) := by
  have hdata := h.data
  have hchunk : ((t.written.drop t.taken).take n).length = n := by
    rw [List.length_take, List.length_drop]
    omega
  unfold collect at hcollect
  by_cases hpos : 0 < opts.maxOutputBytes
  · simp only [Bool.false_eq_true, if_false, if_pos hpos, hchunk,
      space_eq h hpos hmax] at hcollect
    rw [Options.kept, if_pos hpos] at hdata
    by_cases hfull : opts.maxOutputBytes - t.taken = 0
    · -- Nothing more is kept.
      rw [if_pos hfull] at hcollect
      obtain ⟨rfl, hrest⟩ := Prod.mk.inj hcollect
      obtain ⟨rfl, -⟩ := Prod.mk.inj hrest
      refine ⟨⟨hn, ?_⟩, rfl, by simp only [true_iff]; right; omega⟩
      have hkept : min t.taken opts.maxOutputBytes =
          min (t.taken + n) opts.maxOutputBytes := by omega
      rw [Options.kept, if_pos hpos]
      exact hdata.trans (congrArg (fun k => t.written.take k) hkept)
    · rw [if_neg hfull] at hcollect
      have hall : min t.taken opts.maxOutputBytes = t.taken := by omega
      rw [hall] at hdata
      by_cases hless : opts.maxOutputBytes - t.taken < n
      · -- The first bytes fill the buffer.
        rw [if_pos hless] at hcollect
        obtain ⟨rfl, hrest⟩ := Prod.mk.inj hcollect
        obtain ⟨rfl, -⟩ := Prod.mk.inj hrest
        refine ⟨⟨hn, ?_⟩, rfl, by simp only [true_iff]; right; omega⟩
        have hkept : t.taken + (opts.maxOutputBytes - t.taken) =
            min (t.taken + n) opts.maxOutputBytes := by omega
        rw [Options.kept, if_pos hpos]
        dsimp only
        rw [hdata, List.take_take, Nat.min_eq_left hless.le,
          ← List.take_add, hkept]
      · rw [if_neg hless] at hcollect
        obtain ⟨rfl, hrest⟩ := Prod.mk.inj hcollect
        obtain ⟨rfl, -⟩ := Prod.mk.inj hrest
        refine ⟨⟨hn, ?_⟩, rfl, ?_⟩
        · have hkept : t.taken + n =
              min (t.taken + n) opts.maxOutputBytes := by omega
          rw [Options.kept, if_pos hpos]
          dsimp only
          rw [hdata, ← List.take_add, ← hkept]
        · constructor
          · exact Or.inl
          · rintro (htruncated | ⟨-, hmore⟩)
            · exact htruncated
            · dsimp only at hmore
              omega
  · simp only [Bool.false_eq_true, if_false, if_neg hpos] at hcollect
    rw [Options.kept, if_neg hpos] at hdata
    obtain ⟨rfl, hrest⟩ := Prod.mk.inj hcollect
    obtain ⟨rfl, -⟩ := Prod.mk.inj hrest
    refine ⟨⟨hn, ?_⟩, rfl, by simp [hpos]⟩
    rw [Options.kept, if_neg hpos]
    dsimp only
    rw [hdata, ← List.take_add]

/-- A `read` keeps what is known of its stream, and sets the flag when it goes
beyond the limit. -/
theorem drainRead_keeps (h : t.Keeps opts)
    (hmax : opts.maxOutputBytes < 2 ^ 64)
    (hflag : 0 < opts.maxOutputBytes → opts.maxOutputBytes < t.taken →
      truncated = true)
    (hread : drainRead opts false t truncated ans =
      some (t', truncated', result)) :
    t'.Keeps opts ∧ t.taken ≤ t'.taken ∧
      (truncated' = true ↔ truncated = true ∨
        0 < opts.maxOutputBytes ∧ opts.maxOutputBytes < t'.taken) := by
  have hstay : truncated = true ↔ truncated = true ∨
      0 < opts.maxOutputBytes ∧ opts.maxOutputBytes < t.taken := by
    constructor
    · exact Or.inl
    · rintro (htruncated | ⟨hpos, hmore⟩)
      · exact htruncated
      · exact hflag hpos hmore
  unfold drainRead at hread
  split at hread
  case h_4 n _ =>
    split at hread
    · next hn =>
      obtain ⟨hpositive, -, hle⟩ := hn
      obtain ⟨hkeeps, htaken, hiff⟩ :=
        collect_keeps h hmax hpositive hle (Option.some.inj hread)
      exact ⟨hkeeps, by omega, hiff⟩
    · cases hread
  all_goals
    obtain ⟨rfl, hrest⟩ := Prod.mk.inj (Option.some.inj hread)
    obtain ⟨rfl, -⟩ := Prod.mk.inj hrest
    exact ⟨h, le_rfl, hstay⟩

/-! ## The moves of the parent -/

@[simp] theorem source_setSource (s : State) (o o' : Output) (t : Source) :
    (s.setSource o t).source o' = if o' = o then t else s.source o' := by
  cases o <;> cases o' <;> rfl

@[simp] theorem outputTruncated_setSource (s : State) (o : Output)
    (t : Source) : (s.setSource o t).outputTruncated = s.outputTruncated := by
  cases o <;> rfl

/-- What is known of the streams and the flag is the same. -/
structure SameSources (s s' : State) : Prop where
  source : ∀ o, (s.source o).Same (s'.source o)
  truncated : s'.outputTruncated = s.outputTruncated

/-- One stream is read, and the flag set accordingly. -/
structure ReadsSource (opts : Options) (ans : Answer) (s s' : State)
    (o : Output) : Prop where
  read : ∃ t result, drainRead opts (opts.callback o) (s.source o)
    s.outputTruncated ans = some (t, s'.outputTruncated, result) ∧
      t.Same (s'.source o)
  other : ∀ o', o' ≠ o → (s.source o').Same (s'.source o')

theorem SameSources.of_eq (hstdout : s'.stdout = s.stdout)
    (hstderr : s'.stderr = s.stderr)
    (htruncated : s'.outputTruncated = s.outputTruncated) :
    SameSources s s' := by
  refine ⟨fun o => ?_, htruncated⟩
  cases o with
  | stdout =>
      simp only [State.source, hstdout]
      exact Source.Same.refl _
  | stderr =>
      simp only [State.source, hstderr]
      exact Source.Same.refl _

theorem sameSources_closeSource (s : State) (o : Output) :
    SameSources s (s.closeSource o) := by
  refine ⟨fun o' => ?_, outputTruncated_setSource s o _⟩
  rw [State.closeSource, source_setSource]
  split
  · next heq => exact heq ▸ ⟨rfl, rfl, rfl⟩
  · exact Source.Same.refl _

theorem sameSources_dispatch (s : State) (p : Pass) :
    SameSources s (dispatch s p) := by
  unfold dispatch
  split
  · split
    · unfold abortKill
      split <;> exact SameSources.of_eq rfl rfl rfl
    · exact SameSources.of_eq rfl rfl rfl
  · split <;> exact SameSources.of_eq rfl rfl rfl
  · split_ifs <;> exact SameSources.of_eq rfl rfl rfl
  · exact SameSources.of_eq rfl rfl rfl

theorem SameSources.trans {s'' : State} (h : SameSources s s')
    (h' : SameSources s' s'') : SameSources s s'' := by
  refine ⟨fun o => ?_, h'.truncated.trans h.truncated⟩
  have hsame := h.source o
  have hsame' := h'.source o
  exact ⟨hsame'.written.trans hsame.written, hsame'.taken.trans hsame.taken,
    hsame'.data.trans hsame.data⟩

theorem sameSources_drainNext (s : State) (o : Output) :
    SameSources s (drainNext s o) := by
  cases o <;> exact SameSources.of_eq rfl rfl rfl

/-- After a `read` of `o` only the ends of the streams may be closed. -/
theorem readsSource_of_same {o : Output} {t : Source}
    (hread : drainRead opts (opts.callback o) (s.source o) s.outputTruncated
      ans = some (t, truncated, result))
    (hsame : SameSources
      { s.setSource o t with outputTruncated := truncated } s') :
    ReadsSource opts ans s s' o := by
  constructor
  · refine ⟨t, result, hsame.truncated ▸ hread, ?_⟩
    have hsource := hsame.source o
    have hset : ({ s.setSource o t with
        outputTruncated := truncated } : State).source o = t := by
      cases o <;> rfl
    rwa [hset] at hsource
  · intro o' hother
    have hsource := hsame.source o'
    have hset : ({ s.setSource o t with
        outputTruncated := truncated } : State).source o' = s.source o' := by
      cases o <;> cases o' <;> first | rfl | exact absurd rfl hother
    rwa [hset] at hsource

theorem drain_sources {o : Output} {hup : Bool} {p : Pass}
    (h : drain opts s o hup p ans = some s') :
    ReadsSource opts ans s s' o := by
  obtain ⟨⟨t, truncated, result⟩, hread, hnext⟩ := Option.map_eq_some_iff.mp h
  apply readsSource_of_same hread
  cases result with
  | none => exact hnext ▸ SameSources.of_eq rfl rfl rfl
  | some ok =>
      subst hnext
      dsimp only
      split
      · have hclose := sameSources_closeSource
          { s.setSource o t with outputTruncated := truncated } o
        exact hclose.trans (SameSources.of_eq rfl rfl rfl)
      · exact SameSources.of_eq rfl rfl rfl

theorem drainLast_sources {o : Output}
    (h : drainLast opts s o ans = some s') :
    SameSources s s' ∨ ReadsSource opts ans s s' o := by
  unfold drainLast at h
  split at h
  · obtain ⟨⟨t, truncated, result⟩, hread, hnext⟩ :=
      Option.map_eq_some_iff.mp h
    refine Or.inr (readsSource_of_same hread ?_)
    cases result with
    | none => exact hnext ▸ SameSources.of_eq rfl rfl rfl
    | some ok =>
        subst hnext
        exact (sameSources_closeSource _ o).trans (sameSources_drainNext _ o)
  · obtain rfl := Option.some.inj h
    exact Or.inl (sameSources_drainNext s o)

/-- A move of the parent reads one stream or none. -/
theorem parentStep_sources (h : parentStep opts s ans = some s') :
    SameSources s s' ∨ ∃ o, ReadsSource opts ans s s' o := by
  unfold parentStep at h
  split at h
  case h_1 =>
    obtain rfl := Option.some.inj h
    left
    unfold runInput
    split_ifs <;> exact SameSources.of_eq rfl rfl rfl
  case h_2 =>
    left
    unfold writeStdin at h
    split at h
    · obtain rfl := Option.some.inj h
      exact SameSources.of_eq rfl rfl rfl
    · obtain rfl := Option.some.inj h
      exact SameSources.of_eq rfl rfl rfl
    · split at h <;> cases h
      exact SameSources.of_eq rfl rfl rfl
  case h_3 =>
    obtain rfl := Option.some.inj h
    exact Or.inl (SameSources.of_eq rfl rfl rfl)
  case h_4 =>
    left
    split at h <;> obtain rfl := Option.some.inj h
    all_goals exact SameSources.of_eq rfl rfl rfl
  case h_5 p _ =>
    obtain rfl := Option.some.inj h
    exact Or.inl (sameSources_dispatch s p)
  case h_6 o hup p _ => exact Or.inr ⟨o, drain_sources h⟩
  case h_7 =>
    left
    unfold write at h
    split at h
    · obtain rfl := Option.some.inj h
      exact SameSources.of_eq rfl rfl rfl
    · obtain rfl := Option.some.inj h
      exact SameSources.of_eq rfl rfl rfl
    · dsimp only at h
      split at h
      · obtain rfl := Option.some.inj h
        split <;> exact SameSources.of_eq rfl rfl rfl
      · cases h
  case h_8 o _ => exact (drainLast_sources h).imp_right fun hread => ⟨o, hread⟩
  case h_9 => cases h

/-! ## Runs -/

theorem Kept.same (hs : Kept opts s) (h : SameSources s s') :
    Kept opts s' := by
  constructor
  · intro o
    exact (hs.keeps o).same (h.source o)
  · simp only [h.truncated, (h.source _).taken]
    exact hs.truncated

theorem Kept.read {o : Output} (hs : Kept opts s)
    (hcallback : ∀ o, opts.callback o = false)
    (hmax : opts.maxOutputBytes < 2 ^ 64)
    (h : ReadsSource opts ans s s' o) : Kept opts s' := by
  obtain ⟨t, result, hread, hsame⟩ := h.read
  rw [hcallback o] at hread
  have hflag : 0 < opts.maxOutputBytes →
      opts.maxOutputBytes < (s.source o).taken → s.outputTruncated = true :=
    fun hpos hmore => hs.truncated.mpr ⟨hpos, o, hmore⟩
  obtain ⟨hkeeps, hle, hiff⟩ := drainRead_keeps (hs.keeps o) hmax hflag hread
  constructor
  · intro o'
    by_cases heq : o' = o
    · exact heq ▸ hkeeps.same hsame
    · exact (hs.keeps o').same (h.other o' heq)
  · rw [hiff, hs.truncated, ← hsame.taken]
    constructor
    · rintro (⟨hpos, o', hmore⟩ | ⟨hpos, hmore⟩)
      · by_cases heq : o' = o
        · subst heq
          exact ⟨hpos, o', hmore.trans_le (hle.trans hsame.taken.ge)⟩
        · exact ⟨hpos, o', (h.other o' heq).taken ▸ hmore⟩
      · exact ⟨hpos, o, hmore⟩
    · rintro ⟨hpos, o', hmore⟩
      by_cases heq : o' = o
      · exact Or.inr ⟨hpos, heq ▸ hmore⟩
      · exact Or.inl ⟨hpos, o', (h.other o' heq).taken ▸ hmore⟩

theorem Kept.child (hs : Kept opts s) (o : Output) (bytes : List UInt8) :
    Kept opts (childWrite s o bytes) := by
  constructor
  · intro o'
    rw [childWrite, source_setSource]
    split
    · next heq =>
      have hkeeps := hs.keeps o
      have hlength := hkeeps.length
      have htaken := hkeeps.taken
      have hle : Options.kept opts (s.source o).taken ≤
          (s.source o).written.length := by
        unfold Options.kept
        split_ifs <;> omega
      constructor
      · rw [List.length_append]
        exact htaken.trans (Nat.le_add_right _ _)
      · rw [List.take_append_of_le_length hle]
        exact hkeeps.data
    · exact hs.keeps o'
  · have htaken : ∀ o', ((childWrite s o bytes).source o').taken =
        (s.source o').taken := by
      intro o'
      rw [childWrite, source_setSource]
      split
      · next heq => rw [heq]
      · rfl
    have htruncated : (childWrite s o bytes).outputTruncated =
        s.outputTruncated := outputTruncated_setSource s o _
    simp only [htaken, htruncated]
    exact hs.truncated

theorem Kept.captures (hs : Kept opts s) : Captures opts s where
  toKept := hs
  isPrefix o := (hs.keeps o).data ▸ List.take_prefix _ _
  bounded o hpos := by
    rw [(hs.keeps o).length, Options.kept, if_pos hpos]
    exact Nat.min_le_right _ _

/-- Without callbacks, the captured output is a bounded prefix at every moment
of every run. -/
theorem reachable_captures {pid : ℤ}
    (hcallback : ∀ o, opts.callback o = false)
    (hmax : opts.maxOutputBytes < 2 ^ 64) (hs : Reachable opts pid s) :
    Captures opts s := by
  have hkept : Kept opts s := by
    refine hs.invariant (I := Kept opts) ?_ ?_
    · rintro s rfl
      have hnone : ∀ o, ((init opts pid).source o).taken = 0 := by
        intro o
        cases o <;> rfl
      constructor
      · intro o
        cases o <;> exact ⟨le_rfl, by simp [init, State.source]⟩
      · simp only [hnone, Nat.not_lt_zero, exists_false, and_false]
        exact Bool.false_eq_true.to_iff
    · intro s a s' hI _ h
      cases a with
      | parent ans =>
          obtain hsame | ⟨o, hread⟩ := parentStep_sources h
          · exact hI.same hsame
          · exact hI.read hcallback hmax hread
      | child o bytes =>
          obtain rfl := Option.some.inj h
          exact hI.child o bytes
      | timeout =>
          obtain rfl := Option.some.inj h
          exact hI.same (SameSources.of_eq rfl rfl rfl)
  exact hkept.captures

/-! ## Reads that take all they can -/

/-- The stream with its bytes counted. -/
def Source.count (t : Source) (pipe : Pipe) : Stream where
  pipe := { pipe with used := t.written.length - t.taken, parent := t.isOpen }
  size := t.data.length

/-- A `read` that takes as much as there is and fits. -/
def fullRead (opts : Options) (t : Source) : ReadAnswer :=
  if min (t.written.length - t.taken) opts.readBufferSize = 0 then .nothing
  else .bytes (min (t.written.length - t.taken) opts.readBufferSize)

/-- With such reads `DrainFd` does to the counts what the model that counts
bytes says. -/
theorem drainRead_count (h : t.Keeps opts)
    (hmax : opts.maxOutputBytes < 2 ^ 64) (callback : Bool) (pipe : Pipe) :
    (drainRead opts callback t truncated
        { read := fullRead opts t, accepts := accepts }).map
      (fun (t', truncated', result) => (t'.count pipe, truncated', result)) =
      some (PopenWrapper.drainRead opts callback (t.count pipe) truncated
        { accepts := accepts }) := by
  have htaken := h.taken
  by_cases hnone : min (t.written.length - t.taken) opts.readBufferSize = 0
  · rw [fullRead, if_pos hnone]
    simp [drainRead, PopenWrapper.drainRead, Source.count, hnone]
  · rw [fullRead, if_neg hnone]
    generalize hn : min (t.written.length - t.taken) opts.readBufferSize = n
      at hnone
    have hread : 0 < n ∧ n ≤ opts.readBufferSize ∧
        t.taken + n ≤ t.written.length := by omega
    have hchunk : ((t.written.drop t.taken).take n).length = n := by
      rw [List.length_take, List.length_drop]
      omega
    have hused : t.written.length - (t.taken + n) =
        t.written.length - t.taken - n := by omega
    simp only [drainRead, if_pos hread, Option.map_some, collect,
      PopenWrapper.drainRead, Source.count, hn, hnone, if_false,
      Bool.false_eq_true, hchunk]
    cases callback with
    | true => simp [hused]
    | false =>
        by_cases hpos : 0 < opts.maxOutputBytes
        · have hspace := space_eq h hpos hmax
          have hlength := h.length
          rw [Options.kept, if_pos hpos] at hlength
          have hsame : opts.maxOutputBytes - t.taken =
              opts.maxOutputBytes - t.data.length := by omega
          rw [hspace, hsame]
          simp only [if_pos hpos, Bool.false_eq_true, if_false]
          split_ifs <;> simp [hused, hchunk]
          all_goals omega
        · simp [hpos, hused, hchunk]

end

/-! ## A run that truncates -/

/-- Three bytes of output where two are kept. -/
def truncates : List Action :=
  [.child .stdout [1, 2, 3], .parent {}, .parent {},
    .parent { poll := .ready fun _ => ⟨true, false, false⟩ }, .parent {},
    .parent { read := .bytes 3 }]

theorem truncates_isSome :
    (Transition.run (step { maxOutputBytes := 2 })
      (init { maxOutputBytes := 2 } 7) truncates).isSome = true := by
  decide

/-- The state after them. -/
abbrev truncated : State :=
  (Transition.run (step { maxOutputBytes := 2 })
    (init { maxOutputBytes := 2 } 7) truncates).get truncates_isSome

/-- The first two bytes are captured, and the flag is set. -/
theorem reachable_captures_truncates :
    Captures { maxOutputBytes := 2 } truncated ∧
      truncated.stdout.data = [1, 2] ∧ truncated.outputTruncated = true := by
  refine ⟨?_, by decide, by decide⟩
  exact reachable_captures (fun o => by cases o <;> rfl) (by decide)
    (Transition.reachable_get_run (Set.mem_singleton _) truncates_isSome)

end Streams
end PopenWrapper
end Yacul
