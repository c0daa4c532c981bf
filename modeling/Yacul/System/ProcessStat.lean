import Mathlib.Data.Rat.Defs
import Yacul.System.SysFiles

/-!
# The stat file of a process

The name of a process stands in parentheses and may itself contain
parentheses and spaces, so `ParseProcess` takes it from the first opening to
the last closing parenthesis.  It reads on two bytes after that one, and
`substr` throws when there are not that many.
-/

namespace Yacul
namespace SystemInfo

open Scanning

/-- The standard exceptions that the parsers can raise. -/
inductive StdException
  | out_of_range
  | invalid_argument
deriving DecidableEq, Repr

/-- `std::string::substr` to the end. -/
def substr (text : Text) (pos : ℕ) : Except StdException Text :=
  if text.length < pos then .error .out_of_range else .ok (text.drop pos)

/-- The fields after the name, up to the last one that is used. -/
structure StatFields where
  state_char : UInt8
  ppid_val : ℤ
  utime : ℤ
  stime : ℤ
  num_threads_val : ℤ
  starttime : ℤ
  vsize : ℕ
  rss : ℤ
deriving DecidableEq, Repr

/-- The chain of `>>`. -/
def readStat (ss : IStringStream) : StatFields :=
  let (state_char, ss) := ss.readChar 0x55
  let (ppid_val, ss) := ss.readSigned 32
  let (_pgrp, ss) := ss.readSigned 32
  let (_session, ss) := ss.readSigned 32
  let (_tty_nr, ss) := ss.readSigned 32
  let (_tpgid, ss) := ss.readSigned 32
  let (_flags_val, ss) := ss.readUnsigned 32
  let (_minflt, ss) := ss.readUnsigned 64
  let (_cminflt, ss) := ss.readUnsigned 64
  let (_majflt, ss) := ss.readUnsigned 64
  let (_cmajflt, ss) := ss.readUnsigned 64
  let (utime, ss) := ss.readSigned 64
  let (stime, ss) := ss.readSigned 64
  let (_cutime, ss) := ss.readSigned 64
  let (_cstime, ss) := ss.readSigned 64
  let (_priority, ss) := ss.readSigned 64
  let (_nice_val, ss) := ss.readSigned 64
  let (num_threads_val, ss) := ss.readSigned 64
  let (_itrealvalue, ss) := ss.readSigned 64
  let (starttime, ss) := ss.readSigned 64
  let (vsize, ss) := ss.readUnsigned 64
  let (rss, _) := ss.readSigned 64
  { state_char, ppid_val, utime, stime, num_threads_val, starttime, vsize, rss }

/-- `SystemInfo::ProcessInfo`; times are in nanoseconds. -/
structure ProcessInfo where
  pid : ℤ := 0
  ppid : ℤ := 0
  name : Text := []
  cmdline : Text := []
  state : Text := []
  username : Text := []
  uid : ℕ := 0
  cpu_percent : ℚ := 0
  rss_bytes : UInt64 := 0
  vms_bytes : UInt64 := 0
  num_threads : UInt64 := 0
  cpu_time : ℤ := 0
  start_time : ℤ := 0
deriving DecidableEq, Repr

/-- What else the system says: `sysconf`, the number in `/proc/uptime` if
`stod` gives one, the clock, the file `cmdline`, and the owner with the name
that `getpwuid_r` gives. -/
structure ProcessEnv where
  page_size : ℤ := 4096
  ticks_per_sec : ℤ := 100
  up_secs : Option ℚ := none
  now_tp : ℤ := 0
  cmdline : Option Text := none
  owner : Option (ℕ × Option Text) := none
deriving DecidableEq, Repr

/-- `duration_cast` of seconds to the nanoseconds of the clock. -/
def durationCast (seconds : ℚ) : ℤ :=
  (seconds * 1000000000).num.tdiv (seconds * 1000000000).den

/-- NUL bytes become spaces, and a last space is dropped. -/
def joinCmdline (cmdline_raw : Text) : Text :=
  let joined := cmdline_raw.map fun c => if c = 0 then 0x20 else c
  if joined.getLast? = some 0x20 then joined.dropLast else joined

/-- The record, from its name and the fields after it. -/
def processInfo (env : ProcessEnv) (pid : ℤ) (name : Text)
    (fields : StatFields) : ProcessInfo :=
  let page_size := if env.page_size ≤ 0 then 4096 else env.page_size
  let ticks_per_sec := if env.ticks_per_sec ≤ 0 then 100 else env.ticks_per_sec
  -- The sum is undefined out of the range of `long`; here it wraps.
  let cpu_ticks := (fields.utime + fields.stime).bmod (2 ^ 64)
  { pid := pid
    name := name
    state := [fields.state_char]
    ppid := fields.ppid_val
    num_threads := UInt64.ofInt fields.num_threads_val
    vms_bytes := UInt64.ofNat fields.vsize
    rss_bytes := UInt64.ofInt fields.rss * UInt64.ofInt page_size
    cpu_time := cpu_ticks.tdiv ticks_per_sec
    start_time :=
      match env.up_secs with
      | none => 0
      | some up_secs =>
          env.now_tp - durationCast up_secs +
            durationCast (fields.starttime / ticks_per_sec)
    cmdline := joinCmdline (readFile env.cmdline)
    uid := (env.owner.map Prod.fst).getD 0
    username := (env.owner.bind Prod.snd).getD [] }

/-- `'('`. -/
def parenOpen : UInt8 := 0x28

/-- `')'`. -/
def parenClose : UInt8 := 0x29

/-- `SystemInfo::ParseProcess`, of the file `stat`. -/
def parseProcess (env : ProcessEnv) (pid : ℤ) (stat : Option Text) :
    Except StdException (Option ProcessInfo) :=
  let stat_raw := readFile stat
  if stat_raw.isEmpty then .ok none
  else
    match find parenOpen stat_raw, rfind parenClose stat_raw with
    | some paren_open, some paren_close =>
        if paren_close ≤ paren_open then .ok none
        else do
          let name ← substr stat_raw (paren_open + 1)
          let rest ← substr stat_raw (paren_close + 2)
          return some (processInfo env pid
            (name.take (paren_close - paren_open - 1))
            (readStat { rest := rest }))
    | _, _ => .ok none

/-! ## Where the name is -/

/-- The content with a name between the first opening and the last closing
parenthesis. -/
structure Named (content before name after : Text) : Prop where
  append : before ++ parenOpen :: (name ++ parenClose :: after) = content
  first : parenOpen ∉ before
  last : parenClose ∉ after

/-- An opening parenthesis is somewhere before a closing one. -/
def HasParens (content : Text) : Prop :=
  ∃ before between after,
    before ++ parenOpen :: (between ++ parenClose :: after) = content

variable {content before name after : Text} {env : ProcessEnv} {pid : ℤ}
  {stat : Option Text}

theorem Named.find (h : Named content before name after) :
    find parenOpen content = some before.length := by
  rw [← h.append]
  exact find_append h.first _

theorem Named.rfind (h : Named content before name after) :
    rfind parenClose content = some (before.length + 1 + name.length) := by
  have hcontent : content =
      (before ++ parenOpen :: name) ++ parenClose :: after := by
    rw [← h.append, List.append_assoc, List.cons_append]
  rw [hcontent, rfind_append _ h.last, List.length_append, List.length_cons]
  congr 1
  omega

/-- If the text after the first opening parenthesis has no closing one, none
is after any opening one. -/
theorem not_hasParens {rest : Text} (hbefore : parenOpen ∉ before)
    (hrest : parenClose ∉ rest) :
    ¬ HasParens (before ++ parenOpen :: rest) := by
  rintro ⟨before', between, after, happend⟩
  have hclose : parenClose ∈ between ++ parenClose :: after :=
    List.mem_append_right _ List.mem_cons_self
  obtain ⟨u, hu, htail⟩ | ⟨u, -, htail⟩ :=
    List.append_eq_append_iff.mp happend
  · cases u with
    | nil =>
        obtain ⟨-, rfl⟩ := List.cons.inj htail
        exact hrest hclose
    | cons c u =>
        obtain ⟨rfl, -⟩ := List.cons.inj htail
        apply hbefore
        rw [hu]
        exact List.mem_append_right _ List.mem_cons_self
  · cases u with
    | nil =>
        obtain ⟨-, rfl⟩ := List.cons.inj htail
        exact hrest hclose
    | cons c u =>
        obtain ⟨-, rfl⟩ := List.cons.inj htail
        exact hrest (List.mem_append_right _ (List.mem_cons_of_mem _ hclose))

/-- Either the searches find a name, or there are no such parentheses. -/
theorem named_or_not_hasParens (content : Text) :
    (∃ before name after, Named content before name after) ∨
      ¬ HasParens content ∧
        ∀ paren_open paren_close, find parenOpen content = some paren_open →
          rfind parenClose content = some paren_close →
            paren_close ≤ paren_open := by
  by_cases hopen : parenOpen ∈ content
  · obtain ⟨before, rest, rfl, hbefore⟩ := List.eq_append_cons_of_mem hopen
    by_cases hclose : parenClose ∈ rest
    · obtain ⟨u, v, hrest, hu⟩ :=
        List.eq_append_cons_of_mem (List.mem_reverse.mpr hclose)
      refine .inl ⟨before, v.reverse, u.reverse, ?_, hbefore, by simpa using hu⟩
      have hname : rest = v.reverse ++ parenClose :: u.reverse := by
        rw [← List.reverse_reverse rest, hrest]
        simp
      rw [hname]
    · refine .inr ⟨not_hasParens hbefore hclose, fun i j hi hj => ?_⟩
      rw [find_append hbefore] at hi
      obtain rfl := Option.some.inj hi
      -- The last closing parenthesis is in front of the first opening one.
      by_cases hfront : parenClose ∈ before
      · obtain ⟨u, v, hreverse, hu⟩ :=
          List.eq_append_cons_of_mem (List.mem_reverse.mpr hfront)
        have hsplit : before = v.reverse ++ parenClose :: u.reverse := by
          rw [← List.reverse_reverse before, hreverse]
          simp
        have hlast : parenClose ∉ u.reverse ++ parenOpen :: rest := by
          simp only [List.mem_append, List.mem_reverse, List.mem_cons, not_or]
          exact ⟨hu, by decide, hclose⟩
        have hcontent : before ++ parenOpen :: rest =
            v.reverse ++ parenClose :: (u.reverse ++ parenOpen :: rest) := by
          rw [hsplit, List.append_assoc, List.cons_append]
        rw [hcontent, rfind_append _ hlast] at hj
        obtain rfl := Option.some.inj hj
        rw [hsplit, List.length_append]
        exact Nat.le_add_right _ _
      · have hnone : parenClose ∉ before ++ parenOpen :: rest := by
          simp only [List.mem_append, List.mem_cons, not_or]
          exact ⟨hfront, by decide, hclose⟩
        rw [rfind_eq_none hnone] at hj
        cases hj
  · refine .inr ⟨?_, fun i j hi => ?_⟩
    · rintro ⟨before, between, after, rfl⟩
      exact hopen (List.mem_append_right _ List.mem_cons_self)
    · rw [find_eq_none hopen] at hi
      cases hi

theorem Named.hasParens (h : Named content before name after) :
    HasParens content :=
  ⟨before, name, after, h.append⟩

/-! ## What the parser does -/

theorem parseProcess_of_not_hasParens (env : ProcessEnv) (pid : ℤ)
    (h : ∀ paren_open paren_close,
      find parenOpen (readFile stat) = some paren_open →
        rfind parenClose (readFile stat) = some paren_close →
          paren_close ≤ paren_open) :
    parseProcess env pid stat = .ok none := by
  unfold parseProcess
  dsimp only
  split
  · rfl
  · split
    · next paren_open paren_close hopen hclose =>
      rw [if_pos (h paren_open paren_close hopen hclose)]
    · rfl

theorem Named.length (h : Named content before name after) :
    content.length =
      before.length + 1 + name.length + 1 + after.length := by
  rw [← h.append]
  simp only [List.length_append, List.length_cons]
  omega

theorem Named.name_eq (h : Named content before name after) :
    (content.drop (before.length + 1)).take name.length = name := by
  rw [← h.append, List.drop_append, List.drop_of_length_le (by omega)]
  simp

theorem Named.after_eq (h : Named content before name after) (n : ℕ) :
    content.drop (before.length + 1 + name.length + (n + 1)) =
      after.drop n := by
  have hcontent : content =
      (before ++ parenOpen :: (name ++ [parenClose])) ++ after := by
    rw [← h.append]
    simp
  have hlength : before.length + 1 + name.length + (n + 1) =
      (before ++ parenOpen :: (name ++ [parenClose])).length + n := by
    simp only [List.length_append, List.length_cons, List.length_nil]
    omega
  rw [hcontent, hlength, List.drop_append]
  simp

/-- With a name the parser reads on two bytes after the closing
parenthesis. -/
theorem parseProcess_of_named (env : ProcessEnv) (pid : ℤ)
    (h : Named (readFile stat) before name after) :
    parseProcess env pid stat =
      if after = [] then .error .out_of_range
      else
        .ok (some (processInfo env pid name
          (readStat { rest := after.drop 1 }))) := by
  have hlength := h.length
  have hne : (readFile stat).isEmpty = false := by
    rw [List.isEmpty_eq_false_iff, ← List.length_pos_iff]
    omega
  have hlt : ¬ before.length + 1 + name.length ≤ before.length := by omega
  have hname : substr (readFile stat) (before.length + 1) =
      .ok ((readFile stat).drop (before.length + 1)) :=
    if_neg (by omega)
  have hcount : before.length + 1 + name.length - before.length - 1 =
      name.length := by omega
  simp only [parseProcess, hne, Bool.false_eq_true, if_false, h.find, h.rfind,
    if_neg hlt, hname, hcount]
  split
  · next hafter =>
    have hthrows : substr (readFile stat) (before.length + 1 + name.length + 2) =
        .error .out_of_range := by
      rw [hafter, List.length_nil] at hlength
      exact if_pos (by omega)
    rw [hthrows]
    rfl
  · next hafter =>
    have hrest : substr (readFile stat) (before.length + 1 + name.length + 2) =
        .ok (after.drop 1) := by
      rw [← h.after_eq 1]
      have hpos := List.length_pos_iff.mpr hafter
      exact if_neg (by omega)
    rw [hrest]
    exact congrArg (fun found => Except.ok (some (processInfo env pid found
      (readStat { rest := after.drop 1 })))) h.name_eq

/-- The last byte is a closing parenthesis, and an opening one is in front of
it. -/
def EndsInName (content : Text) : Prop :=
  ∃ before name, before ++ parenOpen :: (name ++ [parenClose]) = content

theorem Named.endsInName_iff (h : Named content before name after) :
    EndsInName content ↔ after = [] := by
  constructor
  · rintro ⟨before', name', hends⟩
    by_contra hne
    obtain ⟨init, c, hconcat⟩ :=
      (List.eq_nil_or_concat after).resolve_left hne
    obtain rfl := hconcat.trans (List.concat_eq_append ..)
    have hsplit : (before ++ parenOpen :: (name ++ parenClose :: init)) ++ [c] =
        (before' ++ parenOpen :: name') ++ [parenClose] := by
      have happend := h.append.trans hends.symm
      simpa only [List.append_assoc, List.cons_append] using happend
    obtain ⟨-, hc⟩ := List.append_inj' hsplit rfl
    obtain ⟨rfl, -⟩ := List.cons.inj hc
    exact h.last (List.mem_append_right _ List.mem_cons_self)
  · rintro rfl
    exact ⟨before, name, h.append⟩

theorem EndsInName.hasParens (h : EndsInName content) : HasParens content := by
  obtain ⟨before, name, hends⟩ := h
  exact ⟨before, name, [], hends⟩

/-- The parser throws exactly for a content that ends with the name. -/
theorem parseProcess_returns_iff (env : ProcessEnv) (pid : ℤ)
    (stat : Option Text) :
    (∃ proc, parseProcess env pid stat = .ok proc) ↔
      ¬ EndsInName (readFile stat) := by
  obtain ⟨before, name, after, hnamed⟩ | ⟨hno, hsearch⟩ :=
    named_or_not_hasParens (readFile stat)
  · rw [hnamed.endsInName_iff, parseProcess_of_named env pid hnamed]
    split
    · next hafter => simp [hafter]
    · next hafter => exact iff_of_true ⟨_, rfl⟩ hafter
  · rw [parseProcess_of_not_hasParens env pid hsearch]
    exact iff_of_true ⟨none, rfl⟩ fun h => hno h.hasParens

theorem parseProcess_eq_none_iff (env : ProcessEnv) (pid : ℤ)
    (stat : Option Text) :
    parseProcess env pid stat = .ok none ↔ ¬ HasParens (readFile stat) := by
  obtain ⟨before, name, after, hnamed⟩ | ⟨hno, hsearch⟩ :=
    named_or_not_hasParens (readFile stat)
  · rw [parseProcess_of_named env pid hnamed]
    refine iff_of_false ?_ fun h => h hnamed.hasParens
    split
    · simp
    · simp
  · exact iff_of_true (parseProcess_of_not_hasParens env pid hsearch) hno

theorem parseProcess_eq_some {proc : ProcessInfo}
    (h : parseProcess env pid stat = .ok (some proc)) :
    ∃ before name after, Named (readFile stat) before name after ∧
      proc = processInfo env pid name (readStat { rest := after.drop 1 }) := by
  obtain ⟨before, name, after, hnamed⟩ | ⟨hno, hsearch⟩ :=
    named_or_not_hasParens (readFile stat)
  · rw [parseProcess_of_named env pid hnamed] at h
    split at h
    · cases h
    · obtain rfl := Option.some.inj (Except.ok.inj h)
      exact ⟨before, name, after, hnamed, rfl⟩
  · rw [parseProcess_of_not_hasParens env pid hsearch] at h
    cases h

/-- The parser is total, and reads what the format says. -/
structure ParsesStat (env : ProcessEnv) (pid : ℤ) (stat : Option Text) :
    Prop where
  returns : ∃ proc, parseProcess env pid stat = .ok proc
  nullopt : parseProcess env pid stat = .ok none ↔ ¬ HasParens (readFile stat)
  record : ∀ proc, parseProcess env pid stat = .ok (some proc) →
    ∃ before name after, Named (readFile stat) before name after ∧
      proc = processInfo env pid name (readStat { rest := after.drop 1 })

/-- The parser does what the format says exactly if the content does not end
with the name. -/
theorem parsesStat_iff (env : ProcessEnv) (pid : ℤ) (stat : Option Text) :
    ParsesStat env pid stat ↔ ¬ EndsInName (readFile stat) := by
  constructor
  · intro h
    exact (parseProcess_returns_iff env pid stat).mp h.returns
  · intro h
    exact ⟨(parseProcess_returns_iff env pid stat).mpr h,
      parseProcess_eq_none_iff env pid stat,
      fun _ hproc => parseProcess_eq_some hproc⟩

/-- `"1 (a)"`: a content that is cut off behind the name. -/
def cutOff : Text := [0x31, 0x20, 0x28, 0x61, 0x29]

/-- `substr` throws. -/
theorem exists_statThrows :
    parseProcess {} 1 (some cutOff) = .error .out_of_range ∧
      ¬ ParsesStat {} 1 (some cutOff) := by
  have hthrows : parseProcess {} 1 (some cutOff) = .error .out_of_range := by
    decide +kernel
  refine ⟨hthrows, ?_⟩
  rintro ⟨⟨proc, hproc⟩, -, -⟩
  rw [hthrows] at hproc
  cases hproc

/-! ## The scan -/

/-- An entry of `/proc`, with what is found for it. -/
structure ProcEntry where
  d_name : Text
  stat : Option Text := none
  env : ProcessEnv := {}
deriving DecidableEq, Repr

/-- `isdigit` of the first byte. -/
def ProcEntry.isPid (entry : ProcEntry) : Bool :=
  entry.d_name.head?.any isDigit

/-- `static_cast<pid_t>`, of a `long` to 32 bits. -/
def toPid (n : ℤ) : ℤ := n.bmod (2 ^ 32)

/-- The loop of `SystemInfo::FetchAllProcesses`; an exception of `stol` or of
`ParseProcess` ends it. -/
def fetchAllProcesses : List ProcEntry → Except StdException (List ProcessInfo)
  | [] => .ok []
  | entry :: entries =>
      if entry.isPid then
        match stol entry.d_name with
        | none => .error .out_of_range
        | some n => do
            let pid := toPid n
            let proc ← parseProcess entry.env pid entry.stat
            let procs ← fetchAllProcesses entries
            return proc.toList ++ procs
      else fetchAllProcesses entries

/-- One content that ends with the name aborts the scan of all processes. -/
theorem fetchAllProcesses_returns_iff (entries : List ProcEntry) :
    (∃ procs, fetchAllProcesses entries = .ok procs) ↔
      ∀ entry ∈ entries, entry.isPid = true →
        (stol entry.d_name).isSome = true ∧
          ¬ EndsInName (readFile entry.stat) := by
  induction entries with
  | nil => simp [fetchAllProcesses]
  | cons entry entries ih =>
      rw [List.forall_mem_cons, ← ih]
      cases hpid : entry.isPid with
      | false => simp [fetchAllProcesses, hpid]
      | true =>
          rw [imp_iff_right rfl]
          cases hstol : stol entry.d_name with
          | none => simp [fetchAllProcesses, hpid, hstol]
          | some n =>
              rw [← parseProcess_returns_iff entry.env (toPid n) entry.stat]
              simp only [fetchAllProcesses, hpid, if_true, hstol]
              cases hproc : parseProcess entry.env (toPid n) entry.stat with
              | error e =>
                  refine iff_of_false ?_ ?_
                  · rintro ⟨procs, hprocs⟩
                    cases hprocs
                  · rintro ⟨⟨-, proc, h⟩, -⟩
                    cases h
              | ok proc =>
                  rw [and_iff_right ⟨rfl, proc, rfl⟩]
                  cases hrest : fetchAllProcesses entries with
                  | error e =>
                      refine iff_of_false ?_ ?_
                      · rintro ⟨procs, hprocs⟩
                        cases hprocs
                      · rintro ⟨procs, h⟩
                        cases h
                  | ok procs => exact iff_of_true ⟨_, rfl⟩ ⟨procs, rfl⟩

end SystemInfo
end Yacul
