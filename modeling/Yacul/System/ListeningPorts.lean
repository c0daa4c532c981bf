import Mathlib.Data.Int.Init
import Mathlib.Data.List.Induction
import Mathlib.Logic.Function.Basic
import Yacul.Support.Hex
import Yacul.System.ProcessStat
import Yacul.System.SysTables

/-!
# Listening ports

`GetListeningPorts` joins the sockets of `/proc/net/tcp` and `/proc/net/tcp6`
with the processes that hold them.  It reads the slot number of a row as a
number and the address as the word after it; the kernel writes a colon behind
the slot number, and that colon is the word.
-/

namespace Yacul
namespace SystemInfo

open Scanning

/-! ## Reading -/

/-- `SystemInfo::ListeningPort`. -/
structure ListeningPort where
  port : ℤ := 0
  proto : Text := []
  state : Text := []
  pid : ℤ := -1
  process_name : Text := []
deriving DecidableEq, Repr

/-- A last newline is dropped. -/
def popNewline (text : Text) : Text :=
  if text.getLast? = some 0x0a then text.dropLast else text

/-- An entry of `/proc`: its name, and the links in its directory `fd`, if that
opens, where a link that cannot be read is `none`. -/
structure FdEntry where
  d_name : Text
  fd_dir : Option (List (Option Text)) := none
deriving DecidableEq, Repr

/-- A process has an entry whose name starts with a digit. -/
def FdEntry.isPid (ent : FdEntry) : Bool :=
  ent.d_name.head?.any isDigit

/-- `unordered_map<uint64_t, pid_t>`. -/
abbrev InodeMap := UInt64 → Option ℤ

/-- The inode of a link `socket:[<inode>]`; the buffer has room for 255
bytes. -/
def socketInode (link : Text) : Option UInt64 :=
  let lv := link.take 255
  if lv.take 8 = ascii "socket:[" ∧ lv.getLast? = some 0x5d then
    stoull ((lv.drop 8).take (lv.length - 9))
  else none

/-- The inner loop, over the links of a process. -/
def InodeMap.addLinks (map : InodeMap) (pid : ℤ)
    (links : List (Option Text)) : InodeMap :=
  links.foldl
    (fun map link =>
      match link.bind socketInode with
      | some inode => Function.update map inode (some pid)
      | none => map)
    map

/-- One round of the outer loop; `stol` may throw. -/
def InodeMap.addEntry (map : InodeMap) (ent : FdEntry) :
    Except StdException InodeMap :=
  if ent.isPid then
    match stol ent.d_name with
    | none => .error .out_of_range
    | some pid => .ok (map.addLinks (pid.bmod (2 ^ 32)) (ent.fd_dir.getD []))
  else .ok map

/-- The scan of `/proc`. -/
def inodeToPid (proc_dir : List FdEntry) : Except StdException InodeMap :=
  proc_dir.foldlM InodeMap.addEntry fun _ => none

/-- The fields of a row that are used. -/
structure NetFields where
  local_addr : Text
  st : ℕ
  inode_val : UInt64
deriving DecidableEq, Repr

/-- The chains of `>>`. -/
def readNetFields (ss : IStringStream) : NetFields :=
  let (_sl, ss) := ss.readSigned 32
  let (local_addr, ss) := ss.readWord
  let (_rem_addr, ss) := ss.readWord
  let (st, ss) := ss.readHex 32
  let (_skip, ss) := ss.readWord
  let (_skip, ss) := ss.readWord
  let (_skip, ss) := ss.readWord
  let (_uid_val, ss) := ss.readSigned 32
  let (_timeout_val, ss) := ss.readSigned 32
  let (inode_val, _) := ss.readUInt64
  { local_addr, st, inode_val }

/-- The process that holds the inode, and what its file `comm` says. -/
def ListeningPort.setOwner (lp : ListeningPort) (comm : ℤ → Option Text) :
    Option ℤ → ListeningPort
  | none => lp
  | some pid =>
      { lp with
        pid := pid
        process_name := popNewline (readFile (comm pid)) }

/-- One round of the loop in `parse_net_file`. -/
def parseNetLine (inode_to_pid : InodeMap) (comm : ℤ → Option Text)
    (proto line : Text) : Option ListeningPort :=
  let fields := readNetFields { rest := line }
  if fields.st ≠ 0x0A then none
  else
    match find 0x3a fields.local_addr with
    | none => none
    | some colon_pos =>
        (stoulHex (fields.local_addr.drop (colon_pos + 1))).map fun port_val =>
          let lp : ListeningPort :=
            { port := (port_val.toNat : ℤ).bmod (2 ^ 32)
              proto := proto
              state := ascii "LISTEN" }
          lp.setOwner comm (inode_to_pid fields.inode_val)

/-- `parse_net_file`: the first line is the header. -/
def parseNetFile (inode_to_pid : InodeMap) (comm : ℤ → Option Text)
    (proto : Text) (file : Option Text) : List ListeningPort :=
  ((lines (readFile file)).drop 1).filterMap
    (parseNetLine inode_to_pid comm proto)

/-- `std::sort` by a key, which does not say in which order it leaves elements
with the same key. -/
structure SortsBy {α : Type} (key : α → ℤ) (before after : List α) :
    Prop where
  perm : after.Perm before
  sorted : after.Pairwise fun a b => key a ≤ key b

/-- What the system shows: the entries of `/proc`, the files `comm`, and the
two tables. -/
structure NetFiles where
  proc_dir : List FdEntry := []
  comm : ℤ → Option Text := fun _ => none
  tcp : Option Text := none
  tcp6 : Option Text := none

/-- The ports before they are sorted. -/
def NetFiles.ports (net : NetFiles) : Except StdException (List ListeningPort) :=
  (inodeToPid net.proc_dir).map fun inode_to_pid =>
    parseNetFile inode_to_pid net.comm (ascii "tcp") net.tcp ++
      parseNetFile inode_to_pid net.comm (ascii "tcp6") net.tcp6

/-- `SystemInfo::GetListeningPorts` may return `result`. -/
def GetListeningPorts (net : NetFiles) (result : List ListeningPort) : Prop :=
  ∃ ports, net.ports = .ok ports ∧ SortsBy ListeningPort.port ports result

/-! ## Rows of the kernel -/

/-- A row as the kernel writes it: a colon behind the slot number. -/
structure KernelRow where
  blanks : Text
  sl : ℕ
  gap : Text
  rest : Text
  blanks_spaces : ∀ c ∈ blanks, isSpace c = true
  gap_gap : IsGap gap
  plain : (0x0a : UInt8) ∉ blanks ++ (gap ++ rest)

namespace KernelRow

def line (row : KernelRow) : Text :=
  row.blanks ++ (decimal row.sl ++ (0x3a :: (row.gap ++ row.rest)))

theorem newline_notMem_line (row : KernelRow) :
    (0x0a : UInt8) ∉ row.line := by
  have hdigits : (0x0a : UInt8) ∉ decimal row.sl := fun hmem =>
    absurd (isDigit_of_mem_decimal hmem) (by decide)
  obtain ⟨hblanks, hrest⟩ := not_or.mp (mt List.mem_append.mpr row.plain)
  simp only [line, List.mem_append, List.mem_cons, not_or] at hrest ⊢
  exact ⟨hblanks, hdigits, by decide, hrest⟩

theorem isWord_colon : IsWord [0x3a] :=
  isWord_of_all (by decide) (by decide)

/-- The address is the colon, or the stream has failed at the slot number. -/
theorem readNetFields_line (row : KernelRow) :
    (readNetFields { rest := row.line }).st = 0 ∨
      (readNetFields { rest := row.line }).local_addr = [0x3a] := by
  have hcolon : Stops isDigit (0x3a :: (row.gap ++ row.rest)) :=
    stops_cons rfl _
  by_cases hsl : row.sl < 2 ^ (32 - 1)
  · right
    have hspaces : ∀ c ∈ ([] : Text), isSpace c = true := nofun
    have hword := IStringStream.readWord_word hspaces isWord_colon
      (row.gap_gap.stops_word row.rest)
    rw [List.nil_append, List.singleton_append] at hword
    simp only [readNetFields, line,
      IStringStream.readSigned_decimal row.blanks_spaces hcolon hsl, hword]
  · left
    have hscan := scanNumeral_decimal row.sl row.blanks_spaces hcolon
    have hlow : ¬ ((row.sl : ℕ) : ℤ) < -2 ^ (32 - 1) := by omega
    have hhigh : (2 : ℤ) ^ (32 - 1) ≤ row.sl := by omega
    have hread : IStringStream.readSigned 32 { rest := row.line } =
        (2 ^ (32 - 1) - 1,
          { rest := 0x3a :: (row.gap ++ row.rest), fail := true }) := by
      have hvalue : (⟨false, row.sl, 0x3a :: (row.gap ++ row.rest)⟩ :
          Numeral).toInt = row.sl := rfl
      simp only [IStringStream.readSigned, Bool.false_eq_true, if_false, line,
        hscan, hvalue, if_neg hlow, if_pos hhigh]
    simp only [readNetFields, hread, IStringStream.readWord,
      IStringStream.readHex, Bool.true_or, if_true]

theorem parseNetLine_line (row : KernelRow) (inode_to_pid : InodeMap)
    (comm : ℤ → Option Text) (proto : Text) :
    parseNetLine inode_to_pid comm proto row.line = none := by
  unfold parseNetLine
  dsimp only
  obtain hst | haddr := row.readNetFields_line
  · rw [hst]
    rfl
  · have hfind : find 0x3a [0x3a] = some 0 := rfl
    rw [haddr, hfind]
    split <;> rfl

end KernelRow

/-! ## Tables -/

/-- The first line of a table. -/
structure Header where
  text : Text
  plain : (0x0a : UInt8) ∉ text

/-- A table: the header and its rows. -/
def Header.table (header : Header) (rows : List Text) : Text :=
  unlines (header.text :: rows)

theorem parseNetFile_table (inode_to_pid : InodeMap)
    (comm : ℤ → Option Text) (proto : Text) (header : Header)
    {rows : List Text} (hrows : ∀ row ∈ rows, (0x0a : UInt8) ∉ row) :
    parseNetFile inode_to_pid comm proto (some (header.table rows)) =
      rows.filterMap (parseNetLine inode_to_pid comm proto) := by
  have hplain : ∀ line ∈ header.text :: rows, (0x0a : UInt8) ∉ line := by
    intro line hline
    rcases List.mem_cons.mp hline with rfl | hmem
    · exact header.plain
    · exact hrows line hmem
  rw [parseNetFile, readFile, Option.getD_some, Header.table,
    lines_unlines hplain, List.drop_one, List.tail_cons]

/-- A table of the kernel, if the file opens. -/
def kernelFile (file : Option (Header × List KernelRow)) : Option Text :=
  file.map fun f => f.1.table (f.2.map KernelRow.line)

theorem parseNetFile_kernelFile (inode_to_pid : InodeMap)
    (comm : ℤ → Option Text) (proto : Text)
    (file : Option (Header × List KernelRow)) :
    parseNetFile inode_to_pid comm proto (kernelFile file) = [] := by
  cases file with
  | none => rfl
  | some f =>
      have hplain : ∀ row ∈ f.2.map KernelRow.line, (0x0a : UInt8) ∉ row := by
        intro line hline
        obtain ⟨row, -, rfl⟩ := List.mem_map.mp hline
        exact row.newline_notMem_line
      rw [kernelFile, Option.map_some, parseNetFile_table _ _ _ _ hplain,
        List.filterMap_map, List.filterMap_eq_nil_iff]
      exact fun row _ => row.parseNetLine_line inode_to_pid comm proto

/-! ## Rows in the format of the comment -/

/-- A row as the comment in `parse_net_file` gives it: the address is the
second word. -/
structure NetRow where
  layout : Layout
  sl : ℕ
  ip : Text
  port : Text
  rem_address : Text
  st : Text
  queues : Text
  timer : Text
  retrnsmt : Text
  uid : ℕ
  timeout : ℕ
  inode : UInt64
  sl_lt : sl < 2 ^ 31
  ip_visible : ∀ c ∈ ip, isSpace c = false
  ip_colon : (0x3a : UInt8) ∉ ip
  port_hex : IsHex port
  port_lt : ofHexDigits port < 2 ^ 31
  rem_word : IsWord rem_address
  st_hex : IsHex st
  st_lt : ofHexDigits st < 2 ^ 32
  queues_word : IsWord queues
  timer_word : IsWord timer
  retrnsmt_word : IsWord retrnsmt
  uid_lt : uid < 2 ^ 31
  timeout_lt : timeout < 2 ^ 31

namespace NetRow

def localAddress (row : NetRow) : Text := row.ip ++ 0x3a :: row.port

def fields (row : NetRow) : List Text :=
  [decimal row.sl, row.localAddress, row.rem_address, row.st, row.queues,
    row.timer, row.retrnsmt, decimal row.uid, decimal row.timeout,
    decimal row.inode.toNat]

def line (row : NetRow) : Text := row.layout.line row.fields

/-- The socket listens. -/
def listens (row : NetRow) : Bool := ofHexDigits row.st = 0x0A

/-- What is reported of the row. -/
def toPort (row : NetRow) (inode_to_pid : InodeMap) (comm : ℤ → Option Text)
    (proto : Text) : ListeningPort :=
  let lp : ListeningPort :=
    { port := ofHexDigits row.port, proto := proto, state := ascii "LISTEN" }
  lp.setOwner comm (inode_to_pid row.inode)

theorem isWord_localAddress (row : NetRow) : IsWord row.localAddress := by
  refine ⟨by simp [localAddress], fun c hc => ?_⟩
  simp only [localAddress, List.mem_append, List.mem_cons] at hc
  rcases hc with hip | rfl | hport
  · exact row.ip_visible c hip
  · rfl
  · exact row.port_hex.isWord.visible c hport

theorem worded (row : NetRow) : ∀ field ∈ row.fields, IsWord field := by
  intro field hfield
  simp only [fields, List.mem_cons, List.not_mem_nil, or_false] at hfield
  rcases hfield with rfl | rfl | rfl | rfl | rfl | rfl | rfl | rfl | rfl | rfl
  · exact isWord_decimal _
  · exact row.isWord_localAddress
  · exact row.rem_word
  · exact row.st_hex.isWord
  · exact row.queues_word
  · exact row.timer_word
  · exact row.retrnsmt_word
  · exact isWord_decimal _
  · exact isWord_decimal _
  · exact isWord_decimal _

theorem readNetFields_line (row : NetRow) :
    readNetFields { rest := row.line } =
      { local_addr := row.localAddress
        st := ofHexDigits row.st
        inode_val := row.inode } := by
  have hl := row.layout.isLayout
  have hdigit := row.layout.stops_isDigit
  have hword := row.layout.stops_word
  simp only [readNetFields, line, Layout.line, fields,
    IStringStream.readSigned_fields hl hdigit (w := 32) row.sl_lt,
    IStringStream.readWord_fields hl row.isWord_localAddress _ _ hword,
    IStringStream.readWord_fields hl row.rem_word _ _ hword,
    IStringStream.readHex_fields hl row.st_hex (w := 32) row.st_lt,
    IStringStream.readWord_fields hl row.queues_word _ _ hword,
    IStringStream.readWord_fields hl row.timer_word _ _ hword,
    IStringStream.readWord_fields hl row.retrnsmt_word _ _ hword,
    IStringStream.readSigned_fields hl hdigit (w := 32) row.uid_lt,
    IStringStream.readSigned_fields hl hdigit (w := 32) row.timeout_lt,
    IStringStream.readUInt64_fields hl hdigit]

theorem parseNetLine_line (row : NetRow) (inode_to_pid : InodeMap)
    (comm : ℤ → Option Text) (proto : Text) :
    parseNetLine inode_to_pid comm proto row.line =
      if row.listens then some (row.toPort inode_to_pid comm proto)
      else none := by
  have hfind : find 0x3a row.localAddress = some row.ip.length :=
    find_append row.ip_colon _
  have hport : row.localAddress.drop (row.ip.length + 1) = row.port := by
    simp [localAddress, List.drop_append]
  have hlt := row.port_lt
  have hscan := stoulHex_digits row.port_hex (by omega)
  have hnat : (UInt64.ofNat (ofHexDigits row.port)).toNat =
      ofHexDigits row.port :=
    UInt64.toNat_ofNat_of_lt (lt_trans hlt (by norm_num))
  have hint : ((ofHexDigits row.port : ℕ) : ℤ).bmod (2 ^ 32) =
      ofHexDigits row.port :=
    Int.bmod_eq_of_le (by omega) (by omega)
  simp only [parseNetLine, readNetFields_line, hfind, hport, hscan,
    Option.map_some, hnat, hint, toPort, listens, decide_eq_true_eq]
  by_cases hst : ofHexDigits row.st = 0x0A
  · rw [if_neg (not_not.mpr hst), if_pos hst]
  · rw [if_pos hst, if_neg hst]

theorem newline_notMem_line (row : NetRow) : (0x0a : UInt8) ∉ row.line :=
  newline_notMem_fields row.layout.isLayout row.worded row.layout.rest_plain 0

end NetRow

/-- A table in the format of the comment, if the file opens. -/
def netFile (file : Option (Header × List NetRow)) : Option Text :=
  file.map fun f => f.1.table (f.2.map NetRow.line)

/-- The sockets of a table that listen. -/
def listening (file : Option (Header × List NetRow)) : List NetRow :=
  ((file.map Prod.snd).getD []).filter NetRow.listens

theorem parseNetFile_netFile (inode_to_pid : InodeMap)
    (comm : ℤ → Option Text) (proto : Text)
    (file : Option (Header × List NetRow)) :
    parseNetFile inode_to_pid comm proto (netFile file) =
      (listening file).map fun row => row.toPort inode_to_pid comm proto := by
  cases file with
  | none => rfl
  | some f =>
      have hplain : ∀ row ∈ f.2.map NetRow.line, (0x0a : UInt8) ∉ row := by
        intro line hline
        obtain ⟨row, -, rfl⟩ := List.mem_map.mp hline
        exact row.newline_notMem_line
      rw [netFile, Option.map_some, parseNetFile_table _ _ _ _ hplain,
        List.filterMap_map, listening, Option.map_some, Option.getD_some]
      induction f.2 with
      | nil => rfl
      | cons row rows ih =>
          rw [List.filterMap_cons, Function.comp_apply, row.parseNetLine_line,
            ih, List.filter_cons]
          cases row.listens <;> rfl

/-! ## Holders of sockets -/

namespace FdEntry

/-- The process has the socket open. -/
def holds (ent : FdEntry) (inode : UInt64) : Bool :=
  (ent.fd_dir.getD []).any fun link => link.bind socketInode = some inode

/-- The number in the name. -/
def pid (ent : FdEntry) : ℤ :=
  ((stol ent.d_name).getD 0).bmod (2 ^ 32)

end FdEntry

/-- The last process of the directory that has the socket open. -/
def holder (proc_dir : List FdEntry) : InodeMap := fun inode =>
  (proc_dir.reverse.find? fun ent => ent.isPid && ent.holds inode).map
    FdEntry.pid

theorem InodeMap.addLinks_apply (map : InodeMap) (pid : ℤ)
    (links : List (Option Text)) (inode : UInt64) :
    map.addLinks pid links inode =
      if links.any fun link => link.bind socketInode = some inode then some pid
      else map inode := by
  induction links generalizing map with
  | nil => rfl
  | cons link links ih =>
      rw [addLinks, List.foldl_cons]
      refine (ih _).trans ?_
      rw [List.any_cons]
      cases hlink : link.bind socketInode with
      | none => simp
      | some found =>
          by_cases hfound : found = inode
          · subst hfound
            simp
          · simp [hfound, Function.update_of_ne (Ne.symm hfound)]

/-- What a round does, if `stol` does not throw. -/
theorem InodeMap.addEntry_eq_ok (map : InodeMap) {ent : FdEntry}
    (h : ent.isPid = true → (stol ent.d_name).isSome = true) :
    map.addEntry ent = .ok fun inode =>
      if ent.isPid && ent.holds inode then some ent.pid else map inode := by
  unfold addEntry
  split
  · next hpid =>
      obtain ⟨pid, hstol⟩ := Option.isSome_iff_exists.mp (h hpid)
      have hent : ent.pid = pid.bmod (2 ^ 32) := by
        rw [FdEntry.pid, hstol, Option.getD_some]
      rw [hstol]
      refine congrArg Except.ok (funext fun inode => ?_)
      rw [addLinks_apply, hent, hpid, Bool.true_and]
      rfl
  · next hpid =>
      rw [Bool.not_eq_true] at hpid
      simp only [hpid, Bool.false_and, Bool.false_eq_true, if_false]

theorem InodeMap.addEntry_eq_error (map : InodeMap) {ent : FdEntry}
    (h : ¬ (ent.isPid = true → (stol ent.d_name).isSome = true)) :
    map.addEntry ent = .error .out_of_range := by
  obtain ⟨hpid, hnone⟩ := Classical.not_imp.mp h
  rw [addEntry, if_pos hpid,
    Option.not_isSome_iff_eq_none.mp hnone]

/-- The scan of `/proc` ends, unless a number is too large, and each socket
belongs to the last process that holds it. -/
theorem inodeToPid_eq (proc_dir : List FdEntry) :
    inodeToPid proc_dir =
      if ∀ ent ∈ proc_dir, ent.isPid = true → (stol ent.d_name).isSome = true
      then .ok (holder proc_dir)
      else .error .out_of_range := by
  induction proc_dir using List.reverseRecOn with
  | nil => rfl
  | append_singleton proc_dir ent ih =>
      have hsnoc : inodeToPid (proc_dir ++ [ent]) =
          (inodeToPid proc_dir).bind fun map => map.addEntry ent := by
        rw [inodeToPid, List.foldlM_append]
        refine congrArg _ (funext fun map => ?_)
        rw [List.foldlM_cons]
        exact bind_pure _
      rw [hsnoc, ih]
      by_cases hall : ∀ e ∈ proc_dir,
          e.isPid = true → (stol e.d_name).isSome = true
      · rw [if_pos hall]
        by_cases hent : ent.isPid = true → (stol ent.d_name).isSome = true
        · have hboth : ∀ e ∈ proc_dir ++ [ent],
              e.isPid = true → (stol e.d_name).isSome = true := by
            intro e he
            rcases List.mem_append.mp he with hmem | hlast
            · exact hall e hmem
            · obtain rfl := List.mem_singleton.mp hlast
              exact hent
          rw [if_pos hboth]
          refine ((holder proc_dir).addEntry_eq_ok hent).trans ?_
          refine congrArg Except.ok (funext fun inode => ?_)
          simp only [holder, List.reverse_append, List.reverse_cons,
            List.reverse_nil, List.nil_append, List.singleton_append,
            List.find?_cons]
          cases ent.isPid && ent.holds inode <;> rfl
        · rw [if_neg fun h => hent (h ent (by simp))]
          exact (holder proc_dir).addEntry_eq_error hent
      · rw [if_neg hall,
          if_neg fun h => hall fun e he => h e (List.mem_append_left _ he)]
        rfl

/-! ## The listed ports -/

theorem sortsBy_nil_iff {α : Type} {key : α → ℤ} {result : List α} :
    SortsBy key [] result ↔ result = [] := by
  constructor
  · exact fun h => List.perm_nil.mp h.perm
  · rintro rfl
    exact ⟨List.Perm.refl _, List.Pairwise.nil⟩

end SystemInfo
end Yacul
