import Mathlib.Data.List.Induction
import Mathlib.Logic.Function.Basic
import Yacul.Support.Rendering
import Yacul.System.SysFiles

/-!
# Tables of the system

`/proc/diskstats`, `/proc/vmstat`, `/proc/modules` and `/etc/resolv.conf` are
tables of words and numbers, one row a line.  What the functions make of them
are the rows, whatever white space stands between the fields.
-/

namespace Yacul
namespace SystemInfo

open Scanning

/-! ## Reading -/

/-- `SystemInfo::DiskIoStats`. -/
structure DiskIoStats where
  device : Text
  reads_completed : UInt64 := 0
  reads_merged : UInt64 := 0
  sectors_read : UInt64 := 0
  read_time_ms : UInt64 := 0
  writes_completed : UInt64 := 0
  writes_merged : UInt64 := 0
  sectors_written : UInt64 := 0
  write_time_ms : UInt64 := 0
  io_in_progress : UInt64 := 0
  io_time_ms : UInt64 := 0
  weighted_io_time_ms : UInt64 := 0
deriving DecidableEq, Repr

/-- The chain of `>>` in `FetchDiskIoStats`. -/
def readDiskIoStats (ss : IStringStream) : DiskIoStats :=
  let (_major_num, ss) := ss.readSigned 32
  let (_minor_num, ss) := ss.readSigned 32
  let (device, ss) := ss.readWord
  let (reads_completed, ss) := ss.readUInt64
  let (reads_merged, ss) := ss.readUInt64
  let (sectors_read, ss) := ss.readUInt64
  let (read_time_ms, ss) := ss.readUInt64
  let (writes_completed, ss) := ss.readUInt64
  let (writes_merged, ss) := ss.readUInt64
  let (sectors_written, ss) := ss.readUInt64
  let (write_time_ms, ss) := ss.readUInt64
  let (io_in_progress, ss) := ss.readUInt64
  let (io_time_ms, ss) := ss.readUInt64
  let (weighted_io_time_ms, _) := ss.readUInt64
  { device, reads_completed, reads_merged, sectors_read, read_time_ms,
    writes_completed, writes_merged, sectors_written, write_time_ms,
    io_in_progress, io_time_ms, weighted_io_time_ms }

/-- `SystemInfo::FetchDiskIoStats`. -/
def fetchDiskIoStats (file : Option Text) : List DiskIoStats :=
  (lines (readFile file)).filterMap fun line =>
    let s := readDiskIoStats { rest := line }
    if s.device.isEmpty then none else some s

/-- `unordered_map<string, uint64_t>`. -/
abbrev VmStats := Text → Option UInt64

/-- One round of the loop in `GetVmStats`. -/
def VmStats.readLine (vm : VmStats) (line : Text) : VmStats :=
  let (key, ss) := IStringStream.readWord { rest := line }
  let (val, ss) := ss.readUInt64
  if ss.fail then vm else Function.update vm key (some val)

/-- `SystemInfo::GetVmStats`. -/
def getVmStats (file : Option Text) : VmStats :=
  (lines (readFile file)).foldl VmStats.readLine fun _ => none

/-- `SystemInfo::GetLoadedKernelModules`. -/
def getLoadedKernelModules (file : Option Text) : List Text :=
  (lines (readFile file)).filterMap fun line =>
    let (name, _) := IStringStream.readWord { rest := line }
    if name.isEmpty then none else some name

/-- `SystemInfo::GetDnsServers`. -/
def getDnsServers (file : Option Text) : List Text :=
  (lines (readFile file)).filterMap fun line =>
    if (ascii "nameserver ").isPrefixOf line then
      let (_kw, ss) := IStringStream.readWord { rest := line }
      let (addr, _) := ss.readWord
      if addr.isEmpty then none else some addr
    else none

/-! ## Rows -/

/-- What stands around the fields of a row: the white space, and a rest of the
line that no function reads. -/
structure Layout where
  gap : ℕ → Text
  rest : Text
  isLayout : IsLayout gap
  stops_isDigit : Stops isDigit rest
  stops_word : Stops (fun c => !isSpace c) rest
  rest_plain : (0x0a : UInt8) ∉ rest

/-- A row with the fields. -/
def Layout.line (layout : Layout) (row : List Text) : Text :=
  fields layout.gap 0 row layout.rest

/-- A text of rows. -/
def table (rows : List (Layout × List Text)) : Text :=
  unlines (rows.map fun row => row.1.line row.2)

/-- Every field is a word. -/
def Worded (rows : List (Layout × List Text)) : Prop :=
  ∀ row ∈ rows, ∀ field ∈ row.2, IsWord field

theorem lines_table {rows : List (Layout × List Text)} (h : Worded rows) :
    lines (table rows) = rows.map fun row => row.1.line row.2 := by
  apply lines_unlines
  intro line hline
  obtain ⟨row, hrow, rfl⟩ := List.mem_map.mp hline
  exact newline_notMem_fields row.1.isLayout (h row hrow) row.1.rest_plain 0

/-- The fields of a row of `/proc/diskstats`. -/
def DiskIoStats.row (major minor : ℕ) (s : DiskIoStats) : List Text :=
  [decimal major, decimal minor, s.device, decimal s.reads_completed.toNat,
    decimal s.reads_merged.toNat, decimal s.sectors_read.toNat,
    decimal s.read_time_ms.toNat, decimal s.writes_completed.toNat,
    decimal s.writes_merged.toNat, decimal s.sectors_written.toNat,
    decimal s.write_time_ms.toNat, decimal s.io_in_progress.toNat,
    decimal s.io_time_ms.toNat, decimal s.weighted_io_time_ms.toNat]

theorem readDiskIoStats_row (layout : Layout) {major minor : ℕ}
    {s : DiskIoStats} (hmajor : major < 2 ^ 31) (hminor : minor < 2 ^ 31)
    (hdevice : IsWord s.device) :
    readDiskIoStats { rest := layout.line (s.row major minor) } = s := by
  have hl := layout.isLayout
  have hdigit := layout.stops_isDigit
  simp only [readDiskIoStats, Layout.line, DiskIoStats.row,
    IStringStream.readSigned_fields hl hdigit (w := 32) hmajor,
    IStringStream.readSigned_fields hl hdigit (w := 32) hminor,
    IStringStream.readWord_fields hl hdevice _ _ layout.stops_word,
    IStringStream.readUInt64_fields hl hdigit]

/-! ## Tables -/

/-- A row of `/proc/diskstats`. -/
structure DiskRow where
  layout : Layout
  major : ℕ
  minor : ℕ
  stats : DiskIoStats
  major_lt : major < 2 ^ 31
  minor_lt : minor < 2 ^ 31
  device_word : IsWord stats.device

def DiskRow.fields (row : DiskRow) : Layout × List Text :=
  (row.layout, row.stats.row row.major row.minor)

theorem DiskRow.worded (rows : List DiskRow) :
    Worded (rows.map DiskRow.fields) := by
  intro row hrow field hfield
  obtain ⟨r, -, rfl⟩ := List.mem_map.mp hrow
  simp only [DiskRow.fields, DiskIoStats.row, List.mem_cons,
    List.not_mem_nil, or_false] at hfield
  rcases hfield with rfl | rfl | rfl | rfl | rfl | rfl | rfl | rfl | rfl |
      rfl | rfl | rfl | rfl | rfl
  all_goals first | exact r.device_word | exact isWord_decimal _

theorem fetchDiskIoStats_table (rows : List DiskRow) :
    fetchDiskIoStats (some (table (rows.map DiskRow.fields))) =
      rows.map DiskRow.stats := by
  rw [fetchDiskIoStats, readFile, Option.getD_some,
    lines_table (DiskRow.worded rows), List.map_map, List.filterMap_map]
  induction rows with
  | nil => rfl
  | cons row rows ih =>
      have hread := readDiskIoStats_row row.layout row.major_lt row.minor_lt
        row.device_word
      have hdevice : row.stats.device.isEmpty = false :=
        List.isEmpty_eq_false_iff.mpr row.device_word.ne_nil
      rw [List.filterMap_cons, List.map_cons, ← ih]
      simp only [Function.comp_apply, DiskRow.fields, hread, hdevice,
        Bool.false_eq_true, if_false]

/-- A row of `/proc/vmstat`. -/
structure VmRow where
  layout : Layout
  key : Text
  val : UInt64
  key_word : IsWord key

def VmRow.fields (row : VmRow) : Layout × List Text :=
  (row.layout, [row.key, decimal row.val.toNat])

/-- The value of the last row with the key. -/
def lastVal (rows : List VmRow) : VmStats := fun key =>
  (rows.reverse.find? fun row => row.key = key).map VmRow.val

theorem VmRow.worded (rows : List VmRow) :
    Worded (rows.map VmRow.fields) := by
  intro row hrow field hfield
  obtain ⟨r, -, rfl⟩ := List.mem_map.mp hrow
  simp only [VmRow.fields, List.mem_cons, List.not_mem_nil,
    or_false] at hfield
  rcases hfield with rfl | rfl
  · exact r.key_word
  · exact isWord_decimal _

theorem VmStats.readLine_row (vm : VmStats) (row : VmRow) :
    vm.readLine (row.fields.1.line row.fields.2) =
      Function.update vm row.key (some row.val) := by
  have hl := row.layout.isLayout
  simp only [readLine, VmRow.fields, Layout.line,
    IStringStream.readWord_fields hl row.key_word _ _ row.layout.stops_word,
    IStringStream.readUInt64_fields hl row.layout.stops_isDigit,
    Bool.false_eq_true, if_false]

theorem getVmStats_table (rows : List VmRow) :
    getVmStats (some (table (rows.map VmRow.fields))) = lastVal rows := by
  rw [getVmStats, readFile, Option.getD_some,
    lines_table (VmRow.worded rows), List.map_map, List.foldl_map]
  induction rows using List.reverseRecOn with
  | nil => rfl
  | append_singleton rows row ih =>
      rw [List.foldl_append, ih, List.foldl_cons, List.foldl_nil,
        Function.comp_apply, VmStats.readLine_row]
      funext key
      simp only [lastVal, List.reverse_append, List.reverse_cons,
        List.reverse_nil, List.nil_append, List.singleton_append,
        List.find?_cons]
      by_cases hkey : row.key = key
      · simp [hkey]
      · simp only [hkey, decide_false, Function.update_of_ne (Ne.symm hkey)]
        rfl

/-- A row of `/proc/modules`. -/
structure ModuleRow where
  layout : Layout
  name : Text
  more : List Text
  name_word : IsWord name
  more_word : ∀ field ∈ more, IsWord field

def ModuleRow.fields (row : ModuleRow) : Layout × List Text :=
  (row.layout, row.name :: row.more)

theorem getLoadedKernelModules_table (rows : List ModuleRow) :
    getLoadedKernelModules (some (table (rows.map ModuleRow.fields))) =
      rows.map ModuleRow.name := by
  have hworded : Worded (rows.map ModuleRow.fields) := by
    intro row hrow field hfield
    obtain ⟨r, -, rfl⟩ := List.mem_map.mp hrow
    rcases List.mem_cons.mp hfield with rfl | hmore
    · exact r.name_word
    · exact r.more_word field hmore
  rw [getLoadedKernelModules, readFile, Option.getD_some,
    lines_table hworded, List.map_map, List.filterMap_map]
  clear hworded
  induction rows with
  | nil => rfl
  | cons row rows ih =>
      have hname : row.name.isEmpty = false :=
        List.isEmpty_eq_false_iff.mpr row.name_word.ne_nil
      rw [List.filterMap_cons, List.map_cons, ← ih]
      simp only [Function.comp_apply, ModuleRow.fields, Layout.line,
        IStringStream.readWord_fields row.layout.isLayout row.name_word _ _
          row.layout.stops_word, hname, Bool.false_eq_true, if_false]

/-- A line of `/etc/resolv.conf`: a name server after the keyword and a space,
or something else. -/
inductive ResolvLine
  | nameserver (layout : Layout) (addr : Text) (first : layout.gap 0 = [])
      (space : (layout.gap 1).head? = some 0x20) (addr_word : IsWord addr)
  | other (line : Text) (line_plain : (0x0a : UInt8) ∉ line)
      (line_other : (ascii "nameserver ").isPrefixOf line = false)

namespace ResolvLine

def text : ResolvLine → Text
  | nameserver layout addr _ _ _ => layout.line [ascii "nameserver", addr]
  | other line _ _ => line

def addr? : ResolvLine → Option Text
  | nameserver _ addr _ _ _ => some addr
  | other _ _ _ => none

theorem isWord_keyword : IsWord (ascii "nameserver") :=
  isWord_of_all (by decide) (by decide)

theorem text_plain (l : ResolvLine) : (0x0a : UInt8) ∉ l.text := by
  cases l with
  | nameserver layout addr first space addr_word =>
      apply newline_notMem_fields layout.isLayout _ layout.rest_plain
      intro field hfield
      simp only [List.mem_cons, List.not_mem_nil, or_false] at hfield
      rcases hfield with rfl | rfl
      · exact isWord_keyword
      · exact addr_word
  | other line line_plain line_other => exact line_plain

/-- The keyword is at the start of the line. -/
theorem isPrefixOf_nameserver {layout : Layout} (first : layout.gap 0 = [])
    (space : (layout.gap 1).head? = some 0x20) (addr : Text) :
    (ascii "nameserver ").isPrefixOf
      (layout.line [ascii "nameserver", addr]) = true := by
  obtain ⟨gap, hgap⟩ : ∃ gap, layout.gap 1 = 0x20 :: gap := by
    obtain ⟨c, gap, hcons⟩ := List.exists_cons_of_ne_nil
      (layout.isLayout.ne_nil 1 Nat.one_pos)
    rw [hcons] at space
    obtain rfl := Option.some.inj space
    exact ⟨gap, hcons⟩
  have hkeyword : ascii "nameserver " = ascii "nameserver" ++ [0x20] := by
    decide
  simp only [Layout.line, fields, first, hgap, List.nil_append, hkeyword]
  rw [List.isPrefixOf_iff_prefix]
  exact ⟨_, by rw [List.append_assoc]; rfl⟩

end ResolvLine

theorem getDnsServers_lines (conf : List ResolvLine) :
    getDnsServers (some (unlines (conf.map ResolvLine.text))) =
      conf.filterMap ResolvLine.addr? := by
  have hplain : ∀ line ∈ conf.map ResolvLine.text, (0x0a : UInt8) ∉ line := by
    intro line hline
    obtain ⟨l, -, rfl⟩ := List.mem_map.mp hline
    exact l.text_plain
  rw [getDnsServers, readFile, Option.getD_some, lines_unlines hplain,
    List.filterMap_map]
  congr 1
  funext l
  cases l with
  | nameserver layout addr first space addr_word =>
      have haddr : addr.isEmpty = false :=
        List.isEmpty_eq_false_iff.mpr addr_word.ne_nil
      have hl := layout.isLayout
      simp only [Function.comp_apply, ResolvLine.text,
        ResolvLine.isPrefixOf_nameserver first space, if_true]
      simp only [Layout.line,
        IStringStream.readWord_fields hl ResolvLine.isWord_keyword _ _
          layout.stops_word,
        IStringStream.readWord_fields hl addr_word _ _ layout.stops_word,
        haddr, Bool.false_eq_true, if_false, ResolvLine.addr?]
  | other line line_plain line_other =>
      simp only [Function.comp_apply, ResolvLine.text, line_other,
        Bool.false_eq_true, if_false, ResolvLine.addr?]

end SystemInfo
end Yacul
