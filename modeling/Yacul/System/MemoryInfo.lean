import Mathlib.Data.List.Induction
import Mathlib.Logic.Function.Basic
import Yacul.Support.Rendering
import Yacul.System.SysFiles

/-!
# Memory

`FetchMemoryInfo` goes through `/proc/meminfo` line by line and stores the
number of a line in the field that its key names.  What it makes of a table as
the kernel writes it is the last number of each key, in bytes.
-/

namespace Yacul
namespace SystemInfo

open Scanning

/-- `SystemInfo::MemoryInfo`. -/
structure MemoryInfo where
  total : UInt64 := 0
  free : UInt64 := 0
  available : UInt64 := 0
  buffers : UInt64 := 0
  cached : UInt64 := 0
  swap_cached : UInt64 := 0
  active : UInt64 := 0
  inactive : UInt64 := 0
  swap_total : UInt64 := 0
  swap_free : UInt64 := 0
  shmem : UInt64 := 0
  slab : UInt64 := 0
  page_tables : UInt64 := 0
  vmalloc_total : UInt64 := 0
  vmalloc_used : UInt64 := 0
  huge_pages_total : UInt64 := 0
  huge_pages_free : UInt64 := 0
  huge_page_size : UInt64 := 0
deriving DecidableEq, Repr

/-- The bytes of `" \t"`. -/
def isBlank (c : UInt8) : Bool := c = 0x20 || c = 0x09

/-- `substr` from `find_first_not_of(" \t")`; a value of blanks stays. -/
def trimLeft (val : Text) : Text :=
  if val.all isBlank then val else val.dropWhile isBlank

/-- `parse_kb`: kilobytes in bytes. -/
def parseKb (s : Text) : UInt64 :=
  (IStringStream.readUInt64 { rest := s }).1 * 1024

/-- `>>` into a counter: without anything to read it keeps its value. -/
def readCount (old : UInt64) (val : Text) : UInt64 :=
  if (val.dropWhile isSpace).isEmpty then old
  else (IStringStream.readUInt64 { rest := val }).1

/-- The field that the key names gets the value. -/
def MemoryInfo.store (m : MemoryInfo) (key val : Text) : MemoryInfo :=
  if key = ascii "MemTotal" then { m with total := parseKb val }
  else if key = ascii "MemFree" then { m with free := parseKb val }
  else if key = ascii "MemAvailable" then { m with available := parseKb val }
  else if key = ascii "Buffers" then { m with buffers := parseKb val }
  else if key = ascii "Cached" then { m with cached := parseKb val }
  else if key = ascii "SwapCached" then { m with swap_cached := parseKb val }
  else if key = ascii "Active" then { m with active := parseKb val }
  else if key = ascii "Inactive" then { m with inactive := parseKb val }
  else if key = ascii "SwapTotal" then { m with swap_total := parseKb val }
  else if key = ascii "SwapFree" then { m with swap_free := parseKb val }
  else if key = ascii "Shmem" then { m with shmem := parseKb val }
  else if key = ascii "Slab" then { m with slab := parseKb val }
  else if key = ascii "PageTables" then { m with page_tables := parseKb val }
  else if key = ascii "VmallocTotal" then
    { m with vmalloc_total := parseKb val }
  else if key = ascii "VmallocUsed" then { m with vmalloc_used := parseKb val }
  else if key = ascii "Hugepagesize" then
    { m with huge_page_size := parseKb val }
  else if key = ascii "HugePages_Total" then
    { m with huge_pages_total := readCount m.huge_pages_total val }
  else if key = ascii "HugePages_Free" then
    { m with huge_pages_free := readCount m.huge_pages_free val }
  else m

/-- The text in front of the first `':'` and the text after it. -/
def splitColon (line : Text) : Option (Text × Text) :=
  (find 0x3a line).map fun colon => (line.take colon, line.drop (colon + 1))

/-- One round of the loop. -/
def MemoryInfo.readLine (m : MemoryInfo) (line : Text) : MemoryInfo :=
  match splitColon line with
  | none => m
  | some (key, val) => m.store key (trimLeft val)

/-- `SystemInfo::FetchMemoryInfo`. -/
def fetchMemoryInfo (file : Option Text) : MemoryInfo :=
  (lines (readFile file)).foldl MemoryInfo.readLine {}

/-! ## The table of the kernel -/

/-- A line of `/proc/meminfo`. -/
structure MeminfoRow where
  key : Text
  blanks : Text
  value : ℕ
  unit : Text
  key_plain : (0x3a : UInt8) ∉ key ∧ (0x0a : UInt8) ∉ key
  blanks_blank : ∀ c ∈ blanks, isBlank c = true
  value_lt : value < 2 ^ 64
  unit_plain : (0x0a : UInt8) ∉ unit
  unit_stops : Stops isDigit unit

/-- The line as it is written. -/
def MeminfoRow.render (row : MeminfoRow) : Text :=
  row.key ++ 0x3a :: (row.blanks ++ (decimal row.value ++ row.unit))

/-- The keys that name a field. -/
inductive MemoryKey
  | memTotal
  | memFree
  | memAvailable
  | buffers
  | cached
  | swapCached
  | active
  | inactive
  | swapTotal
  | swapFree
  | shmem
  | slab
  | pageTables
  | vmallocTotal
  | vmallocUsed
  | hugePagesTotal
  | hugePagesFree
  | hugepagesize
deriving DecidableEq, Repr

namespace MemoryKey

/-- The key in the table. -/
def text : MemoryKey → Text
  | .memTotal => ascii "MemTotal"
  | .memFree => ascii "MemFree"
  | .memAvailable => ascii "MemAvailable"
  | .buffers => ascii "Buffers"
  | .cached => ascii "Cached"
  | .swapCached => ascii "SwapCached"
  | .active => ascii "Active"
  | .inactive => ascii "Inactive"
  | .swapTotal => ascii "SwapTotal"
  | .swapFree => ascii "SwapFree"
  | .shmem => ascii "Shmem"
  | .slab => ascii "Slab"
  | .pageTables => ascii "PageTables"
  | .vmallocTotal => ascii "VmallocTotal"
  | .vmallocUsed => ascii "VmallocUsed"
  | .hugePagesTotal => ascii "HugePages_Total"
  | .hugePagesFree => ascii "HugePages_Free"
  | .hugepagesize => ascii "Hugepagesize"

/-- The key of a text. -/
def ofText? (key : Text) : Option MemoryKey :=
  [memTotal, memFree, memAvailable, buffers, cached, swapCached, active,
    inactive, swapTotal, swapFree, shmem, slab, pageTables, vmallocTotal,
    vmallocUsed, hugePagesTotal, hugePagesFree, hugepagesize].find? fun k =>
      k.text = key

theorem ofText?_text (k : MemoryKey) : ofText? k.text = some k := by
  cases k <;> rfl

theorem text_injective : Function.Injective text := by
  intro k k' h
  have hsome := ofText?_text k
  rw [h, ofText?_text k'] at hsome
  exact (Option.some.inj hsome).symm

end MemoryKey

/-- The last value that a table gives to the key. -/
def lastValue (rows : List MeminfoRow) (key : Text) : ℕ :=
  ((rows.reverse.find? fun row => row.key = key).map MeminfoRow.value).getD 0

/-- A number of kilobytes, in bytes. -/
def kilobytes (n : ℕ) : UInt64 := UInt64.ofNat n * 1024

/-- The record with the values of the keys. -/
def MemoryInfo.ofValues (value : MemoryKey → ℕ) : MemoryInfo where
  total := kilobytes (value .memTotal)
  free := kilobytes (value .memFree)
  available := kilobytes (value .memAvailable)
  buffers := kilobytes (value .buffers)
  cached := kilobytes (value .cached)
  swap_cached := kilobytes (value .swapCached)
  active := kilobytes (value .active)
  inactive := kilobytes (value .inactive)
  swap_total := kilobytes (value .swapTotal)
  swap_free := kilobytes (value .swapFree)
  shmem := kilobytes (value .shmem)
  slab := kilobytes (value .slab)
  page_tables := kilobytes (value .pageTables)
  vmalloc_total := kilobytes (value .vmallocTotal)
  vmalloc_used := kilobytes (value .vmallocUsed)
  huge_pages_total := UInt64.ofNat (value .hugePagesTotal)
  huge_pages_free := UInt64.ofNat (value .hugePagesFree)
  huge_page_size := kilobytes (value .hugepagesize)

/-- The field of the key gets the value. -/
def MemoryInfo.put (m : MemoryInfo) (val : Text) : MemoryKey → MemoryInfo
  | .memTotal => { m with total := parseKb val }
  | .memFree => { m with free := parseKb val }
  | .memAvailable => { m with available := parseKb val }
  | .buffers => { m with buffers := parseKb val }
  | .cached => { m with cached := parseKb val }
  | .swapCached => { m with swap_cached := parseKb val }
  | .active => { m with active := parseKb val }
  | .inactive => { m with inactive := parseKb val }
  | .swapTotal => { m with swap_total := parseKb val }
  | .swapFree => { m with swap_free := parseKb val }
  | .shmem => { m with shmem := parseKb val }
  | .slab => { m with slab := parseKb val }
  | .pageTables => { m with page_tables := parseKb val }
  | .vmallocTotal => { m with vmalloc_total := parseKb val }
  | .vmallocUsed => { m with vmalloc_used := parseKb val }
  | .hugePagesTotal =>
      { m with huge_pages_total := readCount m.huge_pages_total val }
  | .hugePagesFree =>
      { m with huge_pages_free := readCount m.huge_pages_free val }
  | .hugepagesize => { m with huge_page_size := parseKb val }

theorem MemoryInfo.store_text (m : MemoryInfo) (val : Text) (k : MemoryKey) :
    m.store k.text val = m.put val k := by
  cases k <;> rfl

theorem MemoryInfo.store_other (m : MemoryInfo) (val : Text) {key : Text}
    (hkey : ∀ k : MemoryKey, key ≠ k.text) : m.store key val = m := by
  unfold store
  exact (if_neg (hkey .memTotal)).trans <|
    (if_neg (hkey .memFree)).trans <|
    (if_neg (hkey .memAvailable)).trans <|
    (if_neg (hkey .buffers)).trans <|
    (if_neg (hkey .cached)).trans <|
    (if_neg (hkey .swapCached)).trans <|
    (if_neg (hkey .active)).trans <|
    (if_neg (hkey .inactive)).trans <|
    (if_neg (hkey .swapTotal)).trans <|
    (if_neg (hkey .swapFree)).trans <|
    (if_neg (hkey .shmem)).trans <|
    (if_neg (hkey .slab)).trans <|
    (if_neg (hkey .pageTables)).trans <|
    (if_neg (hkey .vmallocTotal)).trans <|
    (if_neg (hkey .vmallocUsed)).trans <|
    (if_neg (hkey .hugepagesize)).trans <|
    (if_neg (hkey .hugePagesTotal)).trans <|
    (if_neg (hkey .hugePagesFree))

theorem lastValue_append (rows : List MeminfoRow) (row : MeminfoRow)
    (key : Text) :
    lastValue (rows ++ [row]) key =
      if row.key = key then row.value else lastValue rows key := by
  simp only [lastValue, List.reverse_append, List.reverse_cons,
    List.reverse_nil, List.nil_append, List.singleton_append,
    List.find?_cons]
  by_cases hkey : row.key = key
  · simp [hkey]
  · simp only [hkey, decide_false, if_false]

/-! ## Reading the table -/

section

variable {unit : Text} {v : ℕ} (hunit : Stops isDigit unit) (hv : v < 2 ^ 64)

include hunit hv

theorem parseKb_decimal : parseKb (decimal v ++ unit) = kilobytes v := by
  have hspaces : ∀ c ∈ ([] : Text), isSpace c = true := nofun
  have hread := IStringStream.readUInt64_decimal hspaces hunit hv
  rw [List.nil_append] at hread
  rw [parseKb, hread, kilobytes]

theorem readCount_decimal (old : UInt64) :
    readCount old (decimal v ++ unit) = UInt64.ofNat v := by
  have hspaces : ∀ c ∈ ([] : Text), isSpace c = true := nofun
  have hread := IStringStream.readUInt64_decimal hspaces hunit hv
  rw [List.nil_append] at hread
  have hstart : ((decimal v ++ unit).dropWhile isSpace).isEmpty = false := by
    obtain ⟨c, digits, hdigits⟩ :=
      List.exists_cons_of_ne_nil (decimal_ne_nil v)
    have hc := isSpace_of_isDigit
      (isDigit_of_mem_decimal (hdigits ▸ List.mem_cons_self))
    rw [hdigits, List.cons_append, List.dropWhile_cons, hc]
    rfl
  rw [readCount, hstart, hread]
  rfl

/-- The fields go on agreeing with the values of the keys. -/
theorem MemoryInfo.put_ofValues (value : MemoryKey → ℕ) (k : MemoryKey) :
    (ofValues value).put (decimal v ++ unit) k =
      ofValues (Function.update value k v) := by
  have hkb := parseKb_decimal hunit hv
  have hcount := readCount_decimal hunit hv
  cases k <;> simp only [put, hkb, hcount] <;> rfl

end

theorem trimLeft_blanks {blanks unit : Text} (v : ℕ)
    (hblanks : ∀ c ∈ blanks, isBlank c = true) :
    trimLeft (blanks ++ (decimal v ++ unit)) = decimal v ++ unit := by
  obtain ⟨c, digits, hdigits⟩ := List.exists_cons_of_ne_nil (decimal_ne_nil v)
  have hdigit := isDigit_of_mem_decimal (n := v) (hdigits ▸ List.mem_cons_self)
  have hc : isBlank c = false := by
    rw [isDigit_iff] at hdigit
    simp only [isBlank, Bool.or_eq_false_iff, decide_eq_false_iff_not,
      ← UInt8.toNat_inj]
    have hspace : (0x20 : UInt8).toNat = 32 := rfl
    have htab : (0x09 : UInt8).toNat = 9 := rfl
    omega
  have hall : (blanks ++ (decimal v ++ unit)).all isBlank = false := by
    rw [List.all_append, hdigits, List.cons_append, List.all_cons, hc]
    simp
  rw [trimLeft, hall, List.dropWhile_append_of_pos hblanks, hdigits,
    List.cons_append, List.dropWhile_cons, hc]
  rfl

theorem splitColon_render (row : MeminfoRow) :
    splitColon row.render =
      some (row.key, row.blanks ++ (decimal row.value ++ row.unit)) := by
  have hfind := find_append row.key_plain.1
    (row.blanks ++ (decimal row.value ++ row.unit))
  rw [splitColon, MeminfoRow.render, hfind, Option.map_some, List.take_left']
  · rw [List.drop_append, List.drop_of_length_le (Nat.le_succ _)]
    simp
  · rfl

/-- One line of the table. -/
theorem MemoryInfo.readLine_render (rows : List MeminfoRow)
    (row : MeminfoRow) :
    (ofValues fun k => lastValue rows k.text).readLine row.render =
      ofValues fun k => lastValue (rows ++ [row]) k.text := by
  have hvalue : (fun k : MemoryKey => lastValue (rows ++ [row]) k.text) =
      fun k : MemoryKey =>
        if row.key = k.text then row.value else lastValue rows k.text :=
    funext fun k => lastValue_append rows row k.text
  rw [readLine, splitColon_render, hvalue]
  dsimp only
  rw [trimLeft_blanks _ row.blanks_blank]
  by_cases hkey : ∃ k : MemoryKey, row.key = k.text
  · obtain ⟨k, hk⟩ := hkey
    rw [hk, store_text, put_ofValues row.unit_stops row.value_lt]
    congr 1
    funext k'
    by_cases hkk : k' = k
    · subst hkk
      rw [Function.update_self, if_pos rfl]
    · rw [Function.update_of_ne hkk,
        if_neg fun h => hkk (MemoryKey.text_injective h).symm]
  · have hother : ∀ k : MemoryKey, row.key ≠ k.text :=
      fun k hk => hkey ⟨k, hk⟩
    rw [store_other _ _ hother]
    congr 1
    funext k
    rw [if_neg (hother k)]

theorem newline_notMem_render (row : MeminfoRow) :
    (0x0a : UInt8) ∉ row.render := by
  have hdigits : (0x0a : UInt8) ∉ decimal row.value := fun hmem =>
    absurd (isDigit_of_mem_decimal hmem) (by decide)
  have hblanks : (0x0a : UInt8) ∉ row.blanks := fun hmem =>
    absurd (row.blanks_blank _ hmem) (by decide)
  simp only [MeminfoRow.render, List.mem_append, List.mem_cons, not_or]
  exact ⟨row.key_plain.2, by decide, hblanks, hdigits, row.unit_plain⟩

/-- For every table in the format of the kernel, each field is the last number
of its key, in bytes, and zero when the key is not there. -/
theorem fetchMemoryInfo_render (rows : List MeminfoRow) :
    fetchMemoryInfo (some (unlines (rows.map MeminfoRow.render))) =
      MemoryInfo.ofValues fun k => lastValue rows k.text := by
  have hplain : ∀ line ∈ rows.map MeminfoRow.render, (0x0a : UInt8) ∉ line := by
    intro line hline
    obtain ⟨row, -, rfl⟩ := List.mem_map.mp hline
    exact newline_notMem_render row
  rw [fetchMemoryInfo, readFile, Option.getD_some, lines_unlines hplain,
    List.foldl_map]
  induction rows using List.reverseRecOn with
  | nil => rfl
  | append_singleton rows row ih =>
      have hplain' : ∀ line ∈ rows.map MeminfoRow.render,
          (0x0a : UInt8) ∉ line := fun line hline => by
        apply hplain
        rw [List.map_append]
        exact List.mem_append_left _ hline
      rw [List.foldl_append, ih hplain', List.foldl_cons, List.foldl_nil,
        MemoryInfo.readLine_render]

end SystemInfo
end Yacul
