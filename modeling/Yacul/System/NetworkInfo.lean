import Mathlib.Data.List.Induction
import Yacul.Support.Keyed
import Yacul.System.ListeningPorts

/-!
# Network interfaces

`FetchNetworkInfo` puts together what `/proc/net/dev`, `getifaddrs` and sysfs
say of the network interfaces.  The first two may name an interface any number
of times, and either may name one that the other does not.  The result has one
entry for each interface that is named.
-/

namespace Yacul
namespace SystemInfo

open Scanning Keyed

/-! ## Model -/

/-- `SystemInfo::NetworkInterface`. -/
structure NetworkInterface where
  name : Text
  mac_address : Text := []
  ip4_addresses : List Text := []
  ip6_addresses : List Text := []
  is_up : Bool := false
  is_loopback : Bool := false
  speed_mbps : UInt64 := 0
  mtu : UInt64 := 0
  rx_bytes : UInt64 := 0
  rx_packets : UInt64 := 0
  rx_errors : UInt64 := 0
  rx_dropped : UInt64 := 0
  tx_bytes : UInt64 := 0
  tx_packets : UInt64 := 0
  tx_errors : UInt64 := 0
  tx_dropped : UInt64 := 0
deriving DecidableEq, Repr

namespace NetworkInterface

/-- An interface of which only the name is known. -/
def named (name : Text) : NetworkInterface where
  name := name

/-- `>>` into a `uint64_t`, which keeps its value if the stream has failed or
only white space is left. -/
def readInto (ss : IStringStream) (old : UInt64) : UInt64 × IStringStream :=
  if ss.fail || (ss.rest.dropWhile isSpace).isEmpty then
    (old, { ss with fail := true })
  else ss.readUInt64

/-- The chain of `>>` in `ParseProcNetDev`. -/
def readCounters (ni : NetworkInterface) (text : Text) : NetworkInterface :=
  let (rx_bytes, ss) := readInto { rest := text } ni.rx_bytes
  let (rx_packets, ss) := readInto ss ni.rx_packets
  let (rx_errors, ss) := readInto ss ni.rx_errors
  let (rx_dropped, ss) := readInto ss ni.rx_dropped
  let (dummy, ss) := readInto ss 0
  let (dummy, ss) := readInto ss dummy
  let (dummy, ss) := readInto ss dummy
  let (_dummy, ss) := readInto ss dummy
  let (tx_bytes, ss) := readInto ss ni.tx_bytes
  let (tx_packets, ss) := readInto ss ni.tx_packets
  let (tx_errors, ss) := readInto ss ni.tx_errors
  let (tx_dropped, _) := readInto ss ni.tx_dropped
  { ni with
    rx_bytes, rx_packets, rx_errors, rx_dropped, tx_bytes, tx_packets,
    tx_errors, tx_dropped }

end NetworkInterface

/-- What a call does to the interface of a name. -/
abbrev Change := Text × (NetworkInterface → NetworkInterface)

/-- The interfaces, and the index that both functions build of them. -/
def withIndex (ifaces : List NetworkInterface) :
    Indexed NetworkInterface Text where
  records := ifaces
  index := indexOf NetworkInterface.name ifaces

def makeChange (s : Indexed NetworkInterface Text) (e : Change) :
    Indexed NetworkInterface Text :=
  s.change NetworkInterface.named e.1 e.2

/-- One round of the loop in `ParseProcNetDev`. -/
def devChange (line : Text) : Option Change :=
  (find 0x3a line).map fun colon =>
    let name := line.take colon
    let trimmed := name.dropWhile fun c => c = 0x20
    (if trimmed.isEmpty then name else trimmed,
      fun ni => ni.readCounters (line.drop (colon + 1)))

/-- `SystemInfo::ParseProcNetDev`. -/
def parseProcNetDev (file : Option Text) (ifaces : List NetworkInterface) :
    List NetworkInterface :=
  match file with
  | none => ifaces
  | some text =>
      ((((lines text).drop 2).filterMap devChange).foldl makeChange
        (withIndex ifaces)).records

/-- An address, as `inet_ntop` writes it. -/
inductive SockAddr
  | inet (addr : Text)
  | inet6 (addr : Text)
  | other
deriving DecidableEq, Repr

/-- `struct ifaddrs`, where a null pointer is `none`, with two of its flags. -/
structure IfAddrs where
  ifa_name : Option Text
  ifa_addr : Option SockAddr
  iff_up : Bool
  iff_loopback : Bool
deriving DecidableEq, Repr

namespace NetworkInterface

def addAddress (ni : NetworkInterface) : SockAddr → NetworkInterface
  | .inet addr =>
      { ni with ip4_addresses := insertNew ni.ip4_addresses addr }
  | .inet6 addr =>
      { ni with ip6_addresses := insertNew ni.ip6_addresses addr }
  | .other => ni

end NetworkInterface

/-- One round of the loop in `PopulateIfAddrs`. -/
def addrChange (ifa : IfAddrs) : Option Change :=
  match ifa.ifa_addr, ifa.ifa_name with
  | some addr, some name =>
      some (name, fun ni =>
        { ni with
          is_up := ifa.iff_up
          is_loopback := ifa.iff_loopback }.addAddress addr)
  | _, _ => none

/-- `SystemInfo::PopulateIfAddrs`, where `ifa_list` is what `getifaddrs`
returns. -/
def populateIfAddrs (ifa_list : Option (List IfAddrs))
    (ifaces : List NetworkInterface) : List NetworkInterface :=
  match ifa_list with
  | none => ifaces
  | some ifas =>
      ((ifas.filterMap addrChange).foldl makeChange (withIndex ifaces)).records

/-- What sysfs says of an interface. -/
def enrich (sysfs : Text → Option Text) (ni : NetworkInterface) :
    NetworkInterface :=
  let base := ascii "/sys/class/net/" ++ ni.name
  { ni with
    mac_address := popNewline (readFile (sysfs (base ++ ascii "/address")))
    speed_mbps := readUint64File (sysfs (base ++ ascii "/speed")) 0
    mtu := readUint64File (sysfs (base ++ ascii "/mtu")) 0 }

/-- `SystemInfo::FetchNetworkInfo`. -/
def fetchNetworkInfo (dev : Option Text) (ifa_list : Option (List IfAddrs))
    (sysfs : Text → Option Text) : List NetworkInterface :=
  (populateIfAddrs ifa_list (parseProcNetDev dev [])).map (enrich sysfs)

/-! ## What is in the files -/

/-- The counters of a row of `/proc/net/dev`. -/
structure NetCounters where
  rx_bytes : UInt64
  rx_packets : UInt64
  rx_errors : UInt64
  rx_dropped : UInt64
  rx_fifo : UInt64
  rx_frame : UInt64
  rx_compressed : UInt64
  rx_multicast : UInt64
  tx_bytes : UInt64
  tx_packets : UInt64
  tx_errors : UInt64
  tx_dropped : UInt64
deriving DecidableEq, Repr

def NetCounters.fields (c : NetCounters) : List Text :=
  [decimal c.rx_bytes.toNat, decimal c.rx_packets.toNat,
    decimal c.rx_errors.toNat, decimal c.rx_dropped.toNat,
    decimal c.rx_fifo.toNat, decimal c.rx_frame.toNat,
    decimal c.rx_compressed.toNat, decimal c.rx_multicast.toNat,
    decimal c.tx_bytes.toNat, decimal c.tx_packets.toNat,
    decimal c.tx_errors.toNat, decimal c.tx_dropped.toNat]

def NetworkInterface.setCounters (ni : NetworkInterface) (c : NetCounters) :
    NetworkInterface :=
  { ni with
    rx_bytes := c.rx_bytes
    rx_packets := c.rx_packets
    rx_errors := c.rx_errors
    rx_dropped := c.rx_dropped
    tx_bytes := c.tx_bytes
    tx_packets := c.tx_packets
    tx_errors := c.tx_errors
    tx_dropped := c.tx_dropped }

/-- A row of `/proc/net/dev`: the name after blanks, a colon, the numbers. -/
structure DevRow where
  indent : ℕ
  name : Text
  layout : Layout
  counters : NetCounters
  name_word : IsWord name
  name_plain : (0x3a : UInt8) ∉ name

def DevRow.text (row : DevRow) : Text :=
  List.replicate row.indent 0x20 ++ row.name ++
    0x3a :: row.layout.line row.counters.fields

/-- A line, without its newline. -/
abbrev Line := { line : Text // (0x0a : UInt8) ∉ line }

/-- `/proc/net/dev`: two lines of headings, and the rows. -/
def devFile (first second : Line) (rows : List DevRow) : Text :=
  unlines (first.val :: second.val :: rows.map DevRow.text)

/-! ## Reading a row -/

theorem readInto_of_readUInt64 {ss ss' : IStringStream} {n : UInt64}
    (h : ss.readUInt64 = (n, ss')) (hgood : ss'.fail = false) (old : UInt64) :
    NetworkInterface.readInto ss old = (n, ss') := by
  have hread : (ss.readUInt64).2.fail = false := by rw [h, hgood]
  have hfail : ss.fail = false := by
    by_contra hfail
    rw [Bool.not_eq_false] at hfail
    rw [IStringStream.readUInt64, if_pos hfail, hfail] at hread
    cases hread
  have hleft : (ss.rest.dropWhile isSpace).isEmpty = false := by
    by_contra hleft
    rw [Bool.not_eq_false, List.isEmpty_iff] at hleft
    have hscan : scanNumeral ss.rest = none := by rw [scanNumeral, hleft]
    rw [IStringStream.readUInt64, hfail, hscan] at hread
    cases hread
  rw [NetworkInterface.readInto, hfail, hleft]
  exact h

theorem readInto_fields {gap : ℕ → Text} {rest : Text} (hl : IsLayout gap)
    (hrest : Stops isDigit rest) (n old : UInt64) (i : ℕ) (more : List Text) :
    NetworkInterface.readInto
        { rest := fields gap i (decimal n.toNat :: more) rest } old =
      (n, { rest := fields gap (i + 1) more rest }) :=
  readInto_of_readUInt64 (IStringStream.readUInt64_fields hl hrest n i more)
    rfl old

theorem readCounters_fields (ni : NetworkInterface) (layout : Layout)
    (c : NetCounters) :
    ni.readCounters (layout.line c.fields) = ni.setCounters c := by
  have hl := layout.isLayout
  have hdigit := layout.stops_isDigit
  simp only [NetworkInterface.readCounters, Layout.line, NetCounters.fields,
    readInto_fields hl hdigit]
  rfl

theorem drop_separator (u v : Text) (c : UInt8) :
    (u ++ c :: v).drop (u.length + 1) = v := by
  simp

theorem devChange_text (row : DevRow) :
    devChange row.text =
      some (row.name, fun ni => ni.setCounters row.counters) := by
  have hblank : ∀ c ∈ List.replicate row.indent (0x20 : UInt8), c = 0x20 :=
    fun c hc => (List.mem_replicate.mp hc).2
  have hcolon : (0x3a : UInt8) ∉
      List.replicate row.indent 0x20 ++ row.name := by
    rw [List.mem_append, not_or]
    exact ⟨fun hmem => absurd (hblank _ hmem) (by decide), row.name_plain⟩
  have htrim : (List.replicate row.indent 0x20 ++ row.name).dropWhile
      (fun c => decide (c = 0x20)) = row.name := by
    rw [List.dropWhile_append_of_pos (by simp)]
    obtain ⟨c, name, hname⟩ := List.exists_cons_of_ne_nil row.name_word.ne_nil
    have hc : isSpace c = false :=
      row.name_word.visible c (hname ▸ List.mem_cons_self)
    rw [hname, List.dropWhile_cons_of_neg]
    simp only [decide_eq_true_eq]
    rintro rfl
    cases hc
  have hne : row.name.isEmpty = false :=
    List.isEmpty_eq_false_iff.mpr row.name_word.ne_nil
  rw [devChange, DevRow.text, find_append hcolon, Option.map_some]
  simp only [List.take_left', drop_separator, htrim, hne, Bool.false_eq_true,
    if_false, readCounters_fields]

theorem filterMap_devChange (rows : List DevRow) :
    (rows.map DevRow.text).filterMap devChange =
      rows.map fun row =>
        (row.name, fun ni => ni.setCounters row.counters) := by
  rw [List.filterMap_map, ← List.filterMap_eq_map]
  congr 1
  funext row
  exact devChange_text row

theorem DevRow.text_plain (row : DevRow) : (0x0a : UInt8) ∉ row.text := by
  have hfields : ∀ field ∈ row.counters.fields, IsWord field := by
    intro field hfield
    simp only [NetCounters.fields, List.mem_cons, List.not_mem_nil,
      or_false] at hfield
    rcases hfield with rfl | rfl | rfl | rfl | rfl | rfl | rfl | rfl | rfl |
        rfl | rfl | rfl
    all_goals exact isWord_decimal _
  have hline := newline_notMem_fields row.layout.isLayout hfields
    row.layout.rest_plain 0
  have hname : (0x0a : UInt8) ∉ row.name := fun hmem =>
    absurd (row.name_word.visible _ hmem) (by decide)
  simp only [DevRow.text, List.mem_append, List.mem_replicate, List.mem_cons,
    not_or]
  exact ⟨⟨fun h => absurd h.2 (by decide), hname⟩, by decide, hline⟩

theorem lines_devFile (first second : Line) (rows : List DevRow) :
    (lines (devFile first second rows)).drop 2 = rows.map DevRow.text := by
  rw [devFile, lines_unlines]
  · rfl
  · intro line hline
    rw [List.mem_cons, List.mem_cons] at hline
    obtain rfl | rfl | hrow := hline
    · exact first.property
    · exact second.property
    · obtain ⟨row, -, rfl⟩ := List.mem_map.mp hrow
      exact row.text_plain

/-! ## What the result says -/

/-- The interface that an entry of `getifaddrs` is about. -/
def IfAddrs.key? (ifa : IfAddrs) : Option Text :=
  if ifa.ifa_addr.isSome then ifa.ifa_name else none

def IfAddrs.ip4? (ifa : IfAddrs) : Option Text :=
  match ifa.ifa_addr with
  | some (.inet addr) => some addr
  | _ => none

def IfAddrs.ip6? (ifa : IfAddrs) : Option Text :=
  match ifa.ifa_addr with
  | some (.inet6 addr) => some addr
  | _ => none

/-- The entries about one interface. -/
def entriesOf (ifas : List IfAddrs) (name : Text) : List IfAddrs :=
  ifas.filter fun ifa => ifa.key? = some name

/-- The flags are those of the last entry, and the addresses those of all,
each where it first comes up. -/
def NetworkInterface.withEntries (ni : NetworkInterface)
    (ifas : List IfAddrs) : NetworkInterface :=
  { ni with
    is_up := (ifas.getLast?.map IfAddrs.iff_up).getD false
    is_loopback := (ifas.getLast?.map IfAddrs.iff_loopback).getD false
    ip4_addresses := distinct (ifas.filterMap IfAddrs.ip4?)
    ip6_addresses := distinct (ifas.filterMap IfAddrs.ip6?) }

/-- The counters are those of the last row with the name. -/
def fromRows (rows : List DevRow) (name : Text) : NetworkInterface :=
  match (rows.filter fun row => row.name = name).getLast? with
  | none => .named name
  | some row => (NetworkInterface.named name).setCounters row.counters

theorem foldl_devChanges (rows : List DevRow) (name : Text) :
    (((rows.map fun row => ((row.name, fun ni : NetworkInterface =>
      ni.setCounters row.counters) : Change)).filter fun e =>
        e.1 = name).foldl (fun ni e => e.2 ni) (.named name)) =
      fromRows rows name := by
  induction rows using List.reverseRecOn with
  | nil => rfl
  | append_singleton rows row ih =>
      rw [List.map_append, List.map_singleton, List.filter_append,
        List.foldl_append, ih]
      by_cases hname : row.name = name
      · have hrow : (rows ++ [row]).filter (fun row => row.name = name) =
            rows.filter (fun row => row.name = name) ++ [row] := by
          simp [hname]
        simp only [fromRows, hrow, List.getLast?_concat, List.filter_cons,
          List.filter_nil, hname, decide_true, if_true, List.foldl_cons,
          List.foldl_nil]
        split <;> rfl
      · have hrow : (rows ++ [row]).filter (fun row => row.name = name) =
            rows.filter (fun row => row.name = name) := by
          simp [hname]
        simp only [fromRows, hrow, List.filter_cons, List.filter_nil, hname,
          decide_false, Bool.false_eq_true, if_false, List.foldl_nil]

theorem key?_eq (ifa : IfAddrs) : ifa.key? = (addrChange ifa).map Prod.fst := by
  obtain ⟨name, addr, up, loopback⟩ := ifa
  cases addr with
  | none => rfl
  | some addr => cases name <;> rfl

/-- One more entry. -/
theorem withEntries_append {ni : NetworkInterface} {ifas : List IfAddrs}
    {ifa : IfAddrs} {e : Change} (h : addrChange ifa = some e) :
    e.2 (ni.withEntries ifas) = ni.withEntries (ifas ++ [ifa]) := by
  unfold addrChange at h
  split at h
  · next addr name haddr hname =>
      obtain rfl := Option.some.inj h
      cases addr with
      | inet a | inet6 a | other =>
          simp [NetworkInterface.withEntries, NetworkInterface.addAddress,
            IfAddrs.ip4?, IfAddrs.ip6?, haddr, distinct_append]
  · cases h

theorem foldl_addrChanges {ni : NetworkInterface}
    (hni : ni.withEntries [] = ni) (ifas : List IfAddrs) (name : Text) :
    ((ifas.filterMap addrChange).filter fun e => e.1 = name).foldl
      (fun ni e => e.2 ni) ni = ni.withEntries (entriesOf ifas name) := by
  induction ifas using List.reverseRecOn with
  | nil => exact hni.symm
  | append_singleton ifas ifa ih =>
      have hentries : entriesOf (ifas ++ [ifa]) name =
          entriesOf ifas name ++ entriesOf [ifa] name := List.filter_append ..
      rw [List.filterMap_append, List.filter_append, List.foldl_append, ih,
        hentries]
      have hkey := key?_eq ifa
      cases hchange : addrChange ifa with
      | none =>
          rw [hchange] at hkey
          simp [entriesOf, hchange, hkey]
      | some e =>
          rw [hchange] at hkey
          by_cases hname : e.1 = name
          · have hlast : entriesOf [ifa] name = [ifa] := by
              simp [entriesOf, hkey, hname]
            rw [hlast, ← withEntries_append hchange]
            simp [hchange, hname]
          · simp [entriesOf, hchange, hkey, hname]

/-! ## The result -/

/-- What the rows of any file do. -/
def devChanges (dev : Option Text) : List Change :=
  match dev with
  | none => []
  | some text => ((lines text).drop 2).filterMap devChange

/-- The interface of a name, after the rows of any file. -/
def fromDev (dev : Option Text) (name : Text) : NetworkInterface :=
  ((devChanges dev).filter fun e => e.1 = name).foldl (fun ni e => e.2 ni)
    (.named name)

theorem devChanges_devFile (first second : Line) (rows : List DevRow) :
    devChanges (some (devFile first second rows)) =
      rows.map fun row =>
        (row.name, fun ni => ni.setCounters row.counters) := by
  rw [devChanges, lines_devFile, filterMap_devChange]

theorem fromDev_devFile (first second : Line) (rows : List DevRow)
    (name : Text) :
    fromDev (some (devFile first second rows)) name = fromRows rows name := by
  rw [fromDev, devChanges_devFile]
  exact foldl_devChanges rows name

theorem mem_devChanges {dev : Option Text} {e : Change}
    (he : e ∈ devChanges dev) : ∃ line, devChange line = some e := by
  cases dev with
  | none => cases he
  | some text =>
      obtain ⟨line, -, hline⟩ := List.mem_filterMap.mp he
      exact ⟨line, hline⟩

/-- A row changes counters only. -/
theorem devChange_keeps {line : Text} {e : Change}
    (h : devChange line = some e) {ni : NetworkInterface}
    (hni : ni.withEntries [] = ni) :
    (e.2 ni).name = ni.name ∧ (e.2 ni).withEntries [] = e.2 ni := by
  obtain ⟨colon, -, rfl⟩ := Option.map_eq_some_iff.mp h
  refine ⟨rfl, ?_⟩
  show (ni.withEntries []).readCounters _ = ni.readCounters _
  rw [hni]

theorem foldl_keeps {es : List Change}
    (hes : ∀ e ∈ es, ∃ line, devChange line = some e) {ni : NetworkInterface}
    (hni : ni.withEntries [] = ni) :
    (es.foldl (fun ni e => e.2 ni) ni).name = ni.name ∧
      (es.foldl (fun ni e => e.2 ni) ni).withEntries [] =
        es.foldl (fun ni e => e.2 ni) ni := by
  induction es generalizing ni with
  | nil => exact ⟨rfl, hni⟩
  | cons e es ih =>
      obtain ⟨line, hline⟩ := hes e List.mem_cons_self
      obtain ⟨hname, hkept⟩ := devChange_keeps hline hni
      obtain ⟨hnames, hrest⟩ :=
        ih (fun e' he' => hes e' (List.mem_cons_of_mem e he')) hkept
      exact ⟨hnames.trans hname, hrest⟩

theorem fromDev_keeps (dev : Option Text) (name : Text) :
    (fromDev dev name).name = name ∧
      (fromDev dev name).withEntries [] = fromDev dev name :=
  foldl_keeps (fun _ he => mem_devChanges (List.mem_filter.mp he).1) rfl

theorem fromDev_of_notMem {dev : Option Text} {name : Text}
    (h : name ∉ distinct ((devChanges dev).map Prod.fst)) :
    fromDev dev name = .named name := by
  have hnone : (devChanges dev).filter (fun e => e.1 = name) = [] := by
    rw [List.filter_eq_nil_iff]
    intro e he hname
    rw [mem_distinct] at h
    exact h (List.mem_map.mpr ⟨e, he, of_decide_eq_true hname⟩)
  rw [fromDev, hnone]
  rfl

/-- After `ParseProcNetDev`. -/
theorem parseProcNetDev_eq (dev : Option Text) :
    parseProcNetDev dev [] =
      (distinct ((devChanges dev).map Prod.fst)).map (fromDev dev) := by
  have hchanges :=
    (holds_empty NetworkInterface.named).changes (devChanges dev)
  cases dev with
  | none => rfl
  | some text => exact hchanges.records

/-- The names that a call comes upon, in order. -/
def namesOf (dev : Option Text) (ifa_list : Option (List IfAddrs)) :
    List Text :=
  (devChanges dev).map Prod.fst ++
    (ifa_list.getD []).filterMap IfAddrs.key?

/-- After `PopulateIfAddrs`. -/
theorem populateIfAddrs_parseProcNetDev (dev : Option Text)
    (ifa_list : Option (List IfAddrs)) :
    populateIfAddrs ifa_list (parseProcNetDev dev []) =
      (distinct (namesOf dev ifa_list)).map fun name =>
        (fromDev dev name).withEntries
          (entriesOf (ifa_list.getD []) name) := by
  rw [parseProcNetDev_eq]
  cases ifa_list with
  | none =>
      rw [populateIfAddrs, namesOf, Option.getD_none, List.filterMap_nil,
        List.append_nil]
      refine List.map_congr_left fun name _ => ?_
      exact (fromDev_keeps dev name).2.symm
  | some ifas =>
      have hholds : Indexed.Holds NetworkInterface.named
          (withIndex
            ((distinct ((devChanges dev).map Prod.fst)).map (fromDev dev)))
          (distinct ((devChanges dev).map Prod.fst)) (fromDev dev) :=
        holds_indexOf (nodup_distinct _)
          (fun name _ => (fromDev_keeps dev name).1)
          fun name hname => fromDev_of_notMem hname
      have hrecords := (hholds.changes (ifas.filterMap addrChange)).records
      have hkeys : (ifas.filterMap addrChange).map Prod.fst =
          ifas.filterMap IfAddrs.key? := by
        rw [List.map_filterMap]
        congr 1
        funext ifa
        exact (key?_eq ifa).symm
      simp only [foldl_addrChanges (fromDev_keeps dev _).2, hkeys] at hrecords
      rw [populateIfAddrs, namesOf, Option.getD_some, distinct_append]
      exact hrecords

/-- Whatever the file holds, each name is there once, where it first comes
up. -/
theorem fetchNetworkInfo_names (dev : Option Text)
    (ifa_list : Option (List IfAddrs)) (sysfs : Text → Option Text) :
    (fetchNetworkInfo dev ifa_list sysfs).map NetworkInterface.name =
      distinct (namesOf dev ifa_list) := by
  have hnames : (NetworkInterface.name ∘ enrich sysfs) ∘ (fun name =>
      (fromDev dev name).withEntries
        (entriesOf (ifa_list.getD []) name)) = id := by
    funext name
    exact (fromDev_keeps dev name).1
  rw [fetchNetworkInfo, populateIfAddrs_parseProcNetDev, List.map_map,
    List.map_map, hnames, List.map_id]

/-- One entry for each interface that `/proc/net/dev` or `getifaddrs` names,
where it is first named: the counters of its last row, the flags of its last
entry, its addresses without repetition, and what sysfs says of it.  No name
repeats, whatever the file holds. -/
theorem fetchNetworkInfo_devFile (first second : Line) (rows : List DevRow)
    (ifa_list : Option (List IfAddrs)) (sysfs : Text → Option Text) :
    fetchNetworkInfo (some (devFile first second rows)) ifa_list sysfs =
        (distinct (rows.map DevRow.name ++
          (ifa_list.getD []).filterMap IfAddrs.key?)).map (fun name =>
            enrich sysfs ((fromRows rows name).withEntries
              (entriesOf (ifa_list.getD []) name))) ∧
      ∀ dev, ((fetchNetworkInfo dev ifa_list sysfs).map
        NetworkInterface.name).Nodup := by
  constructor
  · have hnames : namesOf (some (devFile first second rows)) ifa_list =
        rows.map DevRow.name ++
          (ifa_list.getD []).filterMap IfAddrs.key? := by
      rw [namesOf, devChanges_devFile, List.map_map]
      rfl
    simp only [fetchNetworkInfo, populateIfAddrs_parseProcNetDev, hnames,
      fromDev_devFile, List.map_map]
    rfl
  · intro dev
    rw [fetchNetworkInfo_names]
    exact nodup_distinct _

end SystemInfo
end Yacul
