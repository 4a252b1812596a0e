import TravelMode.Daemon.Attrib
import TravelMode.Lib.Loops

/-!
# The search for a socket

The kernel lists its sockets as the text of `/proc/net/{tcp,tcp6,udp,udp6}`: lines that are rows,
which it pads, and lines that are no row, such as the header. Either of the two tables of a
protocol may be unreadable.

- `SocketRow` is a row as the kernel holds it, `renderRow` its text, with any padding between
  the columns; `parseProcNetLine_renderRow` inverts the rendering.
- `Table`: the lines of a table, of which the header is one.
- `findSocketInode_tables`: over all tables, the search is for the first open socket with the
  port, those of the IPv4 table first.
-/

namespace TravelMode

namespace SocketTables

open TextScan Loops

/-! ## Rows and their text -/

/-- Two hexadecimal digits. -/
def hexByte (b : UInt8) : List Char := fixedDigits 16 upperHex 2 b.toNat

/-- An address as the kernel prints it: 32-bit words in host (little-endian) order. -/
def hexAddr : IpAddr → List Char
  | .v4 addr => [addr.d, addr.c, addr.b, addr.a].flatMap hexByte
  | .v6 addr => (addr.octets.toChunks 4).flatMap fun word => word.reverse.flatMap hexByte

/-- A port column. -/
def hexPort (port : UInt16) : List Char := fixedDigits 16 upperHex 4 port.toNat

/-- A socket as the kernel lists it. -/
structure SocketRow where
  slot : Nat
  localAddr : IpAddr
  localPort : UInt16
  remoteAddr : IpAddr
  remotePort : UInt16
  /-- State, queues, timer, retransmits, uid and timeout. -/
  middle : List (List Char)
  inode : Nat
  trailing : List (List Char)
  middle_length : middle.length = 6
  middle_words : ∀ w ∈ middle, IsWord w
  trailing_words : ∀ w ∈ trailing, IsWord w
  inode_lt : inode < 2 ^ 64

/-- The columns of a row. -/
def SocketRow.columns (row : SocketRow) : List (List Char) :=
  (Nat.toDigits 10 row.slot ++ [':']) ::
    (hexAddr row.localAddr ++ ':' :: hexPort row.localPort) ::
    (hexAddr row.remoteAddr ++ ':' :: hexPort row.remotePort) ::
    (row.middle ++ Nat.toDigits 10 row.inode :: row.trailing)

/-- The text of a row: `pad i` more spaces than needed before column `i`. -/
def renderRow (pad : Nat → Nat) (row : SocketRow) : List Char :=
  fields (row.columns.zipIdx.map fun c => (if c.2 = 0 then pad 0 else pad c.2 + 1, c.1))

/-- The first line of every table. -/
def header : List Char :=
  ("  sl  local_address rem_address   st tx_queue rx_queue tr tm->when retrnsmt   uid" ++
    "  timeout inode").toList

/-- A line that is no row: it has fewer than ten fields, or no slot number before them. -/
structure IsOther (line : List Char) : Prop where
  noBreak : '\n' ∉ line
  noRow : (splitWhitespace line).length < 10 ∨
    ∀ sl ∈ (splitWhitespace line).head?, sl.getLast? ≠ some ':'

/-! ## Tables -/

/-- A line of a table. -/
inductive Line where
  | row (pad : Nat → Nat) (trailing : Nat) (row : SocketRow)
  | other (line : List Char) (isOther : IsOther line)

namespace Line

/-- A row has more spaces than needed before each column, and any at the end. -/
def text : Line → List Char
  | row pad trailing r => renderRow pad r ++ List.replicate trailing ' '
  | other line _ => line

/-- The socket of a row. -/
def socket? : Line → Option SocketRow
  | row _ _ r => some r
  | other _ _ => none

end Line

/-- The lines of a table. -/
abbrev Table := List Line

/-- What a table looks like. -/
def Table.text (table : Table) : List Char := unlines (table.map Line.text)

/-- The sockets of a table, in its order. -/
def Table.sockets (table : Table) : List SocketRow := table.filterMap Line.socket?

/-- The tables of a protocol; `none` is one that cannot be read. -/
abbrev Tables := String → Option Table

/-- The sockets of a protocol: those in its IPv4 table, then those in its IPv6 table. -/
def socketsOf (tables : Tables) (proto : Protocol) : List SocketRow :=
  (socketTables proto).flatMap fun file => ((tables file).map Table.sockets).getD []

/-- The tables of the protocol are what `/proc` shows. -/
def Shows (fs : ProcFs) (proto : Protocol) (tables : Tables) : Prop :=
  ∀ file ∈ socketTables proto, fs.netFile file = (tables file).map Table.text

/-- An open socket with this local port. -/
def IsOpen (port : UInt16) (r : SocketRow) : Prop := r.localPort = port ∧ r.inode ≠ 0

instance (port : UInt16) : DecidablePred (IsOpen port) := fun r =>
  inferInstanceAs (Decidable (r.localPort = port ∧ r.inode ≠ 0))

/-! ## Parsing rows -/

theorem hexByte_plain {b : UInt8} {c : Char} (h : c ∈ hexByte b) :
    c ≠ ':' ∧ isWhitespace c = false := by
  obtain ⟨d, hd, rfl⟩ := mem_fixedDigits (by decide) h
  exact ⟨(upperHex_ne hd).2.1, (upperHex_ne hd).2.2⟩

theorem hexAddr_plain {addr : IpAddr} {c : Char} (h : c ∈ hexAddr addr) :
    isWhitespace c = false := by
  cases addr with
  | v4 addr =>
    obtain ⟨b, -, hc⟩ := List.mem_flatMap.mp h
    exact (hexByte_plain hc).2
  | v6 addr =>
    obtain ⟨word, -, hc⟩ := List.mem_flatMap.mp h
    obtain ⟨b, -, hc⟩ := List.mem_flatMap.mp hc
    exact (hexByte_plain hc).2

theorem hexPort_plain {port : UInt16} {c : Char} (h : c ∈ hexPort port) :
    c ≠ ':' ∧ isWhitespace c = false := by
  obtain ⟨d, hd, rfl⟩ := mem_fixedDigits (by decide) h
  exact ⟨(upperHex_ne hd).2.1, (upperHex_ne hd).2.2⟩

/-- An address column is a word. -/
theorem isWord_endpoint (addr : IpAddr) (port : UInt16) :
    IsWord (hexAddr addr ++ ':' :: hexPort port) := by
  refine ⟨by simp, fun c hc => ?_⟩
  rcases List.mem_append.mp hc with hc | hc
  · exact hexAddr_plain hc
  · rcases List.mem_cons.mp hc with rfl | hc
    · decide
    · exact (hexPort_plain hc).2

/-- Every column is a word. -/
theorem isWord_columns (row : SocketRow) : ∀ w ∈ row.columns, IsWord w := by
  intro w hw
  rcases List.mem_cons.mp hw with rfl | hw
  · refine ⟨by simp, fun c hc => ?_⟩
    rcases List.mem_append.mp hc with hc | hc
    · exact (isWord_toDigits row.slot).2 c hc
    · rw [List.mem_singleton.mp hc]
      decide
  · rcases List.mem_cons.mp hw with rfl | hw
    · exact isWord_endpoint _ _
    · rcases List.mem_cons.mp hw with rfl | hw
      · exact isWord_endpoint _ _
      · rcases List.mem_append.mp hw with hw | hw
        · exact row.middle_words w hw
        · rcases List.mem_cons.mp hw with rfl | hw
          · exact isWord_toDigits _
          · exact row.trailing_words w hw

/-- The padded columns of a row: the words, and at least one space before each but the
first. -/
theorem padded_words (pad : Nat → Nat) (row : SocketRow) :
    ∀ w ∈ row.columns.zipIdx.map (fun c => (if c.2 = 0 then pad 0 else pad c.2 + 1, c.1)),
      IsWord w.2 := by
  intro w hw
  obtain ⟨c, hc, rfl⟩ := List.mem_map.mp hw
  exact isWord_columns row c.1 (List.fst_mem_of_mem_zipIdx hc)

/-- Splitting the text of a row gives its columns. -/
theorem splitWhitespace_renderRow (pad : Nat → Nat) (row : SocketRow) :
    splitWhitespace (renderRow pad row) = row.columns := by
  rw [renderRow, splitWhitespace_fields (padded_words pad row), List.map_map]
  · show List.map Prod.fst row.columns.zipIdx = row.columns
    exact List.zipIdx_map_fst 0 row.columns
  · intro w hw
    rw [SocketRow.columns, List.zipIdx_cons, List.map_cons, List.tail_cons] at hw
    obtain ⟨c, hc, rfl⟩ := List.mem_map.mp hw
    have hpos : 1 ≤ c.2 := List.le_snd_of_mem_zipIdx hc
    show 0 < if c.2 = 0 then pad 0 else pad c.2 + 1
    rw [if_neg (by omega)]
    exact Nat.succ_pos _

/-- A port column is read back. -/
theorem portOf_endpoint (addr : IpAddr) (port : UInt16) :
    portOf (hexAddr addr ++ ':' :: hexPort port) = some port := by
  have hcolon : ':' ∉ hexPort port := fun h => (hexPort_plain h).1 rfl
  have hlt : port.toNat < 65536 := port.toNat_lt
  rw [portOf, afterLast_append _ hcolon, hexPort, fromStrRadix_fixedDigits (by omega) hlt,
    Option.map_some, UInt16.ofNat_toNat]

/-- **Rows round trip**: an open socket's row is read back, the others are skipped. -/
theorem parseProcNetLine_renderRow (pad : Nat → Nat) (row : SocketRow) :
    parseProcNetLine (renderRow pad row) =
      if row.inode = 0 then none else some ⟨row.localPort, row.remotePort, row.inode⟩ := by
  obtain ⟨m₀, m₁, m₂, m₃, m₄, m₅, hmiddle⟩ :
      ∃ m₀ m₁ m₂ m₃ m₄ m₅, row.middle = [m₀, m₁, m₂, m₃, m₄, m₅] := by
    have hlen := row.middle_length
    match hm : row.middle, hlen with
    | [m₀, m₁, m₂, m₃, m₄, m₅], _ => exact ⟨m₀, m₁, m₂, m₃, m₄, m₅, rfl⟩
  have hlast : (Nat.toDigits 10 row.slot ++ [':']).getLast? = some ':' := List.getLast?_concat
  rw [parseProcNetLine, splitWhitespace_renderRow, SocketRow.columns, hmiddle]
  simp only [List.cons_append, List.nil_append]
  rw [if_pos hlast, portOf_endpoint, Option.bind_some, portOf_endpoint, Option.bind_some,
    fromStrRadix_toDigits row.inode_lt, Option.bind_some]

/-- A row answers for its own local port. -/
theorem lineInode_renderRow (pad : Nat → Nat) (port : UInt16) (row : SocketRow) :
    lineInode port (renderRow pad row) =
      if row.localPort = port ∧ row.inode ≠ 0 then some row.inode else none := by
  rw [lineInode, parseProcNetLine_renderRow]
  by_cases hinode : row.inode = 0
  · simp [hinode]
  · rw [if_neg hinode, Option.bind_some]
    by_cases hport : row.localPort = port <;> simp [hport, hinode]

/-- The first word of the header is `sl`. -/
theorem header_plain : ('\n' ∉ header ∧ header.getLast? ≠ some '\r') ∧
    ∀ sl ∈ (splitWhitespace header).head?, sl.getLast? ≠ some ':' := by
  decide +kernel

theorem isOther_header : IsOther header := ⟨header_plain.1.1, .inr header_plain.2⟩

/-- A line that is no row is passed over. -/
theorem lineInode_other {line : List Char} (h : IsOther line) (port : UInt16) :
    lineInode port line = none := by
  have hparse : parseProcNetLine line = none := by
    unfold parseProcNetLine
    split
    · rename_i hwords
      rcases h.noRow with hlen | hslot
      · rw [hwords] at hlen
        simp only [List.length_cons] at hlen
        omega
      · rw [hwords] at hslot
        exact if_neg (hslot _ rfl)
    · rfl
  rw [lineInode, hparse]
  rfl

/-! ## Lines -/

theorem noBreak_text (line : Line) : '\n' ∉ line.text := by
  cases line with
  | row pad trailing r =>
    intro hmem
    rcases List.mem_append.mp hmem with hmem | hmem
    · exact (isLine_fields (padded_words pad r)).1 hmem
    · exact absurd (List.eq_of_mem_replicate hmem) (by decide)
  | other line isOther => exact isOther.noBreak

/-- Only the words of a line count. -/
theorem lineInode_congr {line line' : List Char} (h : splitWhitespace line = splitWhitespace line')
    (port : UInt16) : lineInode port line = lineInode port line' := by
  unfold lineInode parseProcNetLine
  rw [h]

/-- A line answers for the open socket that it lists. -/
theorem lineInode_text (port : UInt16) (line : Line) :
    lineInode port (stripCr line.text) =
      (line.socket?.toList.find? fun r => decide (IsOpen port r)).map SocketRow.inode := by
  rw [lineInode_congr (splitWhitespace_stripCr line.text)]
  cases line with
  | row pad trailing r =>
    have hblank : IsBlank (List.replicate trailing ' ') := by
      intro c hc
      rw [List.eq_of_mem_replicate hc]
      decide
    rw [Line.text, lineInode_congr (splitWhitespace_append_blank hblank _), lineInode_renderRow]
    show _ = ([r].find? fun r => decide (IsOpen port r)).map SocketRow.inode
    rw [List.find?_singleton]
    by_cases hopen : r.localPort = port ∧ r.inode ≠ 0
    · have hdecide : decide (IsOpen port r) = true := decide_eq_true hopen
      rw [if_pos hopen, if_pos hdecide]
      rfl
    · have hdecide : ¬decide (IsOpen port r) = true := fun h => hopen (of_decide_eq_true h)
      rw [if_neg hopen, if_neg hdecide]
      rfl
  | other line isOther => exact lineInode_other isOther port

/-! ## The search -/

/-- The search over the lines of a table. -/
theorem findSome?_text (port : UInt16) (table : Table) :
    (lines table.text).findSome? (lineInode port) =
      (table.sockets.find? fun r => decide (IsOpen port r)).map SocketRow.inode := by
  have hbreak : ∀ l ∈ table.map Line.text, '\n' ∉ l := by
    intro l hl
    obtain ⟨line, -, rfl⟩ := List.mem_map.mp hl
    exact noBreak_text line
  have hsockets : table.sockets = table.flatMap fun line => line.socket?.toList :=
    List.filterMap_eq_flatMap_toList ..
  rw [Table.text, lines_unlines_stripCr hbreak, List.map_map, List.findSome?_map, hsockets]
  exact findSome?_groups fun line _ => lineInode_text port line

/-- The first open socket with the local port. -/
def firstOpen (tables : Tables) (proto : Protocol) (port : UInt16) : Option SocketRow :=
  (socketsOf tables proto).find? fun r => decide (IsOpen port r)

/-- **The search over tables** is for the first open socket with the port. -/
theorem findSocketInode_eq {fs : ProcFs} {proto : Protocol} {tables : Tables}
    (h : Shows fs proto tables) (port : UInt16) :
    findSocketInode fs proto port = (firstOpen tables proto port).map SocketRow.inode := by
  refine findSome?_groups fun file hfile => ?_
  rw [h file hfile]
  cases tables file with
  | none => rfl
  | some table => exact findSome?_text port table

/-- **Socket table search**: whatever else the tables hold, and where one of them cannot be
read, the inode is that of the first open socket with the port; there is none exactly if no
socket is. -/
theorem findSocketInode_tables {fs : ProcFs} {proto : Protocol} {tables : Tables}
    (h : ∀ file ∈ socketTables proto, fs.netFile file = (tables file).map Table.text)
    (port : UInt16) :
    findSocketInode fs proto port =
      ((socketsOf tables proto).find? fun r => decide (IsOpen port r)).map SocketRow.inode ∧
    (findSocketInode fs proto port = none ↔ ∀ r ∈ socketsOf tables proto, ¬IsOpen port r) := by
  have hfind := findSocketInode_eq h port
  refine ⟨hfind, ?_⟩
  rw [hfind, firstOpen, Option.map_eq_none_iff, List.find?_eq_none]
  simp

/-! ### A table with everything in it -/

/-- A row with the columns that are not read filled in. -/
def sampleRow (localAddr : IpAddr) (localPort : UInt16) (remoteAddr : IpAddr)
    (remotePort : UInt16) (inode : Nat) (h : inode < 2 ^ 64) : SocketRow where
  slot := 0
  localAddr := localAddr
  localPort := localPort
  remoteAddr := remoteAddr
  remotePort := remotePort
  middle := List.replicate 6 ['0']
  inode := inode
  trailing := []
  middle_length := rfl
  middle_words w hw := by
    rw [List.eq_of_mem_replicate hw]
    refine ⟨List.cons_ne_nil _ _, fun c hc => ?_⟩
    rw [List.mem_singleton.mp hc]
    decide
  trailing_words _ hw := nomatch hw
  inode_lt := h

/-- The socket of process 4242, connected to 93.184.216.34:443. -/
def connectedRow : SocketRow :=
  sampleRow (.v4 ⟨192, 168, 1, 10⟩) 51234 (.v4 ⟨93, 184, 216, 34⟩) 443 777 (by decide)

/-- A socket of the port that is not open. -/
def closedRow : SocketRow :=
  sampleRow (.v4 ⟨192, 168, 1, 10⟩) 51234 (.v4 ⟨93, 184, 216, 34⟩) 443 0 (by decide)

/-- The IPv4 table has the open socket last; the IPv6 table cannot be read. -/
def mixedTables : Tables := fun file =>
  if file = "/proc/net/tcp" then
    some [.other header isOther_header, .row (fun _ => 2) 5 closedRow,
      .other "not a row".toList ⟨by decide +kernel, .inl (by decide +kernel)⟩,
      .row (fun _ => 0) 0 connectedRow]
  else none

/-- `/proc` with these tables. -/
def mixedProc : ProcFs where
  netFile file := (mixedTables file).map Table.text
  fdDirs := .empty
  process _ := none

/-- The open socket is found, and no other. -/
theorem findSocketInode_tables_mixed :
    findSocketInode mixedProc .tcp 51234 = some 777 ∧
    findSocketInode mixedProc .tcp 443 = none := by
  have htables := @findSocketInode_tables mixedProc .tcp mixedTables fun _ _ => rfl
  refine ⟨(htables 51234).1.trans (by decide), (htables 443).2.mpr (by decide)⟩

end SocketTables

end TravelMode
