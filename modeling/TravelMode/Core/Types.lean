import Mathlib.Data.Int.Order.Basic
import TravelMode.Lib.UnixPath

/-!
# Domain types shared by daemon and clients (`core/src/types.rs`)

Field names and constructors are those of the source, in camel case.

- `u64`, `u32` and `usize` counters and ids are `Nat`; `u16` ports are `UInt16`;
  the `u64` of a rule's lifetime is a `UInt64`, because the code casts it.
- `DateTime<Utc>` is a number of nanoseconds that lies in chrono's range: an
  instant outside the range cannot be built.
-/

namespace TravelMode

/-! ## Time (`chrono`) -/

/-- Nanoseconds in a second. -/
def nanosPerSec : Int := 1000000000

/-- `DateTime::<Utc>::MIN_UTC`, -262143-01-01T00:00:00Z. -/
def minNanos : Int := -8334601228800 * nanosPerSec

/-- `DateTime::<Utc>::MAX_UTC`, 262142-12-31T23:59:59.999999999Z. -/
def maxNanos : Int := 8210266876800 * nanosPerSec - 1

/-- `DateTime<Utc>`: nanoseconds since the epoch, within the representable range. -/
structure DateTime where
  nanos : Int
  inRange : minNanos ≤ nanos ∧ nanos ≤ maxNanos
deriving DecidableEq

namespace DateTime

instance : LE DateTime := ⟨fun a b => a.nanos ≤ b.nanos⟩

instance (a b : DateTime) : Decidable (a ≤ b) := inferInstanceAs (Decidable (a.nanos ≤ b.nanos))

/-- `DateTime::UNIX_EPOCH`. -/
def epoch : DateTime := ⟨0, by decide⟩

theorem le_def {a b : DateTime} : a ≤ b ↔ a.nanos ≤ b.nanos := Iff.rfl

/-- `checked_add_signed`: `none` when the sum leaves the representable range. -/
def checkedAddSigned (t : DateTime) (delta : Int) : Option DateTime :=
  if h : minNanos ≤ t.nanos + delta ∧ t.nanos + delta ≤ maxNanos then some ⟨t.nanos + delta, h⟩
  else none

end DateTime

/-! ## Addresses (`std::net`) -/

/-- `Ipv4Addr`. -/
structure Ipv4Addr where
  a : UInt8
  b : UInt8
  c : UInt8
  d : UInt8
deriving DecidableEq, Repr

/-- `Ipv6Addr`: sixteen octets, most significant first. -/
structure Ipv6Addr where
  octets : List UInt8
  size : octets.length = 16
deriving DecidableEq, Repr

/-- `IpAddr`. -/
inductive IpAddr where
  | v4 (addr : Ipv4Addr)
  | v6 (addr : Ipv6Addr)
deriving DecidableEq, Repr

/-! ## Processes, flows and usage -/

/-- A running process that holds (or held) network sockets. -/
structure ProcessInfo where
  pid : Nat
  name : String
  exe : Option PathBuf
  user : Option String
  ppid : Nat
deriving DecidableEq

inductive Protocol where
  | tcp
  | udp
  | other
deriving DecidableEq, Repr

/-- A single tracked network flow (conntrack entry). -/
structure ConnectionInfo where
  /-- Stable key for the flow (5-tuple + protocol rendered as a string). -/
  key : String
  protocol : Protocol
  localAddr : IpAddr
  localPort : UInt16
  remoteAddr : IpAddr
  remotePort : UInt16
  bytesSent : Nat
  bytesRecv : Nat
  /-- Owning process, if attribution succeeded. -/
  pid : Option Nat
  processName : Option String
  exe : Option PathBuf
  started : DateTime
  lastSeen : DateTime
deriving DecidableEq

/-- Per-application aggregated usage (for `top`). -/
structure AppUsage where
  name : String
  exe : Option PathBuf
  bytesSent : Nat
  bytesRecv : Nat
  connections : Nat
  blocked : Bool
deriving DecidableEq

/-! ## Network environment -/

inductive InterfaceKind where
  | ethernet
  | wifi
  | vpn
  | loopback
  | other
deriving DecidableEq

structure InterfaceInfo where
  name : String
  kind : InterfaceKind
  mac : Option String
  addrs : List IpAddr
  isUp : Bool
deriving DecidableEq

/-- Snapshot of the current network environment. -/
structure NetworkInfo where
  interfaces : List InterfaceInfo
  gateway : Option IpAddr
  dnsServers : List IpAddr
  ssid : Option String
  metered : Option Bool
  primaryInterface : Option String
deriving DecidableEq

/-! ## Rules -/

inductive RuleAction where
  | allow
  | block
deriving DecidableEq, Repr

/-- A firewall rule keyed by executable path. -/
structure Rule where
  id : Nat
  name : String
  exePath : PathBuf
  action : RuleAction
  /-- If true the rule survives daemon restarts; otherwise it expires at
  `expiresAt` (or when the daemon stops, if `expiresAt` is `none`). -/
  persistent : Bool
  expiresAt : Option DateTime
  profile : String
  updatedAt : DateTime
deriving DecidableEq

/-- Input for creating a rule (id and timestamps assigned by the daemon). -/
structure RuleInput where
  name : String
  exePath : PathBuf
  action : RuleAction
  persistent : Bool
  /-- Seconds from now after which a temporary rule expires. -/
  ttlSecs : Option UInt64
deriving DecidableEq

/-- The rule blocks the executable `exe` (whether or not it has expired). -/
def Rule.blocks (r : Rule) (exe : PathBuf) : Bool :=
  decide (r.action = .block) && r.exePath.pathEq exe

/-! ## Status and events -/

/-- Daemon-wide status snapshot. -/
structure Status where
  version : String
  uptimeSecs : Nat
  paused : Bool
  filteringActive : Bool
  rulesCount : Nat
  trackedConnections : Nat
  trackedProcesses : Nat
deriving DecidableEq

/-- Live events pushed to `Subscribe` clients. -/
inductive Event where
  | connectionOpened (conn : ConnectionInfo)
  | connectionUpdated (conn : ConnectionInfo)
  | connectionClosed (key : String)
  | processStarted (info : ProcessInfo)
  | processExited (pid : Nat)
  | ruleAdded (rule : Rule)
  | ruleRemoved (id : Nat)
  | pausedChanged (paused : Bool)
  | networkChanged (network : NetworkInfo)
deriving DecidableEq

theorem Rule.blocks_iff {r : Rule} {exe : PathBuf} :
    r.blocks exe = true ↔ r.action = .block ∧ r.exePath.pathEq exe = true := by
  rw [Rule.blocks, Bool.and_eq_true, decide_eq_true_iff]

/-- Blocking respects the equality of paths. -/
theorem Rule.blocks_congr {p q : PathBuf} (h : p.pathEq q = true) (r : Rule) :
    r.blocks p = r.blocks q := by
  rw [Rule.blocks, Rule.blocks, PathBuf.pathEq_congr_right h]

end TravelMode
