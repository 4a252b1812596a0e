import TravelMode.Daemon.Attrib
import TravelMode.Daemon.Firewall
import TravelMode.Daemon.Rules

/-!
# The daemon's state (`daemon/src/state.rs`) and its verdicts (`firewall.rs`)

`DaemonState` holds what the mutexes and atomics of the source hold.
`attributeFlow` and `decide` are the two operations that every packet goes
through; both leave a new inode cache behind, `decide` also the block counter and
the log throttle.
-/

namespace TravelMode

/-- `EVENT_CHANNEL_CAPACITY`: capacity of the broadcast channel. -/
def eventChannelCapacity : Nat := 256

/-- Shared daemon state. The event channel is not a field: operations return what they
publish. -/
structure DaemonState where
  paused : Bool
  filteringActive : Bool
  blockedCount : Nat
  rules : Inner
  processes : KeyedMap Nat ProcessInfo
  connections : KeyedMap String ConnectionInfo
  attrib : Attributor
  /-- Rate limiter for blocked-connection logging. -/
  blockLog : LogThrottle ThrottleKey
  /-- Last network snapshot, cached for `getNetwork`. -/
  network : Option NetworkInfo
  /-- nftables handle; `none` when firewall setup failed. -/
  firewall : Option Firewall

/-- What `attribute` fills in for a flow. -/
structure Attribution where
  pid : Option Nat
  name : Option String
  exe : Option PathBuf
deriving DecidableEq

/-- What the firewall tells the kernel to do with a packet. -/
inductive Verdict where
  | accept
  | drop
deriving DecidableEq

namespace DaemonState

/-- `DaemonState::new` around a loaded rule store. -/
def new (rules : Inner) : DaemonState where
  paused := false
  filteringActive := false
  blockedCount := 0
  rules := rules
  processes := .empty
  connections := .empty
  attrib := .new
  blockLog := .default
  network := none
  firewall := none

/-- Name and executable of a process: the scanner's entry if it has one, else a direct
lookup, so that rules do not fail open for short-lived processes. -/
def describe (st : DaemonState) (fs : ProcFs) (pid : Nat) : Attribution :=
  match st.processes.get? pid with
  | some p => ⟨some pid, some p.name, p.exe⟩
  | none =>
    match fs.process pid with
    | some p => ⟨some pid, some p.name, p.exe⟩
    | none => ⟨some pid, none, none⟩

/-- `DaemonState::attribute`, with the cache it leaves. -/
def attributeFlow (st : DaemonState) (fs : ProcFs) (proto : Protocol) (localPort : UInt16) :
    Attribution × DaemonState :=
  let found := st.attrib.lookup fs proto localPort
  (match found.1 with
    | none => ⟨none, none, none⟩
    | some pid => st.describe fs pid,
   { st with attrib := found.2 })

/-- The two clocks a verdict reads. -/
structure Clock where
  now : DateTime
  instant : Nat

/-- The blocked branch of `decide`: count it, and ask the throttle whether to log. -/
def block (st : DaemonState) (exe : PathBuf) (packet : Packet) (instant : Nat) : DaemonState :=
  let key : ThrottleKey := ⟨exe.components, packet.remoteAddr, packet.remotePort⟩
  { st with
    blockedCount := st.blockedCount + 1
    blockLog := (st.blockLog.shouldLog key instant).2 }

/-- `decide`: fail-open, ACCEPT on any doubt. -/
def decide (st : DaemonState) (fs : ProcFs) (clock : Clock) (payload : List UInt8) :
    Except OutOfRange (Verdict × DaemonState) := do
  if st.paused then
    return (.accept, st)
  match ← parsePacket payload with
  | none => return (.accept, st)
  | some packet =>
    let (who, st) := st.attributeFlow fs packet.protocol packet.localPort
    match who.pid, who.exe with
    | some _, some exe =>
      if st.rules.isBlocked exe clock.now then
        return (.drop, st.block exe packet clock.instant)
      else
        return (.accept, st)
    | _, _ => return (.accept, st)

/-! ## What attribution and verdicts depend on -/

@[simp] theorem attributeFlow_rules (st : DaemonState) (fs : ProcFs) (proto : Protocol)
    (port : UInt16) : (st.attributeFlow fs proto port).2.rules = st.rules := rfl

@[simp] theorem describe_pid (st : DaemonState) (fs : ProcFs) (pid : Nat) :
    (st.describe fs pid).pid = some pid := by
  unfold describe
  split
  · rfl
  · split <;> rfl

/-- A found process is described by the process table. -/
theorem attributeFlow_of_lookup {st : DaemonState} {fs : ProcFs} {proto : Protocol}
    {port : UInt16} {pid : Nat} (h : (st.attrib.lookup fs proto port).1 = some pid) :
    (st.attributeFlow fs proto port).1 = st.describe fs pid := by
  simp only [attributeFlow, h]

/-- A verdict changes the inode cache, the block counter and the log throttle only. -/
theorem decide_frame {st st' : DaemonState} {fs : ProcFs} {clock : Clock}
    {payload : List UInt8} {verdict : Verdict}
    (h : st.decide fs clock payload = .ok (verdict, st')) :
    st' = { st with attrib := st'.attrib, blockedCount := st'.blockedCount,
                    blockLog := st'.blockLog } := by
  obtain ⟨parsed, hparse⟩ := parsePacket_ok payload
  unfold decide at h
  rw [hparse] at h
  split at h
  · cases h
    rfl
  · cases parsed with
    | none =>
      cases h
      rfl
    | some packet =>
      simp only [bind, Except.bind] at h
      split at h
      · split at h <;> cases h <;> rfl
      · cases h
        rfl

/-- A verdict leaves the flow map alone. -/
theorem decide_connections {st st' : DaemonState} {fs : ProcFs} {clock : Clock}
    {payload : List UInt8} {verdict : Verdict}
    (h : st.decide fs clock payload = .ok (verdict, st')) :
    st'.connections = st.connections := by
  rw [decide_frame h]

/-- While paused, everything is accepted. -/
theorem decide_paused {st : DaemonState} (h : st.paused = true) (fs : ProcFs) (clock : Clock)
    (payload : List UInt8) : st.decide fs clock payload = .ok (.accept, st) := by
  unfold decide
  rw [if_pos h]
  rfl

/-- **Verdict**: on a packet that parses and is attributed to a process with an
executable, the verdict is `drop` exactly when the store blocks that executable. -/
theorem decide_attributed {st : DaemonState} {fs : ProcFs} {clock : Clock}
    {payload : List UInt8} {packet : Packet} {pid : Nat} {exe : PathBuf}
    (hpaused : st.paused = false) (hparse : parsePacket payload = .ok (some packet))
    (hpid : (st.attributeFlow fs packet.protocol packet.localPort).1.pid = some pid)
    (hexe : (st.attributeFlow fs packet.protocol packet.localPort).1.exe = some exe) :
    ∃ st', st.decide fs clock payload =
      .ok (if st.rules.isBlocked exe clock.now then .drop else .accept, st') := by
  have hrules := attributeFlow_rules st fs packet.protocol packet.localPort
  unfold decide
  rw [hpaused, if_neg Bool.false_ne_true, hparse]
  simp only [bind, Except.bind]
  rw [hpid, hexe]
  dsimp only
  rw [hrules]
  cases st.rules.isBlocked exe clock.now with
  | true => exact ⟨_, rfl⟩
  | false => exact ⟨_, rfl⟩

/-! ### A process and its first packet -/

/-- A first packet of process 4242 to 93.184.216.34:443, from port 51234. -/
def synPacket : List UInt8 :=
  [0x45, 0, 0, 40, 0, 0, 0, 0, 64, 6, 0, 0, 192, 168, 1, 10, 93, 184, 216, 34,
    200, 34, 1, 187, 0, 0, 0, 0, 0, 0, 0, 0, 80, 2, 0, 0, 0, 0, 0, 0]

/-- Process 4242 holds the one TCP socket, on port 51234. -/
def curlProcFs : ProcFs where
  netFile file :=
    if file = "/proc/net/tcp" then
      some ("   0: 0A01A8C0:C822 22D8B85D:01BB 02 0:0 0:0 0 1000 0 777 1\n").toList
    else none
  fdDirs := KeyedMap.empty.insert 4242 ["/dev/null".toList, "socket:[777]".toList]
  process pid := if pid = 4242 then
    some ⟨4242, "curl", some (.ofString "/usr/bin/curl"), none, 1⟩ else none

/-- An empty store blocks nothing. -/
example : ((new .firstStart).decide curlProcFs ⟨.epoch, 0⟩
    synPacket).toOption.map Prod.fst = some .accept := by
  decide +kernel

end DaemonState

end TravelMode
