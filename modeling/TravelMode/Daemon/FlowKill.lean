import TravelMode.Daemon.State

/-!
# Terminating established flows (`daemon/src/flowkill.rs`)

The firewall only queues packets in conntrack state NEW, so a flow that is already
established when its app gets blocked would keep flowing. `killFlowsForExe` lists
the commands that the daemon runs for the flows of an executable; what they are
run on is the map of live flows *as of the last poll*.
-/

namespace TravelMode

/-- A command line that terminates one flow. -/
inductive KillCommand where
  /-- `conntrack -D -p .. --orig-src .. --orig-dst .. --sport .. --dport ..` -/
  | conntrackDelete (proto : Protocol) (localAddr remoteAddr : IpAddr)
      (localPort remotePort : UInt16)
  /-- `ss -K src .. dst .. sport = .. dport = ..` -/
  | socketDestroy (localAddr remoteAddr : IpAddr) (localPort remotePort : UInt16)
deriving DecidableEq

/-- `delete_conntrack_entry`: nothing for flows that are neither TCP nor UDP, nothing
without conntrack-tools. -/
def deleteConntrackEntry (conntrackAvailable : Bool) (conn : ConnectionInfo) :
    List KillCommand :=
  if conn.protocol = .other ∨ conntrackAvailable = false then []
  else [.conntrackDelete conn.protocol conn.localAddr conn.remoteAddr conn.localPort
    conn.remotePort]

/-- `kill_tcp_socket`, for TCP flows. -/
def killTcpSocket (conn : ConnectionInfo) : List KillCommand :=
  if conn.protocol = .tcp then
    [.socketDestroy conn.localAddr conn.remoteAddr conn.localPort conn.remotePort]
  else []

/-- The commands for one victim. -/
def killFlow (conntrackAvailable : Bool) (conn : ConnectionInfo) : List KillCommand :=
  deleteConntrackEntry conntrackAvailable conn ++ killTcpSocket conn

/-- `c.exe.as_deref() == Some(exe_path)` -/
def ConnectionInfo.ownedBy (conn : ConnectionInfo) (exePath : PathBuf) : Bool :=
  match conn.exe with
  | some exe => exe.pathEq exePath
  | none => false

/-- `matching_flows`: tracked flows owned by the executable. -/
def matchingFlows (conns : KeyedMap String ConnectionInfo) (exePath : PathBuf) :
    List ConnectionInfo :=
  conns.vals.filter fun c => c.ownedBy exePath

/-- `kill_flows_for_exe`. -/
def killFlowsForExe (conntrackAvailable : Bool) (conns : KeyedMap String ConnectionInfo)
    (exePath : PathBuf) : List KillCommand :=
  (matchingFlows conns exePath).flatMap (killFlow conntrackAvailable)

/-- `kill_flows_for_block_rules`: runs once, after the first poll. -/
def killFlowsForBlockRules (conntrackAvailable : Bool) (st : DaemonState) : List KillCommand :=
  (st.rules.list.filter fun r => r.action = .block).flatMap fun r =>
    killFlowsForExe conntrackAvailable st.connections r.exePath

theorem mem_matchingFlows {conns : KeyedMap String ConnectionInfo} {exePath : PathBuf}
    {conn : ConnectionInfo} :
    conn ∈ matchingFlows conns exePath ↔
      (∃ key, conns.get? key = some conn) ∧ conn.ownedBy exePath = true := by
  rw [matchingFlows, List.mem_filter, KeyedMap.mem_vals_iff]

/-- With conntrack-tools, a TCP or UDP victim has its conntrack entry deleted. -/
theorem mem_killFlow {conn : ConnectionInfo} (h : conn.protocol ≠ .other) :
    KillCommand.conntrackDelete conn.protocol conn.localAddr conn.remoteAddr conn.localPort
      conn.remotePort ∈ killFlow true conn := by
  have hdel : ¬(conn.protocol = .other ∨ true = false) := by simp [h]
  rw [killFlow, deleteConntrackEntry, if_neg hdel]
  exact List.mem_append_left _ List.mem_cons_self

/-- A TCP victim has its socket destroyed. -/
theorem socketDestroy_mem_killFlow {available : Bool} {conn : ConnectionInfo}
    (h : conn.protocol = .tcp) :
    KillCommand.socketDestroy conn.localAddr conn.remoteAddr conn.localPort conn.remotePort ∈
      killFlow available conn := by
  rw [killFlow, killTcpSocket, if_pos h]
  exact List.mem_append_right _ List.mem_cons_self

/-- The commands for a victim name its own addresses and ports. -/
theorem killFlow_tuple {available : Bool} {conn : ConnectionInfo} {proto : Protocol}
    {la ra : IpAddr} {lp rp : UInt16}
    (h : KillCommand.conntrackDelete proto la ra lp rp ∈ killFlow available conn) :
    proto = conn.protocol ∧ la = conn.localAddr ∧ ra = conn.remoteAddr ∧ lp = conn.localPort ∧
      rp = conn.remotePort := by
  rw [killFlow, List.mem_append] at h
  rcases h with h | h
  · unfold deleteConntrackEntry at h
    split at h
    · cases h
    · cases List.mem_singleton.mp h
      exact ⟨rfl, rfl, rfl, rfl, rfl⟩
  · unfold killTcpSocket at h
    split at h
    · cases List.mem_singleton.mp h
    · cases h

end TravelMode
