import TravelMode.Daemon.FlowNames
import TravelMode.System.FlowKeys

/-!
# What a kill hits

The daemon kills flows by running `conntrack` and `ss`, with the addresses and ports of the
flow as text. A command line that matched another app's flow would cut off an app that nobody
has blocked.

- `conntrackDeleteArgs` and `ssKillArgs`: the arguments, as the source builds them;
  `killFlow_lines` says that the commands of `Daemon/FlowKill` stand for them.
- `line_inj`: a command is told by its command line.
- `kill_scope`: of the flows in the map, a command line that is run for an executable is one of
  a flow of that executable and of no other; and none is run twice.
-/

namespace TravelMode

open FlowKeys

/-! ## Command lines -/

def IpAddr.string (addr : IpAddr) : String := .ofList addr.text

/-- `to_string` of a port. -/
def portString (port : UInt16) : String := .ofList (Nat.toDigits 10 port.toNat)

/-- `conntrack_delete_args`; empty for flows that conntrack is not asked about. -/
def conntrackDeleteArgs (conn : ConnectionInfo) : List String :=
  let args (proto : String) :=
    ["-D", "-p", proto, "--orig-src", conn.localAddr.string, "--orig-dst",
      conn.remoteAddr.string, "--sport", portString conn.localPort, "--dport",
      portString conn.remotePort]
  match conn.protocol with
  | .tcp => args "tcp"
  | .udp => args "udp"
  | .other => []

/-- `ss_kill_args`. -/
def ssKillArgs (conn : ConnectionInfo) : List String :=
  ["-K", "src", conn.localAddr.string, "dst", conn.remoteAddr.string, "sport", "=",
    portString conn.localPort, "dport", "=", portString conn.remotePort]

/-- The command lines that are run for one victim. -/
def killLines (conntrackAvailable : Bool) (conn : ConnectionInfo) : List (List String) :=
  (if (conntrackDeleteArgs conn).isEmpty || !conntrackAvailable then []
    else ["conntrack" :: conntrackDeleteArgs conn]) ++
  if conn.protocol = .tcp then ["ss" :: ssKillArgs conn] else []

namespace KillCommand

/-- The command line. -/
def line : KillCommand → List String
  | .conntrackDelete proto localAddr remoteAddr localPort remotePort =>
    ["conntrack", "-D", "-p", .ofList (protoName proto), "--orig-src", localAddr.string,
      "--orig-dst", remoteAddr.string, "--sport", portString localPort, "--dport",
      portString remotePort]
  | .socketDestroy localAddr remoteAddr localPort remotePort =>
    ["ss", "-K", "src", localAddr.string, "dst", remoteAddr.string, "sport", "=",
      portString localPort, "dport", "=", portString remotePort]

/-- The flow that the command is about. -/
def tuple : KillCommand → FlowTuple
  | .conntrackDelete proto localAddr remoteAddr localPort remotePort =>
    ⟨proto, localAddr, localPort, remoteAddr, remotePort⟩
  | .socketDestroy localAddr remoteAddr localPort remotePort =>
    ⟨.tcp, localAddr, localPort, remoteAddr, remotePort⟩

theorem string_inj {a b : IpAddr} (h : a.string = b.string) : a = b :=
  text_inj (String.ofList_injective h)

theorem portString_inj {p q : UInt16} (h : portString p = portString q) : p = q :=
  UInt16.toNat_inj.mp (toDigits_inj (String.ofList_injective h))

/-- **A command is told by its command line.** -/
theorem line_inj {cmd cmd' : KillCommand} (h : cmd.line = cmd'.line) : cmd = cmd' := by
  cases cmd with
  | conntrackDelete proto localAddr remoteAddr localPort remotePort =>
    cases cmd' with
    | conntrackDelete proto' localAddr' remoteAddr' localPort' remotePort' =>
      simp only [line, List.cons.injEq, true_and, and_true] at h
      obtain ⟨hproto, hlocal, hremote, hsport, hdport⟩ := h
      rw [protoName_inj (String.ofList_injective hproto), string_inj hlocal, string_inj hremote,
        portString_inj hsport, portString_inj hdport]
    | socketDestroy => simp [line] at h
  | socketDestroy localAddr remoteAddr localPort remotePort =>
    cases cmd' with
    | conntrackDelete => simp [line] at h
    | socketDestroy localAddr' remoteAddr' localPort' remotePort' =>
      simp only [line, List.cons.injEq, true_and, and_true] at h
      obtain ⟨hlocal, hremote, hsport, hdport⟩ := h
      rw [string_inj hlocal, string_inj hremote, portString_inj hsport, portString_inj hdport]

end KillCommand

/-- The commands are the command lines of the source. -/
theorem killFlow_lines (available : Bool) (conn : ConnectionInfo) :
    (killFlow available conn).map KillCommand.line = killLines available conn := by
  unfold killFlow deleteConntrackEntry killTcpSocket killLines conntrackDeleteArgs
  cases hproto : conn.protocol <;> cases available <;>
    simp [KillCommand.line, ssKillArgs, protoName]

/-! ## Victims -/

theorem ownedBy_iff {conn : ConnectionInfo} {path : PathBuf} :
    conn.ownedBy path = true ↔ ∃ exe, conn.exe = some exe ∧ path.pathEq exe = true := by
  unfold ConnectionInfo.ownedBy
  cases conn.exe with
  | none => simp
  | some exe => simp [PathBuf.pathEq_comm]

/-- The commands for a flow are about its tuple. -/
theorem tuple_of_mem_killFlow {available : Bool} {conn : ConnectionInfo} {cmd : KillCommand}
    (h : cmd ∈ killFlow available conn) : cmd.tuple = conn.tuple := by
  rcases List.mem_append.mp h with h | h
  · unfold deleteConntrackEntry at h
    split at h
    · cases h
    · rw [List.mem_singleton.mp h]
      rfl
  · unfold killTcpSocket at h
    split at h
    · rename_i htcp
      rw [List.mem_singleton.mp h, ConnectionInfo.tuple, htcp]
      rfl
    · cases h

/-- No command is run twice for one victim. -/
theorem nodup_killFlow (available : Bool) (conn : ConnectionInfo) :
    (killFlow available conn).Nodup := by
  unfold killFlow deleteConntrackEntry killTcpSocket
  split <;> split <;> simp

namespace DaemonState

variable {d : DaemonState}

/-- Flows with one tuple are one. -/
theorem Mapped.flow_unique (h : d.Mapped) {key key' : String} {c c' : ConnectionInfo}
    (hc : d.connections.get? key = some c) (hc' : d.connections.get? key' = some c')
    (htuple : c.tuple = c'.tuple) : c = c' := by
  have hkey : key = key' := by rw [h.key_eq hc, h.key_eq hc', htuple]
  rw [hkey, hc'] at hc
  exact (Option.some.inj hc).symm

theorem Mapped.nodup_vals (h : d.Mapped) : d.connections.vals.Nodup :=
  .of_map ConnectionInfo.key (h.ok.filed.nodup_keys (List.Perm.refl _))

/-- The commands for two flows have none in common. -/
theorem Mapped.disjoint (h : d.Mapped) {key key' : String} {c c' : ConnectionInfo}
    (hc : d.connections.get? key = some c) (hc' : d.connections.get? key' = some c')
    {available : Bool} {cmd : KillCommand} (hcmd : cmd ∈ killFlow available c)
    (hcmd' : cmd ∈ killFlow available c') : c = c' :=
  h.flow_unique hc hc' ((tuple_of_mem_killFlow hcmd).symm.trans (tuple_of_mem_killFlow hcmd'))

theorem Mapped.nodup_kills (h : d.Mapped) (available : Bool) (exe : PathBuf) :
    (killFlowsForExe available d.connections exe).Nodup := by
  refine List.nodup_flatMap.mpr ⟨fun c _ => nodup_killFlow available c, ?_⟩
  refine (h.nodup_vals.filter _).imp_of_mem fun {c c'} hc hc' hne cmd hcmd hcmd' => hne ?_
  obtain ⟨⟨key, hkey⟩, -⟩ := mem_matchingFlows.mp hc
  obtain ⟨⟨key', hkey'⟩, -⟩ := mem_matchingFlows.mp hc'
  exact h.disjoint hkey hkey' hcmd hcmd'

/-- A command line of a flow is run for an executable exactly if the flow belongs to it. -/
theorem Mapped.line_mem_iff (h : d.Mapped) {key : String} {c : ConnectionInfo}
    (hkey : d.connections.get? key = some c) {available : Bool} {line : List String}
    (hline : line ∈ killLines available c) (exe : PathBuf) :
    line ∈ (killFlowsForExe available d.connections exe).map KillCommand.line ↔
      c.ownedBy exe = true := by
  rw [← killFlow_lines] at hline
  obtain ⟨cmd, hcmd, rfl⟩ := List.mem_map.mp hline
  constructor
  · intro hmem
    obtain ⟨cmd', hcmd', hsame⟩ := List.mem_map.mp hmem
    rw [KillCommand.line_inj hsame] at hcmd'
    obtain ⟨c', hc', hcmd'⟩ := List.mem_flatMap.mp hcmd'
    obtain ⟨⟨key', hkey'⟩, howned⟩ := mem_matchingFlows.mp hc'
    rw [h.disjoint hkey hkey' hcmd hcmd']
    exact howned
  · intro howned
    refine List.mem_map_of_mem (List.mem_flatMap.mpr ⟨c, ?_, hcmd⟩)
    exact mem_matchingFlows.mpr ⟨⟨key, hkey⟩, howned⟩

/-- A command line is run for flows in the map only. -/
theorem line_mem {available : Bool} {exe : PathBuf} {line : List String}
    (h : line ∈ (killFlowsForExe available d.connections exe).map KillCommand.line) :
    ∃ key c, d.connections.get? key = some c ∧ line ∈ killLines available c := by
  obtain ⟨cmd, hcmd, rfl⟩ := List.mem_map.mp h
  obtain ⟨c, hc, hcmd⟩ := List.mem_flatMap.mp hcmd
  obtain ⟨⟨key, hkey⟩, -⟩ := mem_matchingFlows.mp hc
  refine ⟨key, c, hkey, ?_⟩
  rw [← killFlow_lines]
  exact List.mem_map_of_mem hcmd

/-- Two Block rules that own one flow are one. -/
theorem ownedBy_unique (h : d.Ok) {r s : Rule} (hr : r ∈ d.rules.list) (hs : s ∈ d.rules.list)
    (hraction : r.action = .block) (hsaction : s.action = .block) {c : ConnectionInfo}
    (hcr : c.ownedBy r.exePath = true) (hcs : c.ownedBy s.exePath = true) : r = s := by
  obtain ⟨exe, hexe, hrpath⟩ := ownedBy_iff.mp hcr
  obtain ⟨exe', hexe', hspath⟩ := ownedBy_iff.mp hcs
  cases hexe.symm.trans hexe'
  exact Inner.blockRule_unique h.store hr hs (Rule.blocks_iff.mpr ⟨hraction, hrpath⟩)
    (Rule.blocks_iff.mpr ⟨hsaction, hspath⟩)

/-- No command is run twice for the rules, either. -/
theorem Mapped.nodup_startup (h : d.Mapped) (available : Bool) :
    (killFlowsForBlockRules available d).Nodup := by
  refine List.nodup_flatMap.mpr ⟨fun r _ => h.nodup_kills available r.exePath, ?_⟩
  have hrules : d.rules.list.Nodup := .of_map Rule.id h.ok.store.ids
  refine (hrules.filter _).imp_of_mem fun {r s} hr hs hne cmd hcmd hcmd' => hne ?_
  obtain ⟨hr, hraction⟩ := List.mem_filter.mp hr
  obtain ⟨hs, hsaction⟩ := List.mem_filter.mp hs
  obtain ⟨c, hc, hcmd⟩ := List.mem_flatMap.mp hcmd
  obtain ⟨c', hc', hcmd'⟩ := List.mem_flatMap.mp hcmd'
  obtain ⟨⟨key, hkey⟩, howned⟩ := mem_matchingFlows.mp hc
  obtain ⟨⟨key', hkey'⟩, howned'⟩ := mem_matchingFlows.mp hc'
  rw [← h.disjoint hkey hkey' hcmd hcmd'] at howned'
  exact ownedBy_unique h.ok hr hs (of_decide_eq_true hraction) (of_decide_eq_true hsaction)
    howned howned'

end DaemonState

namespace KillScope

/-- **A kill hits the flows of its app**: after any tasks of the daemon whose polls read tables,
the command lines that are run for an executable are all different, each is one of a flow in the
map, and of the flows in the map those have theirs run that belong to the executable. -/
theorem kill_scope {rules : Inner} (hrules : Inner.Inv rules.persisted) {tasks : List Task}
    (htables : ∀ t ∈ tasks, t.FromTable) {d : DaemonState}
    (hrun : Runs.run DaemonState.task (.new rules) tasks = some d) (available : Bool)
    (exe : PathBuf) :
    let lines := (killFlowsForExe available d.connections exe).map KillCommand.line
    lines.Nodup ∧
      (∀ line ∈ lines, ∃ key c, d.connections.get? key = some c ∧ line ∈ killLines available c) ∧
      ∀ key c, d.connections.get? key = some c → ∀ line ∈ killLines available c,
        (line ∈ lines ↔ c.ownedBy exe = true) := by
  have h := DaemonState.run_mapped hrules htables hrun
  refine ⟨(h.nodup_kills available exe).map fun _ _ => KillCommand.line_inj, ?_, ?_⟩
  · exact fun line hline => DaemonState.line_mem hline
  · exact fun key c hkey line hline => h.line_mem_iff hkey hline exe

/-- A table with a flow of `/usr/bin/curl`. -/
def curlTable : List Char :=
  ["ipv4 2 tcp 6 300 ESTABLISHED src=192.168.1.10 dst=93.184.216.34 ",
    "sport=51234 dport=443 bytes=60 src=93.184.216.34 bytes=90\n"].flatMap String.toList

/-- Curl is blocked, then its flow is found. -/
def curlTasks : List Task :=
  [.handle .epoch (.addRule ⟨"curl", .ofString "/usr/bin/curl", .block, true, none⟩),
    .poll ⟨parseTable curlTable, .epoch, fun _ => DaemonState.curlProcFs, [],
      (seenFlows (parseTable curlTable)).vals⟩]

theorem curlTasks_fromTable : ∀ t ∈ curlTasks, t.FromTable := by
  intro t ht
  rcases List.mem_cons.mp ht with rfl | ht
  · trivial
  · rw [List.mem_singleton.mp ht]
    exact ⟨curlTable, rfl⟩

theorem inv_firstStart : Inner.Inv Inner.firstStart.persisted := Inner.inv_empty

theorem curlTasks_runs : ∃ d key c,
    Runs.run DaemonState.task (.new .firstStart) curlTasks = some d ∧
    d.connections.get? key = some c ∧ c.exe = some (.ofString "/usr/bin/curl") ∧
    ∃ r ∈ d.rules.list, r.blocks (.ofString "/usr/bin/curl") = true := by
  have hall : (Runs.run DaemonState.task (.new .firstStart) curlTasks).map
      (fun d => (d.connections.vals.map ConnectionInfo.exe,
        d.rules.list.any fun r => r.blocks (.ofString "/usr/bin/curl"))) =
      some ([some (.ofString "/usr/bin/curl")], true) := by
    decide +kernel
  obtain ⟨d, hrun, hd⟩ := Option.map_eq_some_iff.mp hall
  obtain ⟨hexes, hrule⟩ := Prod.mk.inj hd
  obtain ⟨c, hc, hexe⟩ := List.mem_map.mp (hexes ▸ List.mem_singleton_self _)
  obtain ⟨key, hkey⟩ := KeyedMap.mem_vals_iff.mp hc
  obtain ⟨r, hr, hblocks⟩ := List.any_eq_true.mp hrule
  exact ⟨d, key, c, hrun, hkey, hexe, r, hr, hblocks⟩

/-- All command lines of curl's flow are run for curl. -/
theorem kill_scope_curl : ∃ d key c,
    Runs.run DaemonState.task (.new .firstStart) curlTasks = some d ∧
      d.connections.get? key = some c ∧ ∀ line ∈ killLines true c, line ∈
        (killFlowsForExe true d.connections (.ofString "/usr/bin/curl")).map KillCommand.line := by
  obtain ⟨d, key, c, hrun, hkey, hexe, -⟩ := curlTasks_runs
  refine ⟨d, key, c, hrun, hkey, fun line hline => ?_⟩
  have howned := ownedBy_iff.mpr ⟨_, hexe, PathBuf.pathEq_refl _⟩
  obtain ⟨-, -, hscope⟩ := kill_scope inv_firstStart curlTasks_fromTable hrun true _
  exact (hscope key c hkey line hline).mpr howned

/-- **The kills of a start**: so it is with the command lines that are run for all rules at once,
and they are those of the flows whose executables are blocked. -/
theorem startup_scope {rules : Inner} (hrules : Inner.Inv rules.persisted) {tasks : List Task}
    (htables : ∀ t ∈ tasks, t.FromTable) {d : DaemonState}
    (hrun : Runs.run DaemonState.task (.new rules) tasks = some d) (available : Bool) :
    let lines := (killFlowsForBlockRules available d).map KillCommand.line
    lines.Nodup ∧
      ∀ key c, d.connections.get? key = some c → ∀ line ∈ killLines available c,
        (line ∈ lines ↔ ∃ exe, c.exe = some exe ∧ ∃ r ∈ d.rules.list, r.blocks exe = true) := by
  intro lines
  have h := DaemonState.run_mapped hrules htables hrun
  refine ⟨(h.nodup_startup available).map fun _ _ => KillCommand.line_inj, ?_⟩
  intro key c hkey line hline
  have hmem : line ∈ lines ↔ ∃ r ∈ d.rules.list, r.action = .block ∧
      line ∈ (killFlowsForExe available d.connections r.exePath).map KillCommand.line := by
    simp only [lines, killFlowsForBlockRules, List.mem_map, List.mem_flatMap, List.mem_filter,
      decide_eq_true_iff]
    constructor
    · rintro ⟨cmd, ⟨r, ⟨hr, haction⟩, hcmd⟩, rfl⟩
      exact ⟨r, hr, haction, cmd, hcmd, rfl⟩
    · rintro ⟨r, hr, haction, cmd, hcmd, rfl⟩
      exact ⟨cmd, ⟨r, ⟨hr, haction⟩, hcmd⟩, rfl⟩
  rw [hmem]
  simp only [h.line_mem_iff hkey hline, ownedBy_iff, Rule.blocks_iff]
  constructor
  · rintro ⟨r, hr, haction, exe, hexe, hpath⟩
    exact ⟨exe, hexe, r, hr, haction, hpath⟩
  · rintro ⟨exe, hexe, r, hr, haction, hpath⟩
    exact ⟨r, hr, haction, exe, hexe, hpath⟩

/-- So they are for the rule that blocks curl. -/
theorem startup_scope_curl : ∃ d key c,
    Runs.run DaemonState.task (.new .firstStart) curlTasks = some d ∧
      d.connections.get? key = some c ∧ ∀ line ∈ killLines true c, line ∈
        (killFlowsForBlockRules true d).map KillCommand.line := by
  obtain ⟨d, key, c, hrun, hkey, hexe, hrule⟩ := curlTasks_runs
  refine ⟨d, key, c, hrun, hkey, fun line hline => ?_⟩
  obtain ⟨-, hscope⟩ := startup_scope inv_firstStart curlTasks_fromTable hrun true
  exact (hscope key c hkey line hline).mpr ⟨_, hexe, hrule⟩

end KillScope

end TravelMode
