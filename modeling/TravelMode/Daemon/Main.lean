import TravelMode.Core.Ipc
import TravelMode.Daemon.Conntrack
import TravelMode.Daemon.FlowKill

/-!
# Request dispatch (`daemon/src/main.rs`)

`dispatch` handles one request to completion: its response, the state it leaves,
the events it publishes, the kill commands it runs and the toggle tasks it spawns.
`reaperPass` is one round of the reaper loop.

- `topGroups`: usage per application, before flags and sorting.
- `dispatch_cases`: the three requests that change the state, and what they publish.
-/

namespace TravelMode

/-- `env!("CARGO_PKG_VERSION")` -/
def version : String := "0.1.0"

/-! ## Usage per application -/

/-- The grouping key of `top_apps`. -/
def topKey (conn : ConnectionInfo) : String :=
  match conn.exe with
  | some p => p.display
  | none => conn.processName.getD "unknown"

/-- The entry that the first connection of a group creates. -/
def newUsage (conn : ConnectionInfo) : AppUsage where
  name := conn.processName.getD "unknown"
  exe := conn.exe
  bytesSent := 0
  bytesRecv := 0
  connections := 0
  blocked := false

/-- Count one connection in its group. -/
def countConn (apps : KeyedMap String AppUsage) (conn : ConnectionInfo) :
    KeyedMap String AppUsage :=
  let entry := (apps.get? (topKey conn)).getD (newUsage conn)
  apps.insert (topKey conn)
    { entry with
      bytesSent := entry.bytesSent + conn.bytesSent
      bytesRecv := entry.bytesRecv + conn.bytesRecv
      connections := entry.connections + 1 }

/-- The groups of `top_apps`, for one iteration order of the connections. -/
def topGroups (conns : List ConnectionInfo) : KeyedMap String AppUsage :=
  conns.foldl countConn .empty

/-- Set the blocked flag from the rules. -/
def flagUsage (rules : Inner) (now : DateTime) (usage : AppUsage) : AppUsage :=
  { usage with
    blocked := match usage.exe with
      | some exe => rules.isBlocked exe now
      | none => false }

/-- `sort_by_key(|a| Reverse(a.bytes_sent + a.bytes_recv))` -/
def sortUsage (apps : List AppUsage) : List AppUsage :=
  apps.mergeSort fun a b => decide (b.bytesSent + b.bytesRecv ≤ a.bytesSent + a.bytesRecv)

/-- `top_apps`, for one iteration order of the connections. -/
def topApps (rules : Inner) (now : DateTime) (conns : List ConnectionInfo) : List AppUsage :=
  sortUsage ((topGroups conns).vals.map (flagUsage rules now))

/-- The connections that are counted under a key, in their order. -/
def groupOf (conns : List ConnectionInfo) (key : String) : List ConnectionInfo :=
  conns.filter fun conn => decide (topKey conn = key)

/-- The usage of a group: its first connection names it, all of them are counted. -/
def usageOf (group : List ConnectionInfo) : Option AppUsage :=
  group.head?.map fun first =>
    { newUsage first with
      bytesSent := (group.map ConnectionInfo.bytesSent).sum
      bytesRecv := (group.map ConnectionInfo.bytesRecv).sum
      connections := group.length }

/-- One more connection in a group. -/
theorem usageOf_concat (group : List ConnectionInfo) (conn : ConnectionInfo) :
    usageOf (group ++ [conn]) =
      some { (usageOf group).getD (newUsage conn) with
        bytesSent := ((usageOf group).getD (newUsage conn)).bytesSent + conn.bytesSent
        bytesRecv := ((usageOf group).getD (newUsage conn)).bytesRecv + conn.bytesRecv
        connections := ((usageOf group).getD (newUsage conn)).connections + 1 } := by
  cases group with
  | nil => simp [usageOf, newUsage]
  | cons first group => simp [usageOf, newUsage, Nat.add_assoc]

/-- **Groups**: the entry under a key is the usage of the connections with that key. -/
theorem get?_topGroups (conns : List ConnectionInfo) (key : String) :
    (topGroups conns).get? key = usageOf (groupOf conns key) := by
  induction conns using List.reverseRecOn with
  | nil => rfl
  | append_singleton conns conn ih =>
    have hsnoc : topGroups (conns ++ [conn]) = countConn (topGroups conns) conn := by
      rw [topGroups, List.foldl_append]
      rfl
    rw [hsnoc, countConn, KeyedMap.get?_insert, groupOf, List.filter_append]
    by_cases hkey : key = topKey conn
    · rw [if_pos hkey, List.filter_cons_of_pos (by simpa using hkey.symm), List.filter_nil,
        usageOf_concat, ← hkey, ih]
      rfl
    · rw [if_neg hkey, List.filter_cons_of_neg (by simpa using Ne.symm hkey), List.filter_nil,
        List.append_nil, ih]
      rfl

/-- Every entry of a group counts a connection. -/
theorem topGroups_connections_pos (conns : List ConnectionInfo) (key : String)
    (usage : AppUsage) (h : (topGroups conns).get? key = some usage) : 0 < usage.connections := by
  rw [get?_topGroups] at h
  obtain ⟨first, hfirst, rfl⟩ := Option.map_eq_some_iff.mp h
  exact List.length_pos_of_mem (List.mem_of_head? hfirst)

/-- Every line of `top` counts a connection. -/
theorem topApps_connections_pos {rules : Inner} {now : DateTime} {conns : List ConnectionInfo}
    {usage : AppUsage} (h : usage ∈ topApps rules now conns) : 0 < usage.connections := by
  rw [topApps, sortUsage, List.mem_mergeSort] at h
  obtain ⟨u, hu, rfl⟩ := List.mem_map.mp h
  obtain ⟨key, hkey⟩ := KeyedMap.mem_vals_iff.mp hu
  exact topGroups_connections_pos conns key u hkey

/-! ## Dispatch -/

/-- What handling a request reads besides the state. -/
structure Env where
  now : DateTime
  uptimeSecs : Nat
  conntrackAvailable : Bool

/-- The epoch, right after the start. -/
def Env.epoch : Env := ⟨.epoch, 0, true⟩

/-- What handling a request did. -/
structure Handled where
  response : Response
  state : DaemonState
  published : List Event
  commands : List KillCommand
  /-- The values captured by the spawned toggle tasks. -/
  toggles : List Bool

/-- A request that only reads. -/
def Handled.read (st : DaemonState) (response : Response) : Handled := ⟨response, st, [], [], []⟩

/-- The answer when no network snapshot was taken yet. -/
def emptyNetwork : NetworkInfo := ⟨[], none, [], none, none, none⟩

/-- The daemon's status. -/
def status (st : DaemonState) (env : Env) : Status where
  version := version
  uptimeSecs := env.uptimeSecs
  paused := st.paused
  filteringActive := st.filteringActive
  rulesCount := st.rules.count
  trackedConnections := st.connections.size
  trackedProcesses := st.processes.size

/-- `dispatch`; `none` is the panic of a request that `RuleStore::add` does not survive. -/
def dispatch (st : DaemonState) (env : Env) : Request → Option Handled
  | .ping => some (.read st .pong)
  | .getStatus => some (.read st (.status (status st env)))
  | .getNetwork => some (.read st (.network (st.network.getD emptyNetwork)))
  | .getProcesses => some (.read st (.processes st.processes.vals))
  | .getConnections => some (.read st (.connections st.connections.vals))
  | .getTop => some (.read st (.top (topApps st.rules env.now st.connections.vals)))
  | .listRules => some (.read st (.rules st.rules.list))
  | .addRule rule =>
    (st.rules.add rule env.now).map fun (stored, rules) =>
      { response := .ok
        state := { st with rules := rules }
        published := [.ruleAdded stored]
        commands :=
          if stored.action = .block then
            killFlowsForExe env.conntrackAvailable st.connections stored.exePath
          else []
        toggles := [] }
  | .removeRule id =>
    match st.rules.remove id with
    | some (_, rules) =>
      some
        { response := .ok
          state := { st with rules := rules }
          published := [.ruleRemoved id]
          commands := []
          toggles := [] }
    | none => some (.read st (.error ("no rule with id " ++ toString id)))
  | .setPaused paused =>
    some
      { response := .ok
        state := { st with paused := paused }
        published := [.pausedChanged paused]
        commands := []
        toggles := [paused] }
  | .subscribe => some (.read st (.error "Subscribe is handled by the IPC layer"))

/-- Everything a request can do to the state, and what it says of it. -/
theorem dispatch_cases {d : DaemonState} {env : Env} {req : Request} {handled : Handled}
    (h : dispatch d env req = some handled) :
    (∃ input rule rules, req = .addRule input ∧ d.rules.add input env.now = some (rule, rules) ∧
      handled.state = { d with rules := rules } ∧ handled.published = [.ruleAdded rule]) ∨
    (∃ id rule rules, req = .removeRule id ∧ d.rules.remove id = some (rule, rules) ∧
      handled.state = { d with rules := rules } ∧ handled.published = [.ruleRemoved id]) ∨
    (∃ paused, req = .setPaused paused ∧ handled.state = { d with paused := paused } ∧
      handled.published = [.pausedChanged paused]) ∨
    handled.state = d ∧ handled.published = [] := by
  cases req with
  | addRule input =>
    obtain ⟨⟨rule, rules⟩, hadd, rfl⟩ := Option.map_eq_some_iff.mp h
    exact .inl ⟨input, rule, rules, rfl, hadd, rfl, rfl⟩
  | removeRule id =>
    simp only [dispatch] at h
    cases hrem : d.rules.remove id with
    | none =>
      -- the answer is an error, and nothing has changed
      rw [hrem] at h
      cases h
      exact .inr (.inr (.inr ⟨rfl, rfl⟩))
    | some removed =>
      obtain ⟨rule, rules⟩ := removed
      rw [hrem] at h
      cases h
      exact .inr (.inl ⟨id, rule, rules, rfl, hrem, rfl, rfl⟩)
  | setPaused paused =>
    cases h
    exact .inr (.inr (.inl ⟨paused, rfl, rfl, rfl⟩))
  | _ =>
    cases h
    exact .inr (.inr (.inr ⟨rfl, rfl⟩))

/-- One round of `reaper_loop`. -/
def reaperPass (st : DaemonState) (now : DateTime) : DaemonState × List Event :=
  let reaped := st.rules.reapExpired now
  ({ st with rules := reaped.2 }, reaped.1.map .ruleRemoved)

end TravelMode
