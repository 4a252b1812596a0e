import TravelMode.Core.Types
import TravelMode.Lib.KeyedMap

/-!
# The client's state (`gui/src/state.rs`)

Snapshots and daemon events are folded into one `ClientState` that the pages
render.

- `applySnapshot`, `applyEvent` and `tick` are the three public operations, and
  `Reachable` is closed under them.
- `FlagsOk`: the blocked flag and the rule id of *every* app are what
  `apply_rule_flags` computes from the current rules. It holds of every reachable
  state (`Reachable.flagsOk`), so no page shows a stale flag.
- `replay` folds a stream of events.
-/

namespace TravelMode

/-- `MAX_CONNECTIONS`: live connections kept for the Connections page. -/
def maxConnections : Nat := 500

/-- Per-application aggregated traffic, with rule linkage and speed sampling. -/
structure AppEntry where
  name : String
  exe : Option PathBuf
  bytesSent : Nat := 0
  bytesRecv : Nat := 0
  connections : Nat := 0
  blocked : Bool := false
  /-- Id of the Block rule for this app, if one exists. -/
  blockRuleId : Option Nat := none
  speedUp : Nat := 0
  speedDown : Nat := 0
  prevSent : Nat := 0
  prevRecv : Nat := 0
deriving DecidableEq

/-- Everything the UI renders. -/
structure ClientState where
  connected : Bool
  status : Option Status
  network : Option NetworkInfo
  rules : List Rule
  paused : Bool
  /-- Keyed by `appKey`. -/
  apps : KeyedMap String AppEntry
  /-- Live connections keyed by flow key. -/
  conns : KeyedMap String ConnectionInfo
  connOrder : List String
  totalUp : Nat
  totalDown : Nat
  speedUp : Nat
  speedDown : Nat
  prevTotalUp : Nat
  prevTotalDown : Nat

/-- `app_key`: the executable path when known, else the process name. -/
def appKey (exe : Option PathBuf) (name : String) : String :=
  match exe with
  | some p => p.display
  | none => "name:" ++ name

/-- The name a connection is shown under. -/
def ConnectionInfo.appName (conn : ConnectionInfo) : String := conn.processName.getD "unknown"

/-- The app a connection belongs to. -/
def ConnectionInfo.appKey (conn : ConnectionInfo) : String :=
  TravelMode.appKey conn.exe conn.appName

/-- The Block rule that applies to an app. -/
def blockRule (rules : List Rule) (app : AppEntry) : Option Rule :=
  app.exe.bind fun exe => rules.find? fun r => r.blocks exe

/-- `apply_rule_flags`. -/
def applyRuleFlags (rules : List Rule) (app : AppEntry) : AppEntry :=
  { app with
    blocked := (blockRule rules app).isSome
    blockRuleId := (blockRule rules app).map Rule.id }

/-- `apps.entry(key).or_insert_with(..)` -/
def entryOrInsert (apps : KeyedMap String AppEntry) (key : String) (app : AppEntry) :
    KeyedMap String AppEntry :=
  match apps.get? key with
  | some _ => apps
  | none => apps.insert key app

namespace ClientState

/-- `ClientState::default()`. -/
def default : ClientState where
  connected := false
  status := none
  network := none
  rules := []
  paused := false
  apps := .empty
  conns := .empty
  connOrder := []
  totalUp := 0
  totalDown := 0
  speedUp := 0
  speedDown := 0
  prevTotalUp := 0
  prevTotalDown := 0

/-- A blocked app without traffic still has an entry. -/
def addBlockedApp (apps : KeyedMap String AppEntry) (rule : Rule) : KeyedMap String AppEntry :=
  if rule.action = .block then
    entryOrInsert apps (appKey (some rule.exePath) rule.name)
      { name := rule.name, exe := some rule.exePath }
  else apps

/-- An app with no connections and no Block rule leaves the Apps page. -/
def shown (app : AppEntry) : Bool := !(app.connections == 0 && !app.blocked)

/-- `refresh_rule_flags`: recompute flags and rule ids of every app from the rules. -/
def refreshRuleFlags (s : ClientState) : ClientState :=
  let apps := s.rules.foldl addBlockedApp s.apps
  let apps := apps.mapVals fun _ app => applyRuleFlags s.rules app
  { s with apps := apps.retain fun _ app => shown app }

/-- `enforce_conn_cap`: evict the oldest while over the cap. -/
def enforceConnCap (conns : KeyedMap String ConnectionInfo) :
    List String → KeyedMap String ConnectionInfo × List String
  | [] => (conns, [])
  | oldest :: connOrder =>
    if conns.size > maxConnections then enforceConnCap (conns.erase oldest) connOrder
    else (conns, oldest :: connOrder)

/-- The app entry that a connection is counted in, created if need be. -/
def appOf (s : ClientState) (conn : ConnectionInfo) : AppEntry :=
  (s.apps.get? conn.appKey).getD { name := conn.appName, exe := conn.exe }

/-- The bytes by which the counters of a flow exceed those last seen of it. -/
def deltaSent (s : ClientState) (conn : ConnectionInfo) : Nat :=
  conn.bytesSent - ((s.conns.get? conn.key).map ConnectionInfo.bytesSent).getD 0

/-- `deltaSent` for the other direction. -/
def deltaRecv (s : ClientState) (conn : ConnectionInfo) : Nat :=
  conn.bytesRecv - ((s.conns.get? conn.key).map ConnectionInfo.bytesRecv).getD 0

/-- `upsert_conn`. -/
def upsertConn (s : ClientState) (conn : ConnectionInfo) (isOpen : Bool) : ClientState :=
  let existed := (s.conns.get? conn.key).isSome
  let app := s.appOf conn
  let app :=
    { app with
      bytesSent := app.bytesSent + s.deltaSent conn
      bytesRecv := app.bytesRecv + s.deltaRecv conn
      connections := if isOpen && !existed then app.connections + 1 else app.connections }
  let connOrder := if existed then s.connOrder else s.connOrder ++ [conn.key]
  let kept := enforceConnCap (s.conns.insert conn.key conn) connOrder
  { s with
    totalUp := s.totalUp + s.deltaSent conn
    totalDown := s.totalDown + s.deltaRecv conn
    apps := s.apps.insert conn.appKey (applyRuleFlags s.rules app)
    conns := kept.1
    connOrder := kept.2 }

/-- One live connection less in the app under `key`. -/
def releaseApp (apps : KeyedMap String AppEntry) (key : String) : KeyedMap String AppEntry :=
  match apps.get? key with
  | none => apps
  | some app =>
    let app := { app with connections := app.connections - 1 }
    if shown app then apps.insert key app else apps.erase key

/-- `remove_conn`. -/
def removeConn (s : ClientState) (key : String) : ClientState :=
  match s.conns.get? key with
  | none => s
  | some conn =>
    { s with
      conns := s.conns.erase key
      connOrder := s.connOrder.filter fun k => k != key
      apps := releaseApp s.apps conn.appKey }

/-- `apply_event`. -/
def applyEvent (s : ClientState) : Event → ClientState
  | .connectionOpened conn => s.upsertConn conn true
  | .connectionUpdated conn => s.upsertConn conn false
  | .connectionClosed key => s.removeConn key
  | .ruleAdded rule =>
    refreshRuleFlags { s with rules := (s.rules.filter fun r => r.id != rule.id) ++ [rule] }
  | .ruleRemoved id => refreshRuleFlags { s with rules := s.rules.filter fun r => r.id != id }
  | .pausedChanged paused => { s with paused := paused }
  | .networkChanged network => { s with network := some network }
  | .processStarted _ => s
  | .processExited _ => s

/-- Fold a stream of events. -/
def replay (s : ClientState) (events : List Event) : ClientState := events.foldl applyEvent s

/-- The entry a snapshot creates for one line of `top`. -/
def usageEntry (usage : AppUsage) : AppEntry where
  name := usage.name
  exe := usage.exe
  bytesSent := usage.bytesSent
  bytesRecv := usage.bytesRecv
  connections := usage.connections

/-- The snapshot's loop over `conns`. -/
def loadConn (s : ClientState) (conn : ConnectionInfo) : ClientState :=
  { s with
    totalUp := s.totalUp + conn.bytesSent
    totalDown := s.totalDown + conn.bytesRecv
    connOrder := s.connOrder ++ [conn.key]
    conns := s.conns.insert conn.key conn }

/-- The snapshot's loop over `top`. -/
def loadUsage (apps : KeyedMap String AppEntry) (usage : AppUsage) : KeyedMap String AppEntry :=
  apps.insert (appKey usage.exe usage.name) (usageEntry usage)

/-- Restart the speed sampling of an app from its counters. -/
def resample (app : AppEntry) : AppEntry :=
  { app with prevSent := app.bytesSent, prevRecv := app.bytesRecv }

/-- `apply_snapshot`: replace the whole state with the initial fetch result. -/
def applySnapshot (s : ClientState) (status : Status) (network : NetworkInfo)
    (top : List AppUsage) (conns : List ConnectionInfo) (rules : List Rule) : ClientState :=
  let s : ClientState :=
    { s with
      connected := true
      paused := status.paused
      status := some status
      network := some network
      rules := rules
      conns := .empty
      connOrder := []
      totalUp := 0
      totalDown := 0 }
  let s := conns.foldl loadConn s
  let s := refreshRuleFlags { s with apps := top.foldl loadUsage .empty }
  { s with
    prevTotalUp := s.totalUp
    prevTotalDown := s.totalDown
    apps := s.apps.mapVals fun _ app => resample app }

/-- The speeds of an app over the last second. -/
def sampleApp (app : AppEntry) : AppEntry :=
  resample { app with
    speedUp := app.bytesSent - app.prevSent
    speedDown := app.bytesRecv - app.prevRecv }

/-- `tick`: called once per second. -/
def tick (s : ClientState) : ClientState :=
  { s with
    speedUp := s.totalUp - s.prevTotalUp
    speedDown := s.totalDown - s.prevTotalDown
    prevTotalUp := s.totalUp
    prevTotalDown := s.totalDown
    apps := s.apps.mapVals fun _ app => sampleApp app
    status := s.status.map fun status => { status with uptimeSecs := status.uptimeSecs + 1 } }

/-- The states the UI can be in. -/
inductive Reachable : ClientState → Prop
  | default : Reachable .default
  | snapshot {s} (status network top conns rules) :
      Reachable s → Reachable (s.applySnapshot status network top conns rules)
  | event {s} (e) : Reachable s → Reachable (s.applyEvent e)
  | tick {s} : Reachable s → Reachable s.tick
  | disconnected {s} : Reachable s → Reachable { s with connected := false }

/-! ## Blocked flags -/

/-- Every app carries the flags of the current rules. -/
def FlagsOk (s : ClientState) : Prop :=
  ∀ key app, s.apps.get? key = some app → applyRuleFlags s.rules app = app

/-- Flags depend on the executable alone. -/
theorem applyRuleFlags_idem (rules : List Rule) (app : AppEntry) :
    applyRuleFlags rules (applyRuleFlags rules app) = applyRuleFlags rules app := rfl

@[simp] theorem refreshRuleFlags_rules (s : ClientState) : s.refreshRuleFlags.rules = s.rules :=
  rfl

@[simp] theorem refreshRuleFlags_conns (s : ClientState) : s.refreshRuleFlags.conns = s.conns :=
  rfl

@[simp] theorem upsertConn_rules (s : ClientState) (conn : ConnectionInfo) (isOpen : Bool) :
    (s.upsertConn conn isOpen).rules = s.rules := rfl

@[simp] theorem removeConn_rules (s : ClientState) (key : String) :
    (s.removeConn key).rules = s.rules := by
  unfold removeConn
  cases s.conns.get? key <;> rfl

/-- A flow that is not there is closed already. -/
@[simp] theorem removeConn_conns (s : ClientState) (key : String) :
    (s.removeConn key).conns = s.conns.erase key := by
  unfold removeConn
  split
  · rename_i hnone
    exact (KeyedMap.erase_of_none hnone).symm
  · rfl

/-- What an event does to the client's rules. -/
theorem applyEvent_rules (s : ClientState) (e : Event) :
    (s.applyEvent e).rules = match e with
      | .ruleAdded rule => (s.rules.filter fun r => r.id != rule.id) ++ [rule]
      | .ruleRemoved id => s.rules.filter fun r => r.id != id
      | _ => s.rules := by
  cases e with
  | connectionClosed key => exact removeConn_rules s key
  | _ => rfl

/-- What a refreshed entry was before: an entry that has since got its flags, or a
newly added blocked app. -/
theorem get?_refreshRuleFlags (s : ClientState) (key : String) :
    s.refreshRuleFlags.apps.get? key =
      (((s.rules.foldl addBlockedApp s.apps).get? key).map (applyRuleFlags s.rules)).filter
        shown := by
  show ((KeyedMap.mapVals _ _).retain _).get? key = _
  rw [KeyedMap.get?_retain, KeyedMap.get?_mapVals]

theorem refreshRuleFlags_flagsOk (s : ClientState) : s.refreshRuleFlags.FlagsOk := by
  intro key app h
  rw [get?_refreshRuleFlags] at h
  obtain ⟨h, -⟩ := Option.filter_eq_some_iff.mp h
  obtain ⟨app', -, rfl⟩ := Option.map_eq_some_iff.mp h
  exact applyRuleFlags_idem s.rules app'

theorem upsertConn_flagsOk {s : ClientState} (h : s.FlagsOk) (conn : ConnectionInfo)
    (isOpen : Bool) : (s.upsertConn conn isOpen).FlagsOk := by
  intro key app hget
  change (s.apps.insert _ _).get? key = some app at hget
  rw [KeyedMap.get?_insert] at hget
  by_cases hk : key = conn.appKey
  · rw [if_pos hk] at hget
    cases hget
    rfl
  · rw [if_neg hk] at hget
    exact h key app hget

/-- `releaseApp` changes connection counts only. -/
theorem get?_releaseApp {apps : KeyedMap String AppEntry} {k key : String} {app : AppEntry}
    (h : (releaseApp apps k).get? key = some app) :
    ∃ app', apps.get? key = some app' ∧
      (app = app' ∨ app = { app' with connections := app'.connections - 1 }) := by
  unfold releaseApp at h
  cases hk : apps.get? k with
  | none =>
    rw [hk] at h
    exact ⟨app, h, .inl rfl⟩
  | some old =>
    rw [hk] at h
    dsimp only at h
    -- the app itself has one flow less, unless it has left the page; others are as before
    by_cases hkey : key = k
    · subst hkey
      split at h
      · rw [KeyedMap.get?_insert_self] at h
        exact ⟨old, hk, .inr (Option.some.inj h).symm⟩
      · rw [KeyedMap.get?_erase_self] at h
        cases h
    · split at h
      · rw [KeyedMap.get?_insert_of_ne hkey] at h
        exact ⟨app, h, .inl rfl⟩
      · rw [KeyedMap.get?_erase_of_ne hkey] at h
        exact ⟨app, h, .inl rfl⟩

theorem setConnections_flags {rules : List Rule} {app : AppEntry} (n : Nat)
    (h : applyRuleFlags rules app = app) :
    applyRuleFlags rules { app with connections := n } = { app with connections := n } := by
  conv_rhs => rw [← h]
  rfl

theorem removeConn_flagsOk {s : ClientState} (h : s.FlagsOk) (key : String) :
    (s.removeConn key).FlagsOk := by
  cases hconn : s.conns.get? key with
  | none => simpa only [removeConn, hconn] using h
  | some conn =>
    simp only [removeConn, hconn]
    intro k app hget
    obtain ⟨app', happ', rfl | rfl⟩ := get?_releaseApp hget
    · exact h k _ happ'
    · exact setConnections_flags _ (h k app' happ')

theorem applyEvent_flagsOk {s : ClientState} (h : s.FlagsOk) (e : Event) :
    (s.applyEvent e).FlagsOk := by
  cases e with
  | connectionOpened conn => exact upsertConn_flagsOk h conn true
  | connectionUpdated conn => exact upsertConn_flagsOk h conn false
  | connectionClosed key => exact removeConn_flagsOk h key
  | ruleAdded rule => exact refreshRuleFlags_flagsOk _
  | ruleRemoved id => exact refreshRuleFlags_flagsOk _
  | pausedChanged _ => exact h
  | networkChanged _ => exact h
  | processStarted _ => exact h
  | processExited _ => exact h

/-- Rewriting fields that the flags neither read nor set keeps them. -/
theorem mapVals_flagsOk {rules : List Rule} {apps : KeyedMap String AppEntry}
    {f : AppEntry → AppEntry} (hf : ∀ app, applyRuleFlags rules app = app →
      applyRuleFlags rules (f app) = f app)
    (h : ∀ key app, apps.get? key = some app → applyRuleFlags rules app = app) :
    ∀ key app, (apps.mapVals fun _ a => f a).get? key = some app →
      applyRuleFlags rules app = app := by
  intro key app hget
  rw [KeyedMap.get?_mapVals] at hget
  obtain ⟨app', happ', rfl⟩ := Option.map_eq_some_iff.mp hget
  exact hf app' (h key app' happ')

theorem resample_flags {rules : List Rule} {app : AppEntry} (h : applyRuleFlags rules app = app) :
    applyRuleFlags rules (resample app) = resample app := by
  show resample (applyRuleFlags rules app) = resample app
  rw [h]

theorem sampleApp_flags {rules : List Rule} {app : AppEntry}
    (h : applyRuleFlags rules app = app) :
    applyRuleFlags rules (sampleApp app) = sampleApp app := by
  show sampleApp (applyRuleFlags rules app) = sampleApp app
  rw [h]

theorem applySnapshot_flagsOk (s : ClientState) (status : Status) (network : NetworkInfo)
    (top : List AppUsage) (conns : List ConnectionInfo) (rules : List Rule) :
    (s.applySnapshot status network top conns rules).FlagsOk :=
  mapVals_flagsOk (fun _ => resample_flags) (refreshRuleFlags_flagsOk _)

/-- **Flags**: in every state of the UI, every app is flagged by the current rules. -/
theorem Reachable.flagsOk {s : ClientState} (h : s.Reachable) : s.FlagsOk := by
  induction h with
  | default =>
    intro key app hget
    cases hget
  | snapshot status network top conns rules _ _ => exact applySnapshot_flagsOk _ status network top conns rules
  | event e _ ih => exact applyEvent_flagsOk ih e
  | tick _ ih => exact mapVals_flagsOk (fun _ => sampleApp_flags) ih
  | disconnected _ ih => exact ih

/-- The state after folding events is one the UI can be in. -/
theorem Reachable.replay {s : ClientState} (h : s.Reachable) (events : List Event) :
    (s.replay events).Reachable := by
  induction events generalizing s with
  | nil => exact h
  | cons e events ih => exact ih (h.event e)

/-- In flagged states, an app is blocked exactly when some Block rule is for its path. -/
theorem FlagsOk.blocked_iff {s : ClientState} (h : s.FlagsOk) {key : String} {app : AppEntry}
    (hget : s.apps.get? key = some app) :
    app.blocked = true ↔ ∃ exe, app.exe = some exe ∧ ∃ r ∈ s.rules, r.blocks exe = true := by
  have hb : app.blocked = (blockRule s.rules app).isSome :=
    congrArg AppEntry.blocked (h key app hget).symm
  rw [hb, blockRule]
  cases app.exe with
  | none => simp
  | some exe => simp [List.find?_isSome]

/-- In flagged states, the rule id that an app shows is the id of a rule. -/
theorem FlagsOk.blockRuleId_mem {s : ClientState} (h : s.FlagsOk) {key : String}
    {app : AppEntry} (hget : s.apps.get? key = some app) {id : Nat}
    (hid : app.blockRuleId = some id) : ∃ r ∈ s.rules, r.id = id := by
  have hb : app.blockRuleId = (blockRule s.rules app).map Rule.id :=
    congrArg AppEntry.blockRuleId (h key app hget).symm
  rw [hb] at hid
  obtain ⟨r, hr, rfl⟩ := Option.map_eq_some_iff.mp hid
  obtain ⟨exe, -, hfind⟩ := Option.bind_eq_some_iff.mp hr
  exact ⟨r, List.mem_of_find?_eq_some hfind, rfl⟩

end ClientState

end TravelMode
