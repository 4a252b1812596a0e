import Mathlib.Algebra.BigOperators.Group.List.Basic
import TravelMode.Daemon.ConntrackText
import TravelMode.Daemon.Main
import TravelMode.Gui.Eviction
import TravelMode.Gui.Snapshot

/-!
# Usage per app, from a snapshot and from events

The daemon groups connections for `top`, the client groups them as they are opened: two
schemes of keys, one batch, one incremental.

- `expected`: what both are to count under an app's key.
- `counted_snapshot`, `counted_events`: both do, whatever the order and however many flows.
- `aggregation_agrees`: the apps of a snapshot are those of the events, for connections and
  Block rules whose paths their renderings tell apart; `renderings_collide` says what
  happens to others.
-/

namespace TravelMode

/-- What an app is shown with. -/
structure Aggregated where
  exe : Option PathBuf
  bytesSent : Nat
  bytesRecv : Nat
  connections : Nat
  blocked : Bool
  blockRuleId : Option Nat
deriving DecidableEq

def AppEntry.aggregated (app : AppEntry) : Aggregated :=
  ⟨app.exe, app.bytesSent, app.bytesRecv, app.connections, app.blocked, app.blockRuleId⟩

namespace Aggregation

open ClientState

/-! ## What is to be counted -/

/-- An app without its flags. -/
structure Counted where
  exe : Option PathBuf
  bytesSent : Nat
  bytesRecv : Nat
  connections : Nat

def counted (app : AppEntry) : Counted :=
  ⟨app.exe, app.bytesSent, app.bytesRecv, app.connections⟩

/-- The connections of an app. -/
def flowsOf (conns : List ConnectionInfo) (key : String) : List ConnectionInfo :=
  conns.filter fun c => decide (c.appKey = key)

/-- A Block rule without traffic. -/
def ruleCounted (r : Rule) : Counted := ⟨some r.exePath, 0, 0, 0⟩

/-- All connections of an app; without any, its Block rule. -/
def expected (rules : List Rule) (conns : List ConnectionInfo) (key : String) : Option Counted :=
  match flowsOf conns key with
  | [] => (blockRuleFor rules key).map ruleCounted
  | first :: rest => some
    ⟨first.exe, ((first :: rest).map ConnectionInfo.bytesSent).sum,
      ((first :: rest).map ConnectionInfo.bytesRecv).sum, (first :: rest).length⟩

theorem mem_flowsOf {conns : List ConnectionInfo} {key : String} {c : ConnectionInfo} :
    c ∈ flowsOf conns key ↔ c ∈ conns ∧ c.appKey = key := by
  rw [flowsOf, List.mem_filter, decide_eq_true_iff]

/-- The order does not matter where the connections of an app have one executable. -/
theorem expected_perm {rules : List Rule} {conns conns' : List ConnectionInfo}
    (hsame : ∀ c ∈ conns, ∀ d ∈ conns, c.appKey = d.appKey → c.exe = d.exe)
    (hperm : conns.Perm conns') (key : String) :
    expected rules conns key = expected rules conns' key := by
  have hflows : (flowsOf conns key).Perm (flowsOf conns' key) := hperm.filter _
  unfold expected
  cases hl : flowsOf conns key with
  | nil =>
    rw [hl] at hflows
    rw [hflows.nil_eq.symm]
  | cons first rest =>
    cases hr : flowsOf conns' key with
    | nil =>
      rw [hr] at hflows
      cases hl ▸ hflows.eq_nil
    | cons first' rest' =>
      -- another order may put another flow first, but it has the same executable
      obtain ⟨hmem, hkey⟩ := mem_flowsOf.mp (hl ▸ List.mem_cons_self : first ∈ flowsOf conns key)
      obtain ⟨hmem', hkey'⟩ :=
        mem_flowsOf.mp (hr ▸ List.mem_cons_self : first' ∈ flowsOf conns' key)
      have hexe := hsame first hmem first' (hperm.mem_iff.mpr hmem') (hkey.trans hkey'.symm)
      rw [hl, hr] at hflows
      dsimp only
      rw [hexe, (hflows.map ConnectionInfo.bytesSent).sum_eq,
        (hflows.map ConnectionInfo.bytesRecv).sum_eq, hflows.length_eq]

/-- One connection more is counted on top of what there is. -/
def Counted.add (found : Option Counted) (conn : ConnectionInfo) : Counted where
  exe := (found.map Counted.exe).getD conn.exe
  bytesSent := (found.map Counted.bytesSent).getD 0 + conn.bytesSent
  bytesRecv := (found.map Counted.bytesRecv).getD 0 + conn.bytesRecv
  connections := (found.map Counted.connections).getD 0 + 1

theorem expected_snoc {rules : List Rule} {conns : List ConnectionInfo} {conn : ConnectionInfo}
    (hrule : ∀ r, blockRuleFor rules conn.appKey = some r → conn.exe = some r.exePath)
    (key : String) : expected rules (conns ++ [conn]) key =
      if key = conn.appKey then some (Counted.add (expected rules conns key) conn)
      else expected rules conns key := by
  unfold expected
  rw [flowsOf, List.filter_append]
  by_cases hkey : key = conn.appKey
  · subst hkey
    rw [if_pos rfl, List.filter_cons_of_pos (by simp), List.filter_nil]
    show (match flowsOf conns conn.appKey ++ [conn] with | [] => _ | first :: rest => _) = _
    cases flowsOf conns conn.appKey with
    | nil =>
      cases hfor : blockRuleFor rules conn.appKey with
      | none => simp [Counted.add]
      | some r => simp [Counted.add, ruleCounted, hrule r hfor]
    | cons first rest => simp [Counted.add, Nat.add_assoc]
  · rw [if_neg hkey, List.filter_cons_of_neg (by simpa using Ne.symm hkey), List.filter_nil,
      List.append_nil]
    rfl

/-! ## The refresh -/

/-- A refresh keeps what counts a connection or is for a Block rule, and adds an entry for
each Block rule that had none. -/
theorem counted_refresh {s : ClientState} {key : String}
    (hkeep : ∀ app, s.apps.get? key = some app → app.connections ≠ 0 ∨
      ∃ r ∈ s.rules, r.action = .block ∧ app.exe = some r.exePath) :
    (s.refreshRuleFlags.apps.get? key).map counted =
      ((s.apps.get? key).map counted).or ((blockRuleFor s.rules key).map ruleCounted) := by
  have hshown : ∀ app, (app.connections ≠ 0 ∨
      ∃ r ∈ s.rules, r.action = .block ∧ app.exe = some r.exePath) →
      shown (applyRuleFlags s.rules app) = true := by
    intro app h
    rw [shown_iff]
    refine h.imp id ?_
    rintro ⟨r, hr, haction, hexe⟩
    exact (applyRuleFlags_blocked hexe).mpr
      ⟨r, hr, Rule.blocks_iff.mpr ⟨haction, PathBuf.pathEq_refl _⟩⟩
  rw [get?_refreshRuleFlags, get?_addBlockedApps]
  cases happ : s.apps.get? key with
  -- an entry is kept as it counts; without one, the first Block rule for the key makes it
  | some app =>
    rw [Option.some_or, Option.map_some, Option.filter_some_pos (hshown app (hkeep app happ))]
    rfl
  | none =>
    cases hfor : blockRuleFor s.rules key with
    | none => rfl
    | some r =>
      obtain ⟨hr, haction, -⟩ := blockRuleFor_eq_some hfor
      have hentry := hshown (ruleEntry r) (.inr ⟨r, hr, haction, rfl⟩)
      rw [Option.map_some, Option.none_or, Option.map_some, Option.filter_some_pos hentry]
      rfl

/-! ## From a snapshot -/

/-- What the daemon's attribution gives: executables are absolute, and no process is named
like one of them. -/
structure Attributed (conns : List ConnectionInfo) : Prop where
  absolute : ∀ c ∈ conns, ∀ p ∈ c.exe, p.bytes.head? = some PathBuf.slash
  named : ∀ c ∈ conns, ∀ n ∈ c.processName, ∀ d ∈ conns, ∀ p ∈ d.exe, n ≠ p.display

/-- Paths that a rendering does not tell apart are the same path: those of the connections,
and those of Block rules from the apps of the connections. -/
structure Apart (rules : List Rule) (conns : List ConnectionInfo) : Prop where
  exes : ∀ c ∈ conns, ∀ d ∈ conns, ∀ p ∈ c.exe, ∀ q ∈ d.exe, p.display = q.display → p = q
  rules : ∀ r ∈ rules, r.action = .block → ∀ c ∈ conns, r.exePath.display = c.appKey →
    c.exe = some r.exePath

variable {rules : List Rule} {conns : List ConnectionInfo}

theorem Attributed.perm (h : Attributed conns) {conns' : List ConnectionInfo}
    (hperm : conns'.Perm conns) : Attributed conns' where
  absolute c hc := h.absolute c (hperm.mem_iff.mp hc)
  named c hc n hn d hd := h.named c (hperm.mem_iff.mp hc) n hn d (hperm.mem_iff.mp hd)

/-- The connections of an app have one executable. -/
theorem same_exe (hattr : Attributed conns) (hapart : Apart rules conns) :
    ∀ c ∈ conns, ∀ d ∈ conns, c.appKey = d.appKey → c.exe = d.exe := by
  intro c hc d hd hkey
  unfold ConnectionInfo.appKey appKey at hkey
  cases hcexe : c.exe with
  | none =>
    cases hdexe : d.exe with
    | none => rfl
    | some q =>
      rw [hcexe, hdexe] at hkey
      exact absurd hkey.symm (display_ne_name (hattr.absolute d hd q hdexe) _)
  | some p =>
    cases hdexe : d.exe with
    | none =>
      rw [hcexe, hdexe] at hkey
      exact absurd hkey (display_ne_name (hattr.absolute c hc p hcexe) _)
    | some q =>
      rw [hcexe, hdexe] at hkey
      rw [hapart.exes c hc d hd p hcexe q hdexe hkey]

/-- No process is named like an executable, nor is "unknown" one. -/
theorem Attributed.name_ne (h : Attributed conns) {c d : ConnectionInfo} (hc : c ∈ conns)
    (hd : d ∈ conns) {p : PathBuf} (hp : d.exe = some p) : c.processName.getD "unknown" ≠ p.display := by
  cases hname : c.processName with
  | some n => exact h.named c hc n hname d hd p hp
  | none =>
    intro heq
    have hhead := PathBuf.head?_display (h.absolute d hd p hp)
    rw [← heq] at hhead
    exact absurd (Option.some.inj hhead) (by decide)

/-- **Two schemes of keys, one partition**: the daemon groups two connections exactly if
the client does. -/
theorem topKey_eq_iff (h : Attributed conns) {c d : ConnectionInfo} (hc : c ∈ conns)
    (hd : d ∈ conns) : topKey c = topKey d ↔ c.appKey = d.appKey := by
  unfold topKey ConnectionInfo.appKey appKey ConnectionInfo.appName
  cases hcexe : c.exe with
  | none =>
    cases hdexe : d.exe with
    | none =>
      constructor
      · exact congrArg ("name:" ++ ·)
      · intro heq
        have hlist := congrArg String.toList heq
        rw [String.toList_append, String.toList_append] at hlist
        exact String.toList_inj.mp (List.append_cancel_left hlist)
    | some q =>
      exact iff_of_false (h.name_ne hc hd hdexe)
        fun heq => display_ne_name (h.absolute d hd q hdexe) _ heq.symm
  | some p =>
    cases hdexe : d.exe with
    | none =>
      exact iff_of_false (fun heq => h.name_ne hd hc hcexe heq.symm)
        (display_ne_name (h.absolute c hc p hcexe) _)
    | some q => exact Iff.rfl

theorem groupOf_eq_flowsOf (h : Attributed conns) {first : ConnectionInfo}
    (hfirst : first ∈ conns) : groupOf conns (topKey first) = flowsOf conns first.appKey :=
  List.filter_congr fun _ hc => decide_eq_decide.mpr (topKey_eq_iff h hc hfirst)

/-- A line of `top` is the usage of an app's connections. -/
theorem mem_topApps {store : Inner} {now : DateTime} (h : Attributed conns) {u : AppUsage}
    (hu : u ∈ topApps store now conns) : ∃ usage first rest,
      flowsOf conns u.appKey = first :: rest ∧ usageOf (first :: rest) = some usage ∧
      u = flagUsage store now usage := by
  rw [topApps, sortUsage, List.mem_mergeSort] at hu
  obtain ⟨usage, husage, rfl⟩ := List.mem_map.mp hu
  obtain ⟨k, hk⟩ := KeyedMap.mem_vals_iff.mp husage
  rw [get?_topGroups] at hk
  cases hgroup : groupOf conns k with
  | nil =>
    rw [hgroup] at hk
    cases hk
  | cons first rest =>
    obtain ⟨hfirst, hkey⟩ := List.mem_filter.mp
      (hgroup ▸ List.mem_cons_self : first ∈ groupOf conns k)
    rw [hgroup] at hk
    refine ⟨usage, first, rest, ?_, hk, rfl⟩
    cases hk
    rw [← hgroup, ← of_decide_eq_true hkey]
    exact (groupOf_eq_flowsOf h hfirst).symm

theorem topApps_mem {store : Inner} {now : DateTime} (h : Attributed conns) {key : String}
    {first : ConnectionInfo} {rest : List ConnectionInfo}
    (hflows : flowsOf conns key = first :: rest) :
    key ∈ (topApps store now conns).map AppUsage.appKey := by
  obtain ⟨hfirst, rfl⟩ := mem_flowsOf.mp (hflows ▸ List.mem_cons_self : first ∈ flowsOf conns key)
  have hgroup := (groupOf_eq_flowsOf h hfirst).trans hflows
  obtain ⟨usage, husage, hkey⟩ : ∃ usage, usageOf (first :: rest) = some usage ∧
      (flagUsage store now usage).appKey = first.appKey := ⟨_, rfl, rfl⟩
  have hget : (topGroups conns).get? (topKey first) = some usage := by
    rw [get?_topGroups, hgroup, husage]
  refine List.mem_map.mpr ⟨flagUsage store now usage, ?_, hkey⟩
  rw [topApps, sortUsage, List.mem_mergeSort]
  exact List.mem_map_of_mem (KeyedMap.mem_vals_iff.mpr ⟨_, hget⟩)

/-- The loop over `top` counts the connections of every app. -/
theorem counted_usages {store : Inner} {now : DateTime} (h : Attributed conns) (key : String) :
    (((topApps store now conns).foldl loadUsage .empty).get? key).map counted =
      expected [] conns key := by
  have hline : ∀ app, ((topApps store now conns).foldl loadUsage .empty).get? key = some app →
      some (counted app) = expected [] conns key := by
    intro app happ
    rcases get?_loadUsages happ with hempty | ⟨u, hu, rfl, rfl⟩
    · cases hempty
    · obtain ⟨usage, first, rest, hflows, husage, rfl⟩ := mem_topApps h hu
      cases husage
      rw [expected, hflows]
      rfl
  cases hget : ((topApps store now conns).foldl loadUsage .empty).get? key with
  | some app => exact hline app hget
  | none =>
    unfold expected
    cases hflows : flowsOf conns key with
    | nil => rfl
    | cons first rest =>
      have hsome := @isSome_get?_loadUsages .empty (topApps store now conns) key
        (.inl (topApps_mem h hflows))
      rw [hget] at hsome
      cases hsome

/-- **A snapshot** counts what is to be counted. -/
theorem counted_snapshot {store : Inner} {now : DateTime} (h : Attributed conns)
    (client : ClientState) (status : Status) (network : NetworkInfo)
    (listed : List ConnectionInfo) (rules : List Rule) (key : String) :
    ((client.applySnapshot status network (topApps store now conns) listed rules).apps.get?
      key).map counted = expected rules conns key := by
  obtain ⟨pre, hrules, happs, hload⟩ :=
    applySnapshot_apps client status network (topApps store now conns) listed rules
  rw [hload, KeyedMap.get?_mapVals, Option.map_map]
  show (pre.refreshRuleFlags.apps.get? key).map counted = _
  rw [counted_refresh, hrules, happs, counted_usages h]
  · unfold expected
    cases flowsOf conns key <;> rfl
  · intro app happ
    rw [happs] at happ
    rcases get?_loadUsages happ with hempty | ⟨u, hu, -, rfl⟩
    · cases hempty
    · exact .inl (Nat.ne_of_gt (topApps_connections_pos hu))

/-! ## From events -/

/-- The client that is told of each rule, and then of each connection. -/
def viaEvents (rules : List Rule) (opened : List ConnectionInfo) : ClientState :=
  ClientState.default.replay (rules.map .ruleAdded ++ opened.map .connectionOpened)

theorem viaEvents_rule (rules : List Rule) (r : Rule) :
    viaEvents (rules ++ [r]) [] = (viaEvents rules []).applyEvent (.ruleAdded r) := by
  unfold viaEvents replay
  rw [List.map_append, List.map_nil, List.append_nil, List.append_nil, List.foldl_append]
  rfl

theorem viaEvents_opened (rules : List Rule) (opened : List ConnectionInfo)
    (conn : ConnectionInfo) :
    viaEvents rules (opened ++ [conn]) = (viaEvents rules opened).upsertConn conn true := by
  unfold viaEvents replay
  rw [List.map_append, ← List.append_assoc, List.foldl_append]
  rfl

theorem blockRuleFor_snoc (rules : List Rule) (r : Rule) (key : String) :
    blockRuleFor (rules ++ [r]) key = (blockRuleFor rules key).or (blockRuleFor [r] key) :=
  List.find?_append

/-- After the rules, each Block rule has an entry. -/
theorem counted_rules {rules : List Rule} (hids : (rules.map Rule.id).Nodup) :
    let s := viaEvents rules []
    s.rules = rules ∧ Queued s.conns s.connOrder ∧ (∀ key, s.conns.get? key = none) ∧
      ∀ key, (s.apps.get? key).map counted = expected rules [] key := by
  induction rules using List.reverseRecOn with
  | nil => exact ⟨rfl, queued_empty, fun _ => rfl, fun _ => rfl⟩
  | append_singleton rules r ih =>
    rw [List.map_append, List.map_singleton, List.nodup_append] at hids
    obtain ⟨hids, -, hnew⟩ := hids
    obtain ⟨hrules, hqueued, hconns, hcounted⟩ := ih hids
    have hadded : ((viaEvents rules []).rules.filter fun r' => r'.id != r.id) ++ [r] =
        rules ++ [r] := by
      rw [hrules, List.filter_eq_self.mpr fun r' hr' => ?_]
      exact bne_iff_ne.mpr (hnew _ (List.mem_map_of_mem hr') _ (List.mem_singleton.mpr rfl))
    let s : ClientState := { viaEvents rules [] with rules := rules ++ [r] }
    have hstep : (viaEvents rules []).applyEvent (.ruleAdded r) = s.refreshRuleFlags := by
      rw [applyEvent, hadded]
    rw [viaEvents_rule, hstep]
    refine ⟨rfl, hqueued, hconns, fun key => ?_⟩
    rw [counted_refresh]
    · show (((viaEvents rules []).apps.get? key).map counted).or
        ((blockRuleFor (rules ++ [r]) key).map ruleCounted) = _
      rw [hcounted, expected, expected]
      show ((blockRuleFor rules key).map ruleCounted).or _ =
        (blockRuleFor (rules ++ [r]) key).map ruleCounted
      rw [blockRuleFor_snoc]
      cases blockRuleFor rules key <;> rfl
    · -- what was there before is for a Block rule
      intro app happ
      have hrule := hcounted key
      rw [show (viaEvents rules []).apps.get? key = some app from happ] at hrule
      obtain ⟨r', hfor, hcount⟩ := Option.map_eq_some_iff.mp hrule.symm
      obtain ⟨hr', haction, -⟩ := blockRuleFor_eq_some hfor
      exact .inr ⟨r', List.mem_append_left _ hr', haction, (congrArg Counted.exe hcount).symm⟩

/-- An opened connection that the client does not have is counted in its app. -/
theorem counted_upsertConn {s : ClientState} {conn : ConnectionInfo}
    (hnew : s.conns.get? conn.key = none) (key : String) :
    ((s.upsertConn conn true).apps.get? key).map counted =
      if key = conn.appKey then some (Counted.add ((s.apps.get? key).map counted) conn)
      else (s.apps.get? key).map counted := by
  show (KeyedMap.get? (KeyedMap.insert _ _ _) key).map counted = _
  rw [KeyedMap.get?_insert]
  split
  · rename_i hkey
    rw [Option.map_some, deltaSent, deltaRecv, appOf, hnew, hkey]
    cases s.apps.get? conn.appKey <;> rfl
  · rfl

/-- **Events** count what is to be counted, also beyond the cap of the display. -/
theorem counted_events {rules : List Rule} {opened : List ConnectionInfo}
    (hids : (rules.map Rule.id).Nodup) (hkeys : (opened.map ConnectionInfo.key).Nodup)
    (hrule : ∀ c ∈ opened, ∀ r, blockRuleFor rules c.appKey = some r → c.exe = some r.exePath) :
    let s := viaEvents rules opened
    s.rules = rules ∧ Queued s.conns s.connOrder ∧
      (∀ key, (s.conns.get? key).isSome = true → key ∈ opened.map ConnectionInfo.key) ∧
      ∀ key, (s.apps.get? key).map counted = expected rules opened key := by
  induction opened using List.reverseRecOn with
  | nil =>
    obtain ⟨hrules, hqueued, hconns, hcounted⟩ := counted_rules hids
    refine ⟨hrules, hqueued, fun key hsome => ?_, hcounted⟩
    rw [hconns] at hsome
    cases hsome
  | append_singleton opened conn ih =>
    rw [List.map_append, List.map_singleton, List.nodup_append] at hkeys
    obtain ⟨hkeys, -, hfresh⟩ := hkeys
    obtain ⟨hrules, hqueued, hconns, hcounted⟩ :=
      ih hkeys fun c hc => hrule c (List.mem_append_left _ hc)
    -- keys differ, so the flow is new to the client whatever the cap has evicted
    have hnew : (viaEvents rules opened).conns.get? conn.key = none := by
      rw [← Option.not_isSome_iff_eq_none]
      exact fun hsome => hfresh _ (hconns _ hsome) _ (List.mem_singleton.mpr rfl) rfl
    have hcapped := upsertConn_capped hqueued conn true
    rw [viaEvents_opened]
    refine ⟨hrules, hcapped.queued, fun key hsome => ?_, fun key => ?_⟩
    · obtain ⟨c, hc⟩ := Option.isSome_iff_exists.mp hsome
      obtain ⟨-, hget⟩ := (hcapped.get? key c).mp hc
      rw [KeyedMap.get?_insert] at hget
      rw [List.map_append, List.mem_append]
      split at hget
      · rename_i hkey
        exact .inr (List.mem_singleton.mpr hkey)
      · exact .inl (hconns key (hget ▸ rfl))
    · have hlast := hrule conn (List.mem_append_right _ (List.mem_singleton.mpr rfl))
      rw [counted_upsertConn hnew, expected_snoc hlast, hcounted]

/-! ## Both -/

/-- Flags follow from the rules and the executable. -/
theorem aggregated_eq {rules : List Rule} {app app' : AppEntry}
    (h : applyRuleFlags rules app = app) (h' : applyRuleFlags rules app' = app')
    (hcounted : counted app = counted app') : app.aggregated = app'.aggregated := by
  have hexe : app.exe = app'.exe := congrArg Counted.exe hcounted
  have hrule : blockRule rules app = blockRule rules app' := by
    rw [blockRule, blockRule, hexe]
  have hblocked : app.blocked = app'.blocked := by
    rw [← h, ← h']
    exact congrArg Option.isSome hrule
  have hid : app.blockRuleId = app'.blockRuleId := by
    rw [← h, ← h']
    exact congrArg (Option.map Rule.id) hrule
  have hsent : app.bytesSent = app'.bytesSent := congrArg Counted.bytesSent hcounted
  have hrecv : app.bytesRecv = app'.bytesRecv := congrArg Counted.bytesRecv hcounted
  have hconns : app.connections = app'.connections := congrArg Counted.connections hcounted
  rw [AppEntry.aggregated, AppEntry.aggregated, hexe, hsent, hrecv, hconns, hblocked, hid]

/-- The apps after a snapshot are the apps after the events, whatever the orders of the
maps and however many flows there are, where paths are told apart by their renderings. -/
theorem aggregation_agrees {rules : List Rule} {conns order listed opened : List ConnectionInfo}
    (hkeys : (conns.map ConnectionInfo.key).Nodup) (hattr : Attributed conns)
    (hids : (rules.map Rule.id).Nodup) (hapart : Apart rules conns) (horder : order.Perm conns)
    (hopened : opened.Perm conns) (client : ClientState)
    (status : Status) (network : NetworkInfo) (store : Inner) (now : DateTime) (key : String) :
    ((client.applySnapshot status network (topApps store now order) listed rules).apps.get?
        key).map AppEntry.aggregated =
      ((viaEvents rules opened).apps.get? key).map AppEntry.aggregated := by
  have hsnapshot := @counted_snapshot order store now (hattr.perm horder) client status network
    listed rules key
  have hopenedKeys : (opened.map ConnectionInfo.key).Nodup :=
    (hopened.map ConnectionInfo.key).nodup_iff.mpr hkeys
  obtain ⟨hrules, -, -, hevents⟩ := counted_events hids hopenedKeys fun c hc r hfor => by
    obtain ⟨hr, haction, hkey⟩ := blockRuleFor_eq_some hfor
    exact hapart.rules r hr haction c (hopened.mem_iff.mp hc) hkey
  -- both paths count what is expected of the flows, in either order
  have hexpected : expected rules order key = expected rules opened key :=
    (expected_perm (same_exe hattr hapart) horder.symm key).symm.trans
      (expected_perm (same_exe hattr hapart) hopened.symm key)
  have hsame := hsnapshot.trans (hexpected.trans (hevents key).symm)
  -- equal counts and executables have equal flags, since both states are flagged
  have hflags := applySnapshot_flagsOk client status network (topApps store now order) listed rules
  have hflags' : (viaEvents rules opened).FlagsOk := (Reachable.default.replay _).flagsOk
  have hloaded : (client.applySnapshot status network (topApps store now order) listed
      rules).rules = rules := foldl_loadConn_rules _ listed
  rw [FlagsOk, hloaded] at hflags
  rw [FlagsOk, hrules] at hflags'
  cases happ : (client.applySnapshot status network (topApps store now order) listed
      rules).apps.get? key with
  | none =>
    rw [happ] at hsame
    rw [Option.map_eq_none_iff.mp hsame.symm]
  | some app =>
    rw [happ] at hsame
    obtain ⟨app', happ', hcounted⟩ := Option.map_eq_some_iff.mp hsame.symm
    rw [happ', Option.map_some, Option.map_some,
      aggregated_eq (hflags key app happ) (hflags' key app' happ') hcounted.symm]

/-! ### Renderings -/

/-- A connection from one of the local ports. -/
def connOf (port : UInt16) (exe : Option PathBuf) (processName : String) : ConnectionInfo where
  key := FlowTuple.key ⟨.tcp, .v4 ⟨10, 0, 0, 2⟩, port, .v4 ⟨1, 1, 1, 1⟩, 443⟩
  protocol := .tcp
  localAddr := .v4 ⟨10, 0, 0, 2⟩
  localPort := port
  remoteAddr := .v4 ⟨1, 1, 1, 1⟩
  remotePort := 443
  bytesSent := 100
  bytesRecv := 200
  pid := none
  processName := some processName
  exe := exe
  started := .epoch
  lastSeen := .epoch

/-- A Block rule for a path. -/
def blockPath (path : PathBuf) : Rule where
  id := 1
  name := "blocked"
  exePath := path
  action := .block
  persistent := true
  expiresAt := none
  profile := "default"
  updatedAt := .epoch

def noStatus : Status := ⟨"0.1.0", 0, false, false, 0, 0, 0⟩

/-- The apps under a key that a snapshot shows. -/
def shownBySnapshot (rules : List Rule) (conns : List ConnectionInfo) (key : String) :
    Option Aggregated :=
  ((ClientState.default.applySnapshot noStatus emptyNetwork (topApps .firstStart .epoch conns)
    conns rules).apps.get? key).map AppEntry.aggregated

/-- The apps under a key after the events. -/
def shownByEvents (rules : List Rule) (conns : List ConnectionInfo) (key : String) :
    Option Aggregated :=
  ((viaEvents rules conns).apps.get? key).map AppEntry.aggregated

/-- Two flows of curl, and one of a process without an executable. -/
def curlAndPing : List ConnectionInfo :=
  [connOf 1 (some (.ofString "/bin/curl")) "curl", connOf 2 none "ping",
    connOf 3 (some (.ofString "/bin/curl")) "curl"]

theorem aggregation_agrees_curlAndPing :
    let rules := [blockPath (.ofString "/bin/curl")]
    shownByEvents rules curlAndPing.reverse "/bin/curl" =
        some ⟨some (.ofString "/bin/curl"), 200, 400, 2, true, some 1⟩ ∧
      shownBySnapshot rules curlAndPing "/bin/curl" =
        shownByEvents rules curlAndPing.reverse "/bin/curl" :=
  ⟨by decide +kernel,
    aggregation_agrees (by decide +kernel) ⟨by decide +kernel, by decide +kernel⟩
      (by decide +kernel) ⟨by decide +kernel, by decide +kernel⟩ (.refl _)
      (List.reverse_perm _) _ _ _ _ _ _⟩

/-- The executable that a snapshot shows is the one that is expected. -/
theorem shown_ne {rules : List Rule} {conns conns' : List ConnectionInfo} {key : String}
    (h : Attributed conns) (hexe : (expected rules conns key).map Counted.exe ≠
      (shownByEvents rules conns' key).map Aggregated.exe) :
    shownBySnapshot rules conns key ≠ shownByEvents rules conns' key := by
  intro heq
  refine hexe ?_
  rw [← heq, shownBySnapshot, ← @counted_snapshot conns .firstStart .epoch h, Option.map_map,
    Option.map_map]
  rfl

/-- Two paths that render alike. -/
def lossy (last : UInt8) : PathBuf := ⟨[47, 97, last]⟩

/-- A flow of each. -/
def twoLossy : List ConnectionInfo :=
  [connOf 1 (some (lossy 0xff)) "a", connOf 2 (some (lossy 0xfe)) "a"]

/-- A flow of one of them. -/
def oneLossy : List ConnectionInfo := [connOf 1 (some (lossy 0xff)) "a"]

/-- A flow of a process without an executable. -/
def ping : List ConnectionInfo := [connOf 1 none "ping"]

/-- Where the renderings of paths collide, the first path to come has the entry. Two
executables: the order decides. A Block rule and another executable: in the events the rule
comes first. A Block rule for a relative path, and a process without an executable that
has its rendering for a key. -/
theorem renderings_collide :
    ((twoLossy.map ConnectionInfo.key).Nodup ∧ Attributed twoLossy ∧
      shownBySnapshot [] twoLossy (lossy 0xff).display ≠
        shownByEvents [] twoLossy.reverse (lossy 0xff).display) ∧
    (Attributed oneLossy ∧
      shownBySnapshot [blockPath (lossy 0xfe)] oneLossy (lossy 0xff).display ≠
        shownByEvents [blockPath (lossy 0xfe)] oneLossy (lossy 0xff).display) ∧
    (Attributed ping ∧
      shownBySnapshot [blockPath (.ofString "name:ping")] ping "name:ping" ≠
        shownByEvents [blockPath (.ofString "name:ping")] ping "name:ping") := by
  have htwo : Attributed twoLossy := ⟨by decide +kernel, by decide +kernel⟩
  have hone : Attributed oneLossy := ⟨by decide +kernel, by decide +kernel⟩
  have hping : Attributed ping := ⟨by decide +kernel, by decide +kernel⟩
  exact ⟨⟨by decide +kernel, htwo, shown_ne htwo (by decide +kernel)⟩,
    ⟨hone, shown_ne hone (by decide +kernel)⟩, ⟨hping, shown_ne hping (by decide +kernel)⟩⟩

end Aggregation

end TravelMode
