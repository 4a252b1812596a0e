import TravelMode.Gui.Operations
import TravelMode.Lib.Utf8Paths

/-!
# Blocked flags and the rules

The flags of an app are recomputed by reports and by rule events, and its entry comes and
goes with its flows. Flags go by the equality of paths, entries by the rendering of paths,
which is lossy.

- `flagged`: the flags of every entry are those of the rules, whatever the operations.
- `Ruled`: every Block rule has an entry that is blocked. The invariant needs to know what
  is filed under the rule's key (`FiledUnder`).
- `flags_and_entries`: both, for Block rules whose paths are rendered like no other one
  (`ToldApart`); `renderings_share_entry` is a Block rule without a blocked entry.
-/

namespace TravelMode

open PathBuf

/-! ## The paths of a sequence -/

/-- The rules that an operation brings. -/
def Op.rules : Op → List Rule
  | .snapshot S => S.rules
  | .event (.ruleAdded rule) => [rule]
  | _ => []

/-- The paths of its Block rules. -/
def Op.blockPaths (op : Op) : List PathBuf :=
  (op.rules.filter fun r => decide (r.action = .block)).map Rule.exePath

/-- The executables of the apps that it brings: of its lines of `top` and its reports. -/
def Op.exes : Op → List PathBuf
  | .snapshot S => S.top.filterMap AppUsage.exe
  | .event (.connectionOpened conn) => conn.exe.toList
  | .event (.connectionUpdated conn) => conn.exe.toList
  | _ => []

/-- Block rules are for absolute paths, and no path is rendered like that of a Block rule
unless it is the same one. -/
structure ToldApart (blockPaths exes : List PathBuf) : Prop where
  absolute : ∀ p ∈ blockPaths, p.bytes.head? = some slash
  apart : ∀ p ∈ blockPaths, ∀ q ∈ exes ++ blockPaths, p.display = q.display →
    p.pathEq q = true

/-- Paths that are UTF-8 are told apart, as all are that come over the wire. -/
theorem ToldApart.of_utf8 {blockPaths exes : List PathBuf}
    (habsolute : ∀ p ∈ blockPaths, p.bytes.head? = some slash)
    (hutf8 : ∀ p ∈ exes ++ blockPaths, p.isUtf8 = true) : ToldApart blockPaths exes where
  absolute := habsolute
  apart p hp q hq h := by
    rw [eq_of_display_eq (hutf8 p (List.mem_append_right _ hp)) (hutf8 q hq) h]
    exact pathEq_refl q

namespace ClientState

/-! ## The flags -/

/-- The flags that the rules make of an app. -/
structure FlaggedBy (rules : List Rule) (app : AppEntry) : Prop where
  blocked : app.blocked = true ↔
    ∃ exe, app.exe = some exe ∧ ∃ r ∈ rules, r.action = .block ∧ r.exePath.pathEq exe = true
  ruleId : app.blockRuleId = (app.exe.bind fun exe =>
    rules.find? fun r => decide (r.action = .block) && r.exePath.pathEq exe).map Rule.id

/-- **Flags**: in every state of the UI, every app has those of the rules. -/
theorem flagged {s : ClientState} (h : s.FlagsOk) {key : String} {app : AppEntry}
    (hget : s.apps.get? key = some app) : FlaggedBy s.rules app := by
  refine ⟨?_, (congrArg AppEntry.blockRuleId (h key app hget)).symm⟩
  rw [h.blocked_iff hget]
  simp only [Rule.blocks_iff]

/-! ## Entries of Block rules -/

variable {blockPaths exes : List PathBuf}

/-- An entry is filed under its executable or its name, and its executable is one of those
that the operations brought. -/
def FiledUnder (paths : List PathBuf) (apps : KeyedMap String AppEntry) : Prop :=
  ∀ key app, apps.get? key = some app →
    (∃ name, key = appKey app.exe name) ∧ ∀ p, app.exe = some p → p ∈ paths

/-- What is filed under the key of a Block rule is the app of its path. -/
theorem FiledUnder.pathEq (hapart : ToldApart blockPaths exes) {apps : KeyedMap String AppEntry}
    (h : FiledUnder (exes ++ blockPaths) apps) {r : Rule} (hr : r.exePath ∈ blockPaths)
    {app : AppEntry} (hget : apps.get? r.appKey = some app) :
    ∃ exe, app.exe = some exe ∧ r.exePath.pathEq exe = true := by
  obtain ⟨⟨name, hkey⟩, hpaths⟩ := h r.appKey app hget
  cases hexe : app.exe with
  | some exe =>
    rw [hexe] at hkey
    exact ⟨exe, rfl, hapart.apart _ hr _ (hpaths exe hexe) hkey⟩
  | none =>
    -- an absolute path is not rendered like the key of a bare name
    rw [hexe] at hkey
    exact absurd hkey (display_ne_name (hapart.absolute _ hr) name)

/-- Every Block rule has an entry, and it is blocked. -/
structure Ruled (blockPaths exes : List PathBuf) (s : ClientState) : Prop where
  flags : s.FlagsOk
  rules : ∀ r ∈ s.rules, r.action = .block → r.exePath ∈ blockPaths
  filed : FiledUnder (exes ++ blockPaths) s.apps
  present : ∀ r ∈ s.rules, r.action = .block → ∃ app, s.apps.get? r.appKey = some app

theorem ruled_default : Ruled blockPaths exes default where
  flags := Reachable.default.flagsOk
  rules _ hr := nomatch hr
  filed _ _ h := nomatch h
  present _ hr := nomatch hr

/-- The entry of a Block rule is blocked. -/
theorem Ruled.blocked {s : ClientState} (hapart : ToldApart blockPaths exes)
    (h : Ruled blockPaths exes s) {r : Rule} (hr : r ∈ s.rules) (haction : r.action = .block)
    {app : AppEntry} (hget : s.apps.get? r.appKey = some app) : app.blocked = true := by
  obtain ⟨exe, hexe, heq⟩ := h.filed.pathEq hapart (h.rules r hr haction) hget
  exact (flagged h.flags hget).blocked.mpr ⟨exe, hexe, r, hr, haction, heq⟩

/-! ## The operations -/

theorem filedUnder_addBlockedApps {rules : List Rule} {apps : KeyedMap String AppEntry}
    (h : FiledUnder (exes ++ blockPaths) apps)
    (hrules : ∀ r ∈ rules, r.action = .block → r.exePath ∈ blockPaths) :
    FiledUnder (exes ++ blockPaths) (rules.foldl addBlockedApp apps) := by
  intro key app hget
  rcases get?_addBlockedApps_eq_some hget with hold | ⟨r, hr, haction, rfl, rfl⟩
  · exact h key app hold
  · refine ⟨⟨r.name, rfl⟩, fun p hp => ?_⟩
    cases hp
    exact List.mem_append_right _ (hrules r hr haction)

/-- Changing an entry but for its executable leaves it filed as it was. -/
theorem FiledUnder.of_exe {paths : List PathBuf} {apps apps' : KeyedMap String AppEntry}
    (h : FiledUnder paths apps)
    (hold : ∀ key app, apps'.get? key = some app →
      ∃ old, apps.get? key = some old ∧ app.exe = old.exe) :
    FiledUnder paths apps' := by
  intro key app hget
  obtain ⟨old, hget, hexe⟩ := hold key app hget
  rw [hexe]
  exact h key old hget

/-- **The refresh**: whatever the flags were, every Block rule has a blocked entry. -/
theorem ruled_refresh (hapart : ToldApart blockPaths exes) {s : ClientState}
    (hfiled : FiledUnder (exes ++ blockPaths) s.apps)
    (hrules : ∀ r ∈ s.rules, r.action = .block → r.exePath ∈ blockPaths) :
    Ruled blockPaths exes s.refreshRuleFlags := by
  have hadded := filedUnder_addBlockedApps hfiled hrules
  refine ⟨refreshRuleFlags_flagsOk s, hrules, ?_, fun r hr haction => ?_⟩
  · refine hadded.of_exe fun key app hget => ?_
    rw [get?_refreshRuleFlags] at hget
    obtain ⟨hget, -⟩ := Option.filter_eq_some_iff.mp hget
    obtain ⟨old, hold, rfl⟩ := Option.map_eq_some_iff.mp hget
    exact ⟨old, hold, rfl⟩
  · -- the entry under the rule's key is of its path, so the rule blocks and shows it
    obtain ⟨app, happ⟩ : ∃ app, (s.rules.foldl addBlockedApp s.apps).get? r.appKey = some app :=
      Option.isSome_iff_exists.mp (isSome_get?_addBlockedApps hr haction)
    obtain ⟨exe, hexe, heq⟩ := hadded.pathEq hapart (hrules r hr haction) happ
    have hblocked : (applyRuleFlags s.rules app).blocked = true :=
      (applyRuleFlags_blocked hexe).mpr ⟨r, hr, Rule.blocks_iff.mpr ⟨haction, heq⟩⟩
    exact ⟨_, get?_refreshRuleFlags_of_shown happ (shown_iff.mpr (.inr hblocked))⟩

/-- Rewriting the values of a map, but for executables and flags. -/
theorem Ruled.mapVals {s s' : ClientState} {f : AppEntry → AppEntry}
    (h : Ruled blockPaths exes s) (hrules : s'.rules = s.rules)
    (happs : s'.apps = s.apps.mapVals fun _ app => f app)
    (hf : ∀ app, (f app).exe = app.exe) (hflags : s'.FlagsOk) : Ruled blockPaths exes s' := by
  refine ⟨hflags, hrules ▸ h.rules, ?_, fun r hr haction => ?_⟩
  · refine h.filed.of_exe fun key app hget => ?_
    rw [happs, KeyedMap.get?_mapVals] at hget
    obtain ⟨old, hold, rfl⟩ := Option.map_eq_some_iff.mp hget
    exact ⟨old, hold, hf old⟩
  · obtain ⟨app, happ⟩ := h.present r (hrules ▸ hr) haction
    refine ⟨f app, ?_⟩
    rw [happs, KeyedMap.get?_mapVals, happ]
    rfl

theorem Ruled.upsertConn {s : ClientState} (h : Ruled blockPaths exes s) {conn : ConnectionInfo}
    (hexe : ∀ p, conn.exe = some p → p ∈ exes) (isOpen : Bool) :
    Ruled blockPaths exes (s.upsertConn conn isOpen) := by
  refine ⟨upsertConn_flagsOk h.flags conn isOpen, h.rules, fun key app hget => ?_,
    fun r hr haction => ?_⟩
  · change (s.apps.insert _ _).get? key = some app at hget
    rw [KeyedMap.get?_insert] at hget
    by_cases hkey : key = conn.appKey
    · rw [if_pos hkey] at hget
      cases hget
      subst hkey
      -- the app's entry has its executable, a new one that of the flow
      unfold applyRuleFlags appOf
      cases happ : s.apps.get? conn.appKey with
      | some app => exact h.filed conn.appKey app happ
      | none => exact ⟨⟨conn.appName, rfl⟩, fun p hp => List.mem_append_left _ (hexe p hp)⟩
    · rw [if_neg hkey] at hget
      exact h.filed key app hget
  · obtain ⟨app, happ⟩ := h.present r hr haction
    change ∃ app, (s.apps.insert _ _).get? r.appKey = some app
    by_cases hkey : r.appKey = conn.appKey
    · exact ⟨_, by rw [hkey]; exact KeyedMap.get?_insert_self ..⟩
    · exact ⟨app, by rw [KeyedMap.get?_insert_of_ne hkey]; exact happ⟩

/-- A blocked app does not leave the page. -/
theorem get?_releaseApp_of_blocked {apps : KeyedMap String AppEntry} {key : String}
    {app : AppEntry} (hget : apps.get? key = some app) (hblocked : app.blocked = true)
    (k : String) : ∃ app', (releaseApp apps k).get? key = some app' := by
  by_cases hkey : k = key
  · subst hkey
    have hshown : shown { app with connections := app.connections - 1 } = true :=
      shown_iff.mpr (.inr hblocked)
    refine ⟨{ app with connections := app.connections - 1 }, ?_⟩
    simp only [releaseApp, hget, hshown, if_true, KeyedMap.get?_insert_self]
  · refine ⟨app, ?_⟩
    unfold releaseApp
    cases apps.get? k with
    | none => exact hget
    | some old =>
      dsimp only
      split
      · rw [KeyedMap.get?_insert_of_ne (Ne.symm hkey)]
        exact hget
      · rw [KeyedMap.get?_erase_of_ne (Ne.symm hkey)]
        exact hget

theorem Ruled.removeConn (hapart : ToldApart blockPaths exes) {s : ClientState}
    (h : Ruled blockPaths exes s) (key : String) : Ruled blockPaths exes (s.removeConn key) := by
  have hflags := removeConn_flagsOk h.flags key
  cases hconn : s.conns.get? key with
  | none =>
    simp only [ClientState.removeConn, hconn]
    exact h
  | some conn =>
    simp only [ClientState.removeConn, hconn] at hflags ⊢
    refine ⟨hflags, h.rules, h.filed.of_exe fun k app hget => ?_, fun r hr haction => ?_⟩
    · obtain ⟨old, hold, rfl | rfl⟩ := get?_releaseApp hget
      · exact ⟨app, hold, rfl⟩
      · exact ⟨old, hold, rfl⟩
    · obtain ⟨app, happ⟩ := h.present r hr haction
      exact get?_releaseApp_of_blocked happ (h.blocked hapart hr haction happ) _

theorem Ruled.load (hapart : ToldApart blockPaths exes) (s : ClientState) {S : Snapshot}
    (htop : ∀ p ∈ S.top.filterMap AppUsage.exe, p ∈ exes)
    (hrules : ∀ r ∈ S.rules, r.action = .block → r.exePath ∈ blockPaths) :
    Ruled blockPaths exes (s.load S) := by
  obtain ⟨pre, hpre, happs, hload⟩ :=
    applySnapshot_apps s S.status S.network S.top S.conns S.rules
  have hfiled : FiledUnder (exes ++ blockPaths) pre.apps := by
    intro key app hget
    rw [happs] at hget
    rcases get?_loadUsages hget with hempty | ⟨u, hu, rfl, rfl⟩
    · cases hempty
    · exact ⟨⟨u.name, rfl⟩, fun p hp =>
        List.mem_append_left _ (htop p (List.mem_filterMap.mpr ⟨u, hu, hp⟩))⟩
  have hrefreshed := ruled_refresh hapart hfiled (hpre ▸ hrules)
  refine hrefreshed.mapVals ?_ hload (fun _ => rfl) (applySnapshot_flagsOk s _ _ _ _ _)
  rw [load_rules, refreshRuleFlags_rules, hpre]

/-- An operation keeps the entries of Block rules, with the paths it brings. -/
theorem Ruled.perform (hapart : ToldApart blockPaths exes) {s : ClientState} {op : Op}
    (h : Ruled blockPaths exes s) (hexes : ∀ p ∈ op.exes, p ∈ exes)
    (hrules : ∀ r ∈ op.rules, r.action = .block → r.exePath ∈ blockPaths) :
    Ruled blockPaths exes (s.perform op) := by
  cases op with
  | snapshot S => exact .load hapart s hexes hrules
  | tick => exact h.mapVals rfl rfl (fun _ => rfl) (mapVals_flagsOk (fun _ => sampleApp_flags) h.flags)
  | event e =>
    cases e with
    | connectionOpened conn =>
      exact h.upsertConn (fun p hp => hexes p (Option.mem_toList.mpr hp)) true
    | connectionUpdated conn =>
      exact h.upsertConn (fun p hp => hexes p (Option.mem_toList.mpr hp)) false
    | connectionClosed key => exact h.removeConn hapart key
    | ruleAdded rule =>
      refine ruled_refresh hapart h.filed fun r hr haction => ?_
      rcases List.mem_append.mp hr with hold | hnew
      · exact h.rules r (List.mem_of_mem_filter hold) haction
      · exact hrules r hnew haction
    | ruleRemoved id =>
      exact ruled_refresh hapart h.filed fun r hr haction =>
        h.rules r (List.mem_of_mem_filter hr) haction
    | _ => exact ⟨h.flags, h.rules, h.filed, h.present⟩

/-- **Flags and entries**: after any operations the flags of every app are those of the
rules; and every Block rule has a blocked entry, if no other path is rendered like one of a
Block rule. -/
theorem flags_and_entries (ops : List Op) :
    let s := default.operate ops
    (∀ key app, s.apps.get? key = some app → FlaggedBy s.rules app) ∧
      (ToldApart (ops.flatMap Op.blockPaths) (ops.flatMap Op.exes) →
        ∀ r ∈ s.rules, r.action = .block →
          ∃ app, s.apps.get? (appKey (some r.exePath) r.name) = some app ∧
            app.blocked = true) := by
  intro s
  refine ⟨fun key app hget => flagged (reachable_operate .default ops).flagsOk hget,
    fun hapart r hr haction => ?_⟩
  have hruled : Ruled (ops.flatMap Op.blockPaths) (ops.flatMap Op.exes) s := by
    refine operate_invariant ruled_default fun op hop s hs => hs.perform hapart ?_ ?_
    · exact fun p hp => List.mem_flatMap.mpr ⟨op, hop, hp⟩
    · intro r hr haction
      refine List.mem_flatMap.mpr ⟨op, hop, List.mem_map.mpr ⟨r, ?_, rfl⟩⟩
      exact List.mem_filter.mpr ⟨hr, decide_eq_true haction⟩
  obtain ⟨app, happ⟩ := hruled.present r hr haction
  exact ⟨app, happ, hruled.blocked hapart hr haction happ⟩

/-- A Block rule for a program that has a flow. -/
theorem flags_and_entries_curl :
    let ops : List Op := [.event (.connectionOpened { flow 0 with exe := some (ofString "/curl") }),
      .event (.ruleAdded ⟨1, "curl", ofString "/curl", .block, true, none, "", .epoch⟩)]
    ∀ r ∈ (default.operate ops).rules, r.action = .block →
      ∃ app, (default.operate ops).apps.get? (appKey (some r.exePath) r.name) = some app ∧
        app.blocked = true :=
  (flags_and_entries _).2 (.of_utf8 (by decide) (by decide))

/-- A path that is not UTF-8. -/
def invalidPath (b : UInt8) : PathBuf := ⟨[slash, 97, b]⟩

/-- **Shared renderings**: an app has the entry of a path that is rendered alike, so the
Block rule has none. Both paths start with a slash. -/
theorem renderings_share_entry :
    let ops : List Op := [.event (.connectionOpened { flow 0 with exe := some (invalidPath 0xff) }),
      .event (.ruleAdded ⟨1, "a", invalidPath 0xfe, .block, true, none, "", .epoch⟩)]
    ∃ r ∈ (default.operate ops).rules, r.action = .block ∧
      ¬∃ app, (default.operate ops).apps.get? (appKey (some r.exePath) r.name) = some app ∧
        app.blocked = true := by
  intro ops
  have hentry : ((default.operate ops).apps.get?
      (appKey (some (invalidPath 0xfe)) "a")).map AppEntry.blocked = some false := by
    decide +kernel
  refine ⟨_, List.mem_singleton.mpr rfl, rfl, ?_⟩
  rintro ⟨app, hget, hblocked⟩
  dsimp only at hget
  rw [hget, Option.map_some, hblocked] at hentry
  cases hentry

end ClientState

end TravelMode
