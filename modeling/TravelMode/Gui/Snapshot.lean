import TravelMode.Gui.Client
import TravelMode.Gui.Eviction
import TravelMode.Gui.State

/-!
# What a snapshot loads

`apply_snapshot` builds the client's maps by loops over lists; here they are read
back per key.

- `load_conns`: the flows of the snapshot, each under its own key.
- `get?_loadUsages`: one entry per line of `top`, the last one under a key.
- `get?_addBlockedApps`: what `refresh_rule_flags` adds for Block rules.
- `load_shown`: every entry left by a refresh has a connection or is blocked.
-/

namespace TravelMode

/-- The app that a rule is about. -/
def Rule.appKey (r : Rule) : String := TravelMode.appKey (some r.exePath) r.name

/-- The app that a line of `top` is about. -/
def AppUsage.appKey (u : AppUsage) : String := TravelMode.appKey u.exe u.name

namespace ClientState

/-- An executable has no key of an app without one. -/
theorem display_ne_name {p : PathBuf} (h : p.bytes.head? = some PathBuf.slash) (n : String) :
    p.display ≠ "name:" ++ n := by
  intro heq
  have hhead := PathBuf.head?_display h
  rw [heq, String.toList_append] at hhead
  exact absurd (Option.some.inj hhead) (by decide)

/-- `apply_snapshot` on the result of the initial fetch. -/
def load (s : ClientState) (S : Snapshot) : ClientState :=
  s.applySnapshot S.status S.network S.top S.conns S.rules

/-! ## The loop over the connections -/

theorem foldl_loadConn_conns (s : ClientState) (conns : List ConnectionInfo) :
    (conns.foldl loadConn s).conns =
      conns.foldl (fun m c => m.insert c.key c) s.conns := by
  induction conns generalizing s with
  | nil => rfl
  | cons c cs ih =>
    rw [List.foldl_cons, ih]
    rfl

/-- Inserting flows under keys that differ files each of them. -/
theorem get?_insertConns {m : KeyedMap String ConnectionInfo} {conns : List ConnectionInfo}
    (hnodup : (conns.map ConnectionInfo.key).Nodup) (key : String) :
    (conns.foldl (fun m c => m.insert c.key c) m).get? key =
      ((conns.find? fun c => c.key == key).or (m.get? key)) := by
  induction conns generalizing m with
  | nil => rfl
  | cons c cs ih =>
    obtain ⟨hnew, hrest⟩ := List.nodup_cons.mp hnodup
    rw [List.foldl_cons, ih hrest, KeyedMap.get?_insert, List.find?_cons]
    by_cases hk : key = c.key
    · have hnone : cs.find? (fun d => d.key == key) = none := by
        refine List.find?_eq_none.mpr fun d hd hdk => hnew ?_
        rw [← hk, ← of_decide_eq_true hdk]
        exact List.mem_map.mpr ⟨d, hd, rfl⟩
      rw [hnone, if_pos hk, hk, beq_self_eq_true]
      rfl
    · have hne : (c.key == key) = false := beq_false_of_ne fun h => hk h.symm
      rw [if_neg hk, hne]

/-- The flows after a snapshot are those of the snapshot. -/
theorem load_conns {s : ClientState} {S : Snapshot}
    (hnodup : (S.conns.map ConnectionInfo.key).Nodup) (key : String) :
    (s.load S).conns.get? key = S.conns.find? fun c => c.key == key := by
  show ((S.conns.foldl loadConn _).conns).get? key = _
  rw [foldl_loadConn_conns, get?_insertConns hnodup, KeyedMap.get?_empty, Option.or_none]

theorem foldl_loadConn_connOrder (s : ClientState) (conns : List ConnectionInfo) :
    (conns.foldl loadConn s).connOrder = s.connOrder ++ conns.map ConnectionInfo.key := by
  induction conns generalizing s with
  | nil => exact (List.append_nil _).symm
  | cons c cs ih =>
    rw [List.foldl_cons, ih, List.map_cons, ← List.singleton_append, ← List.append_assoc]
    rfl

/-- A snapshot queues its flows in its order. -/
theorem load_connOrder (s : ClientState) (S : Snapshot) :
    (s.load S).connOrder = S.conns.map ConnectionInfo.key := by
  show (S.conns.foldl loadConn _).connOrder = _
  rw [foldl_loadConn_connOrder]
  exact List.nil_append _

theorem load_queued {s : ClientState} {S : Snapshot}
    (hnodup : (S.conns.map ConnectionInfo.key).Nodup) :
    Queued (s.load S).conns (s.load S).connOrder := by
  refine ⟨load_connOrder s S ▸ hnodup, fun key => ?_, fun key conn hget => ?_⟩
  · rw [load_connOrder, load_conns hnodup, List.find?_isSome, List.mem_map]
    simp only [beq_iff_eq]
  · rw [load_conns hnodup] at hget
    simpa using List.find?_some hget

@[simp] theorem foldl_loadConn_paused (s : ClientState) (conns : List ConnectionInfo) :
    (conns.foldl loadConn s).paused = s.paused := by
  induction conns generalizing s with
  | nil => rfl
  | cons c cs ih =>
    rw [List.foldl_cons, ih]
    rfl

@[simp] theorem load_paused (s : ClientState) (S : Snapshot) : (s.load S).paused = S.status.paused :=
  foldl_loadConn_paused _ S.conns

@[simp] theorem foldl_loadConn_rules (s : ClientState) (conns : List ConnectionInfo) :
    (conns.foldl loadConn s).rules = s.rules := by
  induction conns generalizing s with
  | nil => rfl
  | cons c cs ih =>
    rw [List.foldl_cons, ih]
    rfl

@[simp] theorem load_rules (s : ClientState) (S : Snapshot) : (s.load S).rules = S.rules :=
  foldl_loadConn_rules _ S.conns

/-! ## The loop over `top` -/

/-- The entries after the loop over `top` are lines of it. -/
theorem get?_loadUsages {apps : KeyedMap String AppEntry} {top : List AppUsage} {key : String}
    {app : AppEntry} (h : (top.foldl loadUsage apps).get? key = some app) :
    apps.get? key = some app ∨ ∃ u ∈ top, u.appKey = key ∧ app = usageEntry u := by
  induction top generalizing apps with
  | nil => exact .inl h
  | cons u us ih =>
    rcases ih h with hold | ⟨u', hu', hkey, happ⟩
    · rw [loadUsage, KeyedMap.get?_insert] at hold
      by_cases hk : key = u.appKey
      · have hsome : some (usageEntry u) = some app := (if_pos hk).symm.trans hold
        exact .inr ⟨u, List.mem_cons_self, hk.symm, (Option.some.inj hsome).symm⟩
      · exact .inl ((if_neg hk).symm.trans hold)
    · exact .inr ⟨u', List.mem_cons_of_mem _ hu', hkey, happ⟩

/-- Every line of `top` has an entry. -/
theorem isSome_get?_loadUsages {apps : KeyedMap String AppEntry} {top : List AppUsage}
    {key : String} (h : key ∈ top.map AppUsage.appKey ∨ (apps.get? key).isSome = true) :
    ((top.foldl loadUsage apps).get? key).isSome = true := by
  induction top generalizing apps with
  | nil => exact h.elim (fun hmem => (nomatch hmem)) id
  | cons u us ih =>
    refine ih ?_
    rw [loadUsage, KeyedMap.get?_insert]
    by_cases hk : key = TravelMode.appKey u.exe u.name
    · rw [if_pos hk]
      exact .inr rfl
    · rw [if_neg hk]
      rcases h with hmem | hsome
      · rcases List.mem_cons.mp hmem with heq | hmem
        · exact absurd heq hk
        · exact .inl hmem
      · exact .inr hsome

/-! ## The refresh -/

/-- The entry of a Block rule for an app without traffic. -/
def ruleEntry (r : Rule) : AppEntry := { name := r.name, exe := some r.exePath }

/-- The first Block rule for an app's key. -/
def blockRuleFor (rules : List Rule) (key : String) : Option Rule :=
  rules.find? fun r => decide (r.action = .block ∧ r.appKey = key)

theorem get?_addBlockedApp (apps : KeyedMap String AppEntry) (r : Rule) (key : String) :
    (addBlockedApp apps r).get? key =
      (apps.get? key).or ((blockRuleFor [r] key).map ruleEntry) := by
  by_cases hblock : r.action = .block ∧ r.appKey = key
  · obtain ⟨haction, rfl⟩ := hblock
    have hfor : blockRuleFor [r] r.appKey = some r :=
      List.find?_cons_of_pos (decide_eq_true ⟨haction, rfl⟩)
    rw [hfor, addBlockedApp, if_pos haction, entryOrInsert]
    -- `or_insert_with` keeps an entry that is there
    cases happ : apps.get? (TravelMode.appKey (some r.exePath) r.name) with
    | some app =>
      dsimp only
      rw [show apps.get? r.appKey = some app from happ]
      rfl
    | none =>
      dsimp only
      rw [show apps.get? r.appKey = none from happ]
      exact KeyedMap.get?_insert_self ..
  · have hfor : blockRuleFor [r] key = none :=
      List.find?_cons_of_neg (by simpa using hblock)
    rw [hfor, Option.map_none, Option.or_none, addBlockedApp]
    split
    · rename_i haction
      have hne : key ≠ TravelMode.appKey (some r.exePath) r.name :=
        fun hkey => hblock ⟨haction, hkey.symm⟩
      unfold entryOrInsert
      split
      · rfl
      · exact KeyedMap.get?_insert_of_ne hne
    · rfl

/-- **The loop over the rules**: an entry that is there stays as it is, and a key without
one gets that of its first Block rule. -/
theorem get?_addBlockedApps (rules : List Rule) (apps : KeyedMap String AppEntry) (key : String) :
    (rules.foldl addBlockedApp apps).get? key =
      (apps.get? key).or ((blockRuleFor rules key).map ruleEntry) := by
  induction rules generalizing apps with
  | nil => exact (Option.or_none).symm
  | cons r rs ih =>
    rw [List.foldl_cons, ih, get?_addBlockedApp, Option.or_assoc]
    congr 1
    unfold blockRuleFor
    rw [List.find?_cons, List.find?_cons]
    cases decide (r.action = .block ∧ r.appKey = key) <;> rfl

theorem blockRuleFor_eq_some {rules : List Rule} {key : String} {r : Rule}
    (h : blockRuleFor rules key = some r) : r ∈ rules ∧ r.action = .block ∧ r.appKey = key := by
  unfold blockRuleFor at h
  have hfor := List.find?_some h
  exact ⟨List.mem_of_find?_eq_some h, of_decide_eq_true hfor⟩

/-- An entry that is there stays as it is. -/
theorem get?_addBlockedApps_of_some {rules : List Rule} {apps : KeyedMap String AppEntry}
    {key : String} {app : AppEntry} (h : apps.get? key = some app) :
    (rules.foldl addBlockedApp apps).get? key = some app := by
  rw [get?_addBlockedApps, h, Option.some_or]

/-- Any other entry is that of a Block rule. -/
theorem get?_addBlockedApps_eq_some {rules : List Rule} {apps : KeyedMap String AppEntry}
    {key : String} {app : AppEntry} (h : (rules.foldl addBlockedApp apps).get? key = some app) :
    apps.get? key = some app ∨ ∃ r ∈ rules, r.action = .block ∧ r.appKey = key ∧
      app = { name := r.name, exe := some r.exePath } := by
  rw [get?_addBlockedApps, Option.or_eq_some_iff] at h
  rcases h with hold | ⟨-, hrule⟩
  · exact .inl hold
  · obtain ⟨r, hfor, rfl⟩ := Option.map_eq_some_iff.mp hrule
    obtain ⟨hr, haction, hkey⟩ := blockRuleFor_eq_some hfor
    exact .inr ⟨r, hr, haction, hkey, rfl⟩

/-- Every Block rule has an entry to be shown under. -/
theorem isSome_get?_addBlockedApps {rules : List Rule} {apps : KeyedMap String AppEntry}
    {r : Rule} (hr : r ∈ rules) (haction : r.action = .block) :
    ((rules.foldl addBlockedApp apps).get? r.appKey).isSome = true := by
  have hfor : (blockRuleFor rules r.appKey).isSome = true :=
    List.find?_isSome.mpr ⟨r, hr, decide_eq_true ⟨haction, rfl⟩⟩
  rw [get?_addBlockedApps, Option.isSome_or, Option.isSome_map, hfor, Bool.or_true]

theorem shown_iff {app : AppEntry} :
    shown app = true ↔ app.connections ≠ 0 ∨ app.blocked = true := by
  rw [shown, Bool.not_eq_true', Bool.and_eq_false_iff, beq_eq_false_iff_ne,
    Bool.not_eq_false']

/-- What is not shown counts no flow. -/
theorem connections_of_hidden {app : AppEntry} (h : ¬shown app = true) : app.connections = 0 := by
  rw [shown_iff, not_or] at h
  exact Decidable.not_not.mp h.1

/-- An entry that the refresh shows is in its result. -/
theorem get?_refreshRuleFlags_of_shown {s : ClientState} {key : String} {app : AppEntry}
    (h : (s.rules.foldl addBlockedApp s.apps).get? key = some app)
    (hshown : shown (applyRuleFlags s.rules app) = true) :
    s.refreshRuleFlags.apps.get? key = some (applyRuleFlags s.rules app) := by
  rw [get?_refreshRuleFlags, h, Option.map_some, Option.filter_some_pos hshown]

/-- What a refresh left: an entry from before or that of a Block rule, flagged and
shown. -/
theorem get?_refreshRuleFlags_eq_some {s : ClientState} {key : String} {app : AppEntry}
    (h : s.refreshRuleFlags.apps.get? key = some app) :
    shown app = true ∧ ∃ old, app = applyRuleFlags s.rules old ∧
      (s.apps.get? key = some old ∨ ∃ r ∈ s.rules, r.action = .block ∧ r.appKey = key ∧
        old = { name := r.name, exe := some r.exePath }) := by
  rw [get?_refreshRuleFlags] at h
  obtain ⟨hmap, hshown⟩ := Option.filter_eq_some_iff.mp h
  obtain ⟨old, hold, rfl⟩ := Option.map_eq_some_iff.mp hmap
  exact ⟨hshown, old, rfl, get?_addBlockedApps_eq_some hold⟩

/-- A flagged entry is blocked by the rule that blocks its executable. -/
theorem applyRuleFlags_blocked {rules : List Rule} {app : AppEntry} {exe : PathBuf}
    (hexe : app.exe = some exe) :
    (applyRuleFlags rules app).blocked = true ↔ ∃ r ∈ rules, r.blocks exe = true := by
  show (blockRule rules app).isSome = true ↔ _
  rw [blockRule, hexe]
  simp [List.find?_isSome]

/-! ## The apps after a snapshot -/

/-- The apps of a snapshot are the refreshed loop over `top`, resampled. -/
theorem applySnapshot_apps (s : ClientState) (status : Status) (network : NetworkInfo)
    (top : List AppUsage) (conns : List ConnectionInfo) (rules : List Rule) :
    ∃ pre : ClientState, pre.rules = rules ∧ pre.apps = top.foldl loadUsage .empty ∧
      (s.applySnapshot status network top conns rules).apps =
        pre.refreshRuleFlags.apps.mapVals fun _ app => resample app := by
  refine ⟨{ conns.foldl loadConn { s with
    connected := true, paused := status.paused, status := some status, network := some network,
    rules := rules, conns := .empty, connOrder := [], totalUp := 0, totalDown := 0 } with
      apps := top.foldl loadUsage .empty }, ?_, rfl, rfl⟩
  exact foldl_loadConn_rules _ conns

/-- The entries of a snapshot are shown. -/
theorem load_shown {s : ClientState} {S : Snapshot} {key : String} {app : AppEntry}
    (h : (s.load S).apps.get? key = some app) : shown app = true := by
  obtain ⟨pre, -, -, hload⟩ := applySnapshot_apps s S.status S.network S.top S.conns S.rules
  rw [load, hload, KeyedMap.get?_mapVals] at h
  obtain ⟨old, hold, rfl⟩ := Option.map_eq_some_iff.mp h
  exact (get?_refreshRuleFlags_eq_some hold).1

end ClientState

/-- The apps that a snapshot shows: those of its lines and those of its Block rules. -/
def Snapshot.appKeys (S : Snapshot) : List String :=
  S.top.map AppUsage.appKey ++
    (S.rules.filter fun r => decide (r.action = .block)).map Rule.appKey

namespace ClientState

/-- They are there after it, if every line counts a connection. -/
theorem load_apps_of_mem {s : ClientState} {S : Snapshot}
    (htop : ∀ u ∈ S.top, 0 < u.connections) {key : String} (h : key ∈ S.appKeys) :
    ∃ app, (s.load S).apps.get? key = some app := by
  obtain ⟨pre, hrules, happs, hload⟩ := applySnapshot_apps s S.status S.network S.top S.conns S.rules
  -- a key of `top` has an entry after its loop, one of a Block rule after the refresh
  have hsome : ((pre.rules.foldl addBlockedApp pre.apps).get? key).isSome = true := by
    rcases List.mem_append.mp h with hmem | hmem
    · have hline := @isSome_get?_loadUsages .empty S.top key (.inl hmem)
      obtain ⟨app, happ⟩ := Option.isSome_iff_exists.mp hline
      rw [happs, get?_addBlockedApps_of_some happ]
      rfl
    · obtain ⟨r, hr, rfl⟩ := List.mem_map.mp hmem
      obtain ⟨hr, haction⟩ := List.mem_filter.mp hr
      rw [hrules]
      exact isSome_get?_addBlockedApps hr (of_decide_eq_true haction)
  obtain ⟨old, hold⟩ := Option.isSome_iff_exists.mp hsome
  -- the refresh keeps it: a line of `top` has flows, the entry of a rule is blocked by it
  have hshown : shown (applyRuleFlags pre.rules old) = true := by
    rw [shown_iff]
    rcases get?_addBlockedApps_eq_some hold with hline | ⟨r, hr, haction, -, rfl⟩
    · rw [happs] at hline
      rcases get?_loadUsages hline with hempty | ⟨u, hu, -, rfl⟩
      · cases hempty
      · exact .inl (Nat.ne_of_gt (htop u hu))
    · refine .inr ((applyRuleFlags_blocked rfl).mpr ⟨r, hr, ?_⟩)
      exact Rule.blocks_iff.mpr ⟨haction, PathBuf.pathEq_refl _⟩
  refine ⟨resample (applyRuleFlags pre.rules old), ?_⟩
  show (s.applySnapshot S.status S.network S.top S.conns S.rules).apps.get? key = _
  rw [hload, KeyedMap.get?_mapVals, get?_refreshRuleFlags_of_shown hold hshown]
  rfl

/-- The loop stores a flow under each of their keys. -/
theorem isSome_get?_insertConns {m : KeyedMap String ConnectionInfo}
    {conns : List ConnectionInfo} {key : String} :
    ((conns.foldl (fun m c => m.insert c.key c) m).get? key).isSome = true ↔
      key ∈ conns.map ConnectionInfo.key ∨ (m.get? key).isSome = true := by
  induction conns generalizing m with
  | nil => exact (or_iff_right List.not_mem_nil).symm
  | cons c cs ih =>
    rw [List.foldl_cons, ih, KeyedMap.get?_insert, List.map_cons, List.mem_cons]
    by_cases hk : key = c.key
    · rw [if_pos hk]
      exact iff_of_true (.inr rfl) (.inl (.inl hk))
    · rw [if_neg hk, or_iff_right hk]

/-- A flow is stored under every key of the snapshot, and no other. -/
theorem load_isSome {s : ClientState} {S : Snapshot} {key : String} :
    ((s.load S).conns.get? key).isSome = true ↔ key ∈ S.conns.map ConnectionInfo.key := by
  show (((S.conns.foldl loadConn _).conns).get? key).isSome = true ↔ _
  rw [foldl_loadConn_conns, isSome_get?_insertConns]
  exact or_iff_left Bool.false_ne_true

theorem size_foldl_insert_le (m : KeyedMap String ConnectionInfo) (conns : List ConnectionInfo) :
    (conns.foldl (fun m c => m.insert c.key c) m).size ≤ m.size + conns.length := by
  induction conns generalizing m with
  | nil => exact Nat.le_refl _
  | cons c cs ih =>
    have hle := KeyedMap.size_insert_le m c.key c
    have hrest := ih (m.insert c.key c)
    rw [List.foldl_cons, List.length_cons]
    omega

/-- A snapshot loads no more flows than it has. -/
theorem load_size_le (s : ClientState) (S : Snapshot) :
    (s.load S).conns.size ≤ S.conns.length := by
  show (S.conns.foldl loadConn _).conns.size ≤ _
  rw [foldl_loadConn_conns]
  have hle := size_foldl_insert_le .empty S.conns
  rw [KeyedMap.size_empty, Nat.zero_add] at hle
  exact hle

end ClientState

end TravelMode
