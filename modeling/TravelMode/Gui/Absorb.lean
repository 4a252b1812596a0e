import TravelMode.Gui.Eviction
import TravelMode.Gui.Snapshot

/-!
# Events that a snapshot has already absorbed

The client subscribes before it fetches, so an event published in between reaches it
twice: in the snapshot, and again on the stream. This is the reducer's side of it.

- `Absorbed`: what a snapshot says of an event that it has absorbed.
- `SettledFrom`: what is asked of the window besides. A Block rule that was replaced
  before the snapshot comes back with its `RuleAdded`, and an app that the snapshot
  does not show with the event of its flow.
- `replay_unchanged`: folding the absorbed events of such a window changes neither
  flows nor traffic, counts, flags and totals. The invariant of the fold is `Kept`.
-/

namespace TravelMode

namespace Overlap

open ClientState

/-! ## The condition on a window -/

/-- Some rule of the snapshot blocks the executable. -/
def blockedIn (S : Snapshot) (exe : PathBuf) : Bool := S.rules.any fun r => r.blocks exe

/-- What the snapshot has to say of one event of the window, `later` being the rest of
it: it shows the app of the flow; and a Block rule that was added is in force under
an app that it shows, or is removed in the rest of the window. -/
def SettledEvent (S : Snapshot) (later : List Event) : Event → Prop
  | .connectionOpened conn => conn.appKey ∈ S.appKeys
  | .connectionUpdated conn => conn.appKey ∈ S.appKeys
  | .ruleAdded rule => rule.action = .block →
      if blockedIn S rule.exePath = true then rule.appKey ∈ S.appKeys
      else .ruleRemoved rule.id ∈ later
  | _ => True

/-- `SettledEvent` of every event. -/
def SettledFrom (S : Snapshot) : List Event → Prop
  | [] => True
  | e :: later => SettledEvent S later e ∧ SettledFrom S later

instance (S : Snapshot) (later : List Event) (e : Event) : Decidable (SettledEvent S later e) := by
  cases e <;> unfold SettledEvent <;> infer_instance

instance decidableSettledFrom (S : Snapshot) :
    (window : List Event) → Decidable (SettledFrom S window)
  | [] => isTrue trivial
  | e :: later =>
    haveI := decidableSettledFrom S later
    inferInstanceAs (Decidable (SettledEvent S later e ∧ SettledFrom S later))

theorem SettledFrom.at {S : Snapshot} {pre later : List Event} {e : Event}
    (h : SettledFrom S (pre ++ e :: later)) : SettledEvent S later e := by
  induction pre with
  | nil => exact h.1
  | cons _ _ ih => exact ih h.2

/-- The event is part of what led to the snapshot. -/
def Absorbed (S : Snapshot) : Event → Prop
  | .connectionOpened conn => (S.conns.find? fun c => c.key == conn.key) = some conn
  | .connectionUpdated conn => (S.conns.find? fun c => c.key == conn.key) = some conn
  | .connectionClosed key => (S.conns.find? fun c => c.key == key) = none
  | .ruleAdded rule => ∀ r ∈ S.rules, r.id = rule.id → r = rule
  | .ruleRemoved id => ∀ r ∈ S.rules, r.id ≠ id
  | _ => True

/-! ## Folding one absorbed event -/

/-- What the window must not change about an app. -/
structure SameTraffic (app app₀ : AppEntry) : Prop where
  sent : app.bytesSent = app₀.bytesSent
  recv : app.bytesRecv = app₀.bytesRecv
  connections : app.connections = app₀.connections
  exe : app.exe = app₀.exe

theorem SameTraffic.refl (app : AppEntry) : SameTraffic app app := ⟨rfl, rfl, rfl, rfl⟩

/-- Folding `done` onto the snapshot's state `s₀` has led to `s`. -/
structure Kept (S : Snapshot) (s₀ : ClientState) (done : List Event) (s : ClientState) :
    Prop where
  conns : ∀ key, s.conns.get? key = s₀.conns.get? key
  size : s.conns.size ≤ maxConnections
  up : s.totalUp = s₀.totalUp
  down : s.totalDown = s₀.totalDown
  flags : s.FlagsOk
  rules : ∀ r ∈ S.rules, r ∈ s.rules
  /-- A rule that is not the snapshot's was added by the window and is not removed yet. -/
  origin : ∀ r ∈ s.rules, r ∈ S.rules ∨
    ∃ pre post, done = pre ++ .ruleAdded r :: post ∧ .ruleRemoved r.id ∉ post
  apps : ∀ key app₀, s₀.apps.get? key = some app₀ →
    ∃ app, s.apps.get? key = some app ∧ SameTraffic app app₀
  /-- An app that is not the snapshot's is shown for a Block rule that the window added. -/
  extra : ∀ key app, s.apps.get? key = some app → s₀.apps.get? key = none →
    shown app = true ∧ app.connections = 0 ∧
      ∃ r, .ruleAdded r ∈ done ∧ r.action = .block ∧ r.appKey = key ∧ app.exe = some r.exePath

/-- An event that says of a flow what the client has leaves the flows, the totals and
the app alone. -/
theorem upsertConn_same {s : ClientState} {conn : ConnectionInfo} {app : AppEntry}
    (hconn : s.conns.get? conn.key = some conn) (hsize : s.conns.size ≤ maxConnections)
    (happ : s.apps.get? conn.appKey = some app) (hflags : s.FlagsOk) (isOpen : Bool) :
    let s' := s.upsertConn conn isOpen
    (∀ key, s'.conns.get? key = s.conns.get? key) ∧ s'.conns.size = s.conns.size ∧
      s'.totalUp = s.totalUp ∧ s'.totalDown = s.totalDown ∧
      ∀ key, s'.apps.get? key = s.apps.get? key := by
  -- the counters are those last seen, so nothing is added
  have hsent : s.deltaSent conn = 0 := by
    rw [deltaSent, hconn]
    exact Nat.sub_self _
  have hrecv : s.deltaRecv conn = 0 := by
    rw [deltaRecv, hconn]
    exact Nat.sub_self _
  have hinsert : (s.conns.insert conn.key conn).size = s.conns.size :=
    KeyedMap.size_insert_of_some conn hconn
  have hkept : (s.upsertConn conn isOpen).conns = s.conns.insert conn.key conn := by
    simp only [upsertConn]
    rw [enforceConnCap_of_le (hinsert ▸ hsize)]
  have happOf : s.appOf conn = app := by
    rw [appOf, happ]
    rfl
  -- the flow is not new, so the entry is inserted as it was
  have hentry : (s.upsertConn conn isOpen).apps = s.apps.insert conn.appKey app := by
    simp only [upsertConn, hconn, happOf, hsent, hrecv, Option.isSome_some, Nat.add_zero,
      Bool.not_true, Bool.and_false, Bool.false_eq_true, if_false]
    rw [hflags _ _ happ]
  refine ⟨fun key => ?_, ?_, ?_, ?_, fun key => ?_⟩
  · rw [hkept, KeyedMap.get?_insert]
    by_cases hk : key = conn.key
    · rw [if_pos hk, hk, hconn]
    · rw [if_neg hk]
  · rw [hkept, hinsert]
  · show s.totalUp + s.deltaSent conn = _
    rw [hsent, Nat.add_zero]
  · show s.totalDown + s.deltaRecv conn = _
    rw [hrecv, Nat.add_zero]
  · rw [hentry, KeyedMap.get?_insert]
    by_cases hk : key = conn.appKey
    · rw [if_pos hk, hk, happ]
    · rw [if_neg hk]

theorem origin_snoc {S : Snapshot} {done : List Event} {r : Rule} {e : Event}
    (h : r ∈ S.rules ∨ ∃ pre post, done = pre ++ .ruleAdded r :: post ∧ .ruleRemoved r.id ∉ post)
    (he : e ≠ .ruleRemoved r.id) :
    r ∈ S.rules ∨
      ∃ pre post, done ++ [e] = pre ++ .ruleAdded r :: post ∧ .ruleRemoved r.id ∉ post := by
  rcases h with hmem | ⟨pre, post, rfl, hpost⟩
  · exact .inl hmem
  · refine .inr ⟨pre, post ++ [e], ?_, ?_⟩
    · rw [List.append_assoc, List.cons_append]
    · rw [List.mem_append, List.mem_singleton, not_or]
      exact ⟨hpost, fun h => he h.symm⟩

/-- An event that leaves rules, flows, totals and apps alone. -/
theorem Kept.idle {S : Snapshot} {s₀ s s' : ClientState} {done : List Event} {e : Event}
    (h : Kept S s₀ done s) (hrules : s'.rules = s.rules)
    (hconns : ∀ key, s'.conns.get? key = s.conns.get? key) (hsize : s'.conns.size = s.conns.size)
    (hup : s'.totalUp = s.totalUp) (hdown : s'.totalDown = s.totalDown)
    (happs : ∀ key, s'.apps.get? key = s.apps.get? key) (he : ∀ id, e ≠ .ruleRemoved id) :
    Kept S s₀ (done ++ [e]) s' where
  conns key := (hconns key).trans (h.conns key)
  size := hsize ▸ h.size
  up := hup.trans h.up
  down := hdown.trans h.down
  flags key app hget := by
    rw [hrules]
    exact h.flags key app (happs key ▸ hget)
  rules r hr := hrules ▸ h.rules r hr
  origin r hr := origin_snoc (h.origin r (hrules ▸ hr)) (he r.id)
  apps key app₀ hget := by
    rw [happs]
    exact h.apps key app₀ hget
  extra key app hget hnone := by
    obtain ⟨hshown, hzero, r, hr, hrest⟩ := h.extra key app (happs key ▸ hget) hnone
    exact ⟨hshown, hzero, r, List.mem_append_left _ hr, hrest⟩

/-- A refresh under rules that include the snapshot's keeps the snapshot's apps, and
adds apps for Block rules of the window only. -/
theorem Kept.refresh {S : Snapshot} {s₀ s : ClientState} {done : List Event} {e : Event}
    {R : List Rule} (h : Kept S s₀ done s) (hflags₀ : s₀.FlagsOk) (hrules₀ : s₀.rules = S.rules)
    (hshown₀ : ∀ key app, s₀.apps.get? key = some app → shown app = true)
    (hkeys : ∀ r ∈ S.rules, r.action = .block → ∃ app, s₀.apps.get? r.appKey = some app)
    (hR : ∀ r ∈ S.rules, r ∈ R)
    (horigin : ∀ r ∈ R, r ∈ S.rules ∨
      ∃ pre post, done ++ [e] = pre ++ .ruleAdded r :: post ∧ .ruleRemoved r.id ∉ post) :
    Kept S s₀ (done ++ [e]) (refreshRuleFlags { s with rules := R }) where
  conns := h.conns
  size := h.size
  up := h.up
  down := h.down
  flags := refreshRuleFlags_flagsOk _
  rules := hR
  origin := horigin
  apps key app₀ hget := by
    obtain ⟨app, happ, hsame⟩ := h.apps key app₀ hget
    have hadd := @get?_addBlockedApps_of_some R s.apps key app happ
    refine ⟨_, get?_refreshRuleFlags_of_shown hadd ?_, ⟨hsame.sent, hsame.recv, hsame.connections,
      hsame.exe⟩⟩
    rw [shown_iff]
    rcases shown_iff.mp (hshown₀ key app₀ hget) with hconn | hblocked
    · exact .inl fun hzero => hconn (hsame.connections.symm.trans hzero)
    · -- blocked by a rule of the snapshot, which is still there
      obtain ⟨exe, hexe, r, hr, hb⟩ := (hflags₀.blocked_iff hget).mp hblocked
      refine .inr ((applyRuleFlags_blocked (hsame.exe.trans hexe)).mpr ⟨r, hR r ?_, hb⟩)
      rw [← hrules₀]
      exact hr
  extra key app hget hnone := by
    obtain ⟨hshown, old, rfl, hold⟩ := get?_refreshRuleFlags_eq_some hget
    refine ⟨hshown, ?_⟩
    rcases hold with hold | ⟨r, hr, haction, hkey, rfl⟩
    · obtain ⟨-, hzero, r, hr, hrest⟩ := h.extra key old hold hnone
      exact ⟨hzero, r, List.mem_append_left _ hr, hrest⟩
    · refine ⟨rfl, r, ?_, haction, hkey, rfl⟩
      rcases horigin r hr with hS | ⟨pre, post, hdone, -⟩
      · obtain ⟨app₀, happ₀⟩ := hkeys r hS haction
        rw [hkey, hnone] at happ₀
        cases happ₀
      · rw [hdone]
        exact List.mem_append_right _ List.mem_cons_self

section Fold

variable {S : Snapshot} {s₀ : ClientState}

/-- What is known of the state right after the snapshot. -/
structure Loaded (S : Snapshot) (s₀ : ClientState) : Prop where
  flags : s₀.FlagsOk
  rules : s₀.rules = S.rules
  conns : ∀ key, s₀.conns.get? key = S.conns.find? fun c => c.key == key
  size : s₀.conns.size ≤ maxConnections
  shown : ∀ key app, s₀.apps.get? key = some app → shown app = true
  keys : ∀ key ∈ S.appKeys, ∃ app, s₀.apps.get? key = some app

theorem loaded_load (s : ClientState) {S : Snapshot}
    (hnodup : (S.conns.map ConnectionInfo.key).Nodup) (hsize : S.conns.length ≤ maxConnections)
    (htop : ∀ u ∈ S.top, 0 < u.connections) : Loaded S (s.load S) where
  flags := applySnapshot_flagsOk _ _ _ _ _ _
  rules := load_rules s S
  conns := load_conns hnodup
  size := Nat.le_trans (load_size_le s S) hsize
  shown _ _ h := load_shown h
  keys _ h := load_apps_of_mem htop h

theorem Loaded.kept (h : Loaded S s₀) : Kept S s₀ [] s₀ where
  conns _ := rfl
  size := h.size
  up := rfl
  down := rfl
  flags := h.flags
  rules r hr := h.rules ▸ hr
  origin r hr := .inl (h.rules ▸ hr)
  apps _ app₀ hget := ⟨app₀, hget, .refl app₀⟩
  extra key app hget hnone := by
    rw [hget] at hnone
    cases hnone

theorem Loaded.ruleKeys (h : Loaded S s₀) (r : Rule) (hr : r ∈ S.rules)
    (haction : r.action = .block) : ∃ app, s₀.apps.get? r.appKey = some app := by
  refine h.keys _ (List.mem_append_right _ (List.mem_map.mpr ⟨r, ?_, rfl⟩))
  exact List.mem_filter.mpr ⟨hr, decide_eq_true haction⟩

/-- A flow that the snapshot has as the event says it. -/
theorem Kept.upsertConn {s : ClientState} {done : List Event} {e : Event} {conn : ConnectionInfo}
    (hload : Loaded S s₀) (h : Kept S s₀ done s)
    (hconn : (S.conns.find? fun c => c.key == conn.key) = some conn)
    (hkey : conn.appKey ∈ S.appKeys) (he : ∀ id, e ≠ .ruleRemoved id) (isOpen : Bool) :
    Kept S s₀ (done ++ [e]) (s.upsertConn conn isOpen) := by
  obtain ⟨app₀, happ₀⟩ := hload.keys _ hkey
  obtain ⟨app, happ, -⟩ := h.apps _ _ happ₀
  have hget : s.conns.get? conn.key = some conn := by
    rw [h.conns, hload.conns]
    exact hconn
  obtain ⟨hconns, hsize, hup, hdown, happs⟩ := upsertConn_same hget h.size happ h.flags isOpen
  exact h.idle rfl hconns hsize hup hdown happs he

/-- A rule that the snapshot has, if it has one under this id. -/
theorem Kept.ruleAdded {s : ClientState} {done : List Event} {rule : Rule} (hload : Loaded S s₀)
    (h : Kept S s₀ done s) (habs : ∀ r ∈ S.rules, r.id = rule.id → r = rule) :
    Kept S s₀ (done ++ [.ruleAdded rule]) (s.applyEvent (.ruleAdded rule)) := by
  refine h.refresh hload.flags hload.rules hload.shown hload.ruleKeys ?_ ?_
  · intro r hr
    by_cases hid : r.id = rule.id
    · rw [habs r hr hid]
      exact List.mem_append_right _ (List.mem_singleton.mpr rfl)
    · refine List.mem_append_left _ (List.mem_filter.mpr ⟨h.rules r hr, ?_⟩)
      exact bne_iff_ne.mpr hid
  · intro r hr
    rcases List.mem_append.mp hr with hr | hr
    · exact origin_snoc (h.origin r (List.mem_filter.mp hr).1) (by rintro ⟨⟩)
    · rw [List.mem_singleton.mp hr]
      exact .inr ⟨done, [], rfl, List.not_mem_nil⟩

/-- A rule that the snapshot no longer has. -/
theorem Kept.ruleRemoved {s : ClientState} {done : List Event} {id : Nat} (hload : Loaded S s₀)
    (h : Kept S s₀ done s) (habs : ∀ r ∈ S.rules, r.id ≠ id) :
    Kept S s₀ (done ++ [.ruleRemoved id]) (s.applyEvent (.ruleRemoved id)) := by
  refine h.refresh hload.flags hload.rules hload.shown hload.ruleKeys ?_ ?_
  · intro r hr
    exact List.mem_filter.mpr ⟨h.rules r hr, bne_iff_ne.mpr (habs r hr)⟩
  · intro r hr
    obtain ⟨hr, hid⟩ := List.mem_filter.mp hr
    refine origin_snoc (h.origin r hr) fun heq => ?_
    rw [bne_iff_ne] at hid
    exact hid (Event.ruleRemoved.inj heq).symm

/-- **Step lemma**: an absorbed event of a settled window keeps everything. -/
theorem Kept.applyEvent {s : ClientState} {done later : List Event} {e : Event}
    (hload : Loaded S s₀) (h : Kept S s₀ done s) (habs : Absorbed S e)
    (hset : SettledEvent S later e) : Kept S s₀ (done ++ [e]) (s.applyEvent e) := by
  cases e with
  | connectionOpened conn => exact h.upsertConn hload habs hset (by rintro id ⟨⟩) true
  | connectionUpdated conn => exact h.upsertConn hload habs hset (by rintro id ⟨⟩) false
  | connectionClosed key =>
    -- the snapshot does not have the flow any more
    have hnone : s.conns.get? key = none := by
      rw [h.conns, hload.conns]
      exact habs
    have hsame : s.applyEvent (.connectionClosed key) = s := by
      show s.removeConn key = s
      rw [removeConn, hnone]
    rw [hsame]
    exact h.idle rfl (fun _ => rfl) rfl rfl rfl (fun _ => rfl) (by rintro id ⟨⟩)
  | ruleAdded rule => exact h.ruleAdded hload habs
  | ruleRemoved id => exact h.ruleRemoved hload habs
  | pausedChanged paused =>
    exact h.idle rfl (fun _ => rfl) rfl rfl rfl (fun _ => rfl) (by rintro id ⟨⟩)
  | networkChanged network =>
    exact h.idle rfl (fun _ => rfl) rfl rfl rfl (fun _ => rfl) (by rintro id ⟨⟩)
  | processStarted info =>
    exact h.idle rfl (fun _ => rfl) rfl rfl rfl (fun _ => rfl) (by rintro id ⟨⟩)
  | processExited pid =>
    exact h.idle rfl (fun _ => rfl) rfl rfl rfl (fun _ => rfl) (by rintro id ⟨⟩)

/-- **The fold**: by induction on what is left of the window. -/
theorem Kept.replay {s : ClientState} {done rest : List Event} (hload : Loaded S s₀)
    (h : Kept S s₀ done s) (habs : ∀ e ∈ rest, Absorbed S e) (hset : SettledFrom S rest) :
    Kept S s₀ (done ++ rest) (s.replay rest) := by
  induction rest generalizing s done with
  | nil =>
    rw [List.append_nil]
    exact h
  | cons e rest ih =>
    have hstep := h.applyEvent hload (habs e List.mem_cons_self) hset.1
    have hrest := ih hstep (fun e' he' => habs e' (List.mem_cons_of_mem _ he')) hset.2
    rw [List.append_assoc] at hrest
    exact hrest

/-! ## What is unchanged at the end of the window -/

/-- Flows, traffic and connection counts of every app, blocked flags and totals are the
same in the two states. -/
structure Unchanged (s s' : ClientState) : Prop where
  conns : ∀ key, s'.conns.get? key = s.conns.get? key
  apps : ∀ key, ((s'.apps.get? key).map fun app =>
      (app.bytesSent, app.bytesRecv, app.connections, app.blocked)) =
    (s.apps.get? key).map fun app =>
      (app.bytesSent, app.bytesRecv, app.connections, app.blocked)
  up : s'.totalUp = s.totalUp
  down : s'.totalDown = s.totalDown

/-- At the end the rules block what the snapshot's rules block. -/
theorem Kept.blocks_iff {s : ClientState} {window : List Event} (h : Kept S s₀ window s)
    (hset : SettledFrom S window) (exe : PathBuf) :
    (∃ r ∈ s.rules, r.blocks exe = true) ↔ blockedIn S exe = true := by
  rw [blockedIn, List.any_eq_true]
  constructor
  · rintro ⟨r, hr, hb⟩
    rcases h.origin r hr with hS | ⟨pre, post, rfl, hpost⟩
    · exact ⟨r, hS, hb⟩
    · obtain ⟨haction, hpath⟩ := Rule.blocks_iff.mp hb
      have hsettled := hset.at haction
      by_cases hin : blockedIn S r.exePath = true
      · obtain ⟨r', hr', hb'⟩ := List.any_eq_true.mp hin
        exact ⟨r', hr', Rule.blocks_congr hpath r' ▸ hb'⟩
      · rw [if_neg hin] at hsettled
        exact absurd hsettled hpost
  · rintro ⟨r, hr, hb⟩
    exact ⟨r, h.rules r hr, hb⟩

/-- At the end there is no app that the snapshot does not show. -/
theorem Kept.no_extra {s : ClientState} {window : List Event} (hload : Loaded S s₀)
    (h : Kept S s₀ window s) (hset : SettledFrom S window) {key : String} {app : AppEntry}
    (hget : s.apps.get? key = some app) : ∃ app₀, s₀.apps.get? key = some app₀ := by
  by_contra hnone
  have hnone : s₀.apps.get? key = none := by
    rw [Option.eq_none_iff_forall_ne_some]
    exact fun app₀ happ₀ => hnone ⟨app₀, happ₀⟩
  obtain ⟨hshown, hzero, r, hr, haction, hkey, hexe⟩ := h.extra key app hget hnone
  have hblocked : app.blocked = true := by
    rcases shown_iff.mp hshown with hconn | hblocked
    · exact absurd hzero hconn
    · exact hblocked
  obtain ⟨exe, hexe', hrule⟩ := (h.flags.blocked_iff hget).mp hblocked
  rw [hexe] at hexe'
  cases hexe'
  have hin : blockedIn S r.exePath = true := (h.blocks_iff hset _).mp hrule
  obtain ⟨pre, post, rfl⟩ := List.append_of_mem hr
  have hsettled := hset.at haction
  rw [if_pos hin, hkey] at hsettled
  obtain ⟨app₀, happ₀⟩ := hload.keys key hsettled
  rw [hnone] at happ₀
  cases happ₀

theorem Kept.unchanged {s : ClientState} {window : List Event} (hload : Loaded S s₀)
    (h : Kept S s₀ window s) (hset : SettledFrom S window) : Unchanged s₀ s where
  conns := h.conns
  up := h.up
  down := h.down
  apps key := by
    cases hget₀ : s₀.apps.get? key with
    | none =>
      cases hget : s.apps.get? key with
      | none => rfl
      | some app =>
        obtain ⟨app₀, happ₀⟩ := h.no_extra hload hset hget
        rw [hget₀] at happ₀
        cases happ₀
    | some app₀ =>
      obtain ⟨app, hget, hsame⟩ := h.apps key app₀ hget₀
      have hblocked : app.blocked = app₀.blocked := by
        rw [Bool.eq_iff_iff, h.flags.blocked_iff hget, hload.flags.blocked_iff hget₀, hsame.exe]
        refine exists_congr fun exe => and_congr_right fun _ => ?_
        rw [h.blocks_iff hset, blockedIn, List.any_eq_true, hload.rules]
      rw [hget, Option.map_some, Option.map_some, hsame.sent, hsame.recv, hsame.connections,
        hblocked]

/-- **Folding absorbed events**: events that the snapshot absorbed and has settled change
nothing. -/
theorem replay_unchanged (hload : Loaded S s₀) {window : List Event}
    (habs : ∀ e ∈ window, Absorbed S e) (hset : SettledFrom S window) :
    Unchanged s₀ (s₀.replay window) :=
  (hload.kept.replay hload habs hset).unchanged hload hset

end Fold

end Overlap

end TravelMode
