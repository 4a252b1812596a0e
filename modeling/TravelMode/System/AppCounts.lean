import TravelMode.Gui.Snapshot
import TravelMode.System.DisplayCap

/-!
# What the client counts per app

An app counts its open flows: one more when a flow is opened, one less when a flow that
the client has is closed. What the cap makes the client forget is not taken off.

- `count_upsertConn`, `count_removeConn`, `count_refreshRuleFlags`: what each reducer makes
  of the counts.
- `counts_conserved_iff`: exactly when every app counts the flows that are open, and has
  gone when there are none; `evicted_flow_never_closed` is a run that leaves an app behind.
-/

namespace TravelMode

namespace DisplayCap

open ClientState

/-! ## Counts -/

/-- The open flows that the client counts under an app's key: none without an entry. -/
def count (s : ClientState) (key : String) : Nat :=
  ((s.apps.get? key).map AppEntry.connections).getD 0

/-- The flows of an app that are open. -/
def Flows.liveCount (f : Flows) (key : String) : Nat := f.live.vals.countP fun c => c.appKey == key

/-- Does a connection belong to the app? -/
def one (conn : ConnectionInfo) (key : String) : Nat := if conn.appKey == key then 1 else 0

theorem liveCount_opened {f : Flows} {conn : ConnectionInfo} (key : String)
    (h : f.live.get? conn.key = none) :
    Flows.liveCount { f with live := f.live.insert conn.key conn } key =
      f.liveCount key + one conn key := by
  unfold Flows.liveCount
  dsimp only
  rw [KeyedMap.vals_insert_of_none conn h, List.countP_cons]
  rfl

theorem liveCount_closed {f : Flows} {k : String} {last : ConnectionInfo} (key : String)
    (h : f.live.get? k = some last) :
    Flows.liveCount ⟨f.live.erase k, f.closed ++ [last]⟩ key + one last key = f.liveCount key := by
  unfold Flows.liveCount
  dsimp only
  rw [(KeyedMap.vals_perm h).countP_eq, List.countP_cons]
  rfl

theorem liveCount_updated {f : Flows} {conn old : ConnectionInfo} (key : String)
    (h : f.live.get? conn.key = some old) (hsame : SameApp old conn) :
    Flows.liveCount { f with live := f.live.insert conn.key conn } key = f.liveCount key := by
  have happ : conn.appKey = old.appKey := by
    rw [ConnectionInfo.appKey, ConnectionInfo.appName, hsame.1, hsame.2]
    rfl
  unfold Flows.liveCount
  dsimp only
  rw [(KeyedMap.vals_perm h).countP_eq, KeyedMap.vals_insert, List.countP_cons, List.countP_cons,
    happ]

/-- A new flow is counted, one that the client has seen is not counted again. -/
theorem count_upsertConn (s : ClientState) (conn : ConnectionInfo) (isOpen : Bool) (key : String) :
    count (s.upsertConn conn isOpen) key =
      count s key +
        if isOpen = true ∧ s.conns.get? conn.key = none then one conn key else 0 := by
  show ((KeyedMap.get? (KeyedMap.insert _ _ _) key).map AppEntry.connections).getD 0 = _
  rw [KeyedMap.get?_insert]
  by_cases hkey : key = conn.appKey
  · have hentry : (s.appOf conn).connections = count s key := by
      rw [appOf, count, hkey]
      cases s.apps.get? conn.appKey <;> rfl
    rw [if_pos hkey, one, if_pos (beq_iff_eq.mpr hkey.symm), ← hentry]
    cases isOpen <;> cases s.conns.get? conn.key <;> rfl
  · have hother : one conn key = 0 := if_neg fun h => hkey (beq_iff_eq.mp h).symm
    rw [if_neg hkey, hother, ite_self, Nat.add_zero, count]

theorem count_releaseApp (apps : KeyedMap String AppEntry) (k key : String) :
    (((releaseApp apps k).get? key).map AppEntry.connections).getD 0 =
      ((apps.get? key).map AppEntry.connections).getD 0 - if k == key then 1 else 0 := by
  unfold releaseApp
  cases happ : apps.get? k with
  | none =>
    dsimp only
    by_cases hkey : key = k
    · rw [hkey, happ]
      exact (Nat.zero_sub _).symm
    · rw [if_neg fun h => hkey (beq_iff_eq.mp h).symm, Nat.sub_zero]
  | some app =>
    dsimp only
    by_cases hkey : key = k
    · rw [hkey, happ, if_pos (beq_self_eq_true k)]
      split
      · rw [KeyedMap.get?_insert_self]
        rfl
      · -- an entry that goes counts nothing
        rename_i hhidden
        rw [KeyedMap.get?_erase_self]
        exact (connections_of_hidden hhidden).symm
    · rw [if_neg fun h => hkey (beq_iff_eq.mp h).symm, Nat.sub_zero]
      split
      · rw [KeyedMap.get?_insert_of_ne hkey]
      · rw [KeyedMap.get?_erase_of_ne hkey]

/-- The close of a flow that the client has is counted; of others it knows nothing. -/
theorem count_removeConn (s : ClientState) (k key : String) :
    count (s.removeConn k) key =
      count s key - ((s.conns.get? k).map fun conn => one conn key).getD 0 := by
  cases hconn : s.conns.get? k with
  | none =>
    simp only [removeConn, hconn]
    rfl
  | some conn =>
    simp only [removeConn, hconn]
    exact count_releaseApp s.apps conn.appKey key

/-- Rules create and remove entries that count nothing. -/
theorem count_refreshRuleFlags (s : ClientState) (key : String) :
    count s.refreshRuleFlags key = count s key := by
  have hrules : (((s.rules.foldl addBlockedApp s.apps).get? key).map AppEntry.connections).getD 0 =
      count s key := by
    rw [get?_addBlockedApps, count]
    cases s.apps.get? key with
    | some app => rfl
    | none => cases blockRuleFor s.rules key <;> rfl
  rw [← hrules, count, get?_refreshRuleFlags]
  cases (s.rules.foldl addBlockedApp s.apps).get? key with
  | none => rfl
  | some app =>
    rw [Option.map_some, Option.filter_some]
    split
    · rfl
    · rename_i hhidden
      exact (connections_of_hidden hhidden).symm

/-! ## Entries without flows -/

/-- An entry has open flows or a Block rule. -/
def AllShown (s : ClientState) : Prop := ∀ key app, s.apps.get? key = some app → shown app = true

theorem allShown_refreshRuleFlags (s : ClientState) : AllShown s.refreshRuleFlags := by
  intro key app hget
  rw [get?_refreshRuleFlags] at hget
  exact (Option.filter_eq_some_iff.mp hget).2

theorem allShown_releaseApp {apps : KeyedMap String AppEntry} (k : String)
    (h : ∀ key app, apps.get? key = some app → shown app = true) :
    ∀ key app, (releaseApp apps k).get? key = some app → shown app = true := by
  intro key app hget
  unfold releaseApp at hget
  split at hget
  · exact h key app hget
  · dsimp only at hget
    split at hget
    · rename_i hshown
      rw [KeyedMap.get?_insert] at hget
      split at hget
      · rw [← Option.some.inj hget]
        exact hshown
      · exact h key app hget
    · rw [KeyedMap.get?_erase] at hget
      split at hget
      · cases hget
      · exact h key app hget

/-- An entry that counts a flow is shown. -/
theorem allShown_upsertConn {s : ClientState} (h : AllShown s) {conn : ConnectionInfo}
    {isOpen : Bool} (hcount : count (s.upsertConn conn isOpen) conn.appKey ≠ 0) :
    AllShown (s.upsertConn conn isOpen) := by
  intro key app hget
  by_cases hkey : key = conn.appKey
  · subst hkey
    rw [count, hget] at hcount
    simpa [shown] using Or.inl hcount
  · refine h key app ?_
    change (KeyedMap.get? (KeyedMap.insert _ _ _) key) = some app at hget
    rwa [KeyedMap.get?_insert_of_ne hkey] at hget

/-! ## Runs -/

/-- The client has the flow that is closed. -/
def CloseSeen (w : World) : Event → Prop
  | .connectionClosed key => (w.client.conns.get? key).isSome = true
  | _ => True

instance : ∀ w e, Decidable (CloseSeen w e)
  | w, .connectionClosed key => inferInstanceAs (Decidable ((w.client.conns.get? key).isSome = true))
  | _, .connectionOpened _ => isTrue trivial
  | _, .connectionUpdated _ => isTrue trivial
  | _, .processStarted _ => isTrue trivial
  | _, .processExited _ => isTrue trivial
  | _, .networkChanged _ => isTrue trivial
  | _, .ruleAdded _ => isTrue trivial
  | _, .ruleRemoved _ => isTrue trivial
  | _, .pausedChanged _ => isTrue trivial

/-- What every run keeps: no open flow is left out of the counts. -/
structure Counted (w : World) : Prop where
  tracks : Tracks w.flows w.client
  flags : w.client.FlagsOk
  shown : AllShown w.client
  le : ∀ key, w.flows.liveCount key ≤ count w.client key

theorem counted_start : Counted start where
  tracks := tracks_start
  flags _ _ h := nomatch h
  shown _ _ h := nomatch h
  le _ := Nat.zero_le _

/-- Every app counts the flows that are open. -/
def Conserved (w : World) : Prop := ∀ key, count w.client key = w.flows.liveCount key

/-- A live flow is counted in its app. -/
theorem Counted.pos {w : World} (h : Counted w) {key : String} {conn : ConnectionInfo}
    (hlive : w.flows.live.get? key = some conn) : count w.client conn.appKey ≠ 0 := by
  have hpos : 0 < w.flows.liveCount conn.appKey :=
    List.countP_pos_iff.mpr ⟨conn, KeyedMap.mem_vals_iff.mpr ⟨key, hlive⟩, beq_self_eq_true _⟩
  exact Nat.ne_of_gt (Nat.lt_of_lt_of_le hpos (h.le _))

/-- What an event about no connection does to the counts: nothing. -/
theorem count_quiet {s : ClientState} {e : Event} (he : e.connKey = none) (key : String) :
    count (s.applyEvent e) key = count s key := by
  cases e with
  | connectionOpened conn => cases he
  | connectionUpdated conn => cases he
  | connectionClosed k => cases he
  | ruleAdded rule => exact count_refreshRuleFlags _ key
  | ruleRemoved id => exact count_refreshRuleFlags _ key
  | _ => rfl

theorem allShown_quiet {s : ClientState} (h : AllShown s) {e : Event} (he : e.connKey = none) :
    AllShown (s.applyEvent e) := by
  cases e with
  | connectionOpened conn => cases he
  | connectionUpdated conn => cases he
  | connectionClosed k => cases he
  | ruleAdded rule => exact allShown_refreshRuleFlags _
  | ruleRemoved id => exact allShown_refreshRuleFlags _
  | _ => exact h

theorem CloseSeen.quiet {w : World} {e : Event} (he : e.connKey = none) : CloseSeen w e := by
  cases e with
  | connectionClosed k => cases he
  | _ => trivial

/-- An event that counts as many flows more as are open more leaves the counts as conserved
as they were. -/
theorem Counted.even {w w' : World} {e : Event} (h : Counted w)
    (htracks : Tracks w'.flows w'.client) (hflags : w'.client.FlagsOk)
    (hshown : AllShown w'.client) (heven : ∀ key, count w'.client key + w.flows.liveCount key =
      count w.client key + w'.flows.liveCount key) (hseen : CloseSeen w e) :
    Counted w' ∧ (Conserved w' ↔ Conserved w ∧ CloseSeen w e) := by
  obtain ⟨hle, hiff⟩ := Meter.even_step heven h.le
  exact ⟨⟨htracks, hflags, hshown, hle⟩, hiff.trans (and_iff_left hseen).symm⟩

/-- The app of an evicted flow counts on when the flow is closed. -/
theorem Counted.forgotten {w : World} (h : Counted w) {k : String} {last : ConnectionInfo}
    {f : Flows} (htracks : Tracks f w.client)
    (hlive : ∀ key, f.liveCount key + one last key = w.flows.liveCount key)
    (hget : w.client.conns.get? k = none) :
    Counted ⟨f, w.client⟩ ∧
      (Conserved ⟨f, w.client⟩ ↔ Conserved w ∧ CloseSeen w (.connectionClosed k)) := by
  refine ⟨⟨htracks, h.flags, h.shown, fun key => ?_⟩, iff_of_false ?_ ?_⟩
  · have hle := h.le key
    have hl := hlive key
    show f.liveCount key ≤ count w.client key
    omega
  · intro hcons
    have hself : one last last.appKey = 1 := if_pos (beq_self_eq_true _)
    have hle := h.le last.appKey
    have hl := hlive last.appKey
    have hc : count w.client last.appKey = f.liveCount last.appKey := hcons last.appKey
    omega
  · rintro ⟨-, hseen⟩
    rw [CloseSeen, hget] at hseen
    cases hseen

/-- **Step lemma**: counts never fall short, and a step leaves them conserved exactly if
they were, and the step closes no flow that the client has forgotten. -/
theorem counted_step {w w' : World} {e : Event} (h : Counted w)
    (hs : step SameApp w e = some w') :
    Counted w' ∧ (Conserved w' ↔ Conserved w ∧ CloseSeen w e) := by
  obtain ⟨f, hf, rfl⟩ := Option.map_eq_some_iff.mp hs
  have htracks := tracks_step h.tracks hf
  have hflags := applyEvent_flagsOk h.flags e
  rcases Flows.step_cases hf with ⟨conn, rfl, hnew, rfl⟩ | ⟨conn, old, rfl, hold, hsame, rfl⟩ |
    ⟨k, last, rfl, hlast, rfl⟩ | ⟨he, rfl⟩
  · have hnone : w.client.conns.get? conn.key = none := by
      refine Option.eq_none_iff_forall_ne_some.mpr fun c hc => ?_
      rw [h.tracks.live _ _ hc] at hnew
      cases hnew
    have hcount : ∀ key, count (w.client.upsertConn conn true) key =
        count w.client key + one conn key := by
      intro key
      rw [count_upsertConn, if_pos ⟨rfl, hnone⟩]
    have hself : one conn conn.appKey = 1 := if_pos (beq_self_eq_true _)
    refine h.even htracks hflags (allShown_upsertConn h.shown ?_) (fun key => ?_) trivial
    · rw [hcount, hself]
      exact Nat.succ_ne_zero _
    · show count (w.client.upsertConn conn true) key + w.flows.liveCount key = _
      rw [hcount, liveCount_opened key hnew]
      omega
  · have happ : conn.appKey = old.appKey := by
      rw [ConnectionInfo.appKey, ConnectionInfo.appName, hsame.1, hsame.2]
      rfl
    have hcount : ∀ key, count (w.client.upsertConn conn false) key = count w.client key := by
      intro key
      rw [count_upsertConn, if_neg fun hand => Bool.false_ne_true hand.1, Nat.add_zero]
    refine h.even htracks hflags (allShown_upsertConn h.shown ?_) (fun key => ?_) trivial
    · rw [hcount, happ]
      exact h.pos hold
    · show count (w.client.upsertConn conn false) key + w.flows.liveCount key = _
      rw [hcount, liveCount_updated key hold hsame]
  · have hlive := fun key => liveCount_closed (k := k) key hlast
    cases hget : w.client.conns.get? k with
    | some conn =>
      obtain rfl : conn = last := Option.some.inj ((h.tracks.live k conn hget).symm.trans hlast)
      refine h.even htracks hflags ?_ (fun key => ?_)
        (Option.isSome_iff_exists.mpr ⟨conn, hget⟩)
      · show AllShown (w.client.removeConn k)
        simp only [removeConn, hget]
        exact allShown_releaseApp conn.appKey h.shown
      · have hcount : count (w.client.removeConn k) key = count w.client key - one conn key := by
          rw [count_removeConn, hget]
          rfl
        have hle := h.le key
        have hl := hlive key
        show count (w.client.removeConn k) key + w.flows.liveCount key =
          count w.client key + Flows.liveCount ⟨w.flows.live.erase k, w.flows.closed ++ [conn]⟩ key
        omega
    | none =>
      have hclient : w.client.applyEvent (.connectionClosed k) = w.client := by
        show w.client.removeConn k = w.client
        simp only [removeConn, hget]
      rw [hclient] at htracks ⊢
      exact h.forgotten htracks hlive hget
  · refine h.even htracks hflags (allShown_quiet h.shown he) (fun key => ?_)
      (CloseSeen.quiet he)
    show count (w.client.applyEvent e) key + w.flows.liveCount key = _
    rw [count_quiet he]

/-- **Run lemma.** -/
theorem counted_run {events : List Event} {w : World}
    (hrun : Runs.run (step SameApp) start events = some w) :
    Counted w ∧ (Conserved w ↔ Runs.AlongRun (step SameApp) CloseSeen start events) :=
  ⟨Runs.run_invariant (fun h hs => (counted_step h hs).1) counted_start hrun,
    Runs.run_iff_along (fun h hs => (counted_step h hs).1) (fun h hs => (counted_step h hs).2)
      counted_start (fun _ => rfl) hrun⟩

/-- Every app counts the flows of it that are open, and without open flows it is there for
a Block rule alone, exactly if the client had every flow whose close it was told. -/
theorem counts_conserved_iff {events : List Event} {w : World}
    (hrun : Runs.run (step SameApp) start events = some w) :
    ((∀ key app, w.client.apps.get? key = some app →
        app.connections = w.flows.liveCount key) ∧
      ∀ key app, w.client.apps.get? key = some app → w.flows.liveCount key = 0 →
        ∃ exe, app.exe = some exe ∧ ∃ rule ∈ w.client.rules, rule.blocks exe = true) ↔
    Runs.AlongRun (step SameApp) CloseSeen start events := by
  obtain ⟨hcounted, hiff⟩ := counted_run hrun
  have hcount : ∀ key app, w.client.apps.get? key = some app →
      count w.client key = app.connections := by
    intro key app hget
    rw [count, hget]
    rfl
  rw [← hiff]
  constructor
  · rintro ⟨hconns, -⟩ key
    cases hget : w.client.apps.get? key with
    | some app => rw [hcount key app hget, hconns key app hget]
    | none =>
      -- no entry: then the client counts nothing, and no more is live
      have hle := hcounted.le key
      rw [count, hget] at hle ⊢
      exact (Nat.le_zero.mp hle).symm
  · intro hcons
    have hconns : ∀ key app, w.client.apps.get? key = some app →
        app.connections = w.flows.liveCount key := by
      intro key app hget
      rw [← hcount key app hget, hcons key]
    refine ⟨hconns, fun key app hget hnone => ?_⟩
    -- an entry without flows is shown for its Block rule only
    have hblocked : app.blocked = true := by
      have hshown := hcounted.shown key app hget
      rw [shown, hconns key app hget, hnone] at hshown
      simpa using hshown
    exact (hcounted.flags.blocked_iff hget).mp hblocked

/-- Two flows of one app are opened and closed, and nothing of it is left. -/
def openedAndClosed : List Event :=
  [.connectionOpened (flow 1 100), .connectionOpened (flow 2 50), .connectionUpdated (flow 1 130),
    .connectionClosed (flow 2 50).key, .connectionClosed (flow 1 130).key]

theorem openedAndClosed_runs : (Runs.run (step SameApp) start openedAndClosed).isSome = true := by
  decide +kernel

theorem counts_conserved_iff_openedAndClosed :
    let w := (Runs.run (step SameApp) start openedAndClosed).get openedAndClosed_runs
    w.client.apps.keys = [] ∧ ∀ key app, w.client.apps.get? key = some app →
      app.connections = w.flows.liveCount key :=
  ⟨by decide +kernel, ((counts_conserved_iff (Option.some_get openedAndClosed_runs).symm).mpr
    (by decide +kernel)).1⟩

/-- 501 flows are opened, and the first is closed. -/
def closedAfterEviction : List Event :=
  overCap.map .connectionOpened ++ [.connectionClosed (flow 0 100).key]

/-- The app counts one flow more than are open. -/
theorem evicted_flow_never_closed :
    ∃ w app, Runs.run (step SameApp) start closedAfterEviction = some w ∧
      w.client.apps.get? (flow 0 100).appKey = some app ∧
      app.connections = w.flows.liveCount (flow 0 100).appKey + 1 := by
  obtain ⟨w, hrun, hlive, hmissing⟩ := @overCap_evicted SameApp _
  have hopened : Conserved w := by
    refine (counted_run hrun).2.mpr (Runs.alongRun_of_forall fun e he m => ?_)
    obtain ⟨conn, -, rfl⟩ := List.mem_map.mp he
    trivial
  let flows : Flows := ⟨w.flows.live.erase (flow 0 100).key, w.flows.closed ++ [flow 0 100]⟩
  -- the client does not know the flow that closes any more
  have hstep : step SameApp w (.connectionClosed (flow 0 100).key) = some ⟨flows, w.client⟩ := by
    have hsame : w.client.applyEvent (.connectionClosed (flow 0 100).key) = w.client := by
      show w.client.removeConn _ = w.client
      simp only [removeConn, hmissing]
    rw [step, Flows.step_closed hlive, hsame]
    rfl
  have hrun' : Runs.run (step SameApp) start closedAfterEviction = some ⟨flows, w.client⟩ :=
    Runs.run_snoc.mpr ⟨w, hrun, hstep⟩
  have hself : one (flow 0 100) (flow 0 100).appKey = 1 := if_pos (beq_self_eq_true _)
  have hcount := hopened (flow 0 100).appKey
  rw [← liveCount_closed (flow 0 100).appKey hlive, hself] at hcount
  cases hget : w.client.apps.get? (flow 0 100).appKey with
  | none =>
    rw [count, hget] at hcount
    cases hcount
  | some app =>
    rw [count, hget] at hcount
    exact ⟨⟨flows, w.client⟩, app, hrun', hget, hcount⟩

end DisplayCap

end TravelMode
