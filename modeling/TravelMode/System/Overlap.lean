import TravelMode.Daemon.RuleFile
import TravelMode.Daemon.Tasks
import TravelMode.Gui.Absorb
import TravelMode.Lib.Runs

/-!
# The overlap of subscription and snapshot

- `World`: the daemon with its handlers' two phases — a change is committed, its
  event published later — and every event published so far. A *window* is any tail
  of what was published up to the snapshot.
- `Inv`: the map of flows is the fold of the published events, and no event
  contradicts the rule store. Every action keeps it (`inv_step`).
- `overlap_unchanged`: for every run, folding a settled window onto the snapshot that
  it ends at changes nothing; `open_close_counted_twice` is a run whose window is not
  settled.
-/

namespace TravelMode

namespace Overlap

open ClientState

/-! ## The daemon up to the snapshot -/

/-- The daemon, the events that handlers have still to publish, and those published. -/
structure World where
  daemon : DaemonState
  outbox : List Event
  published : List Event

inductive Action where
  | perform (t : Task)
  /-- Some handler publishes the event at this position of the outbox. -/
  | publish (i : Nat)

def step (w : World) : Action → Option World
  | .perform t =>
    (w.daemon.perform t).map fun (daemon, events) =>
      if t.publishesLocked then
        { w with daemon := daemon, published := w.published ++ events }
      else { w with daemon := daemon, outbox := w.outbox ++ events }
  | .publish i =>
    w.outbox[i]?.map fun e =>
      { w with outbox := w.outbox.eraseIdx i, published := w.published ++ [e] }

/-- A daemon that has just started on its rule store. -/
def start (rules : Inner) : World := ⟨.new rules, [], []⟩

/-- The snapshot is the daemon's state: its maps, each in some iteration order. -/
structure TakenFrom (d : DaemonState) (env : Env) (S : Snapshot) : Prop where
  status : S.status = status d env
  network : S.network = d.network.getD emptyNetwork
  top : ∃ order, order.Perm d.connections.vals ∧ S.top = topApps d.rules env.now order
  conns : S.conns.Perm d.connections.vals
  rules : S.rules = d.rules.list

/-- An event says of the rules what their store says. -/
def RuleEventOk (st : Inner) : Event → Prop
  | .ruleAdded rule => rule.id < st.nextId ∧ ∀ r ∈ st.rules, r.id = rule.id → r = rule
  | .ruleRemoved id => id < st.nextId ∧ ∀ r ∈ st.rules, r.id ≠ id
  | _ => True

/-- The map of flows is what the published events make of an empty one, and no event,
published or pending, contradicts the rule store. -/
structure Inv (w : World) : Prop where
  store : Inner.Inv w.daemon.rules.persisted
  conns : w.daemon.connections = replayConns .empty w.published
  outbox : ∀ e ∈ w.outbox, RuleEventOk w.daemon.rules e ∧ ¬e.isConn
  published : ∀ e ∈ w.published, RuleEventOk w.daemon.rules e

theorem Inv.filed {w : World} (h : Inv w) : Filed w.daemon.connections :=
  h.conns ▸ filed_replayConns filed_empty _

/-- A connection event says nothing of the rules. -/
theorem ruleEventOk_of_isConn {st : Inner} {e : Event} (h : e.isConn) : RuleEventOk st e := by
  cases e with
  | ruleAdded rule => cases h
  | ruleRemoved id => cases h
  | _ => trivial

/-- Dropping rules contradicts no event. -/
theorem RuleEventOk.sublist {st st' : Inner} {e : Event} (h : RuleEventOk st e)
    (hnext : st'.nextId = st.nextId) (hsub : ∀ r ∈ st'.rules, r ∈ st.rules) :
    RuleEventOk st' e := by
  cases e with
  | ruleAdded rule => exact ⟨hnext ▸ h.1, fun r hr => h.2 r (hsub r hr)⟩
  | ruleRemoved id => exact ⟨hnext ▸ h.1, fun r hr => h.2 r (hsub r hr)⟩
  | _ => trivial

/-- Nor does adding a rule: its id is new. -/
theorem RuleEventOk.add {st st' : Inner} {input : RuleInput} {now : DateTime} {rule : Rule}
    {e : Event} (h : RuleEventOk st e) (hadd : st.add input now = some (rule, st')) :
    RuleEventOk st' e := by
  obtain ⟨expiresAt, -, -, hrule, rfl⟩ := Inner.add_eq_some.mp hadd
  have hid : rule.id = st.nextId := by rw [hrule]; rfl
  have hkept : ∀ {n : Nat} {r : Rule}, n < st.nextId →
      r ∈ st.rules.filter (fun r => !Inner.sameTarget r rule) ++ [rule] → r.id = n →
      r ∈ st.rules := by
    intro n r hn hr hrid
    rcases List.mem_append.mp hr with hr | hr
    · exact (List.mem_filter.mp hr).1
    · rw [List.mem_singleton.mp hr, hid] at hrid
      omega
  cases e with
  | ruleAdded added =>
    exact ⟨Nat.lt_succ_of_lt h.1, fun r hr hrid => h.2 r (hkept h.1 hr hrid) hrid⟩
  | ruleRemoved id =>
    exact ⟨Nat.lt_succ_of_lt h.1, fun r hr hrid => h.2 r (hkept h.1 hr hrid) hrid⟩
  | _ => trivial

/-- The event of a new rule agrees with the store that has it. -/
theorem ruleEventOk_added {st st' : Inner} {input : RuleInput} {now : DateTime} {rule : Rule}
    (hi : Inner.Inv st.persisted) (hadd : st.add input now = some (rule, st')) :
    RuleEventOk st' (.ruleAdded rule) := by
  have hinv := Inner.add_inv hi hadd
  obtain ⟨expiresAt, -, -, hrule, rfl⟩ := Inner.add_eq_some.mp hadd
  have hmem : rule ∈ st.rules.filter (fun r => !Inner.sameTarget r rule) ++ [rule] :=
    List.mem_append_right _ (List.mem_singleton.mpr rfl)
  exact ⟨hinv.fresh rule hmem, fun r hr hid => List.inj_on_of_nodup_map hinv.ids hr hmem hid⟩

/-- A change of the rules that publishes later keeps the invariant. -/
theorem Inv.commit {w : World} {rules : Inner} {events : List Event} (h : Inv w)
    (hstore : Inner.Inv rules.persisted)
    (hold : ∀ e, RuleEventOk w.daemon.rules e → RuleEventOk rules e)
    (hnew : ∀ e ∈ events, RuleEventOk rules e ∧ ¬e.isConn) :
    Inv { w with daemon := { w.daemon with rules := rules }, outbox := w.outbox ++ events } where
  store := hstore
  conns := h.conns
  outbox e he := by
    rcases List.mem_append.mp he with he | he
    · exact ⟨hold e (h.outbox e he).1, (h.outbox e he).2⟩
    · exact hnew e he
  published e he := hold e (h.published e he)

/-- A request that leaves rules and flows alone, and has nothing to say of them. -/
theorem Inv.read {w : World} {d : DaemonState} {events : List Event} (h : Inv w)
    (hrules : d.rules = w.daemon.rules) (hconns : d.connections = w.daemon.connections)
    (hnew : ∀ e ∈ events, RuleEventOk w.daemon.rules e ∧ ¬e.isConn) :
    Inv { w with daemon := d, outbox := w.outbox ++ events } where
  store := by
    show Inner.Inv d.rules.persisted
    rw [hrules]
    exact h.store
  conns := hconns.trans h.conns
  outbox e he := by
    show RuleEventOk d.rules e ∧ _
    rw [hrules]
    rcases List.mem_append.mp he with he | he
    · exact h.outbox e he
    · exact hnew e he
  published e he := by
    show RuleEventOk d.rules e
    rw [hrules]
    exact h.published e he

/-- What a found id leaves in the store agrees with the event of its removal. -/
theorem ruleEventOk_removed {st st' : Inner} {id : Nat} {rule : Rule}
    (hi : Inner.Inv st.persisted) (hrem : st.remove id = some (rule, st')) :
    st'.nextId = st.nextId ∧ (∀ r ∈ st'.rules, r ∈ st.rules) ∧
      RuleEventOk st' (.ruleRemoved id) := by
  obtain ⟨hmem, hid, hst⟩ := Inner.remove_eq_some hrem
  have hnext : st'.nextId = st.nextId := by rw [hst]
  have hrules : st'.rules = st.rules.filter fun r => !(r.id == id) := by
    rw [hst]
    exact Inner.eraseP_id_eq_filter hi.ids id
  refine ⟨hnext, fun r hr => ?_, ?_, fun r hr => ?_⟩
  · rw [hrules] at hr
    exact (List.mem_filter.mp hr).1
  · rw [hnext, ← hid]
    exact hi.fresh rule hmem
  · rw [hrules] at hr
    simpa using (List.mem_filter.mp hr).2

theorem Inv.handle {w : World} {env : Env} {req : Request} {handled : Handled} (h : Inv w)
    (hd : dispatch w.daemon env req = some handled) :
    Inv { w with daemon := handled.state, outbox := w.outbox ++ handled.published } := by
  rcases dispatch_cases hd with ⟨input, rule, rules, rfl, hadd, hstate, hpub⟩ |
    ⟨id, rule, rules, rfl, hrem, hstate, hpub⟩ | ⟨paused, rfl, hstate, hpub⟩ | ⟨hstate, hpub⟩
  · rw [hstate, hpub]
    refine h.commit (Inner.add_inv h.store hadd) (fun e he => he.add hadd) fun e he => ?_
    rw [List.mem_singleton.mp he]
    exact ⟨ruleEventOk_added h.store hadd, Event.not_isConn rfl⟩
  · rw [hstate, hpub]
    obtain ⟨hnext, hsub, hok⟩ := ruleEventOk_removed h.store hrem
    refine h.commit (Inner.remove_inv h.store hrem) (fun e he => he.sublist hnext hsub) fun e he => ?_
    rw [List.mem_singleton.mp he]
    exact ⟨hok, Event.not_isConn rfl⟩
  · rw [hstate, hpub]
    refine h.read rfl rfl fun e he => ?_
    rw [List.mem_singleton.mp he]
    exact ⟨trivial, Event.not_isConn rfl⟩
  · rw [hstate, hpub]
    exact h.read rfl rfl (List.forall_mem_nil _)

theorem Inv.reap {w : World} (h : Inv w) (now : DateTime) :
    Inv { w with
      daemon := (reaperPass w.daemon now).1
      outbox := w.outbox ++ (reaperPass w.daemon now).2 } := by
  refine h.commit (Inner.reapExpired_inv h.store now)
    (fun e he => he.sublist rfl fun r hr => (List.mem_filter.mp hr).1) ?_
  intro e he
  obtain ⟨id, hid, rfl⟩ := List.mem_map.mp he
  obtain ⟨r, hr, rfl⟩ := List.mem_map.mp hid
  obtain ⟨hr, hexp⟩ := List.mem_filter.mp hr
  refine ⟨⟨h.store.fresh r hr, fun r' hr' heq => ?_⟩, Event.not_isConn rfl⟩
  -- a rule with the id of an expired one is that one
  obtain ⟨hmem, hlive⟩ := List.mem_filter.mp hr'
  rw [List.inj_on_of_nodup_map h.store.ids hmem hr heq, hexp] at hlive
  cases hlive

/-- What a task published under its lock joins what was published. -/
theorem Inv.publishLocked {w : World} {d : DaemonState} {events : List Event} (h : Inv w)
    (hrules : d.rules = w.daemon.rules)
    (hconns : d.connections = replayConns w.daemon.connections events)
    (hnew : ∀ e ∈ events, RuleEventOk w.daemon.rules e) :
    Inv { w with daemon := d, published := w.published ++ events } where
  store := by
    show Inner.Inv d.rules.persisted
    rw [hrules]
    exact h.store
  conns := by
    show d.connections = _
    rw [replayConns_append, ← h.conns]
    exact hconns
  outbox e he := by
    show RuleEventOk d.rules e ∧ _
    rw [hrules]
    exact h.outbox e he
  published e he := by
    show RuleEventOk d.rules e
    rw [hrules]
    rcases List.mem_append.mp he with he | he
    · exact h.published e he
    · exact hnew e he

theorem Inv.scan {w : World} (h : Inv w) (processes : KeyedMap Nat ProcessInfo)
    (started : List ProcessInfo) (exited : List Nat) :
    Inv { w with
      daemon := { w.daemon with processes := processes }
      published := w.published ++ scanEvents started exited } := by
  have hquiet : ∀ e ∈ scanEvents started exited,
      ¬e.isConn ∧ RuleEventOk w.daemon.rules e := by
    intro e he
    rcases mem_scanEvents he with ⟨info, rfl⟩ | ⟨pid, rfl⟩
    · exact ⟨Event.not_isConn rfl, trivial⟩
    · exact ⟨Event.not_isConn rfl, trivial⟩
  refine h.publishLocked rfl ?_ fun e he => (hquiet e he).2
  exact (replayConns_of_not_isConn fun e he => (hquiet e he).1).symm

/-- A task publishes what the outbox holds. -/
theorem Inv.publish {w : World} {i : Nat} {e : Event} (h : Inv w) (he : w.outbox[i]? = some e) :
    Inv { w with outbox := w.outbox.eraseIdx i, published := w.published ++ [e] } where
  store := h.store
  conns := by
    show w.daemon.connections = _
    rw [replayConns_append, replayConns_of_not_isConn]
    · exact h.conns
    · intro e' he'
      rw [List.mem_singleton.mp he']
      exact (h.outbox e (List.mem_of_getElem? he)).2
  outbox e' he' := h.outbox e' (List.mem_of_mem_eraseIdx he')
  published e' he' := by
    rcases List.mem_append.mp he' with he' | he'
    · exact h.published e' he'
    · rw [List.mem_singleton.mp he']
      exact (h.outbox e (List.mem_of_getElem? he)).1

/-- **Step lemma.** -/
theorem inv_step {w w' : World} {a : Action} (h : Inv w) (hs : step w a = some w') : Inv w' := by
  cases a with
  | perform t =>
    obtain ⟨⟨d, events⟩, hp, rfl⟩ := Option.map_eq_some_iff.mp hs
    cases t with
    | poll p =>
      have hacc := DaemonState.pollOnce_spec h.filed hp
      -- a poll publishes under its lock, the other tasks after theirs
      exact h.publishLocked hacc.rules hacc.conns fun e he =>
        ruleEventOk_of_isConn (hacc.isConn e he)
    | scan processes started exited =>
      cases hp
      exact h.scan processes started exited
    | verdict fs clock payload =>
      obtain ⟨rfl, hframe⟩ := DaemonState.perform_verdict hp
      refine h.read ?_ ?_ (List.forall_mem_nil _)
      · rw [hframe]
      · rw [hframe]
    | handle env req =>
      obtain ⟨handled, hd, he⟩ := Option.map_eq_some_iff.mp hp
      cases he
      exact h.handle hd
    | reap now =>
      cases hp
      exact h.reap now
  | publish i =>
    obtain ⟨e, he, rfl⟩ := Option.map_eq_some_iff.mp hs
    exact h.publish he

theorem inv_start {rules : Inner} (h : rules.Reachable) : Inv (start rules) where
  store := h.inv
  conns := rfl
  outbox := List.forall_mem_nil _
  published := List.forall_mem_nil _

/-- **Run lemma.** -/
theorem inv_run {rules : Inner} {sched : List Action} {w : World} (hrules : rules.Reachable)
    (h : Runs.run step (start rules) sched = some w) : Inv w :=
  Runs.run_invariant inv_step (inv_start hrules) h

/-! ## The window -/

/-- A snapshot looks flows up as the daemon does. -/
theorem TakenFrom.find? {d : DaemonState} {env : Env} {S : Snapshot} (h : TakenFrom d env S)
    (hf : Filed d.connections) (key : String) :
    (S.conns.find? fun c => c.key == key) = d.connections.get? key :=
  hf.find? h.conns key

/-- The window is settled: no flow has two connection events in it, and the snapshot
has the say on each event. The reducer adds up differences, so the older event of a
flow with two would be counted again. -/
structure Settled (S : Snapshot) (window : List Event) : Prop where
  once : (window.filterMap Event.connKey).Nodup
  each : SettledFrom S window

/-- **The window is absorbed**: where no flow has two connection events in a window that
ends at the snapshot, each of its events is part of what led to the snapshot. -/
theorem absorbed_of_run {w : World} {before window : List Event} {env : Env} {S : Snapshot}
    (h : Inv w) (hsplit : w.published = before ++ window) (hS : TakenFrom w.daemon env S)
    (hnodup : (window.filterMap Event.connKey).Nodup) : ∀ e ∈ window, Absorbed S e := by
  intro e he
  have hrule : RuleEventOk w.daemon.rules e := by
    refine h.published e ?_
    rw [hsplit]
    exact List.mem_append_right _ he
  have hconn : ∀ key, e.connKey = some key →
      (S.conns.find? fun c => c.key == key) = e.connValue := by
    intro key hk
    -- the snapshot holds what the whole stream left under the key
    rw [hS.find? h.filed, h.conns, hsplit, replayConns_append]
    exact get?_replayConns_of_mem hnodup he hk
  cases e with
  | connectionOpened conn => exact hconn conn.key rfl
  | connectionUpdated conn => exact hconn conn.key rfl
  | connectionClosed key => exact hconn key rfl
  | ruleAdded rule =>
    -- ids are not reused: a rule that is still there is the one that was added
    intro r hr
    rw [hS.rules] at hr
    exact hrule.2 r hr
  | ruleRemoved id =>
    intro r hr
    rw [hS.rules] at hr
    exact hrule.2 r hr
  | _ => trivial

/-- **Overlap**: whatever the daemon did up to the snapshot, folding the events of a
settled window that ends at it changes nothing. -/
theorem overlap_unchanged {rules : Inner} {sched : List Action} {w : World} {env : Env}
    {S : Snapshot} {before window : List Event} (client : ClientState)
    (hrules : rules.Reachable) (hrun : Runs.run step (start rules) sched = some w)
    (hsplit : w.published = before ++ window) (hS : TakenFrom w.daemon env S)
    (hcap : w.daemon.connections.size ≤ maxConnections) (hset : Settled S window) :
    Unchanged (client.load S) ((client.load S).replay window) := by
  have hinv := inv_run hrules hrun
  have hnodup : (S.conns.map ConnectionInfo.key).Nodup := hinv.filed.nodup_keys hS.conns
  have hsize : S.conns.length ≤ maxConnections := by
    rw [hS.conns.length_eq, KeyedMap.length_vals]
    exact hcap
  have htop : ∀ u ∈ S.top, 0 < u.connections := by
    obtain ⟨order, -, heq⟩ := hS.top
    rw [heq]
    exact fun u hu => topApps_connections_pos hu
  exact replay_unchanged (loaded_load client hnodup hsize htop)
    (absorbed_of_run hinv hsplit hS hset.once) hset.each

/-! ### Two windows -/

/-- The snapshot in the maps' own order. -/
def snapshotOf (d : DaemonState) (env : Env) : Snapshot where
  status := status d env
  network := d.network.getD emptyNetwork
  top := topApps d.rules env.now d.connections.vals
  conns := d.connections.vals
  rules := d.rules.list

theorem takenFrom_snapshotOf (d : DaemonState) (env : Env) :
    TakenFrom d env (snapshotOf d env) where
  status := rfl
  network := rfl
  top := ⟨_, List.Perm.refl _, rfl⟩
  conns := List.Perm.refl _
  rules := rfl

/-- A flow of process 4242, with 1200 bytes up and 5400 down. -/
def curlFlow : ParsedFlow where
  key := "tcp:192.168.1.10:51234-93.184.216.34:443"
  protocol := .tcp
  localAddr := .v4 ⟨192, 168, 1, 10⟩
  localPort := 51234
  remoteAddr := .v4 ⟨93, 184, 216, 34⟩
  remotePort := 443
  sent := 1200
  recv := 5400

/-- The poll that sees the flow for the first time. -/
def openPoll : Poll := ⟨[curlFlow], .epoch, fun _ => DaemonState.curlProcFs, [], [curlFlow]⟩

/-- The poll that does not see it any more. -/
def closePoll : Poll := ⟨[], .epoch, fun _ => DaemonState.curlProcFs, [curlFlow.key], []⟩

/-- A flow is opened and its executable blocked. -/
def blockedFlow : List Action :=
  [.perform (.poll openPoll),
    .perform (.handle .epoch
      (.addRule ⟨"curl", .ofString "/usr/bin/curl", .block, true, none⟩)),
    .publish 0]

theorem blockedFlow_runs : (Runs.run step (start .firstStart) blockedFlow).isSome = true := by
  decide +kernel

theorem overlap_unchanged_blocked :
    let w := (Runs.run step (start .firstStart) blockedFlow).get blockedFlow_runs
    w.published.length = 2 ∧
      Unchanged (ClientState.default.load (snapshotOf w.daemon .epoch))
        ((ClientState.default.load (snapshotOf w.daemon .epoch)).replay w.published) :=
  ⟨by decide +kernel,
    overlap_unchanged .default (Inner.reachable_start _) (Option.some_get blockedFlow_runs).symm
      (List.nil_append _).symm (takenFrom_snapshotOf _ .epoch) (by decide +kernel)
      ⟨by decide +kernel, by decide +kernel⟩⟩

/-- A flow is opened and closed. -/
def openedAndClosed : List Action := [.perform (.poll openPoll), .perform (.poll closePoll)]

/-- The snapshot after both has no flow; folding the two events onto it adds the bytes
of the flow to the totals and takes nothing back. -/
theorem open_close_counted_twice :
    ∃ w, Runs.run step (start .firstStart) openedAndClosed = some w ∧
      (snapshotOf w.daemon .epoch).conns = [] ∧
      (ClientState.default.load (snapshotOf w.daemon .epoch)).totalUp = 0 ∧
      ((ClientState.default.load (snapshotOf w.daemon .epoch)).replay w.published).totalUp = 1200 ∧
      ¬Unchanged (ClientState.default.load (snapshotOf w.daemon .epoch))
        ((ClientState.default.load (snapshotOf w.daemon .epoch)).replay w.published) := by
  refine ⟨_, rfl, by decide +kernel, by decide +kernel, by decide +kernel, fun h => ?_⟩
  have hup := h.up
  revert hup
  decide +kernel

end Overlap

end TravelMode
