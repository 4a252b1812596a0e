import Mathlib.Order.Bounds.Basic
import TravelMode.Daemon.State

/-!
# The connection tracker (`daemon/src/conntrack.rs`)

`pollOnce` compares the flows of one conntrack table with the map of live flows,
updates the map and publishes what changed.

- The flows are those of the table's parseable lines, in file order; both hash
  maps that the source iterates over are iterated in an arbitrary order, which a
  `Poll` carries.
- `replayConns` folds connection events into a map. `pollOnce_spec`: the map after
  a poll is the map before it with the poll's own events folded in.
-/

namespace TravelMode

/-- `ParsedFlow`: one line of the conntrack table. -/
structure ParsedFlow where
  key : String
  protocol : Protocol
  localAddr : IpAddr
  localPort : UInt16
  remoteAddr : IpAddr
  remotePort : UInt16
  sent : Nat
  recv : Nat
deriving DecidableEq

/-- The 5-tuple that identifies a flow to the kernel. -/
structure FlowTuple where
  protocol : Protocol
  localAddr : IpAddr
  localPort : UInt16
  remoteAddr : IpAddr
  remotePort : UInt16
deriving DecidableEq

def ParsedFlow.tuple (f : ParsedFlow) : FlowTuple :=
  ⟨f.protocol, f.localAddr, f.localPort, f.remoteAddr, f.remotePort⟩

def ConnectionInfo.tuple (c : ConnectionInfo) : FlowTuple :=
  ⟨c.protocol, c.localAddr, c.localPort, c.remoteAddr, c.remotePort⟩

/-- The connection that a new flow becomes. -/
def ParsedFlow.opened (f : ParsedFlow) (who : Attribution) (now : DateTime) :
    ConnectionInfo where
  key := f.key
  protocol := f.protocol
  localAddr := f.localAddr
  localPort := f.localPort
  remoteAddr := f.remoteAddr
  remotePort := f.remotePort
  bytesSent := f.sent
  bytesRecv := f.recv
  pid := who.pid
  processName := who.name
  exe := who.exe
  started := now
  lastSeen := now

/-- Two lines for one key: the larger counters win. -/
def noteFlow (seen : KeyedMap String ParsedFlow) (f : ParsedFlow) : KeyedMap String ParsedFlow :=
  match seen.get? f.key with
  | some g => seen.insert f.key { g with sent := max g.sent f.sent, recv := max g.recv f.recv }
  | none => seen.insert f.key f

/-- The flows of one table, by key. -/
def seenFlows (flows : List ParsedFlow) : KeyedMap String ParsedFlow := flows.foldl noteFlow .empty

/-- What one poll meets: the lines of the table, the clock, `/proc` at the moment each
new flow is attributed, and the iteration orders of the two hash maps. -/
structure Poll where
  flows : List ParsedFlow
  now : DateTime
  procFs : String → ProcFs
  closedOrder : List String
  seenOrder : List ParsedFlow

/-- Closed flows: present before, absent now. -/
def closedKeys (conns : KeyedMap String ConnectionInfo) (seen : KeyedMap String ParsedFlow) :
    List String :=
  conns.keys.filter fun k => (seen.get? k).isNone

namespace DaemonState

/-- Drop one closed flow. -/
def closeFlow (acc : DaemonState × List Event) (key : String) : DaemonState × List Event :=
  ({ acc.1 with connections := acc.1.connections.erase key },
    acc.2 ++ [.connectionClosed key])

/-- The entry of a flow whose counters moved. -/
def updated (existing : ConnectionInfo) (f : ParsedFlow) (now : DateTime) : ConnectionInfo :=
  { existing with bytesSent := f.sent, bytesRecv := f.recv, lastSeen := now }

/-- Visit one flow of the table: new, updated or unchanged. -/
def visitFlow (p : Poll) (acc : DaemonState × List Event) (f : ParsedFlow) :
    DaemonState × List Event :=
  match acc.1.connections.get? f.key with
  | some existing =>
    if existing.bytesSent ≠ f.sent ∨ existing.bytesRecv ≠ f.recv then
      let existing := updated existing f p.now
      ({ acc.1 with connections := acc.1.connections.insert f.key existing },
        acc.2 ++ [.connectionUpdated existing])
    else acc
  | none =>
    let attributed := acc.1.attributeFlow (p.procFs f.key) f.protocol f.localPort
    let info := f.opened attributed.1 p.now
    ({ attributed.2 with connections := acc.1.connections.insert f.key info },
      acc.2 ++ [.connectionOpened info])

/-- `poll_once` on a table that could be read; `none` when the iteration orders are not
orders of what is iterated. -/
def pollOnce (st : DaemonState) (p : Poll) : Option (DaemonState × List Event) :=
  let seen := seenFlows p.flows
  if p.closedOrder.Perm (closedKeys st.connections seen) ∧ p.seenOrder.Perm seen.vals then
    some (p.seenOrder.foldl (visitFlow p) (p.closedOrder.foldl closeFlow (st, [])))
  else none

end DaemonState

/-! ## Connection events replay the map -/

/-- Fold one event into a map of live flows. -/
def replayConn (conns : KeyedMap String ConnectionInfo) : Event → KeyedMap String ConnectionInfo
  | .connectionOpened conn => conns.insert conn.key conn
  | .connectionUpdated conn => conns.insert conn.key conn
  | .connectionClosed key => conns.erase key
  | _ => conns

/-- Fold a stream of events into a map of live flows. -/
def replayConns (conns : KeyedMap String ConnectionInfo) (events : List Event) :
    KeyedMap String ConnectionInfo :=
  events.foldl replayConn conns

/-- The flow that a connection event is about. -/
def Event.connKey : Event → Option String
  | .connectionOpened conn => some conn.key
  | .connectionUpdated conn => some conn.key
  | .connectionClosed key => some key
  | _ => none

/-- What a connection event says the flow is now. -/
def Event.connValue : Event → Option ConnectionInfo
  | .connectionOpened conn => some conn
  | .connectionUpdated conn => some conn
  | _ => none

theorem replayConns_append (conns : KeyedMap String ConnectionInfo) (es fs : List Event) :
    replayConns conns (es ++ fs) = replayConns (replayConns conns es) fs :=
  List.foldl_append

/-- An event changes the flow it is about, and no other. -/
theorem get?_replayConn (conns : KeyedMap String ConnectionInfo) (e : Event) (key : String) :
    (replayConn conns e).get? key =
      if e.connKey = some key then e.connValue else conns.get? key := by
  have hcomm : ∀ k : String, key = k ↔ some k = some key := fun k => by
    rw [Option.some.injEq]
    exact eq_comm
  cases e with
  | connectionOpened conn =>
    rw [replayConn, KeyedMap.get?_insert]
    exact if_congr (hcomm conn.key) rfl rfl
  | connectionUpdated conn =>
    rw [replayConn, KeyedMap.get?_insert]
    exact if_congr (hcomm conn.key) rfl rfl
  | connectionClosed k =>
    rw [replayConn, KeyedMap.get?_erase]
    exact if_congr (hcomm k) rfl rfl
  | _ => rfl

/-- Events about other flows do not matter. -/
theorem get?_replayConns_of_not_mem {conns : KeyedMap String ConnectionInfo}
    {events : List Event} {key : String} (h : key ∉ events.filterMap Event.connKey) :
    (replayConns conns events).get? key = conns.get? key := by
  induction events generalizing conns with
  | nil => rfl
  | cons e es ih =>
    have he : e.connKey ≠ some key := fun hk =>
      h (List.mem_filterMap.mpr ⟨e, List.mem_cons_self, hk⟩)
    have hes : key ∉ es.filterMap Event.connKey := fun hk => by
      obtain ⟨e', he', hk'⟩ := List.mem_filterMap.mp hk
      exact h (List.mem_filterMap.mpr ⟨e', List.mem_cons_of_mem _ he', hk'⟩)
    show (replayConns (replayConn conns e) es).get? key = _
    rw [ih hes, get?_replayConn, if_neg he]

/-- When no flow occurs twice, each event has the last word on its flow. -/
theorem get?_replayConns_of_mem {conns : KeyedMap String ConnectionInfo} {events : List Event}
    (hnodup : (events.filterMap Event.connKey).Nodup) {e : Event} (he : e ∈ events)
    {key : String} (hk : e.connKey = some key) :
    (replayConns conns events).get? key = e.connValue := by
  induction events generalizing conns with
  | nil => cases he
  | cons e' es ih =>
    show (replayConns (replayConn conns e') es).get? key = _
    rcases List.mem_cons.mp he with rfl | he
    · rw [List.filterMap_cons_some hk] at hnodup
      rw [get?_replayConns_of_not_mem (List.nodup_cons.mp hnodup).1, get?_replayConn, if_pos hk]
    · refine ih ?_ he
      cases hk' : e'.connKey with
      | none => rwa [List.filterMap_cons_none hk'] at hnodup
      | some k' =>
        rw [List.filterMap_cons_some hk'] at hnodup
        exact (List.nodup_cons.mp hnodup).2

/-! ## What a poll does -/

/-- Every flow is filed under its own key. -/
def Filed (conns : KeyedMap String ConnectionInfo) : Prop :=
  ∀ key conn, conns.get? key = some conn → conn.key = key

/-- A list of the flows looks them up as the map does. -/
theorem Filed.find? {m : KeyedMap String ConnectionInfo} (h : Filed m)
    {conns : List ConnectionInfo} (hperm : conns.Perm m.vals) (key : String) :
    (conns.find? fun c => c.key == key) = m.get? key := by
  cases hget : m.get? key with
  | none =>
    refine List.find?_eq_none.mpr fun c hc hk => ?_
    obtain ⟨k, hk'⟩ := KeyedMap.mem_vals_iff.mp (hperm.mem_iff.mp hc)
    have hkey : k = key := (h k c hk').symm.trans (of_decide_eq_true hk)
    rw [hkey, hget] at hk'
    cases hk'
  | some conn =>
    have hmem : conn ∈ conns := hperm.mem_iff.mpr (KeyedMap.mem_vals_iff.mpr ⟨key, hget⟩)
    cases hfind : conns.find? fun c => c.key == key with
    | none => exact absurd (beq_iff_eq.mpr (h key conn hget)) (List.find?_eq_none.mp hfind conn hmem)
    | some c =>
      obtain ⟨k, hk⟩ := KeyedMap.mem_vals_iff.mp (hperm.mem_iff.mp (List.mem_of_find?_eq_some hfind))
      have hc : c.key = key := by simpa using List.find?_some hfind
      rw [← h k c hk, hc, hget] at hk
      exact hk.symm

/-- Each flow of the list has a key of its own. -/
theorem Filed.nodup_keys {m : KeyedMap String ConnectionInfo} (h : Filed m)
    {conns : List ConnectionInfo} (hperm : conns.Perm m.vals) :
    (conns.map ConnectionInfo.key).Nodup := by
  rw [(hperm.map _).nodup_iff, KeyedMap.vals_map_filed h]
  exact m.keys_nodup

theorem filed_insert {conns : KeyedMap String ConnectionInfo} (h : Filed conns)
    (conn : ConnectionInfo) : Filed (conns.insert conn.key conn) := by
  intro key c hc
  rw [KeyedMap.get?_insert] at hc
  by_cases hk : key = conn.key
  · rw [if_pos hk] at hc
    cases hc
    exact hk.symm
  · rw [if_neg hk] at hc
    exact h key c hc

theorem filed_erase {conns : KeyedMap String ConnectionInfo} (h : Filed conns) (k : String) :
    Filed (conns.erase k) := by
  intro key c hc
  rw [KeyedMap.get?_erase] at hc
  by_cases hk : key = k
  · rw [if_pos hk] at hc
    cases hc
  · rw [if_neg hk] at hc
    exact h key c hc

theorem filed_replayConn {conns : KeyedMap String ConnectionInfo} (h : Filed conns) (e : Event) :
    Filed (replayConn conns e) := by
  cases e with
  | connectionOpened conn => exact filed_insert h conn
  | connectionUpdated conn => exact filed_insert h conn
  | connectionClosed key => exact filed_erase h key
  | _ => exact h

theorem filed_replayConns {conns : KeyedMap String ConnectionInfo} (h : Filed conns)
    (events : List Event) : Filed (replayConns conns events) := by
  induction events generalizing conns with
  | nil => exact h
  | cons e es ih => exact ih (filed_replayConn h e)

/-- An event about a connection. -/
def Event.isConn (e : Event) : Prop := e.connKey.isSome = true

namespace DaemonState

/-- How the accumulator of a poll relates to the state it started from. -/
structure PollAcc (st : DaemonState) (acc : DaemonState × List Event) : Prop where
  conns : acc.1.connections = replayConns st.connections acc.2
  isConn : ∀ e ∈ acc.2, e.isConn
  rules : acc.1.rules = st.rules
  paused : acc.1.paused = st.paused

theorem closeFlow_acc {st : DaemonState} {acc : DaemonState × List Event} (h : PollAcc st acc)
    (key : String) : PollAcc st (closeFlow acc key) where
  conns := by
    show acc.1.connections.erase key = replayConns st.connections (acc.2 ++ [_])
    rw [replayConns_append, ← h.conns]
    rfl
  isConn e he := by
    rcases List.mem_append.mp he with he | he
    · exact h.isConn e he
    · rw [List.mem_singleton.mp he]
      rfl
  rules := h.rules
  paused := h.paused

theorem visitFlow_acc {st : DaemonState} {acc : DaemonState × List Event} (h : PollAcc st acc)
    (hf : Filed st.connections) (p : Poll) (f : ParsedFlow) : PollAcc st (visitFlow p acc f) := by
  have hfiled : Filed acc.1.connections := h.conns ▸ filed_replayConns hf acc.2
  unfold visitFlow
  cases hget : acc.1.connections.get? f.key with
  | some existing =>
    dsimp only
    -- a known flow is published if its counters have changed
    by_cases hne : existing.bytesSent ≠ f.sent ∨ existing.bytesRecv ≠ f.recv
    · rw [if_pos hne]
      have hkey : (updated existing f p.now).key = f.key := hfiled f.key existing hget
      refine { conns := ?_, isConn := ?_, rules := h.rules, paused := h.paused }
      · show acc.1.connections.insert f.key _ = replayConns st.connections (acc.2 ++ [_])
        rw [replayConns_append, ← h.conns, ← hkey]
        rfl
      · intro e he
        rcases List.mem_append.mp he with he | he
        · exact h.isConn e he
        · rw [List.mem_singleton.mp he]
          rfl
    · rw [if_neg hne]
      exact h
  | none =>
    refine { conns := ?_, isConn := ?_, rules := h.rules, paused := h.paused }
    · show acc.1.connections.insert f.key _ = replayConns st.connections (acc.2 ++ [_])
      rw [replayConns_append, ← h.conns]
      rfl
    · intro e he
      rcases List.mem_append.mp he with he | he
      · exact h.isConn e he
      · rw [List.mem_singleton.mp he]
        rfl

/-- A poll that runs is the two loops, over orders of the closed and of the seen flows. -/
theorem pollOnce_eq_some {st : DaemonState} {p : Poll} {r : DaemonState × List Event} :
    st.pollOnce p = some r ↔
      p.closedOrder.Perm (closedKeys st.connections (seenFlows p.flows)) ∧
        p.seenOrder.Perm (seenFlows p.flows).vals ∧
        r = p.seenOrder.foldl (visitFlow p) (p.closedOrder.foldl closeFlow (st, [])) := by
  unfold pollOnce
  dsimp only
  split
  · rename_i h
    constructor
    · intro he
      exact ⟨h.1, h.2, (Option.some.inj he).symm⟩
    · rintro ⟨-, -, rfl⟩
      rfl
  · rename_i h
    constructor
    · intro he
      cases he
    · rintro ⟨h1, h2, -⟩
      exact absurd ⟨h1, h2⟩ h

theorem closeFlows_acc {st : DaemonState} (keys : List String) {acc : DaemonState × List Event}
    (h : PollAcc st acc) : PollAcc st (keys.foldl closeFlow acc) := by
  induction keys generalizing acc with
  | nil => exact h
  | cons key keys ih => exact ih (closeFlow_acc h key)

theorem visitFlows_acc {st : DaemonState} (hf : Filed st.connections) (p : Poll)
    (flows : List ParsedFlow) {acc : DaemonState × List Event} (h : PollAcc st acc) :
    PollAcc st (flows.foldl (visitFlow p) acc) := by
  induction flows generalizing acc with
  | nil => exact h
  | cons f flows ih => exact ih (visitFlow_acc h hf p f)

/-- **A poll and its events**: folding what a poll publishes into the old map gives the
new one; rules and the paused flag stay. -/
theorem pollOnce_spec {st : DaemonState} {p : Poll} {r : DaemonState × List Event}
    (hf : Filed st.connections) (h : st.pollOnce p = some r) : PollAcc st r := by
  obtain ⟨-, -, rfl⟩ := pollOnce_eq_some.mp h
  have hstart : PollAcc st (st, []) := ⟨rfl, fun _ h => (nomatch h), rfl, rfl⟩
  exact visitFlows_acc hf p _ (closeFlows_acc _ hstart)

/-! ## What the map holds after a poll -/

end DaemonState

/-- A line is noted under its key: in the entry there was, or as a new one. -/
theorem get?_noteFlow_self (seen : KeyedMap String ParsedFlow) (f : ParsedFlow) :
    ∃ g, (noteFlow seen f).get? f.key = some g ∧
      ((∃ old, seen.get? f.key = some old ∧ g.key = old.key ∧ g.tuple = old.tuple) ∨ g = f) := by
  unfold noteFlow
  cases hold : seen.get? f.key with
  | some old => exact ⟨_, KeyedMap.get?_insert_self .., .inl ⟨old, rfl, rfl, rfl⟩⟩
  | none => exact ⟨_, KeyedMap.get?_insert_self .., .inr rfl⟩

theorem get?_noteFlow_of_ne (seen : KeyedMap String ParsedFlow) {f : ParsedFlow} {key : String}
    (h : key ≠ f.key) : (noteFlow seen f).get? key = seen.get? key := by
  unfold noteFlow
  split
  · exact KeyedMap.get?_insert_of_ne h
  · exact KeyedMap.get?_insert_of_ne h

/-- What was noted goes back to lines of the table. -/
def NotedFrom (flows : List ParsedFlow) (seen : KeyedMap String ParsedFlow) : Prop :=
  ∀ key g, seen.get? key = some g → g.key = key ∧ ∃ f ∈ flows, f.key = key ∧ f.tuple = g.tuple

theorem NotedFrom.noteFlow {flows : List ParsedFlow} {seen : KeyedMap String ParsedFlow}
    (h : NotedFrom flows seen) {f : ParsedFlow} (hf : f ∈ flows) :
    NotedFrom flows (noteFlow seen f) := by
  intro key g hg
  by_cases hk : key = f.key
  · subst hk
    obtain ⟨g', hg', hnote⟩ := get?_noteFlow_self seen f
    cases hg.symm.trans hg'
    rcases hnote with ⟨old, hold, hkey, htuple⟩ | rfl
    · rw [hkey, htuple]
      exact h f.key old hold
    · exact ⟨rfl, g, hf, rfl, rfl⟩
  · rw [get?_noteFlow_of_ne seen hk] at hg
    exact h key g hg

theorem NotedFrom.foldl {flows fs : List ParsedFlow} {seen : KeyedMap String ParsedFlow}
    (h : NotedFrom flows seen) (hsub : ∀ f ∈ fs, f ∈ flows) :
    NotedFrom flows (fs.foldl TravelMode.noteFlow seen) := by
  induction fs generalizing seen with
  | nil => exact h
  | cons f fs ih =>
    have hstep := h.noteFlow (hsub f List.mem_cons_self)
    exact ih hstep fun f' hf' => hsub f' (List.mem_cons_of_mem _ hf')

/-- A flow that was noted is the first line's, with counters of its own. -/
theorem get?_seenFlows {flows : List ParsedFlow} {key : String} {g : ParsedFlow}
    (h : (seenFlows flows).get? key = some g) :
    g.key = key ∧ ∃ f ∈ flows, f.key = key ∧ f.tuple = g.tuple := by
  have hempty : NotedFrom flows .empty := fun key g h => nomatch h
  exact hempty.foldl (fun f hf => hf) key g h

theorem isSome_get?_noteFlow (seen : KeyedMap String ParsedFlow) (f : ParsedFlow) (key : String) :
    ((noteFlow seen f).get? key).isSome = true ↔
      (seen.get? key).isSome = true ∨ key = f.key := by
  by_cases hk : key = f.key
  · subst hk
    obtain ⟨g, hg, -⟩ := get?_noteFlow_self seen f
    simp [hg]
  · rw [get?_noteFlow_of_ne seen hk]
    simp [hk]

theorem isSome_get?_foldl_noteFlow (fs : List ParsedFlow) (seen : KeyedMap String ParsedFlow)
    (key : String) : ((fs.foldl noteFlow seen).get? key).isSome = true ↔
      (seen.get? key).isSome = true ∨ key ∈ fs.map ParsedFlow.key := by
  induction fs generalizing seen with
  | nil => simp
  | cons f fs ih =>
    rw [List.foldl_cons, ih, isSome_get?_noteFlow, List.map_cons, List.mem_cons, or_assoc]

/-- The keys noted are those of the lines. -/
theorem isSome_get?_seenFlows (flows : List ParsedFlow) (key : String) :
    ((seenFlows flows).get? key).isSome = true ↔ key ∈ flows.map ParsedFlow.key := by
  rw [seenFlows, isSome_get?_foldl_noteFlow]
  simp

/-- The visits of a poll go over the keys of its table. -/
theorem mem_map_seenOrder {flows seenOrder : List ParsedFlow}
    (h : seenOrder.Perm (seenFlows flows).vals) (key : String) :
    key ∈ seenOrder.map ParsedFlow.key ↔ key ∈ flows.map ParsedFlow.key := by
  have hmem : ∀ g, g ∈ seenOrder ↔ ∃ k, (seenFlows flows).get? k = some g :=
    fun g => h.mem_iff.trans KeyedMap.mem_vals_iff
  rw [← isSome_get?_seenFlows flows, Option.isSome_iff_exists, List.mem_map]
  constructor
  · rintro ⟨g, hg, rfl⟩
    obtain ⟨k, hk⟩ := (hmem g).mp hg
    exact ⟨g, by rw [(get?_seenFlows hk).1]; exact hk⟩
  · rintro ⟨g, hg⟩
    exact ⟨g, (hmem g).mpr ⟨key, hg⟩, (get?_seenFlows hg).1⟩

namespace DaemonState

/-- Closing erases the keys it is given. -/
theorem get?_closeFlows (keys : List String) (acc : DaemonState × List Event) (key : String) :
    (keys.foldl closeFlow acc).1.connections.get? key =
      if key ∈ keys then none else acc.1.connections.get? key := by
  induction keys generalizing acc with
  | nil => simp
  | cons k keys ih =>
    rw [List.foldl_cons, ih]
    show (if key ∈ keys then none else (acc.1.connections.erase k).get? key) = _
    rw [KeyedMap.get?_erase]
    by_cases hk : key = k
    · simp [hk]
    · simp [hk]

/-- One connection is another one later on: counters and clock may have moved. -/
structure SameFlow (c d : ConnectionInfo) : Prop where
  tuple : c.tuple = d.tuple
  exe : c.exe = d.exe

theorem SameFlow.refl (c : ConnectionInfo) : SameFlow c c := ⟨rfl, rfl⟩

/-- What one visit leaves under the flow's key: the entry there was, or a new one with
the flow's tuple, announced by an event. -/
theorem visitFlow_self (p : Poll) (acc : DaemonState × List Event) (f : ParsedFlow) :
    ∃ c, (visitFlow p acc f).1.connections.get? f.key = some c ∧
      ((∃ c₀, acc.1.connections.get? f.key = some c₀ ∧ SameFlow c c₀) ∨
        (.connectionOpened c ∈ (visitFlow p acc f).2 ∧ c.tuple = f.tuple)) := by
  unfold visitFlow
  cases hget : acc.1.connections.get? f.key with
  | some existing =>
    dsimp only
    split
    · exact ⟨_, KeyedMap.get?_insert_self .., .inl ⟨existing, rfl, ⟨rfl, rfl⟩⟩⟩
    · exact ⟨existing, hget, .inl ⟨existing, rfl, .refl existing⟩⟩
  | none =>
    exact ⟨_, KeyedMap.get?_insert_self .., .inr
      ⟨List.mem_append_right _ List.mem_cons_self, rfl⟩⟩

/-- A new flow becomes a connection with the process fields that `attributeFlow` fills
in. -/
theorem visitFlow_new (p : Poll) {acc : DaemonState × List Event} {f : ParsedFlow}
    (h : acc.1.connections.get? f.key = none) :
    (visitFlow p acc f).1.connections.get? f.key =
      some (f.opened (acc.1.attributeFlow (p.procFs f.key) f.protocol f.localPort).1 p.now) := by
  unfold visitFlow
  rw [h]
  exact KeyedMap.get?_insert_self ..

/-- A visit leaves the other keys alone, and takes no event back. -/
theorem visitFlow_of_ne (p : Poll) (acc : DaemonState × List Event) {f : ParsedFlow}
    {key : String} (h : key ≠ f.key) :
    (visitFlow p acc f).1.connections.get? key = acc.1.connections.get? key := by
  unfold visitFlow
  cases hget : acc.1.connections.get? f.key with
  | some existing =>
    dsimp only
    split
    · exact KeyedMap.get?_insert_of_ne h
    · rfl
  | none => exact KeyedMap.get?_insert_of_ne h

theorem subset_visitFlow (p : Poll) (acc : DaemonState × List Event) (f : ParsedFlow) :
    acc.2 ⊆ (visitFlow p acc f).2 := by
  unfold visitFlow
  split
  · dsimp only
    split
    · exact List.subset_append_left _ _
    · exact List.Subset.refl _
  · exact List.subset_append_left _ _

/-- What the visits leave: the keys there were and those visited, each entry from before
or announced by an event with the tuple of a visited flow. -/
theorem visitFlows_spec (p : Poll) (flows : List ParsedFlow) (acc : DaemonState × List Event) :
    let acc' := flows.foldl (visitFlow p) acc
    acc.2 ⊆ acc'.2 ∧
    ∀ key, (((acc'.1.connections.get? key).isSome = true ↔
        (acc.1.connections.get? key).isSome = true ∨ key ∈ flows.map ParsedFlow.key) ∧
      ∀ c, acc'.1.connections.get? key = some c →
        (∃ c₀, acc.1.connections.get? key = some c₀ ∧ SameFlow c c₀) ∨
          ∃ c₁ f, .connectionOpened c₁ ∈ acc'.2 ∧ SameFlow c c₁ ∧ f ∈ flows ∧ f.key = key ∧
            c.tuple = f.tuple) := by
  induction flows generalizing acc with
  | nil =>
    refine ⟨List.Subset.refl _, fun key => ⟨by simp, fun c hc => .inl ⟨c, hc, .refl c⟩⟩⟩
  | cons f flows ih =>
    obtain ⟨hevents, hmap⟩ := ih (visitFlow p acc f)
    -- the flow visited first is in the map from then on; the other flows are the induction's
    obtain ⟨cf, hcf, hself⟩ := visitFlow_self p acc f
    refine ⟨fun e he => hevents (subset_visitFlow p acc f he), fun key => ⟨?_, ?_⟩⟩
    · rw [List.foldl_cons, (hmap key).1, List.map_cons, List.mem_cons]
      by_cases hk : key = f.key
      · subst hk
        simp [hcf]
      · rw [visitFlow_of_ne p acc hk]
        simp [hk]
    · intro c hc
      rcases (hmap key).2 c hc with ⟨c₀, hc₀, hsame⟩ | ⟨c₁, g, hopened, hsame, hg, hkey, htuple⟩
      · by_cases hk : key = f.key
        · subst hk
          rw [hcf] at hc₀
          cases hc₀
          -- it was there before the poll, or this visit has opened it
          rcases hself with ⟨c₁, hc₁, hsame'⟩ | ⟨hopened, htuple⟩
          · exact .inl ⟨c₁, hc₁, hsame.tuple.trans hsame'.tuple, hsame.exe.trans hsame'.exe⟩
          · exact .inr ⟨cf, f, hevents hopened, hsame, List.mem_cons_self, rfl,
              hsame.tuple.trans htuple⟩
        · rw [visitFlow_of_ne p acc hk] at hc₀
          exact .inl ⟨c₀, hc₀, hsame⟩
      · exact .inr ⟨c₁, g, hopened, hsame, List.mem_cons_of_mem _ hg, hkey, htuple⟩

/-- What the closing half of a poll keeps is in the table. -/
theorem mem_flows_of_kept {st : DaemonState} {p : Poll} {events : List Event}
    (hclosed : p.closedOrder.Perm (closedKeys st.connections (seenFlows p.flows))) {key : String}
    (h : ((p.closedOrder.foldl closeFlow (st, events)).1.connections.get? key).isSome = true) :
    key ∈ p.flows.map ParsedFlow.key := by
  by_contra hnot
  rw [get?_closeFlows] at h
  split at h
  · cases h
  · rename_i hopen
    refine hopen (hclosed.mem_iff.mpr (List.mem_filter.mpr ⟨?_, ?_⟩))
    · exact KeyedMap.mem_keys_iff.mpr (Option.isSome_iff_exists.mp h)
    · rw [← isSome_get?_seenFlows, Bool.not_eq_true, Option.isSome_eq_false_iff] at hnot
      exact hnot

/-- **The map after a poll**: its keys are those of the table; each entry was there
before, or was announced by the poll with the tuple of one of the table's lines. -/
theorem pollOnce_map {st : DaemonState} {p : Poll} {r : DaemonState × List Event}
    (h : st.pollOnce p = some r) (key : String) :
    ((r.1.connections.get? key).isSome = true ↔ key ∈ p.flows.map ParsedFlow.key) ∧
    ∀ c, r.1.connections.get? key = some c →
      (∃ c₀, st.connections.get? key = some c₀ ∧ SameFlow c c₀) ∨
        ∃ c₁ f, .connectionOpened c₁ ∈ r.2 ∧ SameFlow c c₁ ∧ f ∈ p.flows ∧ f.key = key ∧
          c.tuple = f.tuple := by
  obtain ⟨hclosed, hseen, rfl⟩ := pollOnce_eq_some.mp h
  obtain ⟨-, hvisit⟩ := visitFlows_spec p p.seenOrder (p.closedOrder.foldl closeFlow (st, []))
  refine ⟨?_, ?_⟩
  · rw [(hvisit key).1, mem_map_seenOrder hseen]
    exact ⟨fun h => h.elim (mem_flows_of_kept hclosed) id, .inr⟩
  · intro c hc
    rcases (hvisit key).2 c hc with ⟨c₀, hc₀, hsame⟩ | ⟨c₁, g, hopened, hsame, hg, hkey, htuple⟩
    · rw [get?_closeFlows] at hc₀
      split at hc₀
      · cases hc₀
      · exact .inl ⟨c₀, hc₀, hsame⟩
    · obtain ⟨k, hk⟩ := KeyedMap.mem_vals_iff.mp (hseen.mem_iff.mp hg)
      obtain ⟨hgk, f, hf, hfk, hft⟩ := get?_seenFlows hk
      exact .inr ⟨c₁, f, hopened, hsame, hf, hfk.trans (hgk.symm.trans hkey), htuple.trans hft.symm⟩

end DaemonState

/-! ## Counters -/

/-- What the lines with a key say of a counter. -/
def lineCounts (flows : List ParsedFlow) (counter : ParsedFlow → Nat) (key : String) : Set Nat :=
  {n | ∃ f ∈ flows, f.key = key ∧ counter f = n}

theorem lineCounts_snoc_self (flows : List ParsedFlow) (counter : ParsedFlow → Nat)
    (f : ParsedFlow) : lineCounts (flows ++ [f]) counter f.key =
      insert (counter f) (lineCounts flows counter f.key) := by
  ext n
  constructor
  · rintro ⟨g, hg, hkey, rfl⟩
    rcases List.mem_append.mp hg with hg | hg
    · exact .inr ⟨g, hg, hkey, rfl⟩
    · rw [List.mem_singleton.mp hg]
      exact .inl rfl
  · rintro (rfl | ⟨g, hg, hkey, rfl⟩)
    · exact ⟨f, List.mem_append_right _ List.mem_cons_self, rfl, rfl⟩
    · exact ⟨g, List.mem_append_left _ hg, hkey, rfl⟩

theorem lineCounts_snoc_of_ne {flows : List ParsedFlow} {counter : ParsedFlow → Nat}
    {f : ParsedFlow} {key : String} (h : key ≠ f.key) :
    lineCounts (flows ++ [f]) counter key = lineCounts flows counter key := by
  ext n
  constructor
  · rintro ⟨g, hg, hkey, rfl⟩
    rcases List.mem_append.mp hg with hg | hg
    · exact ⟨g, hg, hkey, rfl⟩
    · rw [List.mem_singleton.mp hg] at hkey
      exact absurd hkey.symm h
  · rintro ⟨g, hg, hkey, rfl⟩
    exact ⟨g, List.mem_append_left _ hg, hkey, rfl⟩

/-- Whichever counter the lines of a key are merged by, the flow noted has the largest. -/
theorem counter_seenFlows {counter : ParsedFlow → Nat}
    (hmax : ∀ old f : ParsedFlow,
      counter { old with sent := max old.sent f.sent, recv := max old.recv f.recv } =
        max (counter f) (counter old))
    {flows : List ParsedFlow} {key : String} {g : ParsedFlow}
    (h : (seenFlows flows).get? key = some g) :
    IsGreatest (lineCounts flows counter key) (counter g) := by
  induction flows using List.reverseRecOn generalizing g with
  | nil => cases h
  | append_singleton flows f ih =>
    have hsnoc : seenFlows (flows ++ [f]) = noteFlow (seenFlows flows) f := by
      rw [seenFlows, List.foldl_append]
      rfl
    rw [hsnoc] at h
    by_cases hkey : key = f.key
    · subst hkey
      rw [lineCounts_snoc_self]
      unfold noteFlow at h
      cases hold : (seenFlows flows).get? f.key with
      | some old =>
        rw [hold] at h
        obtain rfl := Option.some.inj ((KeyedMap.get?_insert_self ..).symm.trans h)
        rw [hmax]
        exact (ih hold).insert (counter f)
      | none =>
        rw [hold] at h
        obtain rfl := Option.some.inj ((KeyedMap.get?_insert_self ..).symm.trans h)
        -- no line before has the key
        have hfirst : lineCounts flows counter f.key = ∅ := by
          refine Set.eq_empty_of_forall_notMem fun n hn => ?_
          obtain ⟨g, hg, hkey, -⟩ := hn
          have hsome := (isSome_get?_seenFlows flows f.key).mpr (hkey ▸ List.mem_map_of_mem hg)
          rw [hold] at hsome
          cases hsome
        rw [hfirst, insert_empty_eq]
        exact isGreatest_singleton
    · rw [lineCounts_snoc_of_ne hkey]
      rw [get?_noteFlow_of_ne _ hkey] at h
      exact ih h

/-- The counters of a connection are those of a flow. -/
def HasCounters (c : ConnectionInfo) (f : ParsedFlow) : Prop :=
  c.bytesSent = f.sent ∧ c.bytesRecv = f.recv

namespace DaemonState

theorem visitFlow_counters (p : Poll) (acc : DaemonState × List Event) (f : ParsedFlow) :
    ∃ c, (visitFlow p acc f).1.connections.get? f.key = some c ∧ HasCounters c f := by
  unfold visitFlow
  cases hget : acc.1.connections.get? f.key with
  | some existing =>
    dsimp only
    split
    · exact ⟨_, KeyedMap.get?_insert_self .., rfl, rfl⟩
    · rename_i hsame
      obtain ⟨hsent, hrecv⟩ := not_or.mp hsame
      exact ⟨existing, hget, not_ne_iff.mp hsent, not_ne_iff.mp hrecv⟩
  | none => exact ⟨_, KeyedMap.get?_insert_self .., rfl, rfl⟩

theorem get?_visitFlows_of_not_mem (p : Poll) {flows : List ParsedFlow} {key : String}
    (h : key ∉ flows.map ParsedFlow.key) (acc : DaemonState × List Event) :
    (flows.foldl (visitFlow p) acc).1.connections.get? key = acc.1.connections.get? key := by
  induction flows generalizing acc with
  | nil => rfl
  | cons f flows ih =>
    rw [List.map_cons, List.mem_cons, not_or] at h
    rw [List.foldl_cons, ih h.2, visitFlow_of_ne p acc h.1]

/-- Each flow visited has its own entry, with its counters. -/
theorem visitFlows_counters (p : Poll) {flows : List ParsedFlow}
    (hnodup : (flows.map ParsedFlow.key).Nodup) (acc : DaemonState × List Event) :
    ∀ f ∈ flows, ∃ c,
      (flows.foldl (visitFlow p) acc).1.connections.get? f.key = some c ∧ HasCounters c f := by
  induction flows generalizing acc with
  | nil => exact List.forall_mem_nil _
  | cons f flows ih =>
    obtain ⟨hfirst, hnodup⟩ := List.nodup_cons.mp hnodup
    intro g hg
    rw [List.foldl_cons]
    rcases List.mem_cons.mp hg with rfl | hg
    · rw [get?_visitFlows_of_not_mem p hfirst]
      exact visitFlow_counters p acc g
    · exact ih hnodup _ g hg

/-- **The counters after a poll** are the largest that the lines of the flow say. -/
theorem pollOnce_counters {st : DaemonState} {p : Poll} {r : DaemonState × List Event}
    (h : st.pollOnce p = some r) {key : String} {c : ConnectionInfo}
    (hget : r.1.connections.get? key = some c) :
    IsGreatest (lineCounts p.flows ParsedFlow.sent key) c.bytesSent ∧
      IsGreatest (lineCounts p.flows ParsedFlow.recv key) c.bytesRecv := by
  have hkey : key ∈ p.flows.map ParsedFlow.key := by
    rw [← (pollOnce_map h key).1, hget]
    rfl
  obtain ⟨-, hseen, rfl⟩ := pollOnce_eq_some.mp h
  obtain ⟨g, hg⟩ := Option.isSome_iff_exists.mp ((isSome_get?_seenFlows p.flows key).mpr hkey)
  have hfiled : ∀ k f, (seenFlows p.flows).get? k = some f → f.key = k :=
    fun k f hf => (get?_seenFlows hf).1
  have hnodup : (p.seenOrder.map ParsedFlow.key).Nodup := by
    rw [(hseen.map ParsedFlow.key).nodup_iff, KeyedMap.vals_map_filed hfiled]
    exact KeyedMap.keys_nodup _
  have hvisit : g ∈ p.seenOrder := hseen.mem_iff.mpr (KeyedMap.mem_vals_iff.mpr ⟨key, hg⟩)
  obtain ⟨c', hc', hsent, hrecv⟩ :=
    visitFlows_counters p hnodup (p.closedOrder.foldl closeFlow (st, [])) g hvisit
  rw [hfiled key g hg, hget] at hc'
  obtain rfl := Option.some.inj hc'
  rw [hsent, hrecv]
  exact ⟨counter_seenFlows (fun _ _ => Nat.max_comm _ _) hg,
    counter_seenFlows (fun _ _ => Nat.max_comm _ _) hg⟩

end DaemonState

end TravelMode
