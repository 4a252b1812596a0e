import Mathlib.Algebra.BigOperators.Group.List.Basic
import TravelMode.Daemon.ConntrackText
import TravelMode.Gui.Eviction
import TravelMode.Lib.Meter
import TravelMode.Lib.Runs

/-!
# The display cap and what the client counts

The client forgets a flow over the cap, but goes on to receive its updates and its close.

- `Flows`: the flows behind a stream of connection events, and which streams are possible:
  of each flow an opening, updates, a close. The poller publishes such streams
  (`pollOnce_streams`).
- `totals_accurate_iff`: exactly when the totals of the session are the sums of what was
  last reported of each flow, which is what the reducer computes without the cap.

Only one kind of step goes wrong; `evicted_flow_counted_twice` is a run with it.
-/

namespace TravelMode

namespace DisplayCap

open ClientState

/-! ## Flows and the events about them -/

/-- The flows of a stream of events, each as it was last reported. -/
structure Flows where
  live : KeyedMap String ConnectionInfo
  closed : List ConnectionInfo

def Flows.initial : Flows := ⟨.empty, []⟩

/-- The counters of a flow do not fall. -/
def Growing (old conn : ConnectionInfo) : Prop :=
  old.bytesSent ≤ conn.bytesSent ∧ old.bytesRecv ≤ conn.bytesRecv

/-- The attribution of a flow is fixed. -/
def SameApp (old conn : ConnectionInfo) : Prop :=
  conn.exe = old.exe ∧ conn.processName = old.processName

instance : DecidableRel Growing := fun _ _ => inferInstanceAs (Decidable (_ ∧ _))

instance : DecidableRel SameApp := fun _ _ => inferInstanceAs (Decidable (_ ∧ _))

section

variable (continues : ConnectionInfo → ConnectionInfo → Prop) [DecidableRel continues]

/-- An event of the stream: a flow is opened unless it is live, and updated or closed if
it is; an update continues what was reported before. -/
def Flows.step (f : Flows) : Event → Option Flows
  | .connectionOpened conn =>
    match f.live.get? conn.key with
    | some _ => none
    | none => some { f with live := f.live.insert conn.key conn }
  | .connectionUpdated conn =>
    match f.live.get? conn.key with
    | some old =>
      if continues old conn then some { f with live := f.live.insert conn.key conn }
      else none
    | none => none
  | .connectionClosed key =>
    (f.live.get? key).map fun last => ⟨f.live.erase key, f.closed ++ [last]⟩
  | _ => some f

/-- The client, and the flows that its events are about. -/
structure World where
  flows : Flows
  client : ClientState

def step (w : World) (e : Event) : Option World :=
  (w.flows.step continues e).map fun flows => ⟨flows, w.client.applyEvent e⟩

end

def start : World := ⟨.initial, .default⟩

variable {continues : ConnectionInfo → ConnectionInfo → Prop} [DecidableRel continues]

/-- Everything an event can be about. -/
theorem Flows.step_cases {f f' : Flows} {e : Event} (h : f.step continues e = some f') :
    (∃ conn, e = .connectionOpened conn ∧ f.live.get? conn.key = none ∧
      f' = { f with live := f.live.insert conn.key conn }) ∨
    (∃ conn old, e = .connectionUpdated conn ∧ f.live.get? conn.key = some old ∧
      continues old conn ∧ f' = { f with live := f.live.insert conn.key conn }) ∨
    (∃ key last, e = .connectionClosed key ∧ f.live.get? key = some last ∧
      f' = ⟨f.live.erase key, f.closed ++ [last]⟩) ∨
    (e.connKey = none ∧ f' = f) := by
  cases e with
  | connectionOpened conn =>
    simp only [Flows.step] at h
    split at h
    · cases h
    · rename_i hnew
      exact .inl ⟨conn, rfl, hnew, (Option.some.inj h).symm⟩
  | connectionUpdated conn =>
    simp only [Flows.step] at h
    split at h
    · rename_i old hold
      split at h
      · rename_i hcont
        exact .inr (.inl ⟨conn, old, rfl, hold, hcont, (Option.some.inj h).symm⟩)
      · cases h
    · cases h
  | connectionClosed key =>
    obtain ⟨last, hlast, rfl⟩ := Option.map_eq_some_iff.mp h
    exact .inr (.inr (.inl ⟨key, last, rfl, hlast, rfl⟩))
  | _ => exact .inr (.inr (.inr ⟨rfl, (Option.some.inj h).symm⟩))

theorem Flows.step_opened {f : Flows} {conn : ConnectionInfo}
    (h : f.live.get? conn.key = none) : f.step continues (.connectionOpened conn) =
      some { f with live := f.live.insert conn.key conn } := by
  rw [step, h]

theorem Flows.step_updated {f : Flows} {conn old : ConnectionInfo}
    (h : f.live.get? conn.key = some old) (hcont : continues old conn) :
    f.step continues (.connectionUpdated conn) =
      some { f with live := f.live.insert conn.key conn } := by
  rw [step, h]
  exact if_pos hcont

theorem Flows.step_closed {f : Flows} {key : String} {last : ConnectionInfo}
    (h : f.live.get? key = some last) : f.step continues (.connectionClosed key) =
      some ⟨f.live.erase key, f.closed ++ [last]⟩ := by
  rw [step, h]
  rfl

/-! ## The poller's stream -/

/-- The events of a poll so far are about the flows of its map. -/
def Streams (f : Flows) (acc : DaemonState × List Event) : Prop :=
  ∃ f', Runs.run (Flows.step SameApp) f acc.2 = some f' ∧ f'.live = acc.1.connections

theorem Streams.snoc {f : Flows} {acc acc' : DaemonState × List Event} {e : Event}
    (h : Streams f acc) (hevents : acc'.2 = acc.2 ++ [e])
    (hstep : ∀ f' : Flows, f'.live = acc.1.connections → ∃ f'', f'.step SameApp e = some f'' ∧
      f''.live = acc'.1.connections) : Streams f acc' := by
  obtain ⟨f', hrun, hlive⟩ := h
  obtain ⟨f'', hs, hlive'⟩ := hstep f' hlive
  refine ⟨f'', ?_, hlive'⟩
  rw [hevents]
  exact Runs.run_snoc.mpr ⟨f', hrun, hs⟩

theorem streams_closeFlows {f : Flows} {keys : List String} {acc : DaemonState × List Event}
    (h : Streams f acc) (hnodup : keys.Nodup)
    (hopen : ∀ key ∈ keys, (acc.1.connections.get? key).isSome = true) :
    Streams f (keys.foldl DaemonState.closeFlow acc) := by
  induction keys generalizing acc with
  | nil => exact h
  | cons key keys ih =>
    obtain ⟨hfirst, hnodup⟩ := List.nodup_cons.mp hnodup
    obtain ⟨last, hlast⟩ := Option.isSome_iff_exists.mp (hopen key List.mem_cons_self)
    refine ih (h.snoc rfl fun f' hlive => ?_) hnodup fun k hk => ?_
    · refine ⟨⟨f'.live.erase key, f'.closed ++ [last]⟩, ?_, congrArg (·.erase key) hlive⟩
      exact Flows.step_closed (hlive ▸ hlast)
    · have hne : k ≠ key := fun heq => hfirst (heq ▸ hk)
      show ((acc.1.connections.erase key).get? k).isSome = true
      rw [KeyedMap.get?_erase_of_ne hne]
      exact hopen k (List.mem_cons_of_mem _ hk)

theorem streams_visitFlow {f : Flows} {p : Poll} {acc : DaemonState × List Event}
    (h : Streams f acc) (hf : Filed acc.1.connections) (flow : ParsedFlow) :
    Streams f (DaemonState.visitFlow p acc flow) := by
  unfold DaemonState.visitFlow
  cases hget : acc.1.connections.get? flow.key with
  | some existing =>
    have hkey : existing.key = flow.key := hf flow.key existing hget
    -- the poller keeps the key of a flow that it updates
    let conn := DaemonState.updated existing flow p.now
    dsimp only
    split
    · refine h.snoc rfl fun f' hlive => ⟨{ f' with live := f'.live.insert conn.key conn }, ?_, ?_⟩
      · refine @Flows.step_updated _ _ f' conn existing ?_ ⟨rfl, rfl⟩
        rw [hlive, ← hget, ← hkey]
        rfl
      · show f'.live.insert existing.key conn = acc.1.connections.insert flow.key conn
        rw [hlive, hkey]
    · exact h
  | none =>
    let who := (acc.1.attributeFlow (p.procFs flow.key) flow.protocol flow.localPort).1
    let conn := flow.opened who p.now
    refine h.snoc rfl fun f' hlive => ⟨{ f' with live := f'.live.insert conn.key conn }, ?_, ?_⟩
    · refine Flows.step_opened ?_
      rw [hlive]
      exact hget
    · exact congrArg (·.insert flow.key conn) hlive

/-- **The poller** publishes such a stream: of each flow an opening, updates under the
attribution it was opened with, a close. -/
theorem pollOnce_streams {st : DaemonState} {p : Poll} {r : DaemonState × List Event}
    (hf : Filed st.connections) (h : st.pollOnce p = some r) {f : Flows}
    (hlive : f.live = st.connections) :
    ∃ f', Runs.run (Flows.step SameApp) f r.2 = some f' ∧ f'.live = r.1.connections := by
  obtain ⟨hclosed, -, rfl⟩ := DaemonState.pollOnce_eq_some.mp h
  have hstart : DaemonState.PollAcc st (st, []) := ⟨rfl, fun _ h => (nomatch h), rfl, rfl⟩
  have hnodup : p.closedOrder.Nodup :=
    hclosed.nodup_iff.mpr ((KeyedMap.keys_nodup _).filter _)
  have hclosing : Streams f (p.closedOrder.foldl DaemonState.closeFlow (st, [])) := by
    refine streams_closeFlows ⟨f, rfl, hlive⟩ hnodup fun key hkey => ?_
    have hmem := (List.mem_filter.mp (hclosed.mem_iff.mp hkey)).1
    exact Option.isSome_iff_exists.mpr (KeyedMap.mem_keys_iff.mp hmem)
  have hacc := DaemonState.closeFlows_acc p.closedOrder hstart
  generalize p.closedOrder.foldl DaemonState.closeFlow (st, []) = acc at hclosing hacc
  generalize p.seenOrder = flows
  induction flows generalizing acc with
  | nil => exact hclosing
  | cons flow flows ih =>
    have hfiled : Filed acc.1.connections := hacc.conns ▸ filed_replayConns hf acc.2
    exact ih _ (streams_visitFlow hclosing hfiled flow) (DaemonState.visitFlow_acc hacc hf p flow)

/-! ## What the client still has -/

/-- The flows that the client has are live, and as it has them. -/
structure Tracks (f : Flows) (s : ClientState) : Prop where
  queued : Queued s.conns s.connOrder
  live : ∀ key conn, s.conns.get? key = some conn → f.live.get? key = some conn

theorem tracks_start : Tracks .initial .default := ⟨queued_empty, fun _ _ h => nomatch h⟩

/-- A report of a flow, first or not. -/
theorem Tracks.upsert {f : Flows} {s : ClientState} (h : Tracks f s) (conn : ConnectionInfo)
    (isOpen : Bool) :
    Tracks { f with live := f.live.insert conn.key conn } (s.upsertConn conn isOpen) := by
  have hcapped := upsertConn_capped h.queued conn isOpen
  refine ⟨hcapped.queued, fun key c hget => ?_⟩
  obtain ⟨-, hget⟩ := (hcapped.get? key c).mp hget
  show (f.live.insert conn.key conn).get? key = some c
  rw [KeyedMap.get?_insert] at hget ⊢
  split at hget
  · rename_i hkey
    rw [if_pos hkey, hget]
  · rename_i hkey
    rw [if_neg hkey]
    exact h.live key c hget

/-- An event about no connection leaves the client's flows alone. -/
theorem applyEvent_conns {s : ClientState} {e : Event} (h : e.connKey = none) :
    (s.applyEvent e).conns = s.conns ∧ (s.applyEvent e).connOrder = s.connOrder := by
  cases e with
  | connectionOpened conn => cases h
  | connectionUpdated conn => cases h
  | connectionClosed key => cases h
  | _ => exact ⟨rfl, rfl⟩

theorem get?_removeConn {s : ClientState} {key k : String} :
    (s.removeConn key).conns.get? k = if k = key then none else s.conns.get? k := by
  rw [removeConn_conns, KeyedMap.get?_erase]

theorem tracks_step {f f' : Flows} {s : ClientState} {e : Event} (h : Tracks f s)
    (hf : f.step continues e = some f') : Tracks f' (s.applyEvent e) := by
  rcases Flows.step_cases hf with ⟨conn, rfl, -, rfl⟩ | ⟨conn, old, rfl, -, -, rfl⟩ |
    ⟨key, last, rfl, -, rfl⟩ | ⟨hkey, rfl⟩
  · exact h.upsert conn true
  · exact h.upsert conn false
  · refine ⟨removeConn_queued h.queued key, fun k c hget => ?_⟩
    change (s.removeConn key).conns.get? k = some c at hget
    show (f.live.erase key).get? k = some c
    rw [get?_removeConn] at hget
    rw [KeyedMap.get?_erase]
    split at hget
    · cases hget
    · rename_i hk
      rw [if_neg hk]
      exact h.live k c hget
  · obtain ⟨hconns, horder⟩ := @applyEvent_conns s e hkey
    refine ⟨?_, fun k c hget => h.live k c (hconns ▸ hget)⟩
    rw [hconns, horder]
    exact h.queued

/-! ## Totals -/

/-- The two directions of traffic. -/
inductive Direction where
  | up
  | down

/-- The counter of a flow. -/
def Direction.bytes : Direction → ConnectionInfo → Nat
  | up => ConnectionInfo.bytesSent
  | down => ConnectionInfo.bytesRecv

/-- The client's total. -/
def Direction.total : Direction → ClientState → Nat
  | up => ClientState.totalUp
  | down => ClientState.totalDown

theorem total_up (s : ClientState) : Direction.total .up s = s.totalUp := rfl

/-- The sum of what was last reported, over all flows opened. -/
def Flows.reported (f : Flows) (d : Direction) : Nat := ((f.live.vals ++ f.closed).map d.bytes).sum

theorem reported_opened {f : Flows} {conn : ConnectionInfo} (d : Direction)
    (h : f.live.get? conn.key = none) :
    Flows.reported { f with live := f.live.insert conn.key conn } d =
      f.reported d + d.bytes conn := by
  unfold Flows.reported
  dsimp only
  rw [KeyedMap.vals_insert_of_none conn h, List.cons_append, List.map_cons, List.sum_cons,
    Nat.add_comm]

theorem reported_updated {f : Flows} {conn old : ConnectionInfo} (d : Direction)
    (h : f.live.get? conn.key = some old) :
    Flows.reported { f with live := f.live.insert conn.key conn } d + d.bytes old =
      f.reported d + d.bytes conn := by
  have hperm := ((KeyedMap.vals_perm h).append_right f.closed).map d.bytes
  unfold Flows.reported
  rw [hperm.sum_eq]
  dsimp only
  rw [KeyedMap.vals_insert, List.cons_append, List.cons_append, List.map_cons, List.map_cons,
    List.sum_cons, List.sum_cons]
  omega

theorem reported_closed {f : Flows} {key : String} {last : ConnectionInfo} (d : Direction)
    (h : f.live.get? key = some last) :
    Flows.reported ⟨f.live.erase key, f.closed ++ [last]⟩ d = f.reported d := by
  unfold Flows.reported
  refine (List.Perm.map d.bytes ?_).sum_eq
  rw [← List.append_assoc]
  exact List.perm_append_comm.trans ((KeyedMap.vals_perm h).symm.append_right f.closed)

/-- What an event adds to a total. -/
def gain (d : Direction) (s : ClientState) : Event → Nat
  | .connectionOpened conn => d.bytes conn - ((s.conns.get? conn.key).map d.bytes).getD 0
  | .connectionUpdated conn => d.bytes conn - ((s.conns.get? conn.key).map d.bytes).getD 0
  | _ => 0

theorem total_upsertConn (d : Direction) (s : ClientState) (conn : ConnectionInfo)
    (isOpen : Bool) : d.total (s.upsertConn conn isOpen) =
      d.total s + (d.bytes conn - ((s.conns.get? conn.key).map d.bytes).getD 0) := by
  cases d <;> rfl

theorem total_applyEvent (d : Direction) (s : ClientState) (e : Event) :
    d.total (s.applyEvent e) = d.total s + gain d s e := by
  cases e with
  | connectionOpened conn => exact total_upsertConn d s conn true
  | connectionUpdated conn => exact total_upsertConn d s conn false
  | connectionClosed key =>
    show d.total (s.removeConn key) = d.total s
    unfold removeConn
    cases d <;> cases s.conns.get? key <;> rfl
  | _ => cases d <;> rfl

/-- The client has the flow that an update continues, or nothing had been counted of it. -/
def Baseline (w : World) : Event → Prop
  | .connectionUpdated conn => w.client.conns.get? conn.key = none →
      ∀ old, w.flows.live.get? conn.key = some old → old.bytesSent = 0 ∧ old.bytesRecv = 0
  | _ => True

instance : ∀ w e, Decidable (Baseline w e)
  | w, .connectionUpdated conn =>
    inferInstanceAs (Decidable (w.client.conns.get? conn.key = none →
      ∀ old ∈ w.flows.live.get? conn.key, old.bytesSent = 0 ∧ old.bytesRecv = 0))
  | _, .connectionOpened _ => isTrue trivial
  | _, .connectionClosed _ => isTrue trivial
  | _, .processStarted _ => isTrue trivial
  | _, .processExited _ => isTrue trivial
  | _, .networkChanged _ => isTrue trivial
  | _, .ruleAdded _ => isTrue trivial
  | _, .ruleRemoved _ => isTrue trivial
  | _, .pausedChanged _ => isTrue trivial

/-- An event that adds to a total what the flows report more leaves it as accurate as it was. -/
theorem totals_even {f f' : Flows} {s s' : ClientState} {e : Event}
    (heven : ∀ d : Direction, d.total s' + f.reported d = d.total s + f'.reported d)
    (hle : ∀ d : Direction, f.reported d ≤ d.total s) (hbase : Baseline ⟨f, s⟩ e) :
    (∀ d : Direction, f'.reported d ≤ d.total s') ∧
      ((∀ d : Direction, d.total s' = f'.reported d) ↔
        (∀ d : Direction, d.total s = f.reported d) ∧ Baseline ⟨f, s⟩ e) := by
  obtain ⟨hle', hiff⟩ := Meter.even_step heven hle
  exact ⟨hle', hiff.trans (and_iff_left hbase).symm⟩

/-- An update of an evicted flow counts all of its bytes again. -/
theorem totals_again {f : Flows} {s s' : ClientState} {conn old : ConnectionInfo}
    (hold : f.live.get? conn.key = some old) (hget : s.conns.get? conn.key = none)
    (hstep : ∀ d : Direction, d.total s' = d.total s + d.bytes conn)
    (hle : ∀ d : Direction, f.reported d ≤ d.total s) :
    let f' : Flows := { f with live := f.live.insert conn.key conn }
    (∀ d : Direction, f'.reported d ≤ d.total s') ∧
      ((∀ d : Direction, d.total s' = f'.reported d) ↔
        (∀ d : Direction, d.total s = f.reported d) ∧
          Baseline ⟨f, s⟩ (.connectionUpdated conn)) := by
  intro f'
  have hreported : ∀ d : Direction, f'.reported d + d.bytes old = f.reported d + d.bytes conn :=
    fun d => reported_updated d hold
  refine ⟨fun d => ?_, ?_, ?_⟩
  · have h1 := hstep d
    have h2 := hreported d
    have h3 := hle d
    omega
  · intro h
    have hboth : ∀ d : Direction, d.bytes old = 0 ∧ d.total s = f.reported d := by
      intro d
      have h1 := hstep d
      have h2 := hreported d
      have h3 := hle d
      have h4 := h d
      omega
    refine ⟨fun d => (hboth d).2, fun _ old' hold' => ?_⟩
    obtain rfl : old = old' := Option.some.inj (hold.symm.trans hold')
    exact ⟨(hboth .up).1, (hboth .down).1⟩
  · rintro ⟨hacc, hbase⟩ d
    obtain ⟨hsent, hrecv⟩ := hbase hget old hold
    have hzero : d.bytes old = 0 := by
      cases d
      · exact hsent
      · exact hrecv
    have h1 := hstep d
    have h2 := hreported d
    have h4 := hacc d
    omega

/-- **Step lemma**: totals never fall short, and a step leaves them accurate exactly if
they were, and the step has its baseline. -/
theorem totals_step {f f' : Flows} {s s' : ClientState} {e : Event}
    (hlive : ∀ key conn, s.conns.get? key = some conn → f.live.get? key = some conn)
    (hle : ∀ d : Direction, f.reported d ≤ d.total s) (hf : f.step Growing e = some f')
    (hgain : ∀ d : Direction, d.total s' = d.total s + gain d s e) :
    (∀ d : Direction, f'.reported d ≤ d.total s') ∧
      ((∀ d : Direction, d.total s' = f'.reported d) ↔
        (∀ d : Direction, d.total s = f.reported d) ∧ Baseline ⟨f, s⟩ e) := by
  rcases Flows.step_cases hf with ⟨conn, rfl, hnew, rfl⟩ | ⟨conn, old, rfl, hold, hgrow, rfl⟩ |
    ⟨key, last, rfl, hlast, rfl⟩ | ⟨hkey, rfl⟩
  · -- the client does not have a flow that is new
    have hnone : s.conns.get? conn.key = none := by
      cases hget : s.conns.get? conn.key with
      | none => rfl
      | some c =>
        rw [hlive _ _ hget] at hnew
        cases hnew
    refine totals_even (fun d => ?_) hle trivial
    have hstep : d.total s' = d.total s + d.bytes conn := by
      rw [hgain d, gain, hnone]
      rfl
    rw [hstep, reported_opened d hnew]
    omega
  · cases hget : s.conns.get? conn.key with
    | some c =>
      obtain rfl : c = old := Option.some.inj ((hlive _ _ hget).symm.trans hold)
      refine totals_even (fun d => ?_) hle fun hnone => ?_
      · have hmono : d.bytes c ≤ d.bytes conn := by
          cases d
          · exact hgrow.1
          · exact hgrow.2
        have hreported := reported_updated d hold
        rw [hgain d, gain, hget]
        simp only [Option.map_some, Option.getD_some]
        omega
      · rw [show s.conns.get? conn.key = some c from hget] at hnone
        cases hnone
    | none =>
      refine totals_again hold hget (fun d => ?_) hle
      rw [hgain d, gain, hget]
      rfl
  · refine totals_even (fun d => ?_) hle trivial
    rw [show d.total s' = d.total s from hgain d, reported_closed d hlast]
  · have hquiet : ∀ d, gain d s e = 0 ∧ Baseline ⟨f', s⟩ e := by
      intro d
      cases e with
      | connectionOpened conn => cases hkey
      | connectionUpdated conn => cases hkey
      | connectionClosed key => cases hkey
      | _ => exact ⟨rfl, trivial⟩
    refine totals_even (fun d => ?_) hle (hquiet .up).2
    rw [hgain d, (hquiet d).1, Nat.add_zero]

/-! ### The reducer without the cap -/

/-- `upsert_conn` without `enforce_conn_cap`. -/
def upsertUncapped (s : ClientState) (conn : ConnectionInfo) (isOpen : Bool) : ClientState :=
  { s.upsertConn conn isOpen with
    conns := s.conns.insert conn.key conn
    connOrder := s.reportedOrder conn }

/-- `apply_event` without the cap. -/
def applyUncapped (s : ClientState) : Event → ClientState
  | .connectionOpened conn => upsertUncapped s conn true
  | .connectionUpdated conn => upsertUncapped s conn false
  | e => s.applyEvent e

/-- Fold a stream of events without the cap. -/
def replayUncapped (events : List Event) : ClientState := events.foldl applyUncapped .default

theorem total_applyUncapped (d : Direction) (s : ClientState) (e : Event) :
    d.total (applyUncapped s e) = d.total s + gain d s e := by
  rw [← total_applyEvent]
  cases e <;> cases d <;> rfl

/-- Without the cap the client has the flows that are live. -/
theorem conns_applyUncapped {f f' : Flows} {s : ClientState} {e : Event}
    (h : ∀ key, s.conns.get? key = f.live.get? key) (hf : f.step Growing e = some f') (key : String) :
    (applyUncapped s e).conns.get? key = f'.live.get? key := by
  rcases Flows.step_cases hf with ⟨conn, rfl, -, rfl⟩ | ⟨conn, old, rfl, -, -, rfl⟩ |
    ⟨k, last, rfl, -, rfl⟩ | ⟨hkey, rfl⟩
  · show (s.conns.insert conn.key conn).get? key = (f.live.insert conn.key conn).get? key
    rw [KeyedMap.get?_insert, KeyedMap.get?_insert, h]
  · show (s.conns.insert conn.key conn).get? key = (f.live.insert conn.key conn).get? key
    rw [KeyedMap.get?_insert, KeyedMap.get?_insert, h]
  · show (s.removeConn k).conns.get? key = (f.live.erase k).get? key
    rw [get?_removeConn, KeyedMap.get?_erase, h]
  · have hsame : (applyUncapped s e).conns = s.conns := by
      cases e with
      | connectionOpened conn => cases hkey
      | connectionUpdated conn => cases hkey
      | connectionClosed k => cases hkey
      | _ => rfl
    rw [hsame, h]

/-- **Without the cap** the totals are the sums of what was last reported. -/
theorem uncapped_reported {events : List Event} {w : World}
    (hrun : Runs.run (step Growing) start events = some w) (d : Direction) :
    d.total (replayUncapped events) = w.flows.reported d := by
  have hinv : (∀ key, (replayUncapped events).conns.get? key = w.flows.live.get? key) ∧
      ∀ d : Direction, d.total (replayUncapped events) = w.flows.reported d := by
    refine @Runs.run_history _ _ _ (fun events w =>
      (∀ key, (replayUncapped events).conns.get? key = w.flows.live.get? key) ∧
        ∀ d : Direction, d.total (replayUncapped events) = w.flows.reported d) start
      ⟨fun _ => rfl, fun d => by cases d <;> rfl⟩ ?_ _ _ hrun
    intro events w w' e _ ⟨hconns, hsum⟩ hs
    obtain ⟨f, hf, rfl⟩ := Option.map_eq_some_iff.mp hs
    have hfold : replayUncapped (events ++ [e]) = applyUncapped (replayUncapped events) e := by
      rw [replayUncapped, List.foldl_append]
      rfl
    rw [hfold]
    refine ⟨conns_applyUncapped hconns hf, ?_⟩
    refine (totals_step (fun key conn hget => hconns key ▸ hget)
      (fun d => Nat.le_of_eq (hsum d).symm) hf fun d => total_applyUncapped d _ e).2.mpr
      ⟨hsum, ?_⟩
    -- a live flow is never missing
    cases e with
    | connectionUpdated conn =>
      intro hnone old hold
      rw [← hconns] at hold
      rw [show (replayUncapped events).conns.get? conn.key = none from hnone] at hold
      cases hold
    | _ => trivial
  exact hinv.2 d

/-! ### The reducer with the cap -/

/-- What every run keeps: the client's flows are live, and nothing counted is lost. -/
structure Counts (w : World) : Prop where
  tracks : Tracks w.flows w.client
  le : ∀ d : Direction, w.flows.reported d ≤ d.total w.client

/-- The totals are the sums of what was last reported. -/
def Accurate (w : World) : Prop := ∀ d : Direction, d.total w.client = w.flows.reported d

theorem counts_step {w w' : World} {e : Event} (h : Counts w) (hs : step Growing w e = some w') :
    Counts w' ∧ (Accurate w' ↔ Accurate w ∧ Baseline w e) := by
  obtain ⟨f, hf, rfl⟩ := Option.map_eq_some_iff.mp hs
  obtain ⟨hle, hiff⟩ := totals_step h.tracks.live h.le hf fun d => total_applyEvent d w.client e
  exact ⟨⟨tracks_step h.tracks hf, hle⟩, hiff⟩

theorem accurate_iff {events : List Event} {w : World}
    (hrun : Runs.run (step Growing) start events = some w) :
    Accurate w ↔ Runs.AlongRun (step Growing) Baseline start events := by
  have hstart : Counts start := ⟨tracks_start, fun d => Nat.zero_le _⟩
  have haccurate : Accurate start := fun d => by cases d <;> rfl
  exact Runs.run_iff_along (fun h hs => (counts_step h hs).1)
    (fun h hs => (counts_step h hs).2) hstart haccurate hrun

/-- The totals of the client are the sums, over all flows opened, of what was last
reported of the flow, and so what the reducer computes without the cap, exactly if every
update found its baseline. -/
theorem totals_accurate_iff {events : List Event} {w : World}
    (hrun : Runs.run (step Growing) start events = some w) :
    ((w.client.totalUp = w.flows.reported .up ∧ w.client.totalDown = w.flows.reported .down) ∧
      w.client.totalUp = (replayUncapped events).totalUp ∧
      w.client.totalDown = (replayUncapped events).totalDown) ↔
    Runs.AlongRun (step Growing) Baseline start events := by
  have hup : (replayUncapped events).totalUp = w.flows.reported .up := uncapped_reported hrun .up
  have hdown : (replayUncapped events).totalDown = w.flows.reported .down :=
    uncapped_reported hrun .down
  rw [hup, hdown, and_self_iff, ← accurate_iff hrun]
  constructor
  · rintro ⟨hsent, hrecv⟩ d
    cases d
    · exact hsent
    · exact hrecv
  · exact fun h => ⟨h .up, h .down⟩

/-! ### More flows than the cap -/

/-- A flow of one of the local ports, with as many bytes either way. -/
def flow (i bytes : Nat) : ConnectionInfo where
  key := FlowTuple.key ⟨.udp, .v4 ⟨10, 0, 0, 2⟩, UInt16.ofNat (1024 + i), .v4 ⟨1, 1, 1, 1⟩, 443⟩
  protocol := .udp
  localAddr := .v4 ⟨10, 0, 0, 2⟩
  localPort := UInt16.ofNat (1024 + i)
  remoteAddr := .v4 ⟨1, 1, 1, 1⟩
  remotePort := 443
  bytesSent := bytes
  bytesRecv := bytes
  pid := none
  processName := some "curl"
  exe := some (.ofString "/usr/bin/curl")
  started := .epoch
  lastSeen := .epoch

/-- Two flows, one updated, the other closed. -/
def twoFlows : List Event :=
  [.connectionOpened (flow 1 100), .connectionOpened (flow 2 50), .connectionUpdated (flow 1 130),
    .connectionClosed (flow 2 50).key]

theorem twoFlows_runs : (Runs.run (step Growing) start twoFlows).isSome = true := by
  decide +kernel

theorem totals_accurate_iff_twoFlows :
    let w := (Runs.run (step Growing) start twoFlows).get twoFlows_runs
    w.flows.reported .up = 180 ∧ w.client.totalUp = w.flows.reported .up ∧
      w.client.totalUp = (replayUncapped twoFlows).totalUp := by
  have h := (totals_accurate_iff (Option.some_get twoFlows_runs).symm).mpr (by decide +kernel)
  exact ⟨by decide +kernel, h.1.1, h.2.1⟩

/-- One flow more than the client keeps. -/
def overCap : List ConnectionInfo := (List.range 501).map fun i => flow i 100

theorem overCap_nodup : (overCap.map ConnectionInfo.key).Nodup := by
  rw [overCap, List.map_map]
  refine List.Nodup.map_on (fun i hi j hj h => ?_) List.nodup_range
  have hport := congrArg UInt16.toNat (FlowTuple.key_localPort (t := (flow 0 0).tuple) h)
  rw [List.mem_range] at hi hj
  rw [UInt16.toNat_ofNat', UInt16.toNat_ofNat'] at hport
  omega

/-- New flows, one after the other, are live. -/
theorem run_opened {opened : List ConnectionInfo}
    (hnodup : (opened.map ConnectionInfo.key).Nodup) :
    ∃ w, Runs.run (step continues) start (opened.map .connectionOpened) = some w ∧
      w.client = ClientState.default.replay (opened.map .connectionOpened) ∧
      ∀ key conn, w.flows.live.get? key = some conn ↔ conn ∈ opened ∧ conn.key = key := by
  induction opened using List.reverseRecOn with
  | nil => exact ⟨start, rfl, rfl, fun _ _ => iff_of_false nofun fun h => nomatch h.1⟩
  | append_singleton opened conn ih =>
    rw [List.map_append, List.map_singleton, List.nodup_append] at hnodup
    obtain ⟨hnodup, -, hfresh⟩ := hnodup
    obtain ⟨w, hrun, hclient, hlive⟩ := ih hnodup
    -- the keys differ, so no flow that is live has this one
    have hnew : w.flows.live.get? conn.key = none := by
      refine Option.eq_none_iff_forall_ne_some.mpr fun c hc => ?_
      obtain ⟨hmem, hkey⟩ := (hlive _ _).mp hc
      exact hfresh _ (List.mem_map_of_mem hmem) _ (List.mem_singleton.mpr rfl) hkey
    have hstep : step continues w (.connectionOpened conn) = some
        ⟨{ w.flows with live := w.flows.live.insert conn.key conn },
          w.client.applyEvent (.connectionOpened conn)⟩ := by
      rw [step, Flows.step_opened hnew]
      rfl
    rw [List.map_append, List.map_singleton]
    refine ⟨_, Runs.run_snoc.mpr ⟨w, hrun, hstep⟩, ?_, fun key c => ?_⟩
    · rw [replay, List.foldl_append, hclient]
      rfl
    · show (w.flows.live.insert conn.key conn).get? key = some c ↔ _
      rw [KeyedMap.get?_insert, List.mem_append, List.mem_singleton]
      by_cases hkey : key = conn.key
      · rw [if_pos hkey, Option.some.injEq]
        constructor
        · rintro rfl
          exact ⟨.inr rfl, hkey.symm⟩
        · rintro ⟨hmem | rfl, hck⟩
          · exact absurd (hck.trans hkey)
              (hfresh _ (List.mem_map_of_mem hmem) _ (List.mem_singleton.mpr rfl))
          · rfl
      · rw [if_neg hkey, hlive]
        constructor
        · exact fun h => ⟨.inl h.1, h.2⟩
        · rintro ⟨hmem | rfl, hck⟩
          · exact ⟨hmem, hck⟩
          · exact absurd hck.symm hkey

/-- The first of the flows over the cap is live, and the client has forgotten it. -/
theorem overCap_evicted : ∃ w, Runs.run (step continues) start
      (overCap.map .connectionOpened) = some w ∧
    w.flows.live.get? (flow 0 100).key = some (flow 0 100) ∧
    w.client.conns.get? (flow 0 100).key = none := by
  obtain ⟨w, hrun, hclient, hlive⟩ := @run_opened continues _ _ overCap_nodup
  obtain ⟨hqueued, horder⟩ := replay_opened_order overCap_nodup
  have hfirst : flow 0 100 ∈ overCap :=
    List.mem_map.mpr ⟨0, List.mem_range.mpr (by decide), rfl⟩
  refine ⟨w, hrun, (hlive _ _).mpr ⟨hfirst, rfl⟩, ?_⟩
  have hsplit : overCap = flow 0 100 :: ((List.range 500).map Nat.succ).map fun i => flow i 100 := by
    rw [overCap, List.range_succ_eq_map, List.map_cons]
  have hout : (flow 0 100).key ∉
      (default.replay (overCap.map .connectionOpened)).connOrder := by
    have hnodup := overCap_nodup
    have hlen : overCap.length - maxConnections = 1 := by
      rw [overCap, List.length_map, List.length_range]
      rfl
    rw [horder, hlen, hsplit]
    rw [hsplit] at hnodup
    exact (List.nodup_cons.mp hnodup).1
  rw [hclient, ← Option.not_isSome_iff_eq_none, ← hqueued.mem_iff]
  exact hout

/-- 501 flows of 100 bytes are opened, and the first gets 10 bytes more. -/
def updatedAfterEviction : List Event :=
  overCap.map .connectionOpened ++ [.connectionUpdated (flow 0 110)]

/-- The 100 bytes that were counted before are counted again. -/
theorem evicted_flow_counted_twice :
    ∃ w, Runs.run (step Growing) start updatedAfterEviction = some w ∧
      w.client.totalUp = w.flows.reported .up + 100 ∧
      w.client.totalUp = (replayUncapped updatedAfterEviction).totalUp + 100 := by
  obtain ⟨w, hrun, hold, hmissing⟩ := @overCap_evicted Growing _
  have hopened : Accurate w := by
    refine (accurate_iff hrun).mpr (Runs.alongRun_of_forall fun e he m => ?_)
    obtain ⟨conn, -, rfl⟩ := List.mem_map.mp he
    trivial
  have hget : w.flows.live.get? (flow 0 110).key = some (flow 0 100) := hold
  let flows : Flows := { w.flows with live := w.flows.live.insert (flow 0 110).key (flow 0 110) }
  let client := w.client.applyEvent (.connectionUpdated (flow 0 110))
  have hstep : step Growing w (.connectionUpdated (flow 0 110)) = some ⟨flows, client⟩ := by
    rw [step, Flows.step_updated hget (by decide)]
    rfl
  have hrun' : Runs.run (step Growing) start updatedAfterEviction = some ⟨flows, client⟩ :=
    Runs.run_snoc.mpr ⟨w, hrun, hstep⟩
  have huncapped := uncapped_reported hrun' .up
  have hreported : flows.reported .up + 100 = w.flows.reported .up + 110 :=
    reported_updated .up hget
  -- the client has forgotten the flow, so all its bytes are new again
  have hgain : gain .up w.client (.connectionUpdated (flow 0 110)) = 110 := by
    rw [gain, show w.client.conns.get? (flow 0 110).key = none from hmissing]
    rfl
  have htotal := total_applyEvent .up w.client (.connectionUpdated (flow 0 110))
  have hbefore := hopened .up
  rw [total_up] at huncapped hbefore
  rw [total_up, total_up, hgain] at htotal
  have htwice : client.totalUp = flows.reported .up + 100 := by
    rw [htotal, hreported, hbefore]
  refine ⟨⟨flows, client⟩, hrun', htwice, ?_⟩
  rw [huncapped]
  exact htwice

end DisplayCap

end TravelMode
