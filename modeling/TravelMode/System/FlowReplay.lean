import TravelMode.Daemon.ConntrackText
import TravelMode.Daemon.Tasks
import TravelMode.Lib.Runs

/-!
# The map of flows, from the text of the table

The poller reads a table of any text, or fails to read it, while the daemon's other tasks
run.

- `World`: the daemon, and everything announced.
- `flows_replayed`: from any moment on, the connection events fold the map of that moment
  into the map of now; and after a poll the map has the keys of the table's lines, with
  the largest counters that the lines of a key say.
-/

namespace TravelMode

namespace FlowReplay

/-- The daemon, and the events it has announced. -/
structure World where
  daemon : DaemonState
  published : List Event

inductive Action where
  /-- A pass of the poller. -/
  | poll (t : TablePoll)
  /-- A section of another task. -/
  | other (t : Task)

/-- What ran, and what it announced. -/
def World.after (w : World) (ran : DaemonState × List Event) : World :=
  ⟨ran.1, w.published ++ ran.2⟩

def step (w : World) : Action → Option World
  | .poll t => (w.daemon.pollTable t).map w.after
  -- there is one poller
  | .other (.poll _) => none
  | .other t => (w.daemon.perform t).map w.after

def start (rules : Inner) : World := ⟨.new rules, []⟩

/-- What every run keeps since a moment: its map, and the events since, make the map. -/
structure Since (w₀ w : World) (events : List Event) : Prop where
  published : w.published = w₀.published ++ events
  conns : w.daemon.connections = replayConns w₀.daemon.connections events
  filed : Filed w.daemon.connections

/-- A step, and the events that it adds. -/
theorem step_since {w w' : World} {a : Action} (hf : Filed w.daemon.connections)
    (hs : step w a = some w') : ∃ events, Since w w' events := by
  cases a with
  | poll t =>
    obtain ⟨ran, hran, rfl⟩ := Option.map_eq_some_iff.mp hs
    have hconns : ran.1.connections = replayConns w.daemon.connections ran.2 := by
      unfold DaemonState.pollTable at hran
      -- a table that cannot be read ends the poll before the flows are touched
      cases htext : t.text with
      | none =>
        rw [htext] at hran
        cases hran
        rfl
      | some text =>
        rw [htext] at hran
        exact (DaemonState.pollOnce_spec hf hran).conns
    exact ⟨ran.2, rfl, hconns, show Filed ran.1.connections from hconns ▸ filed_replayConns hf ran.2⟩
  | other t =>
    have hother : (∀ p, t ≠ .poll p) ∧ (w.daemon.perform t).map w.after = some w' := by
      cases t with
      | poll p => cases hs
      | _ => exact ⟨(fun p h => nomatch h), hs⟩
    obtain ⟨hpoll, hs⟩ := hother
    obtain ⟨⟨d, events⟩, hran, rfl⟩ := Option.map_eq_some_iff.mp hs
    obtain ⟨hconns, hquiet⟩ := DaemonState.perform_frame hpoll hran
    refine ⟨events, rfl, ?_, show Filed d.connections from hconns.symm ▸ hf⟩
    rw [replayConns_of_not_isConn hquiet]
    exact hconns

/-- **Run lemma.** -/
theorem run_since {w₀ w : World} {sched : List Action} (hf : Filed w₀.daemon.connections)
    (hrun : Runs.run step w₀ sched = some w) : ∃ events, Since w₀ w events := by
  have hstart : ∃ events, Since w₀ w₀ events := ⟨[], (List.append_nil _).symm, rfl, hf⟩
  refine @Runs.run_invariant _ _ step (fun w => ∃ events, Since w₀ w events)
    (fun {w w' a} hsince hs => ?_) _ _ _ hstart hrun
  obtain ⟨events, hpub, hconns, hfiled⟩ := hsince
  obtain ⟨new, hpub', hconns', hfiled'⟩ := step_since hfiled hs
  refine ⟨events ++ new, ?_, ?_, hfiled'⟩
  · rw [hpub', hpub, List.append_assoc]
  · rw [hconns', hconns, replayConns_append]

/-- The map says what the table says: a flow for each key of its lines, with the largest
counters. -/
structure Mirrors (conns : KeyedMap String ConnectionInfo) (lines : List ParsedFlow) : Prop where
  keys : ∀ key, (conns.get? key).isSome = true ↔ key ∈ lines.map ParsedFlow.key
  sent : ∀ key c, conns.get? key = some c →
    IsGreatest (lineCounts lines ParsedFlow.sent key) c.bytesSent
  recv : ∀ key c, conns.get? key = some c →
    IsGreatest (lineCounts lines ParsedFlow.recv key) c.bytesRecv

/-- A pass over a table that was read, in any order of what it iterates over. -/
theorem poll_mirrors {w : World} {t : TablePoll} {text : List Char} (htext : t.text = some text)
    (hclosed : t.closedOrder.Perm (closedKeys w.daemon.connections (seenFlows (parseTable text))))
    (hseen : t.seenOrder.Perm (seenFlows (parseTable text)).vals) :
    ∃ w', step w (.poll t) = some w' ∧ Mirrors w'.daemon.connections (parseTable text) := by
  have hpoll := DaemonState.pollOnce_eq_some.mpr
    ⟨(show (t.poll text).closedOrder.Perm _ from hclosed), hseen, rfl⟩
  have htable : w.daemon.pollTable t = w.daemon.pollOnce (t.poll text) := by
    rw [DaemonState.pollTable, htext]
  refine ⟨_, Option.map_eq_some_iff.mpr ⟨_, htable.trans hpoll, rfl⟩, ?_, ?_, ?_⟩
  · exact fun key => (DaemonState.pollOnce_map hpoll key).1
  · exact fun key c hget => (DaemonState.pollOnce_counters hpoll hget).1
  · exact fun key c hget => (DaemonState.pollOnce_counters hpoll hget).2

/-- Whatever ran up to some moment and since: the events since then fold the map of that
moment into the map of now, field for field. And a pass that reads its table, whatever the
text and in whatever order, leaves the keys of the parseable lines with the largest
counters of their lines. -/
theorem flows_replayed {rules : Inner} {before sched : List Action} {w₀ w : World}
    (hbefore : Runs.run step (start rules) before = some w₀)
    (hrun : Runs.run step w₀ sched = some w) :
    (∃ events, w.published = w₀.published ++ events ∧
      w.daemon.connections = replayConns w₀.daemon.connections events) ∧
    ∀ (t : TablePoll) (text : List Char), t.text = some text →
      t.closedOrder.Perm (closedKeys w.daemon.connections (seenFlows (parseTable text))) →
      t.seenOrder.Perm (seenFlows (parseTable text)).vals →
      ∃ w', step w (.poll t) = some w' ∧ Mirrors w'.daemon.connections (parseTable text) := by
  obtain ⟨_, hmoment⟩ := run_since filed_empty hbefore
  obtain ⟨events, hsince⟩ := run_since hmoment.filed hrun
  exact ⟨⟨events, hsince.published, hsince.conns⟩, fun t text => poll_mirrors⟩

/-! ### A table with two lines for one flow -/

/-- Two lines with one key: the first has more bytes up, the second more bytes down. -/
def sampleTable : List Char :=
  ["ipv4 2 udp 17 30 src=10.0.0.2 ", "dst=1.1.1.1 sport=53 dport=53 bytes=70 ",
    "src=1.1.1.1 bytes=90\n", "ipv4 2 udp 17 30 src=10.0.0.2 ",
    "dst=1.1.1.1 sport=53 dport=53 bytes=60 ", "src=1.1.1.1 bytes=95\n"].flatMap String.toList

/-- The first pass over it. -/
def samplePoll : TablePoll where
  text := some sampleTable
  now := .epoch
  procFs := fun _ => DaemonState.curlProcFs
  closedOrder := []
  seenOrder := (seenFlows (parseTable sampleTable)).vals

/-- A pass whose read fails. -/
def failedPoll : TablePoll := { samplePoll with text := none }

theorem samplePoll_runs :
    (Runs.run step (start .firstStart) [.poll samplePoll, .poll failedPoll]).isSome = true := by
  decide +kernel

theorem flows_replayed_sample :
    let w := (Runs.run step (start .firstStart) [.poll samplePoll, .poll failedPoll]).get
      samplePoll_runs
    w.daemon.connections.vals.map (fun c => (c.bytesSent, c.bytesRecv)) = [(70, 95)] ∧
      ∃ events, w.published = [] ++ events ∧
        w.daemon.connections = replayConns .empty events :=
  ⟨by decide +kernel,
    (@flows_replayed _ [] _ _ _ rfl (Option.some_get samplePoll_runs).symm).1⟩

end FlowReplay

end TravelMode
