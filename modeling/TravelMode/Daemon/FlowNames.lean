import TravelMode.Daemon.ConntrackText
import TravelMode.Daemon.Tasks
import TravelMode.Lib.Runs

/-!
# Flows are named after their tuples

The key of a flow is made from its tuple when its line is parsed, and goes with it from then
on: into the map, into the events, and to the clients.

- `Named`: the key is that of the tuple; `run_named` for every flow in the map, and `perform_named`
  for every flow that an event brings.
-/

namespace TravelMode

/-- The flow is of a protocol that is tracked, and its key is that of its tuple. -/
def ParsedFlow.Named (f : ParsedFlow) : Prop := f.key = f.tuple.key ∧ f.protocol ≠ .other

/-- The same of a connection. -/
def ConnectionInfo.Named (c : ConnectionInfo) : Prop := c.key = c.tuple.key ∧ c.protocol ≠ .other

/-- The connection that an event brings is named after its tuple. -/
def Event.Named (e : Event) : Prop := ∀ c, e.connValue = some c → c.Named

/-- All connections of a map are. -/
def AllNamed (conns : KeyedMap String ConnectionInfo) : Prop :=
  ∀ key c, conns.get? key = some c → c.Named

/-- A poll takes its flows from a table. -/
def Task.FromTable : Task → Prop
  | .poll p => ∃ text, p.flows = parseTable text
  | _ => True

theorem headerProtocol_ne_other {word : List Char} : headerProtocol word ≠ some .other := by
  unfold headerProtocol
  split
  · simp
  · split <;> simp

/-- Lines are named so. -/
theorem parseLine_named {line : List Char} {f : ParsedFlow} (h : parseLine line = some f) :
    f.Named := by
  refine ⟨parseLine_key h, ?_⟩
  unfold parseLine at h
  split at h
  · obtain ⟨protocol, hheader, h⟩ := Option.bind_eq_some_iff.mp h
    obtain ⟨localAddr, -, h⟩ := Option.bind_eq_some_iff.mp h
    obtain ⟨remoteAddr, -, h⟩ := Option.bind_eq_some_iff.mp h
    obtain ⟨localPort, -, h⟩ := Option.bind_eq_some_iff.mp h
    obtain ⟨remotePort, -, rfl⟩ := Option.map_eq_some_iff.mp h
    rintro rfl
    exact headerProtocol_ne_other hheader
  · cases h

theorem parseTable_named {text : List Char} {f : ParsedFlow} (h : f ∈ parseTable text) :
    f.Named := by
  obtain ⟨line, -, hline⟩ := List.mem_filterMap.mp h
  exact parseLine_named hline

/-- Merged lines are named as the lines are. -/
theorem seenFlows_named {flows : List ParsedFlow} (h : ∀ f ∈ flows, f.Named) {key : String}
    {g : ParsedFlow} (hg : (seenFlows flows).get? key = some g) : g.Named := by
  obtain ⟨hkey, f, hf, hfkey, htuple⟩ := get?_seenFlows hg
  obtain ⟨hname, hproto⟩ := h f hf
  refine ⟨?_, ?_⟩
  · rw [hkey, ← hfkey, hname, htuple]
  · rw [show g.protocol = f.protocol from (congrArg FlowTuple.protocol htuple).symm]
    exact hproto

namespace DaemonState

/-- What a poll keeps of its accumulator. -/
def AccNamed (acc : DaemonState × List Event) : Prop :=
  AllNamed acc.1.connections ∧ ∀ e ∈ acc.2, e.Named

theorem closeFlow_named {acc : DaemonState × List Event} (h : AccNamed acc) (key : String) :
    AccNamed (closeFlow acc key) := by
  refine ⟨fun k c hc => ?_, fun e he => ?_⟩
  · change (acc.1.connections.erase key).get? k = some c at hc
    rw [KeyedMap.get?_erase] at hc
    split at hc
    · cases hc
    · exact h.1 k c hc
  · rcases List.mem_append.mp he with he | he
    · exact h.2 e he
    · rw [List.mem_singleton.mp he]
      intro c hc
      cases hc

/-- A named connection is filed, and its event is the last one. -/
theorem AccNamed.insert {acc : DaemonState × List Event} (h : AccNamed acc) {d : DaemonState}
    {key : String} {c : ConnectionInfo} (hc : c.Named)
    (hd : d.connections = acc.1.connections.insert key c) {e : Event}
    (he : e.connValue = some c) : AccNamed (d, acc.2 ++ [e]) := by
  refine ⟨fun k c' hget => ?_, fun e' he' => ?_⟩
  · rw [hd, KeyedMap.get?_insert] at hget
    split at hget
    · cases hget
      exact hc
    · exact h.1 k c' hget
  · rcases List.mem_append.mp he' with he' | he'
    · exact h.2 e' he'
    · rw [List.mem_singleton.mp he']
      intro c' hc'
      rw [he] at hc'
      cases hc'
      exact hc

theorem visitFlow_named {acc : DaemonState × List Event} (h : AccNamed acc) (p : Poll)
    {f : ParsedFlow} (hf : f.Named) : AccNamed (visitFlow p acc f) := by
  unfold visitFlow
  cases hget : acc.1.connections.get? f.key with
  | some existing =>
    dsimp only
    split
    · have hold := h.1 f.key existing hget
      exact h.insert (c := updated existing f p.now) hold rfl rfl
    · exact h
  | none => exact h.insert (c := f.opened _ p.now) hf rfl rfl

theorem pollOnce_named {d : DaemonState} (hd : AllNamed d.connections) {p : Poll}
    (hp : ∀ f ∈ p.flows, f.Named) {r : DaemonState × List Event} (h : d.pollOnce p = some r) :
    AccNamed r := by
  obtain ⟨-, hseen, rfl⟩ := pollOnce_eq_some.mp h
  have hclosed : AccNamed (p.closedOrder.foldl closeFlow (d, [])) :=
    List.foldlRecOn _ _ ⟨hd, List.forall_mem_nil _⟩ fun acc hacc key _ => closeFlow_named hacc key
  refine List.foldlRecOn _ _ hclosed fun acc hacc f hf => visitFlow_named hacc p ?_
  obtain ⟨key, hkey⟩ := KeyedMap.mem_vals_iff.mp (hseen.mem_iff.mp hf)
  exact seenFlows_named hp hkey

/-- A task leaves named flows, and announces no others. -/
theorem perform_named {d d' : DaemonState} {t : Task} {events : List Event}
    (hd : AllNamed d.connections) (ht : t.FromTable) (h : d.perform t = some (d', events)) :
    AllNamed d'.connections ∧ ∀ e ∈ events, e.Named := by
  by_cases hpoll : ∃ p, t = .poll p
  · obtain ⟨p, rfl⟩ := hpoll
    obtain ⟨text, htext⟩ := ht
    exact pollOnce_named hd (fun f hf => parseTable_named (htext ▸ hf)) h
  · obtain ⟨hconns, hquiet⟩ := perform_frame (fun p hp => hpoll ⟨p, hp⟩) h
    refine ⟨hconns ▸ hd, fun e he c hc => absurd ?_ (hquiet e he)⟩
    cases e with
    | connectionOpened conn => rfl
    | connectionUpdated conn => rfl
    | _ => cases hc

/-- A task of the daemon, without its events. -/
def task (d : DaemonState) (t : Task) : Option DaemonState := (d.perform t).map Prod.fst

/-- What every run of the tasks keeps: flows are filed under their own keys, and those are the
keys of their tuples. -/
structure Mapped (d : DaemonState) : Prop where
  ok : d.Ok
  named : AllNamed d.connections

theorem task_mapped {d d' : DaemonState} {t : Task} (h : d.Mapped) (ht : t.FromTable)
    (hstep : d.task t = some d') : d'.Mapped := by
  obtain ⟨⟨d', events⟩, hperform, rfl⟩ := Option.map_eq_some_iff.mp hstep
  exact ⟨(perform_view h.ok hperform).2, (perform_named h.named ht hperform).1⟩

theorem mapped_new {rules : Inner} (h : Inner.Inv rules.persisted) : (new rules).Mapped :=
  ⟨ok_new h, fun _ _ hget => nomatch hget⟩

/-- Any tasks, in any order. -/
theorem run_mapped {rules : Inner} (hrules : Inner.Inv rules.persisted) {tasks : List Task}
    (htables : ∀ t ∈ tasks, t.FromTable) {d : DaemonState}
    (h : Runs.run task (new rules) tasks = some d) : d.Mapped := by
  refine Runs.run_invariant_along (P := fun _ t => t.FromTable) task_mapped (mapped_new hrules) h ?_
  exact Runs.alongRun_of_forall fun t ht _ => htables t ht

/-- A flow is filed under the key of its tuple. -/
theorem Mapped.key_eq {d : DaemonState} (h : d.Mapped) {key : String} {c : ConnectionInfo}
    (hget : d.connections.get? key = some c) : key = c.tuple.key :=
  (h.ok.filed key c hget).symm.trans (h.named key c hget).1

end DaemonState

end TravelMode
