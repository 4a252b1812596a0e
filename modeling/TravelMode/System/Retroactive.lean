import TravelMode.Daemon.Main
import TravelMode.Lib.Runs

/-!
# A Block rule and the flows already open

Three actors see different flows: the verdict path admits new connections, the
poller copies the conntrack table into the daemon's map now and then, and the
handler of `AddRule` kills what the *map* holds. Only packets in state NEW are
queued, so a flow that the kill misses is never examined again.

- `World`: the conntrack table, the daemon, the poll in progress and the handler's
  phase. `listed` are the keys of the table that the last completed poll read.
- `Inv`: the map holds exactly the listed keys, each with the executable and the
  5-tuple of a flow that was opened.
- `retroactive_iff`: once the handler has returned, every flow admitted before the
  rule and still open has had a kill issued if and only if each such flow was
  listed by the last poll completed before the kill.
- `handler_eq_dispatch`: undisturbed, the two handler steps are `dispatch`.
-/

namespace TravelMode

namespace Retroactive

/-! ## The system -/

/-- The packet that opens a flow. -/
def packetOf (f : ParsedFlow) : Packet := ⟨f.protocol, f.localPort, f.remoteAddr, f.remotePort⟩

/-- The payload is a first packet of the flow. -/
def opens (payload : List UInt8) (f : ParsedFlow) : Bool :=
  match parsePacket payload with
  | .ok (some packet) => decide (packet = packetOf f)
  | _ => false

/-- An entry of the conntrack table, and whether it was admitted before the rule. -/
structure OpenFlow where
  flow : ParsedFlow
  early : Bool
deriving DecidableEq

/-- Where the handler of `AddRule` is. -/
inductive Phase where
  | idle
  /-- The rule is stored and published; the kill has not run yet. -/
  | committed (stored : Rule)
  | returned
deriving DecidableEq

/-- The kernel's table, the daemon, the poll in progress and the handler. -/
structure World where
  daemon : DaemonState
  table : List OpenFlow
  /-- What the poll in progress has read. -/
  reading : Option (List ParsedFlow)
  phase : Phase
  /-- The commands of the kill. -/
  commands : List KillCommand
  /-- Keys of the table that the last completed poll read. -/
  listed : List String
  /-- `listed` when the kill ran. -/
  listedAtKill : List String

/-- The steps of the three actors and the kernel. -/
inductive Action where
  /-- A process of the executable sends the first packet of a flow. -/
  | openFlow (f : ParsedFlow) (fs : ProcFs) (clock : DaemonState.Clock) (payload : List UInt8)
  | closeFlow (key : String)
  | readTable
  | applyPoll (p : Poll)
  /-- The handler stores and publishes the rule. -/
  | commit (now : DateTime) (input : RuleInput)
  /-- The handler kills and returns. -/
  | kill

/-- A new flow was attributed to the executable. -/
def attributedTo (exe : PathBuf) : Event → Bool
  | .connectionOpened c => decide (c.exe = some exe)
  | _ => true

/-- One step. Attribution is always right, and every command is available. -/
def step (exe : PathBuf) (w : World) : Action → Option World
  | .openFlow f fs clock payload =>
    if opens payload f = true ∧ f.key ∉ w.table.map (fun o => o.flow.key) ∧
        (w.daemon.attributeFlow fs f.protocol f.localPort).1.exe = some exe then
      match w.daemon.decide fs clock payload with
      | .ok (.accept, d) =>
        some { w with daemon := d, table := w.table ++ [⟨f, decide (w.phase = .idle)⟩] }
      | .ok (.drop, d) => some { w with daemon := d }
      | .error _ => none
    else none
  | .closeFlow key => some { w with table := w.table.filter fun o => o.flow.key != key }
  | .readTable =>
    if w.reading = none then some { w with reading := some (w.table.map OpenFlow.flow) } else none
  | .applyPoll p =>
    if w.reading = some p.flows then
      match w.daemon.pollOnce p with
      | some (d, events) =>
        if events.all (attributedTo exe) then
          some { w with daemon := d, reading := none, listed := p.flows.map ParsedFlow.key }
        else none
      | none => none
    else none
  | .commit now input =>
    if w.phase = .idle ∧ input.action = .block ∧ input.exePath.pathEq exe = true then
      (w.daemon.rules.add input now).map fun (stored, rules) =>
        { w with daemon := { w.daemon with rules := rules }, phase := .committed stored }
    else none
  | .kill =>
    match w.phase with
    | .committed stored =>
      some { w with
        phase := .returned
        commands := killFlowsForExe true w.daemon.connections stored.exePath
        listedAtKill := w.listed }
    | _ => none

/-- A daemon that tracks no flow, and no flow open. -/
def start (d : DaemonState) : World where
  daemon := { d with connections := .empty }
  table := []
  reading := none
  phase := .idle
  commands := []
  listed := []
  listedAtKill := []

/-- A kill was issued for the flow: its conntrack entry, and its socket if it has one. -/
def KillIssued (commands : List KillCommand) (t : FlowTuple) : Prop :=
  .conntrackDelete t.protocol t.localAddr t.remoteAddr t.localPort t.remotePort ∈ commands ∧
    (t.protocol = .tcp →
      .socketDestroy t.localAddr t.remoteAddr t.localPort t.remotePort ∈ commands)

/-- Every flow that was admitted before the rule and is still open has had a kill issued. -/
def BlockIsRetroactive (w : World) : Prop :=
  ∀ o ∈ w.table, o.early = true → KillIssued w.commands o.flow.tuple

/-- Every such flow was listed by the last poll completed before the kill. -/
def ListedBeforeKill (w : World) : Prop :=
  ∀ o ∈ w.table, o.early = true → o.flow.key ∈ w.listedAtKill

/-- The flows that the executable tried to open. -/
def flowsOf (as : List Action) : List ParsedFlow :=
  as.filterMap fun a => match a with
    | .openFlow f _ _ _ => some f
    | _ => none

/-- The handler's two steps without interference do what `dispatch` does. -/
theorem handler_eq_dispatch {exe : PathBuf} {w : World} {env : Env} {input : RuleInput}
    {handled : Handled} (hidle : w.phase = .idle) (hblock : input.action = .block)
    (hpath : input.exePath.pathEq exe = true) (havail : env.conntrackAvailable = true)
    (h : dispatch w.daemon env (.addRule input) = some handled) :
    ∃ w', Runs.run (step exe) w [.commit env.now input, .kill] = some w' ∧
      w'.daemon = handled.state ∧ w'.commands = handled.commands := by
  obtain ⟨⟨stored, rules⟩, hadd, rfl⟩ := Option.map_eq_some_iff.mp h
  have hstored : stored.action = .block := by
    obtain ⟨_, -, -, hrule, -⟩ := Inner.add_eq_some.mp hadd
    rw [hrule]
    exact hblock
  have hcommit : step exe w (.commit env.now input) = some
      { w with daemon := { w.daemon with rules := rules }, phase := .committed stored } := by
    rw [step, if_pos ⟨hidle, hblock, hpath⟩, hadd]
    rfl
  refine ⟨_, Runs.run_cons_eq_some.mpr ⟨_, hcommit, Runs.run_cons_eq_some.mpr ⟨_, rfl, rfl⟩⟩,
    rfl, ?_⟩
  show killFlowsForExe true w.daemon.connections stored.exePath =
    if stored.action = .block then
      killFlowsForExe env.conntrackAvailable w.daemon.connections stored.exePath
    else []
  rw [if_pos hstored, havail]

/-! ## What the map holds -/

/-- The map holds exactly these keys, each with the executable and the 5-tuple of one of
the flows. -/
structure Tracks (exe : PathBuf) (flows : List ParsedFlow) (keys : List String)
    (conns : KeyedMap String ConnectionInfo) : Prop where
  keys : ∀ k, (conns.get? k).isSome = true ↔ k ∈ keys
  origin : ∀ k c, conns.get? k = some c →
    c.exe = some exe ∧ ∃ f ∈ flows, f.key = k ∧ c.tuple = f.tuple

theorem Tracks.mono {exe : PathBuf} {flows flows' : List ParsedFlow} {keys : List String}
    {conns : KeyedMap String ConnectionInfo} (h : Tracks exe flows keys conns)
    (hsub : flows ⊆ flows') : Tracks exe flows' keys conns where
  keys := h.keys
  origin k c hc := by
    obtain ⟨hexe, f, hf, hk, ht⟩ := h.origin k c hc
    exact ⟨hexe, f, hsub hf, hk, ht⟩

/-- A poll of a table of these flows tracks them. -/
theorem Tracks.pollOnce {exe : PathBuf} {flows : List ParsedFlow} {keys : List String}
    {st : DaemonState} {p : Poll} {r : DaemonState × List Event}
    (h : Tracks exe flows keys st.connections) (hflows : p.flows ⊆ flows)
    (hpoll : st.pollOnce p = some r) (hattr : r.2.all (attributedTo exe) = true) :
    Tracks exe flows (p.flows.map ParsedFlow.key) r.1.connections where
  keys k := (DaemonState.pollOnce_map hpoll k).1
  origin k c hc := by
    rcases (DaemonState.pollOnce_map hpoll k).2 c hc with
      ⟨c₀, hc₀, hsame⟩ | ⟨c₁, f, hopened, hsame, hf, hk, ht⟩
    · obtain ⟨hexe, f, hf, hk, ht⟩ := h.origin k c₀ hc₀
      exact ⟨hsame.exe.trans hexe, f, hf, hk, hsame.tuple.trans ht⟩
    · have hexe : c₁.exe = some exe := by
        simpa [attributedTo] using List.all_eq_true.mp hattr _ hopened
      exact ⟨hsame.exe.trans hexe, f, hflows hf, hk, ht⟩

/-- Keys name 5-tuples: as `parse_line` renders them, two flows have one key exactly if
they are on one 5-tuple. -/
def KeysNameTuples (flows : List ParsedFlow) : Prop :=
  ∀ f ∈ flows, ∀ g ∈ flows, f.key = g.key ↔ f.tuple = g.tuple

/-- The kill reaches exactly the flows whose keys the map holds. -/
theorem Tracks.killIssued_iff {exe path : PathBuf} {flows : List ParsedFlow}
    {keys : List String} {conns : KeyedMap String ConnectionInfo}
    (h : Tracks exe flows keys conns) (hkeys : KeysNameTuples flows)
    (hpath : path.pathEq exe = true) {f : ParsedFlow} (hf : f ∈ flows)
    (hproto : f.protocol ≠ .other) :
    KillIssued (killFlowsForExe true conns path) f.tuple ↔ f.key ∈ keys := by
  constructor
  · rintro ⟨hdel, -⟩
    obtain ⟨c, hc, hcmd⟩ := List.mem_flatMap.mp hdel
    obtain ⟨⟨k, hget⟩, -⟩ := mem_matchingFlows.mp hc
    obtain ⟨-, g, hg, hgk, hgt⟩ := h.origin k c hget
    obtain ⟨h1, h2, h3, h4, h5⟩ := killFlow_tuple hcmd
    have htuple : f.tuple = g.tuple := by
      rw [← hgt, ConnectionInfo.tuple, ← h1, ← h2, ← h3, ← h4, ← h5]
    -- the flow killed has this tuple, so it has this key
    rw [(hkeys f hf g hg).mpr htuple, hgk]
    exact (h.keys k).mp (by rw [hget]; rfl)
  · intro hk
    obtain ⟨c, hget⟩ := Option.isSome_iff_exists.mp ((h.keys f.key).mpr hk)
    obtain ⟨hexe, g, hg, hgk, hgt⟩ := h.origin f.key c hget
    have htuple : c.tuple = f.tuple := hgt.trans ((hkeys g hg f hf).mp hgk)
    -- the flow under the key is one of the executable, so the loop visits it
    have hmem : c ∈ matchingFlows conns path := by
      refine mem_matchingFlows.mpr ⟨⟨f.key, hget⟩, ?_⟩
      rw [ConnectionInfo.ownedBy, hexe]
      show exe.pathEq path = true
      rw [PathBuf.pathEq_comm]
      exact hpath
    rw [← htuple]
    have hcproto : c.protocol ≠ .other := by
      have hp : c.protocol = f.protocol := congrArg FlowTuple.protocol htuple
      rw [hp]
      exact hproto
    exact ⟨List.mem_flatMap.mpr ⟨c, hmem, mem_killFlow hcproto⟩,
      fun htcp => List.mem_flatMap.mpr ⟨c, hmem, socketDestroy_mem_killFlow htcp⟩⟩

/-! ## The invariant -/

/-- What holds after a schedule. -/
structure Inv (exe : PathBuf) (as : List Action) (w : World) : Prop where
  protocol : ∀ f ∈ flowsOf as, f.protocol ≠ .other
  table : ∀ o ∈ w.table, o.flow ∈ flowsOf as
  reading : ∀ flows, w.reading = some flows → flows ⊆ flowsOf as
  tracks : Tracks exe (flowsOf as) w.listed w.daemon.connections
  committed : ∀ r, w.phase = .committed r → r.exePath.pathEq exe = true
  killed : w.phase = .returned → ∃ conns path, path.pathEq exe = true ∧
    Tracks exe (flowsOf as) w.listedAtKill conns ∧
    w.commands = killFlowsForExe true conns path

theorem start_inv (exe : PathBuf) (d : DaemonState) : Inv exe [] (start d) where
  protocol _ h := nomatch h
  table _ h := nomatch h
  reading _ h := nomatch h
  tracks := ⟨fun k => by simp [start], fun _ _ h => nomatch h⟩
  committed _ h := nomatch h
  killed h := nomatch h

theorem flowsOf_snoc (as : List Action) (a : Action) :
    flowsOf (as ++ [a]) = flowsOf as ++ flowsOf [a] :=
  List.filterMap_append

/-- A later schedule has tried to open more flows. -/
theorem Inv.mono {exe : PathBuf} {as : List Action} {w : World} (hi : Inv exe as w) (a : Action)
    (hproto : ∀ f ∈ flowsOf [a], f.protocol ≠ .other) : Inv exe (as ++ [a]) w := by
  have hsub : flowsOf as ⊆ flowsOf (as ++ [a]) := by
    rw [flowsOf_snoc]
    exact List.subset_append_left _ _
  refine { protocol := ?_, table := fun o ho => hsub (hi.table o ho), reading := ?_,
           tracks := hi.tracks.mono hsub, committed := hi.committed, killed := ?_ }
  · intro f hf
    rw [flowsOf_snoc, List.mem_append] at hf
    exact hf.elim (hi.protocol f) (hproto f)
  · exact fun flows h => List.Subset.trans (hi.reading flows h) hsub
  · intro h
    obtain ⟨conns, path, hpath, ht, hc⟩ := hi.killed h
    exact ⟨conns, path, hpath, ht.mono hsub, hc⟩

/-- The first packet of a flow is a TCP or UDP packet. -/
theorem opens_protocol {payload : List UInt8} {f : ParsedFlow} (h : opens payload f = true) :
    f.protocol ≠ .other := by
  unfold opens at h
  split at h
  · rename_i packet hparse
    have hp := parsePacket_protocol hparse
    rw [of_decide_eq_true h] at hp
    exact hp
  · cases h

/-- A verdict does not touch the map. -/
theorem Inv.verdict {exe : PathBuf} {as : List Action} {w : World} {fs : ProcFs}
    {clock : DaemonState.Clock} {payload : List UInt8} {v : Verdict} {d : DaemonState}
    (hi : Inv exe as w) (hd : w.daemon.decide fs clock payload = .ok (v, d)) :
    Inv exe as { w with daemon := d } := by
  have hconns : d.connections = w.daemon.connections := DaemonState.decide_connections hd
  refine { hi with tracks := ?_ }
  show Tracks _ _ _ d.connections
  rw [hconns]
  exact hi.tracks

theorem openFlow_inv {exe : PathBuf} {as : List Action} {w w' : World} {f : ParsedFlow}
    {fs : ProcFs} {clock : DaemonState.Clock} {payload : List UInt8} (hi : Inv exe as w)
    (h : step exe w (.openFlow f fs clock payload) = some w') :
    Inv exe (as ++ [.openFlow f fs clock payload]) w' := by
  simp only [step] at h
  split at h
  · rename_i hguard
    have hm := hi.mono (.openFlow f fs clock payload) fun g hg => by
      rw [List.mem_singleton.mp hg]
      exact opens_protocol hguard.1
    split at h
    · -- accepted: the flow joins the table
      rename_i d hd
      cases h
      refine { hm.verdict hd with table := ?_ }
      intro o ho
      rcases List.mem_append.mp ho with ho | ho
      · exact hm.table o ho
      · rw [List.mem_singleton.mp ho, flowsOf_snoc]
        exact List.mem_append_right _ List.mem_cons_self
    · rename_i d hd
      cases h
      exact hm.verdict hd
    · cases h
  · cases h

theorem readTable_inv {exe : PathBuf} {as : List Action} {w w' : World} (hi : Inv exe as w)
    (h : step exe w .readTable = some w') : Inv exe (as ++ [.readTable]) w' := by
  simp only [step] at h
  split at h
  · cases h
    have hm := hi.mono .readTable fun g hg => nomatch hg
    refine { hm with reading := ?_ }
    intro flows hflows f hf
    cases hflows
    obtain ⟨o, ho, rfl⟩ := List.mem_map.mp hf
    exact hm.table o ho
  · cases h

/-- The poll replaces what the map tracks by what the table listed when it was read,
flows closed since included. -/
theorem applyPoll_inv {exe : PathBuf} {as : List Action} {w w' : World} {p : Poll}
    (hi : Inv exe as w) (h : step exe w (.applyPoll p) = some w') :
    Inv exe (as ++ [.applyPoll p]) w' := by
  simp only [step] at h
  split at h
  · rename_i hreading
    split at h
    · rename_i d events hpoll
      split at h
      · rename_i hattr
        cases h
        have hm := hi.mono (.applyPoll p) fun g hg => nomatch hg
        refine { hm with reading := ?_, tracks := ?_ }
        · intro flows hflows
          cases hflows
        · exact hm.tracks.pollOnce (hm.reading p.flows hreading) hpoll hattr
      · cases h
    · cases h
  · cases h

theorem commit_inv {exe : PathBuf} {as : List Action} {w w' : World} {now : DateTime}
    {input : RuleInput} (hi : Inv exe as w) (h : step exe w (.commit now input) = some w') :
    Inv exe (as ++ [.commit now input]) w' := by
  simp only [step] at h
  split at h
  · rename_i hguard
    obtain ⟨⟨stored, rules⟩, hadd, rfl⟩ := Option.map_eq_some_iff.mp h
    have hm := hi.mono (.commit now input) fun g hg => nomatch hg
    refine { hm with committed := ?_, killed := ?_ }
    · intro r hr
      cases hr
      obtain ⟨_, -, -, hrule, -⟩ := Inner.add_eq_some.mp hadd
      rw [hrule]
      exact hguard.2.2
    · intro hr
      cases hr
  · cases h

/-- The kill sees the map as the last poll left it. -/
theorem kill_inv {exe : PathBuf} {as : List Action} {w w' : World} (hi : Inv exe as w)
    (h : step exe w .kill = some w') : Inv exe (as ++ [.kill]) w' := by
  simp only [step] at h
  split at h
  · rename_i stored hphase
    cases h
    have hm := hi.mono .kill fun g hg => nomatch hg
    refine { hm with committed := ?_, killed := ?_ }
    · intro r hr
      cases hr
    · exact fun _ => ⟨w.daemon.connections, stored.exePath, hm.committed stored hphase,
        hm.tracks, rfl⟩
  · cases h

/-- One step keeps the invariant. -/
theorem step_inv {exe : PathBuf} {as : List Action} {w w' : World} {a : Action}
    (hi : Inv exe as w) (h : step exe w a = some w') : Inv exe (as ++ [a]) w' := by
  cases a with
  | openFlow f fs clock payload => exact openFlow_inv hi h
  | closeFlow key =>
    cases h
    have hm := hi.mono (.closeFlow key) fun g hg => nomatch hg
    exact { hm with table := fun o ho => hm.table o (List.mem_filter.mp ho).1 }
  | readTable => exact readTable_inv hi h
  | applyPoll p => exact applyPoll_inv hi h
  | commit now input => exact commit_inv hi h
  | kill => exact kill_inv hi h

/-- What holds after every run. -/
theorem run_inv {exe : PathBuf} {d : DaemonState} {as : List Action} {w : World}
    (h : Runs.run (step exe) (start d) as = some w) : Inv exe as w :=
  Runs.run_history (I := Inv exe) (start_inv exe d) (fun _ hi hs => step_inv hi hs) h

/-- **Retroactive blocks**: in every interleaving of connection attempts of an
executable, closings, polls and the handler of a Block for it, once the handler has
returned, every flow admitted before the rule and still open has had a kill issued if
and only if each of them was listed by the last poll completed before the kill. -/
theorem retroactive_iff {exe : PathBuf} {d : DaemonState} {as : List Action} {w : World}
    (h : Runs.run (step exe) (start d) as = some w) (hreturned : w.phase = .returned)
    (hkeys : KeysNameTuples (flowsOf as)) : BlockIsRetroactive w ↔ ListedBeforeKill w := by
  have hi := run_inv h
  obtain ⟨conns, path, hpath, ht, hc⟩ := hi.killed hreturned
  refine forall_congr' fun o => forall_congr' fun ho => imp_congr_right fun _ => ?_
  have hflow := hi.table o ho
  rw [hc]
  exact ht.killIssued_iff hkeys hpath hflow (hi.protocol _ hflow)

/-! ### Runs on concrete input -/

/-- The flow that `synPacket` opens. -/
def curlFlow : ParsedFlow where
  key := "tcp:192.168.1.10:51234-93.184.216.34:443"
  protocol := .tcp
  localAddr := .v4 ⟨192, 168, 1, 10⟩
  localPort := 51234
  remoteAddr := .v4 ⟨93, 184, 216, 34⟩
  remotePort := 443
  sent := 60
  recv := 0

/-- `/usr/bin/curl` opens its flow. -/
def openCurl : Action := .openFlow curlFlow DaemonState.curlProcFs ⟨.epoch, 0⟩ DaemonState.synPacket

/-- A poll that finds the flow. -/
def curlPoll : Poll := ⟨[curlFlow], .epoch, fun _ => DaemonState.curlProcFs, [], [curlFlow]⟩

/-- A permanent block of `/usr/bin/curl`. -/
def blockCurl : RuleInput := ⟨"curl", .ofString "/usr/bin/curl", .block, true, none⟩

/-- A fresh daemon. -/
def fresh : DaemonState := .new .firstStart

theorem keysNameTuples_singleton (f : ParsedFlow) : KeysNameTuples [f] := by
  intro g hg g' hg'
  rw [List.mem_singleton.mp hg, List.mem_singleton.mp hg']
  exact ⟨fun _ => rfl, fun _ => rfl⟩

/-- Open, poll, block. -/
def polled : List Action :=
  [openCurl, .readTable, .applyPoll curlPoll, .commit .epoch blockCurl, .kill]

theorem polled_runs :
    (Runs.run (step (.ofString "/usr/bin/curl")) (start fresh) polled).isSome = true := by
  decide +kernel

theorem retroactive_iff_polled :
    ∃ w, Runs.run (step (.ofString "/usr/bin/curl")) (start fresh) polled = some w ∧
      w.phase = .returned ∧ KeysNameTuples (flowsOf polled) ∧
      (BlockIsRetroactive w ↔ ListedBeforeKill w) := by
  have hrun := (Option.some_get polled_runs).symm
  have hphase : ((Runs.run (step (.ofString "/usr/bin/curl")) (start fresh) polled).get
      polled_runs).phase = .returned := by decide +kernel
  exact ⟨_, hrun, hphase, keysNameTuples_singleton curlFlow,
    retroactive_iff hrun hphase (keysNameTuples_singleton curlFlow)⟩

/-- Open, block. -/
def unpolled : List Action := [openCurl, .commit .epoch blockCurl, .kill]

theorem unpolled_runs :
    (Runs.run (step (.ofString "/usr/bin/curl")) (start fresh) unpolled).isSome = true := by
  decide +kernel

/-- The state that `unpolled` leads to. -/
def unpolledEnd : World :=
  (Runs.run (step (.ofString "/usr/bin/curl")) (start fresh) unpolled).get unpolled_runs

/-- A flow opened after the last poll survives the block: no command is run. -/
theorem unpolled_flow_survives :
    Runs.run (step (.ofString "/usr/bin/curl")) (start fresh) unpolled = some unpolledEnd ∧
      unpolledEnd.phase = .returned ∧ unpolledEnd.table = [⟨curlFlow, true⟩] ∧
      unpolledEnd.commands = [] ∧ ¬BlockIsRetroactive unpolledEnd := by
  obtain ⟨hphase, htable, hcommands⟩ : unpolledEnd.phase = .returned ∧
      unpolledEnd.table = [⟨curlFlow, true⟩] ∧ unpolledEnd.commands = [] := by decide +kernel
  refine ⟨(Option.some_get unpolled_runs).symm, hphase, htable, hcommands, ?_⟩
  intro h
  obtain ⟨hdel, -⟩ := h ⟨curlFlow, true⟩ (by rw [htable]; exact List.mem_cons_self) rfl
  rw [hcommands] at hdel
  cases hdel

end Retroactive

end TravelMode
