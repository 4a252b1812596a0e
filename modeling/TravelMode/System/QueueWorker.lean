import TravelMode.Daemon.Tasks
import TravelMode.Lib.Runs
import TravelMode.System.BlockLog

/-!
# The packet queue

`queue_loop` binds the queue and then answers one packet after the other. A verdict takes the
worker through several locks, one after the other, and the other tasks of the daemon run between
any two of them: the switch may be turned, rules may come and go, and processes may be scanned
while `decide` is on its way. Opening, binding, receiving and answering can fail; then the worker
ends.

- `decide_undisturbed`: without interference the steps compute `decide`.
- `blocks_counted`: what is counted and logged of the blocks is what was decided.
- `filtering_shown`: the daemon says that it filters while the worker is in its loop.
- `verdicts_reasoned`: verdicts are given in the order of the packets, one for each, and each has
  its reason in what the worker saw while it had that packet.
- `blocked_all_along`: so an app that is blocked whenever the worker looks has its packet dropped.
-/

namespace TravelMode

namespace QueueWorker

/-! ## The system -/

/-- Where `queue_loop` is, with what it holds. -/
inductive Worker where
  | opening
  | binding
  /-- Bound; has yet to say that it filters. -/
  | bound
  | receiving
  /-- About to read the switch. -/
  | checking (payload : List UInt8)
  /-- About to look for the socket. -/
  | looking (packet : Packet)
  | describing (packet : Packet) (pid : Nat)
  /-- About to ask the rules. -/
  | judging (packet : Packet) (exe : PathBuf)
  | counting (packet : Packet) (exe : PathBuf)
  | logging (packet : Packet) (exe : PathBuf)
  | answering (verdict : Verdict)
  /-- It has met an error, perhaps with a verdict that did not get through; it has yet to say
  that it no longer filters. -/
  | failed (lost : Option Verdict)
  | stopped (lost : Option Verdict)

/-- The daemon and its worker, with what has happened so far. -/
structure World where
  daemon : DaemonState
  worker : Worker
  /-- The packets that the worker has received. -/
  taken : List (List UInt8)
  /-- The verdicts that it has given. -/
  given : List Verdict
  /-- What the throttle was asked, and what it said. -/
  asked : List ((ThrottleKey × Nat) × LogAction)

inductive Action where
  | open (fault : Bool)
  | bind (fault : Bool)
  | announce
  /-- `none` is an error. -/
  | recv (payload : Option (List UInt8))
  | check
  | look (fs : ProcFs)
  | describe (fs : ProcFs)
  | judge (now : DateTime)
  | count
  | log (instant : Nat)
  | answer (fault : Bool)
  | giveUp
  /-- Another task of the daemon. -/
  | work (t : Task)

/-- The task is the worker's own. -/
def isVerdict : Task → Bool
  | .verdict .. => true
  | _ => false

/-- What the throttle is asked about. -/
def throttleKey (packet : Packet) (exe : PathBuf) : ThrottleKey :=
  ⟨exe.components, packet.remoteAddr, packet.remotePort⟩

/-- One step. -/
def step (w : World) (a : Action) : Option World :=
  match w.worker, a with
  | .opening, .open fault =>
    some { w with worker := if fault then .failed none else .binding }
  | .binding, .bind fault =>
    some { w with worker := if fault then .failed none else .bound }
  | .bound, .announce =>
    some { w with daemon := { w.daemon with filteringActive := true }, worker := .receiving }
  | .receiving, .recv none => some { w with worker := .failed none }
  | .receiving, .recv (some payload) =>
    some { w with worker := .checking payload, taken := w.taken ++ [payload] }
  | .checking payload, .check =>
    if w.daemon.paused then some { w with worker := .answering .accept }
    else
      match parsePacket payload with
      | .error _ => none
      | .ok none => some { w with worker := .answering .accept }
      | .ok (some packet) => some { w with worker := .looking packet }
  | .looking packet, .look fs =>
    let found := w.daemon.attrib.lookup fs packet.protocol packet.localPort
    some { w with
      daemon := { w.daemon with attrib := found.2 }
      worker :=
        match found.1 with
        | none => .answering .accept
        | some pid => .describing packet pid }
  | .describing packet pid, .describe fs =>
    some { w with
      worker :=
        match (w.daemon.describe fs pid).exe with
        | none => .answering .accept
        | some exe => .judging packet exe }
  | .judging packet exe, .judge now =>
    some { w with
      worker :=
        if w.daemon.rules.isBlocked exe now then .counting packet exe else .answering .accept }
  | .counting packet exe, .count =>
    some { w with
      daemon := { w.daemon with blockedCount := w.daemon.blockedCount + 1 }
      worker := .logging packet exe }
  | .logging packet exe, .log instant =>
    let said := w.daemon.blockLog.shouldLog (throttleKey packet exe) instant
    some { w with
      daemon := { w.daemon with blockLog := said.2 }
      worker := .answering .drop
      asked := w.asked ++ [((throttleKey packet exe, instant), said.1)] }
  | .answering verdict, .answer fault =>
    if fault then some { w with worker := .failed (some verdict) }
    else some { w with worker := .receiving, given := w.given ++ [verdict] }
  | .failed lost, .giveUp =>
    some { w with
      daemon := { w.daemon with filteringActive := false }, worker := .stopped lost }
  | _, .work t =>
    if isVerdict t then none
    else (w.daemon.perform t).map fun r => { w with daemon := r.1 }
  | _, _ => none

/-- The daemon has just started the worker. -/
def start (rules : Inner) : World where
  daemon := .new rules
  worker := .opening
  taken := []
  given := []
  asked := []

/-- What a step does. -/
inductive Step (w : World) : Action → World → Prop where
  | openFails (h : w.worker = .opening) : Step w (.open true) { w with worker := .failed none }
  | opens (h : w.worker = .opening) : Step w (.open false) { w with worker := .binding }
  | bindFails (h : w.worker = .binding) : Step w (.bind true) { w with worker := .failed none }
  | binds (h : w.worker = .binding) : Step w (.bind false) { w with worker := .bound }
  | announces (h : w.worker = .bound) :
      Step w .announce
        { w with daemon := { w.daemon with filteringActive := true }, worker := .receiving }
  | recvFails (h : w.worker = .receiving) :
      Step w (.recv none) { w with worker := .failed none }
  | receives (h : w.worker = .receiving) (payload : List UInt8) :
      Step w (.recv (some payload))
        { w with worker := .checking payload, taken := w.taken ++ [payload] }
  | paused {payload : List UInt8} (h : w.worker = .checking payload)
      (hpaused : w.daemon.paused = true) : Step w .check { w with worker := .answering .accept }
  | unparsed {payload : List UInt8} (h : w.worker = .checking payload)
      (hpaused : w.daemon.paused = false) (hparse : parsePacket payload = .ok none) :
      Step w .check { w with worker := .answering .accept }
  | parsed {payload : List UInt8} {packet : Packet} (h : w.worker = .checking payload)
      (hpaused : w.daemon.paused = false) (hparse : parsePacket payload = .ok (some packet)) :
      Step w .check { w with worker := .looking packet }
  | unowned {packet : Packet} (h : w.worker = .looking packet) (fs : ProcFs)
      (hlook : (w.daemon.attrib.lookup fs packet.protocol packet.localPort).1 = none) :
      Step w (.look fs) { w with
        daemon := { w.daemon with
          attrib := (w.daemon.attrib.lookup fs packet.protocol packet.localPort).2 }
        worker := .answering .accept }
  | owned {packet : Packet} (h : w.worker = .looking packet) (fs : ProcFs) {pid : Nat}
      (hlook : (w.daemon.attrib.lookup fs packet.protocol packet.localPort).1 = some pid) :
      Step w (.look fs) { w with
        daemon := { w.daemon with
          attrib := (w.daemon.attrib.lookup fs packet.protocol packet.localPort).2 }
        worker := .describing packet pid }
  | unnamed {packet : Packet} {pid : Nat} (h : w.worker = .describing packet pid) (fs : ProcFs)
      (hexe : (w.daemon.describe fs pid).exe = none) :
      Step w (.describe fs) { w with worker := .answering .accept }
  | named {packet : Packet} {pid : Nat} (h : w.worker = .describing packet pid) (fs : ProcFs)
      {exe : PathBuf} (hexe : (w.daemon.describe fs pid).exe = some exe) :
      Step w (.describe fs) { w with worker := .judging packet exe }
  | allowed {packet : Packet} {exe : PathBuf} (h : w.worker = .judging packet exe)
      (now : DateTime) (hrules : w.daemon.rules.isBlocked exe now = false) :
      Step w (.judge now) { w with worker := .answering .accept }
  | blocked {packet : Packet} {exe : PathBuf} (h : w.worker = .judging packet exe)
      (now : DateTime) (hrules : w.daemon.rules.isBlocked exe now = true) :
      Step w (.judge now) { w with worker := .counting packet exe }
  | counts {packet : Packet} {exe : PathBuf} (h : w.worker = .counting packet exe) :
      Step w .count { w with
        daemon := { w.daemon with blockedCount := w.daemon.blockedCount + 1 }
        worker := .logging packet exe }
  | logs {packet : Packet} {exe : PathBuf} (h : w.worker = .logging packet exe)
      (instant : Nat) :
      Step w (.log instant) { w with
        daemon := { w.daemon with
          blockLog := (w.daemon.blockLog.shouldLog (throttleKey packet exe) instant).2 }
        worker := .answering .drop
        asked := w.asked ++ [((throttleKey packet exe, instant),
          (w.daemon.blockLog.shouldLog (throttleKey packet exe) instant).1)] }
  | answerFails {verdict : Verdict} (h : w.worker = .answering verdict) :
      Step w (.answer true) { w with worker := .failed (some verdict) }
  | answers {verdict : Verdict} (h : w.worker = .answering verdict) :
      Step w (.answer false) { w with worker := .receiving, given := w.given ++ [verdict] }
  | givesUp {lost : Option Verdict} (h : w.worker = .failed lost) :
      Step w .giveUp { w with
        daemon := { w.daemon with filteringActive := false }, worker := .stopped lost }
  | works {t : Task} {r : DaemonState × List Event} (hverdict : isVerdict t = false)
      (hperform : w.daemon.perform t = some r) : Step w (.work t) { w with daemon := r.1 }

theorem step_spec {w w' : World} {a : Action} (h : step w a = some w') : Step w a w' := by
  unfold step at h
  split at h
  case h_1 fault hw =>
    cases h
    cases fault with
    | true => exact .openFails hw
    | false => exact .opens hw
  case h_2 fault hw =>
    cases h
    cases fault with
    | true => exact .bindFails hw
    | false => exact .binds hw
  case h_3 hw =>
    cases h
    exact .announces hw
  case h_4 hw =>
    cases h
    exact .recvFails hw
  case h_5 payload hw =>
    cases h
    exact .receives hw payload
  case h_6 payload hw =>
    split at h
    · rename_i hpaused
      cases h
      exact .paused hw hpaused
    · rename_i hpaused
      rw [Bool.not_eq_true] at hpaused
      split at h
      · cases h
      · rename_i hparse
        cases h
        exact .unparsed hw hpaused hparse
      · rename_i packet hparse
        cases h
        exact .parsed hw hpaused hparse
  case h_7 packet fs hw =>
    cases h
    split
    · rename_i hlook
      exact .unowned hw fs hlook
    · rename_i pid hlook
      exact .owned hw fs hlook
  case h_8 packet pid fs hw =>
    cases h
    split
    · rename_i hexe
      exact .unnamed hw fs hexe
    · rename_i exe hexe
      exact .named hw fs hexe
  case h_9 packet exe now hw =>
    cases h
    split
    · rename_i hrules
      exact .blocked hw now hrules
    · rename_i hrules
      exact .allowed hw now (Bool.not_eq_true _ ▸ hrules)
  case h_10 packet exe hw =>
    cases h
    exact .counts hw
  case h_11 packet exe instant hw =>
    cases h
    exact .logs hw instant
  case h_12 verdict fault hw =>
    cases fault with
    | true =>
      cases h
      exact .answerFails hw
    | false =>
      cases h
      exact .answers hw
  case h_13 lost hw =>
    cases h
    exact .givesUp hw
  case h_14 t _ =>
    obtain ⟨hverdict, h⟩ := Option.ite_none_left_eq_some.mp h
    obtain ⟨r, hperform, rfl⟩ := Option.map_eq_some_iff.mp h
    exact .works (Bool.not_eq_true _ ▸ hverdict) hperform
  case h_15 => cases h

/-! ## A verdict without interference -/

/-- The worker can come to this verdict by steps of its own, and leave this daemon. -/
def Decides (w : World) (verdict : Verdict) (d : DaemonState) : Prop :=
  ∃ acts w', Runs.run step w acts = some w' ∧ w'.worker = .answering verdict ∧ w'.daemon = d

theorem Decides.here {w : World} {verdict : Verdict} {d : DaemonState}
    (h : w.worker = .answering verdict) (hd : w.daemon = d) : Decides w verdict d :=
  ⟨[], w, rfl, h, hd⟩

theorem Decides.after {w m : World} {a : Action} {verdict : Verdict} {d : DaemonState}
    (hstep : step w a = some m) (h : Decides m verdict d) : Decides w verdict d := by
  obtain ⟨acts, w', hrun, hworker, hd⟩ := h
  exact ⟨a :: acts, w', Runs.run_cons_eq_some.mpr ⟨m, hstep, hrun⟩, hworker, hd⟩

/-- From the question to the rules on. -/
theorem decides_judging {w : World} {packet : Packet} {exe : PathBuf}
    (hw : w.worker = .judging packet exe) (clock : DaemonState.Clock) :
    Decides w (if w.daemon.rules.isBlocked exe clock.now then .drop else .accept)
      (if w.daemon.rules.isBlocked exe clock.now then w.daemon.block exe packet clock.instant
        else w.daemon) := by
  obtain ⟨d, worker, taken, given, asked⟩ := w
  cases hw
  dsimp only
  cases hblocked : d.rules.isBlocked exe clock.now with
  | true =>
    have hjudge : step ⟨d, .judging packet exe, taken, given, asked⟩ (.judge clock.now) =
        some ⟨d, .counting packet exe, taken, given, asked⟩ := by
      simp only [step, hblocked, if_true]
    exact .after hjudge (.after (a := .count) rfl (.after (a := .log clock.instant) rfl
      (.here rfl rfl)))
  | false =>
    have hjudge : step ⟨d, .judging packet exe, taken, given, asked⟩ (.judge clock.now) =
        some ⟨d, .answering .accept, taken, given, asked⟩ := by
      simp only [step, hblocked, Bool.false_eq_true, if_false]
    exact .after hjudge (.here rfl rfl)

/-- From the search for the socket on. -/
theorem decides_looking {w : World} {packet : Packet} (hw : w.worker = .looking packet)
    (fs : ProcFs) (clock : DaemonState.Clock) :
    let found := w.daemon.attributeFlow fs packet.protocol packet.localPort
    match found.1.pid, found.1.exe with
    | some _, some exe =>
      Decides w (if w.daemon.rules.isBlocked exe clock.now then .drop else .accept)
        (if w.daemon.rules.isBlocked exe clock.now then found.2.block exe packet clock.instant
          else found.2)
    | _, _ => Decides w .accept found.2 := by
  obtain ⟨d, worker, taken, given, asked⟩ := w
  cases hw
  cases hlook : (d.attrib.lookup fs packet.protocol packet.localPort).1 with
  | none =>
    simp only [DaemonState.attributeFlow, hlook]
    have hstep : step ⟨d, .looking packet, taken, given, asked⟩ (.look fs) =
        some ⟨{ d with attrib := (d.attrib.lookup fs packet.protocol packet.localPort).2 },
          .answering .accept, taken, given, asked⟩ := by
      simp only [step, hlook]
    exact .after hstep (.here rfl rfl)
  | some pid =>
    simp only [DaemonState.attributeFlow, hlook, DaemonState.describe_pid]
    have hstep : step ⟨d, .looking packet, taken, given, asked⟩ (.look fs) =
        some ⟨{ d with attrib := (d.attrib.lookup fs packet.protocol packet.localPort).2 },
          .describing packet pid, taken, given, asked⟩ := by
      simp only [step, hlook]
    have hsame : ({ d with attrib :=
        (d.attrib.lookup fs packet.protocol packet.localPort).2 } : DaemonState).describe fs pid =
        d.describe fs pid := rfl
    cases hexe : (d.describe fs pid).exe with
    | none =>
      have hdescribe : step ⟨{ d with
            attrib := (d.attrib.lookup fs packet.protocol packet.localPort).2 },
          .describing packet pid, taken, given, asked⟩ (.describe fs) =
          some ⟨{ d with attrib := (d.attrib.lookup fs packet.protocol packet.localPort).2 },
            .answering .accept, taken, given, asked⟩ := by
        simp only [step, hsame, hexe]
      exact .after hstep (.after hdescribe (.here rfl rfl))
    | some exe =>
      have hdescribe : step ⟨{ d with
            attrib := (d.attrib.lookup fs packet.protocol packet.localPort).2 },
          .describing packet pid, taken, given, asked⟩ (.describe fs) =
          some ⟨{ d with attrib := (d.attrib.lookup fs packet.protocol packet.localPort).2 },
            .judging packet exe, taken, given, asked⟩ := by
        simp only [step, hsame, hexe]
      exact .after hstep (.after hdescribe (decides_judging rfl clock))

/-- Undisturbed, the steps compute `decide`. -/
theorem decide_undisturbed {w : World} {payload : List UInt8} (hw : w.worker = .checking payload)
    (fs : ProcFs) (clock : DaemonState.Clock) :
    ∃ verdict d, w.daemon.decide fs clock payload = .ok (verdict, d) ∧ Decides w verdict d := by
  obtain ⟨d, worker, taken, given, asked⟩ := w
  cases hw
  obtain ⟨parsed, hparse⟩ := parsePacket_ok payload
  cases hpaused : d.paused with
  | true =>
    refine ⟨_, _, DaemonState.decide_paused hpaused fs clock payload, ?_⟩
    exact .after (a := .check) (if_pos hpaused) (.here rfl rfl)
  | false =>
    unfold DaemonState.decide
    dsimp only
    rw [hpaused, if_neg Bool.false_ne_true, hparse]
    cases parsed with
    | none =>
      have hcheck : step ⟨d, .checking payload, taken, given, asked⟩ .check =
          some ⟨d, .answering .accept, taken, given, asked⟩ := by
        simp only [step, hpaused, hparse, Bool.false_eq_true, if_false]
      exact ⟨_, _, rfl, .after hcheck (.here rfl rfl)⟩
    | some packet =>
      have hcheck : step ⟨d, .checking payload, taken, given, asked⟩ .check =
          some ⟨d, .looking packet, taken, given, asked⟩ := by
        simp only [step, hpaused, hparse, Bool.false_eq_true, if_false]
      have hlook := decides_looking (w := ⟨d, .looking packet, taken, given, asked⟩) rfl fs clock
      have hrules := DaemonState.attributeFlow_rules d fs packet.protocol packet.localPort
      dsimp only at hlook
      simp only [bind, Except.bind]
      cases hpid : (d.attributeFlow fs packet.protocol packet.localPort).1.pid with
      | none =>
        simp only [hpid] at hlook
        exact ⟨_, _, rfl, .after hcheck hlook⟩
      | some pid =>
        cases hexe : (d.attributeFlow fs packet.protocol packet.localPort).1.exe with
        | none =>
          simp only [hpid, hexe] at hlook
          exact ⟨_, _, rfl, .after hcheck hlook⟩
        | some exe =>
          simp only [hpid, hexe] at hlook
          simp only [hrules]
          cases hblocked : d.rules.isBlocked exe clock.now with
          | true =>
            rw [hblocked] at hlook
            exact ⟨_, _, rfl, .after hcheck hlook⟩
          | false =>
            rw [hblocked] at hlook
            exact ⟨_, _, rfl, .after hcheck hlook⟩

/-! ## What is counted, logged and shown -/

/-- What the worker's place says of the counters. -/
structure Tally where
  /-- The verdict that is decided and that the kernel has not got. -/
  undelivered : List Verdict
  /-- The packets without a verdict. -/
  undecided : Nat
  /-- The blocks that are counted and yet to be logged. -/
  unlogged : Nat
  /-- The worker is in its loop. -/
  inLoop : Bool

def Worker.tally : Worker → Tally
  | .opening | .binding | .bound => ⟨[], 0, 0, false⟩
  | .receiving => ⟨[], 0, 0, true⟩
  | .checking _ | .looking _ | .describing .. | .judging .. | .counting .. => ⟨[], 1, 0, true⟩
  | .logging .. => ⟨[], 1, 1, true⟩
  | .answering verdict => ⟨[verdict], 0, 0, true⟩
  | .failed lost | .stopped lost => ⟨lost.toList, 0, 0, false⟩

/-- The worker has one packet at most. -/
theorem Worker.tally_le_one (worker : Worker) :
    worker.tally.undelivered.length + worker.tally.undecided ≤ 1 := by
  cases worker with
  | failed lost => cases lost <;> simp [tally]
  | stopped lost => cases lost <;> simp [tally]
  | _ => simp [tally]

/-- The verdicts that have been decided. -/
def World.decided (w : World) : List Verdict := w.given ++ w.worker.tally.undelivered

/-- The counters, the log and the flag agree with the verdicts. -/
structure Counted (w : World) : Prop where
  packets : w.taken.length = w.decided.length + w.worker.tally.undecided
  blocks : w.daemon.blockedCount = w.decided.count .drop + w.worker.tally.unlogged
  lines : w.asked.length = w.decided.count .drop
  log : w.asked = LogThrottle.default.decisions (w.asked.map Prod.fst)
  throttle : w.daemon.blockLog = LogThrottle.default.after (w.asked.map Prod.fst)
  shown : w.worker.tally.inLoop = true → w.daemon.filteringActive = true
  showing : w.daemon.filteringActive = true →
    w.worker.tally.inLoop = true ∨ ∃ lost, w.worker = .failed lost

theorem start_counted (rules : Inner) : Counted (start rules) where
  packets := rfl
  blocks := rfl
  lines := rfl
  log := rfl
  throttle := rfl
  shown h := absurd h Bool.false_ne_true
  showing h := absurd h Bool.false_ne_true

theorem queueOwned_eq {d d' : DaemonState} (h : d'.queueOwned = d.queueOwned) :
    d'.filteringActive = d.filteringActive ∧ d'.blockedCount = d.blockedCount ∧
      d'.blockLog = d.blockLog := by
  simpa [DaemonState.queueOwned] using h

/-- The packet in hand is accepted. -/
theorem Counted.accept {w : World} (h : Counted w) {d : DaemonState}
    (htally : w.worker.tally = ⟨[], 1, 0, true⟩) (hd : d.queueOwned = w.daemon.queueOwned) :
    Counted { w with daemon := d, worker := .answering .accept } := by
  obtain ⟨hflag, hcount, hlog⟩ := queueOwned_eq hd
  obtain ⟨hpackets, hblocks, hlines, hasked, hthrottle, hshown, -⟩ := h
  rw [htally] at hpackets hblocks hshown
  have hdecided : w.decided = w.given := by rw [World.decided, htally, List.append_nil]
  have hdrops : (w.given ++ [Verdict.accept]).count .drop = w.given.count .drop := by
    rw [List.count_append]
    rfl
  rw [hdecided] at hpackets hblocks hlines
  refine ⟨?_, ?_, ?_, hasked, hlog.trans hthrottle, fun _ => hflag.trans (hshown rfl),
    fun _ => .inl rfl⟩
  · show w.taken.length = (w.given ++ [Verdict.accept]).length + 0
    rw [hpackets, List.length_append]
    rfl
  · show d.blockedCount = (w.given ++ [Verdict.accept]).count .drop + 0
    rw [hcount, hblocks, hdrops]
  · show w.asked.length = (w.given ++ [Verdict.accept]).count .drop
    rw [hlines, hdrops]

/-- The packet in hand has been counted as a block, and is logged. -/
theorem Counted.block {w : World} (h : Counted w) (htally : w.worker.tally = ⟨[], 1, 1, true⟩)
    (call : ThrottleKey × Nat) :
    Counted { w with
      daemon := { w.daemon with blockLog := (w.daemon.blockLog.shouldLog call.1 call.2).2 }
      worker := .answering .drop
      asked := w.asked ++ [(call, (w.daemon.blockLog.shouldLog call.1 call.2).1)] } := by
  obtain ⟨hpackets, hblocks, hlines, hasked, hthrottle, hshown, -⟩ := h
  rw [htally] at hpackets hblocks hshown
  have hdecided : w.decided = w.given := by rw [World.decided, htally, List.append_nil]
  have hdrops : (w.given ++ [Verdict.drop]).count .drop = w.given.count .drop + 1 := by
    rw [List.count_append]
    rfl
  rw [hdecided] at hpackets hblocks hlines
  refine ⟨?_, ?_, ?_, ?_, ?_, fun _ => hshown rfl, fun _ => .inl rfl⟩
  · show w.taken.length = (w.given ++ [Verdict.drop]).length + 0
    rw [hpackets, List.length_append]
    rfl
  · show w.daemon.blockedCount = (w.given ++ [Verdict.drop]).count .drop + 0
    rw [hblocks, hdrops]
    rfl
  · show (w.asked ++ [_]).length = (w.given ++ [Verdict.drop]).count .drop
    rw [List.length_append, hlines, hdrops]
    rfl
  · show w.asked ++ [_] = LogThrottle.default.decisions ((w.asked ++ [_]).map Prod.fst)
    rw [List.map_append, List.map_cons, List.map_nil, LogThrottle.decisions_snoc, ← hasked,
      ← hthrottle]
  · show (w.daemon.blockLog.shouldLog call.1 call.2).2 =
      LogThrottle.default.after ((w.asked ++ [_]).map Prod.fst)
    rw [List.map_append, List.map_cons, List.map_nil, LogThrottle.after_snoc, ← hthrottle]

/-- The verdict in hand gets through. -/
theorem Counted.deliver {w : World} (h : Counted w) {verdict : Verdict}
    (htally : w.worker.tally = ⟨[verdict], 0, 0, true⟩) :
    Counted { w with worker := .receiving, given := w.given ++ [verdict] } := by
  obtain ⟨hpackets, hblocks, hlines, hasked, hthrottle, hshown, -⟩ := h
  rw [htally] at hpackets hblocks hshown
  have hdecided : w.decided = w.given ++ [verdict] ++ [] := by
    rw [World.decided, htally, List.append_nil]
  rw [hdecided] at hpackets hblocks hlines
  exact ⟨hpackets, hblocks, hlines, hasked, hthrottle, fun _ => hshown rfl, fun _ => .inl rfl⟩

/-- The worker leaves its loop, or does not get into it. -/
theorem Counted.fail {w : World} (h : Counted w) {lost : Option Verdict} {inLoop : Bool}
    (htally : w.worker.tally = ⟨lost.toList, 0, 0, inLoop⟩) :
    Counted { w with worker := .failed lost } := by
  obtain ⟨hpackets, hblocks, hlines, hasked, hthrottle, -, -⟩ := h
  rw [htally] at hpackets hblocks
  have hdecided : w.decided = w.given ++ lost.toList := by rw [World.decided, htally]
  rw [hdecided] at hpackets hblocks hlines
  exact ⟨hpackets, hblocks, hlines, hasked, hthrottle,
    fun hin => absurd hin Bool.false_ne_true, fun _ => .inr ⟨lost, rfl⟩⟩

/-- The worker gets on, to a place that says the same of the counters; or it stays where it is,
and another task runs. -/
theorem Counted.proceed {w : World} (h : Counted w) {d : DaemonState} {worker : Worker}
    {t : Tally} (htally : w.worker.tally = t) (hnext : worker.tally = t)
    (hd : d.queueOwned = w.daemon.queueOwned)
    (hfailed : ∀ lost, w.worker = .failed lost → worker = .failed lost) :
    Counted { w with daemon := d, worker := worker } := by
  obtain ⟨hflag, hcount, hlog⟩ := queueOwned_eq hd
  obtain ⟨hpackets, hblocks, hlines, hasked, hthrottle, hshown, hshowing⟩ := h
  rw [World.decided, htally, ← hnext] at hpackets hblocks hlines
  rw [htally, ← hnext] at hshown hshowing
  refine ⟨hpackets, hcount.trans hblocks, hlines, hasked, hlog.trans hthrottle,
    fun hin => hflag.trans (hshown hin), fun hactive => ?_⟩
  rcases hshowing (hflag ▸ hactive) with hin | ⟨lost, hlost⟩
  · exact .inl hin
  · exact .inr ⟨lost, hfailed lost hlost⟩

theorem step_counted {w w' : World} {a : Action} (h : Counted w) (hstep : step w a = some w') :
    Counted w' := by
  cases step_spec hstep with
  | openFails hw | bindFails hw | recvFails hw | answerFails hw =>
    exact h.fail (congrArg Worker.tally hw)
  | paused hw | unparsed hw | unowned hw | unnamed hw | allowed hw =>
    exact h.accept (congrArg Worker.tally hw) rfl
  | opens hw | binds hw | parsed hw | owned hw | named hw | blocked hw =>
    refine h.proceed (congrArg Worker.tally hw) rfl rfl fun lost hlost => ?_
    rw [hw] at hlost
    cases hlost
  | announces hw =>
    obtain ⟨hpackets, hblocks, hlines, hasked, hthrottle, -, -⟩ := h
    rw [World.decided, hw] at hpackets hblocks hlines
    exact ⟨hpackets, hblocks, hlines, hasked, hthrottle, fun _ => rfl, fun _ => .inl rfl⟩
  | receives hw payload =>
    obtain ⟨hpackets, hblocks, hlines, hasked, hthrottle, hshown, -⟩ := h
    rw [World.decided, hw] at hpackets hblocks hlines
    rw [hw] at hshown
    refine ⟨?_, hblocks, hlines, hasked, hthrottle, hshown, fun _ => .inl rfl⟩
    show (w.taken ++ [payload]).length = (w.given ++ []).length + 1
    rw [List.length_append, hpackets]
    rfl
  | counts hw =>
    obtain ⟨hpackets, hblocks, hlines, hasked, hthrottle, hshown, -⟩ := h
    rw [World.decided, hw] at hpackets hblocks hlines
    rw [hw] at hshown
    exact ⟨hpackets, congrArg Nat.succ hblocks, hlines, hasked, hthrottle, hshown,
      fun _ => .inl rfl⟩
  | logs hw instant => exact h.block (congrArg Worker.tally hw) (throttleKey _ _, instant)
  | answers hw => exact h.deliver (congrArg Worker.tally hw)
  | givesUp hw =>
    obtain ⟨hpackets, hblocks, hlines, hasked, hthrottle, -, -⟩ := h
    rw [World.decided, hw] at hpackets hblocks hlines
    exact ⟨hpackets, hblocks, hlines, hasked, hthrottle,
      fun hin => absurd hin Bool.false_ne_true, fun hon => absurd hon Bool.false_ne_true⟩
  | @works t r hverdict hperform =>
    refine h.proceed rfl rfl (DaemonState.perform_queueOwned ?_ hperform) fun _ hlost => hlost
    rintro fs clock payload rfl
    cases hverdict

variable {rules : Inner} {acts : List Action} {w : World}

theorem counted_of_run (h : Runs.run step (start rules) acts = some w) : Counted w :=
  Runs.run_invariant step_counted (start_counted rules) h

/-- **Blocks are counted once**: whatever runs between its steps and wherever it fails, the
worker has at most one packet without a verdict and at most one verdict that did not get through,
the counter is the number of blocks, and every block is in a line of the log or pending. -/
theorem blocks_counted (h : Runs.run step (start rules) acts = some w) :
    w.taken.length = w.decided.length + w.worker.tally.undecided ∧
      w.daemon.blockedCount = w.decided.count .drop + w.worker.tally.unlogged ∧
      w.asked.length = w.decided.count .drop ∧
      ∀ key, (w.asked.filter fun e => e.1.1 = key).length =
        ((w.asked.filter fun e => e.1.1 = key).map fun e => LogThrottle.weight e.2).sum +
          w.daemon.blockLog.pending key := by
  have hcounted := counted_of_run h
  refine ⟨hcounted.packets, hcounted.blocks, hcounted.lines, fun key => ?_⟩
  have hkey := LogThrottle.calls_conserved 5000000000 (w.asked.map Prod.fst) key
  rw [← LogThrottle.default, ← hcounted.log, ← hcounted.throttle, List.filter_map,
    List.length_map] at hkey
  exact hkey

/-- A first packet of curl; the rule that blocks it is added while the worker has it. -/
def curlSteps : List Action :=
  [.open false, .bind false, .announce, .recv (some DaemonState.synPacket), .check,
    .work (.handle .epoch (.addRule ⟨"curl", .ofString "/usr/bin/curl", .block, false, none⟩)),
    .look DaemonState.curlProcFs, .describe DaemonState.curlProcFs, .judge .epoch, .count, .log 0,
    .answer false]

theorem curlSteps_run : (Runs.run step (start .firstStart) curlSteps).map (fun w =>
    (w.taken, w.given, w.daemon.blockedCount, w.asked.map Prod.snd)) =
      some ([DaemonState.synPacket], [.drop], 1, [.first]) := by
  decide +kernel

theorem blocks_counted_curl : ∃ w, Runs.run step (start .firstStart) curlSteps = some w ∧
    w.given = [.drop] ∧ w.asked.length = w.decided.count .drop := by
  obtain ⟨w, hrun, hw⟩ := Option.map_eq_some_iff.mp curlSteps_run
  simp only [Prod.mk.injEq] at hw
  exact ⟨w, hrun, hw.2.1, (blocks_counted hrun).2.2.1⟩

/-- **The status is true**: the daemon says that it filters all the time that the worker is in
its loop, and otherwise only until the worker has seen to its error. -/
theorem filtering_shown (h : Runs.run step (start rules) acts = some w) :
    (w.worker.tally.inLoop = true → w.daemon.filteringActive = true) ∧
      (w.daemon.filteringActive = true →
        w.worker.tally.inLoop = true ∨ ∃ lost, w.worker = .failed lost) :=
  ⟨(counted_of_run h).shown, (counted_of_run h).showing⟩

theorem filtering_shown_curl : ∃ w, Runs.run step (start .firstStart) curlSteps = some w ∧
    (w.worker.tally.inLoop = true → w.daemon.filteringActive = true) := by
  obtain ⟨w, hrun, -⟩ := Option.map_eq_some_iff.mp curlSteps_run
  exact ⟨w, hrun, (filtering_shown hrun).1⟩

/-! ## Why a verdict is given -/

/-- What was seen at a step of the worker: `Saw P` if `P` held of the daemon and the step. -/
abbrev Seen := (DaemonState → Action → Prop) → Prop

/-- The switch was off, and the packet could be read. -/
structure Passed (Saw : Seen) (payload : List UInt8) (packet : Packet) : Prop where
  unpaused : Saw fun d a => a = .check ∧ d.paused = false
  parsed : parsePacket payload = .ok (some packet)

/-- The socket of the packet was the process's. -/
structure Found (Saw : Seen) (payload : List UInt8) (packet : Packet) (pid : Nat) : Prop
    extends Passed Saw payload packet where
  found : Saw fun d a => ∃ fs, a = .look fs ∧
    (d.attrib.lookup fs packet.protocol packet.localPort).1 = some pid

/-- The process ran the executable. -/
structure Named (Saw : Seen) (payload : List UInt8) (packet : Packet) (exe : PathBuf) : Prop where
  named : ∃ pid, Found Saw payload packet pid ∧
    Saw fun d a => ∃ fs, a = .describe fs ∧ (d.describe fs pid).exe = some exe

/-- The reason for a verdict. -/
inductive Reason (Saw : Seen) (payload : List UInt8) : Verdict → Prop where
  | paused (h : Saw fun d a => a = .check ∧ d.paused = true) : Reason Saw payload .accept
  | unparsed (hpaused : Saw fun d a => a = .check ∧ d.paused = false)
      (h : parsePacket payload = .ok none) : Reason Saw payload .accept
  | unowned {packet : Packet} (hpassed : Passed Saw payload packet)
      (h : Saw fun d a => ∃ fs, a = .look fs ∧
        (d.attrib.lookup fs packet.protocol packet.localPort).1 = none) :
      Reason Saw payload .accept
  | unnamed {packet : Packet} {pid : Nat} (hfound : Found Saw payload packet pid)
      (h : Saw fun d a => ∃ fs, a = .describe fs ∧ (d.describe fs pid).exe = none) :
      Reason Saw payload .accept
  | allowed {packet : Packet} {exe : PathBuf} (hnamed : Named Saw payload packet exe)
      (h : Saw fun d a => ∃ now, a = .judge now ∧ d.rules.isBlocked exe now = false) :
      Reason Saw payload .accept
  | blocked {packet : Packet} {exe : PathBuf} (hnamed : Named Saw payload packet exe)
      (h : Saw fun d a => ∃ now, a = .judge now ∧ d.rules.isBlocked exe now = true) :
      Reason Saw payload .drop

section

variable {Saw Saw' : Seen} {payload : List UInt8} {packet : Packet}

theorem Passed.mono (hsaw : ∀ P, Saw P → Saw' P) (h : Passed Saw payload packet) :
    Passed Saw' payload packet :=
  ⟨hsaw _ h.unpaused, h.parsed⟩

theorem Found.mono (hsaw : ∀ P, Saw P → Saw' P) {pid : Nat} (h : Found Saw payload packet pid) :
    Found Saw' payload packet pid :=
  ⟨h.toPassed.mono hsaw, hsaw _ h.found⟩

theorem Named.mono (hsaw : ∀ P, Saw P → Saw' P) {exe : PathBuf}
    (h : Named Saw payload packet exe) : Named Saw' payload packet exe := by
  obtain ⟨pid, hfound, hexe⟩ := h.named
  exact ⟨pid, hfound.mono hsaw, hsaw _ hexe⟩

theorem Reason.mono (hsaw : ∀ P, Saw P → Saw' P) {verdict : Verdict}
    (h : Reason Saw payload verdict) : Reason Saw' payload verdict := by
  cases h with
  | paused h => exact .paused (hsaw _ h)
  | unparsed hpaused h => exact .unparsed (hsaw _ hpaused) h
  | unowned hpassed h => exact .unowned (hpassed.mono hsaw) (hsaw _ h)
  | unnamed hfound h => exact .unnamed (hfound.mono hsaw) (hsaw _ h)
  | allowed hnamed h => exact .allowed (hnamed.mono hsaw) (hsaw _ h)
  | blocked hnamed h => exact .blocked (hnamed.mono hsaw) (hsaw _ h)

end

/-- What was seen of the daemon while the worker had the packet after the first `n`. -/
def sees (rules : Inner) (acts : List Action) (n : Nat) : Seen := fun P =>
  Runs.During step (fun w a => w.given.length = n ∧ P w.daemon a) (start rules) acts

/-- What the worker's place says of the packet in hand. -/
def Known (Saw : Seen) (payload : List UInt8) : Worker → Prop
  | .opening | .binding | .bound | .receiving => True
  | .checking payload' => payload' = payload
  | .looking packet => Passed Saw payload packet
  | .describing packet pid => Found Saw payload packet pid
  | .judging packet exe => Named Saw payload packet exe
  | .counting packet exe | .logging packet exe =>
    Named Saw payload packet exe ∧
      Saw fun d a => ∃ now, a = .judge now ∧ d.rules.isBlocked exe now = true
  | .answering verdict => Reason Saw payload verdict
  | .failed lost | .stopped lost => ∀ verdict ∈ lost, Reason Saw payload verdict

theorem Known.mono {Saw Saw' : Seen} (hsaw : ∀ P, Saw P → Saw' P) {payload : List UInt8}
    {worker : Worker} (h : Known Saw payload worker) : Known Saw' payload worker := by
  cases worker with
  | looking packet => exact Passed.mono hsaw h
  | describing packet pid => exact Found.mono hsaw h
  | judging packet exe => exact Named.mono hsaw h
  | counting packet exe => exact ⟨h.1.mono hsaw, hsaw _ h.2⟩
  | logging packet exe => exact ⟨h.1.mono hsaw, hsaw _ h.2⟩
  | answering verdict => exact Reason.mono hsaw h
  | failed lost => exact fun verdict hv => (h verdict hv).mono hsaw
  | stopped lost => exact fun verdict hv => (h verdict hv).mono hsaw
  | _ => exact h

/-- Every verdict has its reason, and the worker knows what it has found out. -/
structure Reasoned (rules : Inner) (acts : List Action) (w : World) : Prop where
  given : ∀ n payload verdict, w.taken[n]? = some payload → w.given[n]? = some verdict →
    Reason (sees rules acts n) payload verdict
  hand : ∀ payload, w.taken[w.given.length]? = some payload →
    Known (sees rules acts w.given.length) payload w.worker

theorem start_reasoned (rules : Inner) : Reasoned rules [] (start rules) where
  given := fun n payload verdict ht _ => by cases n <;> cases ht
  hand := fun payload ht => by cases ht

/-- A step before the next verdict. -/
theorem Reasoned.move {w' : World} {a : Action} (h : Reasoned rules acts w)
    (hgiven : w'.given = w.given) (htaken : w'.taken = w.taken)
    (hknown : ∀ payload, Known (sees rules (acts ++ [a]) w.given.length) payload w.worker →
      Known (sees rules (acts ++ [a]) w.given.length) payload w'.worker) :
    Reasoned rules (acts ++ [a]) w' where
  given n payload verdict ht hg := by
    rw [htaken] at ht
    rw [hgiven] at hg
    exact (h.given n payload verdict ht hg).mono fun _ hP => hP.append [a]
  hand payload ht := by
    rw [htaken, hgiven] at ht
    rw [hgiven]
    exact hknown payload ((h.hand payload ht).mono fun _ hP => hP.append [a])

theorem step_reasoned {w' : World} {a : Action} (hrun : Runs.run step (start rules) acts = some w)
    (h : Reasoned rules acts w) (hstep : step w a = some w') :
    Reasoned rules (acts ++ [a]) w' := by
  -- what holds at this step is seen from now on
  have hsaw : ∀ {P : DaemonState → Action → Prop}, P w.daemon a →
      sees rules (acts ++ [a]) w.given.length P := fun hP => Runs.during_last hrun ⟨rfl, hP⟩
  have hpackets := (counted_of_run hrun).packets
  cases step_spec hstep with
  | openFails hw | bindFails hw | recvFails hw =>
    exact h.move rfl rfl fun payload _ verdict hv => nomatch hv
  | opens hw | binds hw | announces hw => exact h.move rfl rfl fun payload _ => trivial
  | receives hw payload =>
    rw [World.decided, hw] at hpackets
    have hlen : w.taken.length = w.given.length := by simpa [Worker.tally] using hpackets
    refine ⟨fun n payload' verdict ht hg => ?_, fun payload' ht => ?_⟩
    · -- its verdicts are all about earlier packets
      obtain ⟨hn, -⟩ := List.getElem?_eq_some_iff.mp hg
      rw [List.getElem?_append_left (hlen ▸ hn)] at ht
      exact (h.given n payload' verdict ht hg).mono fun _ hP => hP.append _
    · show payload = payload'
      rw [← hlen, List.getElem?_concat_length] at ht
      exact Option.some.inj ht
  | paused hw hpaused =>
    exact h.move rfl rfl fun payload hknown => .paused (hsaw ⟨rfl, hpaused⟩)
  | unparsed hw hpaused hparse =>
    refine h.move rfl rfl fun payload hknown => .unparsed (hsaw ⟨rfl, hpaused⟩) ?_
    rw [hw] at hknown
    rw [← (show _ = payload from hknown)]
    exact hparse
  | parsed hw hpaused hparse =>
    refine h.move rfl rfl fun payload hknown => ⟨hsaw ⟨rfl, hpaused⟩, ?_⟩
    rw [hw] at hknown
    rw [← (show _ = payload from hknown)]
    exact hparse
  | unowned hw fs hlook =>
    refine h.move rfl rfl fun payload hknown => ?_
    rw [hw] at hknown
    exact .unowned hknown (hsaw ⟨fs, rfl, hlook⟩)
  | owned hw fs hlook =>
    refine h.move rfl rfl fun payload hknown => ?_
    rw [hw] at hknown
    exact ⟨hknown, hsaw ⟨fs, rfl, hlook⟩⟩
  | unnamed hw fs hexe =>
    refine h.move rfl rfl fun payload hknown => ?_
    rw [hw] at hknown
    exact .unnamed hknown (hsaw ⟨fs, rfl, hexe⟩)
  | named hw fs hexe =>
    refine h.move rfl rfl fun payload hknown => ?_
    rw [hw] at hknown
    exact ⟨_, hknown, hsaw ⟨fs, rfl, hexe⟩⟩
  | allowed hw now hrules =>
    refine h.move rfl rfl fun payload hknown => ?_
    rw [hw] at hknown
    exact .allowed hknown (hsaw ⟨now, rfl, hrules⟩)
  | blocked hw now hrules =>
    refine h.move rfl rfl fun payload hknown => ?_
    rw [hw] at hknown
    exact ⟨hknown, hsaw ⟨now, rfl, hrules⟩⟩
  | counts hw =>
    refine h.move rfl rfl fun payload hknown => ?_
    rw [hw] at hknown
    exact hknown
  | logs hw instant =>
    refine h.move rfl rfl fun payload hknown => ?_
    rw [hw] at hknown
    exact .blocked hknown.1 hknown.2
  | answerFails hw =>
    refine h.move rfl rfl fun payload hknown verdict hv => ?_
    rw [hw] at hknown
    cases hv
    exact hknown
  | answers hw =>
    refine ⟨fun n payload verdict' ht hg => ?_, fun payload ht => trivial⟩
    rcases Nat.lt_or_ge n w.given.length with hn | hn
    · rw [List.getElem?_append_left hn] at hg
      exact (h.given n payload verdict' ht hg).mono fun _ hP => hP.append _
    · obtain ⟨hlt, -⟩ := List.getElem?_eq_some_iff.mp hg
      obtain rfl : n = w.given.length := by
        simp only [List.length_append, List.length_singleton] at hlt
        omega
      rw [List.getElem?_concat_length] at hg
      cases hg
      have hknown := h.hand payload ht
      rw [hw] at hknown
      exact Reason.mono (fun _ hP => hP.append _) hknown
  | givesUp hw =>
    refine h.move rfl rfl fun payload hknown => ?_
    rw [hw] at hknown
    exact hknown
  | works hverdict hperform => exact h.move rfl rfl fun payload hknown => hknown

theorem reasoned_of_run (h : Runs.run step (start rules) acts = some w) :
    Reasoned rules acts w :=
  Runs.run_history (start_reasoned rules) (fun hrun h hstep => step_reasoned hrun h hstep) h

/-- **Every verdict has a reason**: the verdicts are those of the packets in the order in which
they were received. Whatever the other tasks do in between, each packet was dropped because,
while the worker had it, the switch was off, its socket was a process's, the process ran an
executable, and the rules blocked that executable; and each was accepted because one of these
failed. -/
theorem verdicts_reasoned (h : Runs.run step (start rules) acts = some w) :
    w.given.length ≤ w.taken.length ∧ w.taken.length ≤ w.given.length + 1 ∧
      ∀ n payload verdict, w.taken[n]? = some payload → w.given[n]? = some verdict →
        Reason (sees rules acts n) payload verdict := by
  have hpackets := (counted_of_run h).packets
  have hone := w.worker.tally_le_one
  rw [World.decided, List.length_append] at hpackets
  exact ⟨by omega, by omega, (reasoned_of_run h).given⟩

theorem verdicts_reasoned_curl : ∃ w, Runs.run step (start .firstStart) curlSteps = some w ∧
    Reason (sees .firstStart curlSteps 0) DaemonState.synPacket .drop := by
  obtain ⟨w, hrun, hw⟩ := Option.map_eq_some_iff.mp curlSteps_run
  simp only [Prod.mk.injEq] at hw
  obtain ⟨htaken, hgiven, -⟩ := hw
  exact ⟨w, hrun, (verdicts_reasoned hrun).2.2 0 _ _ (by rw [htaken]; rfl) (by rw [hgiven]; rfl)⟩

/-- What the worker is shown of a packet of the executable while the rules block it. -/
def Firm (packet : Packet) (pid : Nat) (exe : PathBuf) (d : DaemonState) : Action → Prop
  | .check => d.paused = false
  | .look fs => (d.attrib.lookup fs packet.protocol packet.localPort).1 = some pid
  | .describe fs => (d.describe fs pid).exe = some exe
  | .judge now => d.rules.isBlocked exe now = true
  | _ => True

instance (packet : Packet) (pid : Nat) (exe : PathBuf) (d : DaemonState) (a : Action) :
    Decidable (Firm packet pid exe d a) := by
  cases a <;> unfold Firm <;> infer_instance

/-- **No way around a block**: where each thing that the worker looks at while it has a packet
speaks for a block at that moment, the packet is dropped, whatever changes in between. -/
theorem blocked_all_along (h : Runs.run step (start rules) acts = some w) {n : Nat}
    {payload : List UInt8} {verdict : Verdict} (htaken : w.taken[n]? = some payload)
    (hgiven : w.given[n]? = some verdict) {packet : Packet} {pid : Nat} {exe : PathBuf}
    (hparse : parsePacket payload = .ok (some packet))
    (hfirm : Runs.AlongRun step (fun w a => w.given.length = n → Firm packet pid exe w.daemon a)
      (start rules) acts) : verdict = .drop := by
  have hsure : ∀ {P : DaemonState → Action → Prop}, sees rules acts n P →
      ∃ d a, P d a ∧ Firm packet pid exe d a := by
    rintro P ⟨pre, a, post, m, hacts, hm, hn, hP⟩
    exact ⟨m.daemon, a, hP, hfirm pre a post hacts m hm hn⟩
  have hpacket : ∀ {packet' : Packet}, Passed (sees rules acts n) payload packet' →
      packet' = packet := by
    intro packet' hpassed
    have hp := hpassed.parsed
    rw [hparse] at hp
    cases hp
    rfl
  have hpid : ∀ {packet' : Packet} {pid' : Nat}, Found (sees rules acts n) payload packet' pid' →
      pid' = pid := by
    intro packet' pid' hfound
    cases hpacket hfound.toPassed
    obtain ⟨d, a, ⟨fs, rfl, hlook⟩, hf⟩ := hsure hfound.found
    exact Option.some.inj (hlook.symm.trans hf)
  cases (reasoned_of_run h).given n payload verdict htaken hgiven with
  | blocked _ _ => rfl
  | paused hpaused =>
    obtain ⟨d, a, ⟨rfl, hon⟩, hoff⟩ := hsure hpaused
    exact absurd (hon.symm.trans hoff) Bool.true_eq_false.mp
  | unparsed _ hnone =>
    rw [hparse] at hnone
    cases hnone
  | unowned hpassed hlook =>
    cases hpacket hpassed
    obtain ⟨d, a, ⟨fs, rfl, hnone⟩, hf⟩ := hsure hlook
    cases hnone.symm.trans hf
  | unnamed hfound hdescribe =>
    cases hpid hfound
    obtain ⟨d, a, ⟨fs, rfl, hnone⟩, hf⟩ := hsure hdescribe
    cases hnone.symm.trans hf
  | allowed hnamed hjudge =>
    obtain ⟨pid', hfound, hdescribe⟩ := hnamed.named
    cases hpid hfound
    obtain ⟨d, a, ⟨fs, rfl, hexe⟩, hf⟩ := hsure hdescribe
    cases hexe.symm.trans hf
    obtain ⟨d, a, ⟨now, rfl, hno⟩, hyes⟩ := hsure hjudge
    exact absurd (hno.symm.trans hyes) Bool.false_ne_true

theorem curlSteps_firm :
    Runs.AlongRun step (fun w a => w.given.length = 0 →
        Firm ⟨.tcp, 51234, .v4 ⟨93, 184, 216, 34⟩, 443⟩ 4242 (.ofString "/usr/bin/curl")
          w.daemon a) (start .firstStart) curlSteps := by
  decide +kernel

theorem blocked_all_along_curl : ∃ w verdict,
    Runs.run step (start .firstStart) curlSteps = some w ∧ w.given[0]? = some verdict ∧
      verdict = .drop := by
  obtain ⟨w, hrun, hw⟩ := Option.map_eq_some_iff.mp curlSteps_run
  simp only [Prod.mk.injEq] at hw
  obtain ⟨htaken, hgiven, -⟩ := hw
  have h0 : w.given[0]? = some .drop := by rw [hgiven]; rfl
  exact ⟨w, _, hrun, h0, blocked_all_along hrun (by rw [htaken]; rfl) h0 (by rfl) curlSteps_firm⟩

end QueueWorker

end TravelMode
