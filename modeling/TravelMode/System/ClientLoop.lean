import TravelMode.Gui.Client
import TravelMode.Lib.Runs

/-!
# The client's loop and the commands of the UI

The client thread goes from session to session, and waits in between. Commands come over
one channel, and two loops receive them: that of a connected session, and that of the
backoff. A session can fail at any of its awaits.

- `Client`: what survives the sessions, and where the thread is. A command that has been
  received is `handling` until its handler has run, and nothing is polled meanwhile.
- `step`: the UI issues commands or goes away, awaits complete or fail, and the two
  `select!`s are polled in any order of their branches.
- `owed_run`: the requests attempted, and those of the commands received or waiting, are
  those of the commands issued.
- `attempted_isPrefix`: so what was attempted is a prefix of what was asked for.
- `poll_session`: while a session is connected, a poll and the handler it starts are
  `Session.poll`.
-/

namespace TravelMode

namespace ClientLoop

/-! ## The client thread -/

/-- The awaits of a session before it is connected. -/
inductive Setup where
  | connect
  | subscribe
  | fetchStatus
  | fetchNetwork
  | fetchTop
  | fetchConnections
  | fetchRules
deriving DecidableEq

def Setup.next : Setup → Option Setup
  | .connect => some .subscribe
  | .subscribe => some .fetchStatus
  | .fetchStatus => some .fetchNetwork
  | .fetchNetwork => some .fetchTop
  | .fetchTop => some .fetchConnections
  | .fetchConnections => some .fetchRules
  | .fetchRules => none

/-- Where the thread is. -/
inductive Phase where
  | setup (stage : Setup)
  /-- The loop of `session`, with the `read_frame` future of the current iteration. -/
  | connected (reader : Frames.Reader maxFrame)
  | backoff
  /-- `run` has returned. -/
  | gone

structure Client where
  phase : Phase
  /-- Bytes of the subscription that have arrived and are unread. -/
  socket : List UInt8
  /-- Commands issued and not yet received. -/
  cmdRx : List GuiCmd
  /-- The command received, while its handler runs. -/
  handling : Option GuiCmd
  /-- The events sent to the UI, oldest first. -/
  toUi : List Event
  /-- The requests attempted against the daemon, oldest first. -/
  attempted : List Request

namespace Client

/-- A new session, on a new connection. -/
def startSession (c : Client) : Client := { c with phase := .setup .connect, socket := [] }

/-- An await of the setup has completed, or failed. -/
def setupDone (c : Client) (stage : Setup) (ok : Bool) : Client :=
  if ok then
    match stage.next with
    | some stage => { c with phase := .setup stage }
    | none => { c with phase := .connected .start }
  else { c with phase := .backoff }

/-- The branch of the event stream, and whether it completed. -/
def frameBranch (codec : Codec Response) (c : Client) (reader : Frames.Reader maxFrame)
    (eof : Bool) : Client × Bool :=
  match readFrame codec reader c.socket with
  | .pending reader =>
    if eof then ({ c with phase := .backoff, socket := [] }, true)
    else ({ c with phase := .connected reader, socket := [] }, false)
  | .ready (.ok (.event event)) rest =>
    ({ c with phase := .connected .start, socket := rest, toUi := c.toUi ++ [event] }, true)
  | .ready (.ok _) rest => ({ c with phase := .connected .start, socket := rest }, true)
  | .ready (.error _) rest => ({ c with phase := .backoff, socket := rest }, true)

/-- The match on a received command. In a session, the read in progress is dropped. -/
def receive (c : Client) (cmd : GuiCmd) : Client :=
  match c.phase, cmd with
  | .connected _, .reconnect => { c with phase := .connected .start }
  | .connected _, cmd => { c with phase := .connected .start, handling := some cmd }
  | _, .reconnect => c.startSession
  | _, cmd => { c with handling := some cmd }

/-- All senders are gone: a session returns, and so does the backoff loop. -/
def hangUp (c : Client) : Client :=
  match c.phase with
  | .connected _ => { c with phase := .backoff }
  | _ => { c with phase := .gone }

/-- The branch of the commands, and whether it completed. While it has not, its future can
be dropped without loss. -/
def recvBranch (c : Client) (closed : Bool) : Client × Bool :=
  match c.cmdRx with
  | [] => if closed then (c.hangUp, true) else (c, false)
  | cmd :: cmds => ({ c with cmdRx := cmds }.receive cmd, true)

/-- One poll of the `select!` of a session. -/
def pollSession (codec : Codec Response) (c : Client) (reader : Frames.Reader maxFrame)
    (closed eof : Bool) : PollOrder → Client
  | .frameFirst =>
    let (c', done) := c.frameBranch codec reader eof
    if done then c' else (c'.recvBranch closed).1
  | .cmdFirst =>
    let (c', done) := c.recvBranch closed
    if done then c' else (c.frameBranch codec reader eof).1

/-- One poll of the `select!` of the backoff. -/
def pollBackoff (c : Client) (closed expired timerFirst : Bool) : Client :=
  if timerFirst && expired then c.startSession
  else
    let (c', done) := c.recvBranch closed
    if done then c' else if expired then c.startSession else c

/-- The handler of the command received has run: `try_command` attempts its request once,
whatever comes of it. -/
def handled (c : Client) : Client :=
  { c with
    handling := none
    attempted := c.attempted ++ (c.handling.bind GuiCmd.request).toList }

end Client

/-! ## The system -/

/-- The client, and the UI's end of the channel. -/
structure World where
  client : Client
  /-- The commands issued, oldest first. -/
  issued : List GuiCmd
  /-- The UI is gone, and with it all senders. -/
  closed : Bool

/-- The thread enters its loop. -/
def World.start : World where
  client := ⟨.setup .connect, [], [], none, [], []⟩
  issued := []
  closed := false

inductive Action where
  /-- The UI issues a command. -/
  | issue (cmd : GuiCmd)
  | close
  /-- Bytes of the subscription arrive. -/
  | arrive (bytes : List UInt8)
  | setup (ok : Bool)
  | poll (order : PollOrder) (eof : Bool)
  | pollBackoff (expired timerFirst : Bool)
  | handled

/-- One action. A command that is issued goes to the end of the channel. While a handler
runs, its loop is not polled. -/
def step (codec : Codec Response) (w : World) : Action → Option World
  | .issue cmd =>
    if w.closed then none
    else some { w with
      issued := w.issued ++ [cmd]
      client := { w.client with cmdRx := w.client.cmdRx ++ [cmd] } }
  | .close => some { w with closed := true }
  | .arrive bytes =>
    some { w with client := { w.client with socket := w.client.socket ++ bytes } }
  | .setup ok =>
    match w.client.phase with
    | .setup stage => some { w with client := w.client.setupDone stage ok }
    | _ => none
  | .poll order eof =>
    match w.client.phase, w.client.handling with
    | .connected reader, none =>
      some { w with client := w.client.pollSession codec reader w.closed eof order }
    | _, _ => none
  | .pollBackoff expired timerFirst =>
    match w.client.phase, w.client.handling with
    | .backoff, none => some { w with client := w.client.pollBackoff w.closed expired timerFirst }
    | _, _ => none
  | .handled =>
    match w.client.handling with
    | some _ => some { w with client := w.client.handled }
    | none => none

/-! ## What the commands amount to -/

/-- The requests that have been attempted, and those still to be. -/
def Client.owed (c : Client) : List Request :=
  c.attempted ++ (c.handling.toList ++ c.cmdRx).filterMap GuiCmd.request

/-- The commands of a client, and nothing else of it. -/
structure SameCommands (c c' : Client) : Prop where
  cmdRx : c'.cmdRx = c.cmdRx
  handling : c'.handling = c.handling
  attempted : c'.attempted = c.attempted

theorem SameCommands.owed {c c' : Client} (h : SameCommands c c') : c'.owed = c.owed := by
  rw [Client.owed, Client.owed, h.cmdRx, h.handling, h.attempted]

theorem setupDone_same (c : Client) (stage : Setup) (ok : Bool) :
    SameCommands c (c.setupDone stage ok) := by
  unfold Client.setupDone
  cases ok with
  | false => exact ⟨rfl, rfl, rfl⟩
  | true =>
    cases stage.next with
    | none => exact ⟨rfl, rfl, rfl⟩
    | some stage => exact ⟨rfl, rfl, rfl⟩

theorem frameBranch_same (codec : Codec Response) (c : Client) (reader : Frames.Reader maxFrame)
    (eof : Bool) : SameCommands c (c.frameBranch codec reader eof).1 := by
  unfold Client.frameBranch
  split
  · split
    · exact ⟨rfl, rfl, rfl⟩
    · exact ⟨rfl, rfl, rfl⟩
  · exact ⟨rfl, rfl, rfl⟩
  · exact ⟨rfl, rfl, rfl⟩
  · exact ⟨rfl, rfl, rfl⟩

theorem hangUp_same (c : Client) : SameCommands c c.hangUp := by
  unfold Client.hangUp
  split
  · exact ⟨rfl, rfl, rfl⟩
  · exact ⟨rfl, rfl, rfl⟩

/-- A received command is handled next, unless it is `Reconnect`, which makes no request. -/
theorem receive_owed {c : Client} (hidle : c.handling = none) (cmd : GuiCmd) :
    (c.receive cmd).owed = c.attempted ++ (cmd :: c.cmdRx).filterMap GuiCmd.request := by
  obtain ⟨phase, socket, cmdRx, handling, toUi, attempted⟩ := c
  cases hidle
  cases phase <;> cases cmd <;> rfl

/-- **Receiving** loses nothing and doubles nothing, completed or not. -/
theorem recvBranch_owed {c : Client} (hidle : c.handling = none) (closed : Bool) :
    (c.recvBranch closed).1.owed = c.owed := by
  unfold Client.recvBranch
  cases hqueue : c.cmdRx with
  | nil =>
    cases closed with
    | true => exact (hangUp_same c).owed
    | false => rfl
  | cons cmd cmds =>
    have howed : c.owed = c.attempted ++ (cmd :: cmds).filterMap GuiCmd.request := by
      rw [Client.owed, hidle, hqueue]
      rfl
    rw [howed]
    exact receive_owed (c := { c with cmdRx := cmds }) hidle cmd

theorem pollSession_owed (codec : Codec Response) {c : Client} (hidle : c.handling = none)
    (reader : Frames.Reader maxFrame) (closed eof : Bool) (order : PollOrder) :
    (c.pollSession codec reader closed eof order).owed = c.owed := by
  have hframe := frameBranch_same codec c reader eof
  cases order with
  | frameFirst =>
    rw [Client.pollSession]
    dsimp only
    split
    · exact hframe.owed
    · rw [recvBranch_owed (hframe.handling.trans hidle)]
      exact hframe.owed
  | cmdFirst =>
    rw [Client.pollSession]
    dsimp only
    split
    · exact recvBranch_owed hidle closed
    · exact hframe.owed

theorem pollBackoff_owed {c : Client} (hidle : c.handling = none)
    (closed expired timerFirst : Bool) :
    (c.pollBackoff closed expired timerFirst).owed = c.owed := by
  unfold Client.pollBackoff
  split
  · rfl
  · dsimp only
    split
    · exact recvBranch_owed hidle closed
    · split
      · rfl
      · rfl

/-- The handler moves its request from what is owed to what was attempted. -/
theorem handled_owed (c : Client) : c.handled.owed = c.owed := by
  unfold Client.owed Client.handled
  cases hcmd : c.handling with
  | none => simp
  | some cmd =>
    cases hrequest : cmd.request with
    | none => simp [hrequest]
    | some request => simp [hrequest]

/-- What is owed is what was issued. -/
def Accounted (w : World) : Prop := w.client.owed = w.issued.filterMap GuiCmd.request

/-- **One action** keeps the account. -/
theorem step_accounted {codec : Codec Response} {w w' : World} {a : Action} (hw : Accounted w)
    (h : step codec w a = some w') : Accounted w' := by
  unfold Accounted at hw ⊢
  cases a with
  | issue cmd =>
    simp only [step] at h
    split at h
    · cases h
    · cases h
      rw [List.filterMap_append, ← hw]
      simp [Client.owed]
  | close =>
    cases h
    exact hw
  | arrive bytes =>
    cases h
    exact hw
  | setup ok =>
    simp only [step] at h
    split at h
    · cases h
      exact (setupDone_same _ _ _).owed.trans hw
    · cases h
  | poll order eof =>
    simp only [step] at h
    split at h
    · rename_i hidle
      cases h
      exact (pollSession_owed codec hidle _ _ _ _).trans hw
    · cases h
  | pollBackoff expired timerFirst =>
    simp only [step] at h
    split at h
    · rename_i hidle
      cases h
      exact (pollBackoff_owed hidle _ _ _).trans hw
    · cases h
  | handled =>
    simp only [step] at h
    split at h
    · cases h
      exact (handled_owed w.client).trans hw
    · cases h

/-- **Every run**: what was attempted and what is still to be attempted is what was issued. -/
theorem owed_run {codec : Codec Response} {as : List Action} {w : World}
    (h : Runs.run (step codec) World.start as = some w) :
    w.client.owed = w.issued.filterMap GuiCmd.request :=
  Runs.run_invariant (I := Accounted) step_accounted (show Accounted World.start from rfl) h

/-- **Exactly once, in order**: at every point of every run, the requests attempted are a
prefix of those that the commands issued so far ask for; `Reconnect` and `RefreshTrayIcon`
ask for none. -/
theorem attempted_isPrefix {codec : Codec Response} {as : List Action} {w : World}
    (h : Runs.run (step codec) World.start as = some w) :
    w.client.attempted <+: w.issued.filterMap GuiCmd.request ∧
      GuiCmd.request .reconnect = none ∧ GuiCmd.request .refreshTrayIcon = none := by
  refine ⟨?_, rfl, rfl⟩
  rw [← owed_run h]
  exact List.prefix_append _ _

/-! ## A connected session -/

/-- The session that the client is in. -/
def Client.session (c : Client) (reader : Frames.Reader maxFrame) : Session :=
  { socket := c.socket, reader := reader, cmdRx := c.cmdRx, toUi := c.toUi,
    attempted := c.attempted, ended := none }

/-- The client is where the session is, with no command in hand. -/
structure Mirrors (c : Client) (s : Session) : Prop where
  idle : c.handling = none
  socket : c.socket = s.socket
  cmdRx : c.cmdRx = s.cmdRx
  toUi : c.toUi = s.toUi
  attempted : c.attempted = s.attempted
  phase : s.ended = none → c.phase = .connected s.reader
  ended : s.ended ≠ none → c.phase = .backoff

theorem handled_of_idle {c : Client} (hidle : c.handling = none) : c.handled = c := by
  obtain ⟨phase, socket, cmdRx, handling, toUi, attempted⟩ := c
  cases hidle
  simp [Client.handled]

theorem frameBranch_mirrors (codec : Codec Response) {c : Client} (hidle : c.handling = none)
    (reader : Frames.Reader maxFrame) :
    Mirrors (c.frameBranch codec reader false).1 ((c.session reader).frameBranch codec).1 ∧
      (c.frameBranch codec reader false).2 = ((c.session reader).frameBranch codec).2 := by
  unfold Client.frameBranch Session.frameBranch Client.session
  cases hread : readFrame codec reader c.socket with
  | pending reader => exact ⟨⟨hidle, rfl, rfl, rfl, rfl, fun _ => rfl, fun h => absurd rfl h⟩, rfl⟩
  | ready result rest =>
    cases result with
    | error e => exact ⟨⟨hidle, rfl, rfl, rfl, rfl, fun h => (nomatch h), fun _ => rfl⟩, rfl⟩
    | ok response =>
      cases response <;>
        exact ⟨⟨hidle, rfl, rfl, rfl, rfl, fun _ => rfl, fun h => absurd rfl h⟩, rfl⟩

theorem recvBranch_mirrors {c : Client} {s : Session} (h : Mirrors c s) (hs : s.ended = none) :
    Mirrors (c.recvBranch false).1.handled s.cmdBranch.1 ∧
      (c.recvBranch false).2 = s.cmdBranch.2 := by
  obtain ⟨phase, socket, cmdRx, handling, toUi, attempted⟩ := c
  obtain ⟨hidle, rfl, rfl, rfl, rfl, hphase, -⟩ := h
  cases hidle
  cases hphase hs
  unfold Client.recvBranch Session.cmdBranch
  cases hqueue : s.cmdRx with
  | nil =>
    refine ⟨⟨rfl, rfl, hqueue.symm, rfl, ?_, hphase, fun h => absurd hs h⟩, rfl⟩
    exact List.append_nil _
  | cons cmd cmds =>
    cases cmd <;> refine ⟨⟨rfl, rfl, rfl, rfl, ?_, fun _ => rfl, fun h => absurd hs h⟩, rfl⟩ <;>
      simp [Client.receive, Client.handled, GuiCmd.request]

/-- A frame branch that waits has not ended the session. -/
theorem ended_of_waiting {codec : Codec Response} {s : Session} (hs : s.ended = none)
    (h : (s.frameBranch codec).2 = false) : (s.frameBranch codec).1.ended = none := by
  unfold Session.frameBranch at h ⊢
  cases hread : readFrame codec s.reader s.socket with
  | pending reader => exact hs
  | ready result rest =>
    rw [hread] at h
    cases result with
    | error e => cases h
    | ok response => cases response <;> cases h

/-- **Refinement**: while the UI and the stream are there, a poll of the session's loop, with
the handler it starts, is `Session.poll`. -/
theorem poll_session (codec : Codec Response) {c : Client} {reader : Frames.Reader maxFrame}
    (hphase : c.phase = .connected reader) (hidle : c.handling = none) (order : PollOrder) :
    Mirrors (c.pollSession codec reader false false order).handled
      ((c.session reader).poll codec order) := by
  have hstart : Mirrors c (c.session reader) :=
    ⟨hidle, rfl, rfl, rfl, rfl, fun _ => hphase, fun h => absurd rfl h⟩
  obtain ⟨hframe, hframeDone⟩ := frameBranch_mirrors codec hidle reader
  cases order with
  | frameFirst =>
    rw [Client.pollSession, Session.poll]
    dsimp only
    rw [hframeDone]
    cases hdone : ((c.session reader).frameBranch codec).2 with
    | true =>
      rw [if_pos rfl, if_pos rfl, handled_of_idle hframe.idle]
      exact hframe
    | false =>
      rw [if_neg Bool.false_ne_true, if_neg Bool.false_ne_true]
      exact (recvBranch_mirrors hframe (ended_of_waiting rfl hdone)).1
  | cmdFirst =>
    obtain ⟨hrecv, hrecvDone⟩ := recvBranch_mirrors hstart rfl
    rw [Client.pollSession, Session.poll]
    dsimp only
    rw [hrecvDone]
    cases (c.session reader).cmdBranch.2 with
    | true => exact hrecv
    | false =>
      rw [if_neg Bool.false_ne_true, if_neg Bool.false_ne_true, handled_of_idle hframe.idle]
      exact hframe

/-- A codec for runs without frames. -/
def silentCodec : Codec Response where
  encode _ := .ok []
  decode _ := .ok .ok

/-- The daemon is down: a command is taken in the backoff, and `Reconnect` starts a session.
Its stream ends while the next command is handled. -/
def flaky : List Action :=
  [.issue (.setPaused true), .setup false, .pollBackoff false true, .issue .reconnect, .handled,
      .issue (.unblock 3), .pollBackoff true false] ++ List.replicate 7 (.setup true) ++
    [.poll .cmdFirst true, .handled, .poll .frameFirst true]

theorem attempted_isPrefix_flaky :
    ∃ w, Runs.run (step silentCodec) World.start flaky = some w ∧
      w.client.attempted = [.setPaused true, .removeRule 3] ∧
      w.client.attempted <+: w.issued.filterMap GuiCmd.request :=
  ⟨_, rfl, rfl, (@attempted_isPrefix silentCodec flaky _ rfl).1⟩

end ClientLoop

end TravelMode
