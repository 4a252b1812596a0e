import TravelMode.Core.Ipc

/-!
# The GUI's daemon client (`gui/src/client.rs`)

One connected session: `tokio::select!` between the next frame of the event
stream and the next command of the UI. Both futures are made afresh by every
iteration of the loop, and whichever does not complete is dropped when the other
does.
-/

namespace TravelMode

/-- The result of the initial fetch. -/
structure Snapshot where
  status : Status
  network : NetworkInfo
  top : List AppUsage
  conns : List ConnectionInfo
  rules : List Rule

/-- Commands from the UI to the daemon. -/
inductive GuiCmd where
  | setPaused (paused : Bool)
  | block (name : String) (exe : PathBuf)
  | unblock (ruleId : Nat)
  /-- Reconnect immediately instead of waiting out the backoff. -/
  | reconnect
  /-- Theme changed: re-push the tray icon pixmaps. -/
  | refreshTrayIcon
deriving DecidableEq

/-- `send_command`: the request a command makes of the daemon, if it makes one. -/
def GuiCmd.request : GuiCmd → Option Request
  | .setPaused paused => some (.setPaused paused)
  | .block name exe =>
    some (.addRule
      { name := name, exePath := exe, action := .block, persistent := true, ttlSecs := none })
  | .unblock ruleId => some (.removeRule ruleId)
  | .reconnect => none
  | .refreshTrayIcon => none

/-- A session past its initial fetch. What a request's answer adds to the UI (a
toast) is no part of the event stream and is left out. -/
structure Session where
  /-- Bytes of the subscription that have arrived and are unread. -/
  socket : List UInt8
  /-- The `read_frame` future of the current iteration. -/
  reader : Frames.Reader maxFrame
  cmdRx : List GuiCmd
  /-- The events sent to the UI, oldest first. -/
  toUi : List Event
  /-- The requests attempted for the UI, oldest first. -/
  attempted : List Request
  /-- The error `session` returned. -/
  ended : Option String

/-- `tokio::select!` polls its branches in a random order. -/
inductive PollOrder where
  | frameFirst
  | cmdFirst
deriving DecidableEq

namespace Session

/-- Connected, with nothing read and nothing asked. -/
def start : Session :=
  { socket := [], reader := .start, cmdRx := [], toUi := [], attempted := [], ended := none }

/-- The branch of the event stream, and whether it completed. -/
def frameBranch (codec : Codec Response) (s : Session) : Session × Bool :=
  match readFrame codec s.reader s.socket with
  | .pending reader => ({ s with reader := reader, socket := [] }, false)
  | .ready (.ok (.event event)) rest =>
    ({ s with reader := .start, socket := rest, toUi := s.toUi ++ [event] }, true)
  | .ready (.ok _) rest => ({ s with reader := .start, socket := rest }, true)
  | .ready (.error e) rest =>
    ({ s with reader := .start, socket := rest,
              ended := some ("event stream lost: " ++ e.display) }, true)

/-- The branch of the commands, and whether it completed. The read in progress is
then dropped with the bytes it had taken; the next iteration starts a new one. The
UI is there: its end of the channel is not closed. -/
def cmdBranch (s : Session) : Session × Bool :=
  match s.cmdRx with
  | [] => (s, false)
  | cmd :: cmds =>
    ({ s with cmdRx := cmds, reader := .start,
              attempted := s.attempted ++ cmd.request.toList }, true)

/-- One poll of the `select!`: the second branch is polled where the first is
pending. -/
def poll (codec : Codec Response) (s : Session) : PollOrder → Session
  | .frameFirst =>
    let (s', done) := s.frameBranch codec
    if done then s' else s'.cmdBranch.1
  | .cmdFirst =>
    let (s', done) := s.cmdBranch
    if done then s' else (s.frameBranch codec).1

end Session

end TravelMode
