import TravelMode.Core.Types
import TravelMode.Lib.Frames

/-!
# Requests, responses and their frames (`core/src/ipc.rs`)

The vocabulary of the daemon's socket. One `Request` per frame from client to
daemon; the daemon replies with exactly one `Response`, or with a stream of
`Response.event` after `Request.subscribe`. A frame is a JSON body under a
four-byte length (`Frames`); the JSON itself is serde's, a parameter here.
-/

namespace TravelMode

/-- `MAX_FRAME`: the largest body `read_frame` accepts. -/
def maxFrame : Nat := 16 * 1024 * 1024

theorem maxFrame_lt : maxFrame < 4294967296 := by decide

inductive Request where
  | ping
  | getStatus
  | getNetwork
  | getProcesses
  | getConnections
  | getTop
  | listRules
  | addRule (rule : RuleInput)
  | removeRule (id : Nat)
  | setPaused (paused : Bool)
  /-- Switch this connection into event-streaming mode. -/
  | subscribe
deriving DecidableEq

inductive Response where
  | pong
  | status (v : Status)
  | network (v : NetworkInfo)
  | processes (v : List ProcessInfo)
  | connections (v : List ConnectionInfo)
  | top (v : List AppUsage)
  | rules (v : List Rule)
  | ok
  | error (message : String)
  | event (event : Event)
deriving DecidableEq

/-! ## Paths in messages -/

def Event.paths : Event → List PathBuf
  | .connectionOpened conn => conn.exe.toList
  | .connectionUpdated conn => conn.exe.toList
  | .processStarted info => info.exe.toList
  | .ruleAdded rule => [rule.exePath]
  | _ => []

def Request.paths : Request → List PathBuf
  | .addRule rule => [rule.exePath]
  | _ => []

def Response.paths : Response → List PathBuf
  | .processes v => v.filterMap ProcessInfo.exe
  | .connections v => v.filterMap ConnectionInfo.exe
  | .top v => v.filterMap AppUsage.exe
  | .rules v => v.map Rule.exePath
  | .event e => e.paths
  | _ => []

/-! ## Codecs -/

/-- What serde makes of the values of a type: `serde_json::to_vec` and
`serde_json::from_slice`, each with the text of its error. -/
structure Codec (α : Type) where
  encode : α → Except String (List UInt8)
  decode : List UInt8 → Except String α

/-- `serde_json` reads back what it wrote of the value. -/
def Codec.RoundTrips {α : Type} (codec : Codec α) (value : α) : Prop :=
  ∀ body, codec.encode value = .ok body → codec.decode body = .ok value

/-- serde writes a path only if it is UTF-8, and has no other reason to fail. -/
def Codec.EncodesUtf8 (codec : Codec Response) : Prop :=
  ∀ v : Response, (∃ body, codec.encode v = .ok body) ↔ ∀ p ∈ v.paths, p.isUtf8 = true

/-- serde reads a path out of a JSON string, which is UTF-8. -/
def Codec.DecodesUtf8 (codec : Codec Request) : Prop :=
  ∀ body req, codec.decode body = .ok req → ∀ p ∈ req.paths, p.isUtf8 = true

/-- What is written of the value, if anything is, is within `MAX_FRAME`. -/
def Codec.Fits {α : Type} (codec : Codec α) (value : α) : Prop :=
  match codec.encode value with
  | .ok body => body.length ≤ maxFrame
  | .error _ => True

instance {α : Type} (codec : Codec α) (value : α) : Decidable (codec.Fits value) := by
  unfold Codec.Fits
  split <;> infer_instance

theorem Codec.fits_of_encode {α : Type} {codec : Codec α} {value : α} {body : List UInt8}
    (henc : codec.encode value = .ok body) (h : codec.Fits value) : body.length ≤ maxFrame := by
  rw [Codec.Fits, henc] at h
  exact h

/-! ## Frames -/

/-- The errors of `read_frame` and `write_frame`. -/
inductive IpcError where
  | io (message : String)
  | json (message : String)
  | frameTooLarge (len : Nat)
  | closed
deriving DecidableEq

/-- The `Display` that `thiserror` derives. -/
def IpcError.display : IpcError → String
  | .io message => "io error: " ++ message
  | .json message => "json error: " ++ message
  | .frameTooLarge len => "frame too large (" ++ toString len ++ " bytes)"
  | .closed => "connection closed"

/-- `write_frame`: the bytes it hands to the writer. The length is cut to a `u32`,
and is not held against `MAX_FRAME`. -/
def writeFrame {α : Type} (codec : Codec α) (value : α) : Except IpcError (List UInt8) :=
  match codec.encode value with
  | .ok body => .ok (Frames.frame body)
  | .error message => .error (.json message)

/-- One poll of a `read_frame` future: `pending` is the future as it is left
suspended, with the bytes it has taken; `ready` comes with the bytes unread. -/
inductive ReadPoll (α : Type) where
  | pending (reader : Frames.Reader maxFrame)
  | ready (result : Except IpcError α) (rest : List UInt8)

/-- `read_frame`: the length, its bound, the body, then the JSON. -/
def readFrame {α : Type} (codec : Codec α) (reader : Frames.Reader maxFrame)
    (input : List UInt8) : ReadPoll α :=
  match reader.poll input with
  | .pending reader => .pending reader
  | .tooLarge len rest => .ready (.error (.frameTooLarge len)) rest
  | .ready body rest =>
    match codec.decode body with
    | .ok value => .ready (.ok value) rest
    | .error message => .ready (.error (.json message)) rest

/-! ## Over a transport that ends -/

/-- What `read_exact` says of a transport that ended early. -/
def earlyEof : String := "early eof"

/-- What a read in progress returns when the transport ends: within the header the
connection counts as closed, within the body it is an error. -/
def atEof : Frames.Reader maxFrame → IpcError
  | .header _ _ => .closed
  | .body _ _ _ _ => .io earlyEof

/-- `read_frame` run to its end over a transport that delivers these chunks and then
ends; the chunks it leaves unread. -/
def readFrameFrom {α : Type} (codec : Codec α) :
    Frames.Reader maxFrame → List (List UInt8) → Except IpcError α × List (List UInt8)
  | reader, [] => (.error (atEof reader), [])
  | reader, chunk :: chunks =>
    match readFrame codec reader chunk with
    | .pending reader => readFrameFrom codec reader chunks
    | .ready result rest => (result, rest :: chunks)

/-- The results of `n` calls of `read_frame`, one after the other. -/
def readFrames {α : Type} (codec : Codec α) :
    Nat → List (List UInt8) → List (Except IpcError α)
  | 0, _ => []
  | n + 1, chunks =>
    let (result, rest) := readFrameFrom codec .start chunks
    result :: readFrames codec n rest

theorem readFrames_succ {α : Type} (codec : Codec α) (n : Nat) (chunks : List (List UInt8)) :
    readFrames codec (n + 1) chunks = (readFrameFrom codec .start chunks).1 ::
      readFrames codec n (readFrameFrom codec .start chunks).2 := rfl

/-- What `read_frame` makes of a whole body. -/
def decoded {α : Type} (codec : Codec α) (body : List UInt8) : Except IpcError α :=
  match codec.decode body with
  | .ok value => .ok value
  | .error message => .error (.json message)

/-- `read_frame` over chunks is the reader driven over them. -/
theorem readFrameFrom_eq {α : Type} (codec : Codec α) (reader : Frames.Reader maxFrame)
    (chunks : List (List UInt8)) :
    readFrameFrom codec reader chunks =
      match reader.drive chunks with
      | (.pending reader, chunks) => (.error (atEof reader), chunks)
      | (.tooLarge len rest, chunks) => (.error (.frameTooLarge len), rest :: chunks)
      | (.ready body rest, chunks) => (decoded codec body, rest :: chunks) := by
  induction chunks generalizing reader with
  | nil => rfl
  | cons chunk chunks ih =>
    rw [readFrameFrom, readFrame, Frames.Reader.drive]
    cases reader.poll chunk with
    | pending reader' => exact ih reader'
    | tooLarge len rest => rfl
    | ready body rest =>
      dsimp only
      rw [decoded]
      cases codec.decode body <;> rfl

end TravelMode
