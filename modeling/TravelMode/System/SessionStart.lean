import Mathlib.Data.List.Perm.Basic
import TravelMode.Daemon.Ipc
import TravelMode.Daemon.RuleFile
import TravelMode.Daemon.Tasks
import TravelMode.Lib.Runs

/-!
# The start of a session

The client writes the Subscribe frame on one connection and fetches the five pieces
of its snapshot on five others, one after the other. Each connection is a task of the
daemon; nothing tells the client when the subscribing one has run.

- `World`: the daemon, its changes numbered in commit order, those pending and those
  published, the task of the subscription, and the replies read so far.
- `NothingLost`: every change is in each piece that shows it, or was delivered.
- `nothing_lost_iff`: for every run to the end of the session's start, nothing is lost
  if and only if every step was `Harmless`: no publication came before the subscription
  (or after the end of its stream) with a piece read too early to show it, none
  overwrote such a change that the subscription had still to receive, and the stream did
  not break off with such a change still to come.
- `late_subscription_loses_rule`: a run that loses a rule.
-/

namespace TravelMode

namespace SessionStart

open Broadcast

/-! ## The system -/

/-- What the client fetches. -/
inductive Piece where
  | status
  | network
  | top
  | connections
  | rules
deriving DecidableEq

/-- The order of the fetches. -/
def fetchOrder : List Piece := [.status, .network, .top, .connections, .rules]

def Piece.request : Piece → Request
  | .status => .getStatus
  | .network => .getNetwork
  | .top => .getTop
  | .connections => .getConnections
  | .rules => .listRules

/-- The piece shows the change that the event announces. -/
def Piece.shows : Piece → Event → Bool
  | .status, .pausedChanged _ => true
  | .top, e => e.connKey.isSome
  | .connections, e => e.connKey.isSome
  | .rules, .ruleAdded _ => true
  | .rules, .ruleRemoved _ => true
  | _, _ => false

/-- The handler of the piece takes the lock of the flow map. -/
def Piece.readsFlows : Piece → Bool
  | .status => true
  | .top => true
  | .connections => true
  | _ => false

/-- A reply, what its handler's task has written, and how many changes were committed
when the handler read the state. -/
structure Reply where
  piece : Piece
  response : Response
  frame : Except IpcError (List UInt8)
  committed : Nat

/-- The client reads the response out of this frame. -/
def accepts (responses : Codec Response) (frame : List UInt8) (response : Response) : Bool :=
  decide ((readFrameFrom responses .start [frame]).1 = .ok response)

/-- The daemon and one client that starts a session. A change is named by its position
in `committed`. -/
structure World where
  daemon : DaemonState
  /-- The changes, each with the event that announces it, in commit order. -/
  committed : List Event
  /-- Changes whose event has still to be published. -/
  pending : List Nat
  /-- Changes in the order in which their events were sent on the channel. -/
  published : List Nat
  /-- The events sent. -/
  channel : List Event
  /-- The Subscribe frame is written. -/
  wrote : Bool
  /-- The task of the subscription, once it is in `stream_events`. -/
  stream : Option EventTask
  /-- Changes whose event that task has written. -/
  written : List Nat
  /-- Requests written, replies read from the state, replies received. -/
  asked : Nat
  replies : List Reply
  received : Nat

/-- A poll holds the lock of the flow map until its events are published. -/
def World.flowsLocked (w : World) : Bool :=
  w.pending.any fun n => (w.committed[n]?).any fun e => e.connKey.isSome

inductive Action where
  /-- A task changes the state. -/
  | perform (t : Task)
  /-- A task publishes one of its events. -/
  | publish (i : Nat)
  | writeSubscribe
  /-- The daemon's task of the subscription subscribes to the channel. -/
  | subscribe
  /-- A turn of its loop. -/
  | stream
  /-- The client asks for the next piece. -/
  | ask
  /-- The daemon's task of that request reads the state, and writes the reply. -/
  | serve (env : Env)
  /-- The client has the reply. A fetch that fails has no such step: it ends the
  session. -/
  | receive

def step (responses : Codec Response) (w : World) : Action → Option World
  | .perform t =>
    if t.publishesLocked = true ∧ w.flowsLocked = true then none
    else
      (w.daemon.perform t).map fun (daemon, events) =>
        { w with
          daemon := daemon
          committed := w.committed ++ events
          pending := w.pending ++ List.range' w.committed.length events.length }
  | .publish i =>
    w.pending[i]?.bind fun n =>
      w.committed[n]?.map fun e =>
        { w with
          pending := w.pending.eraseIdx i
          published := w.published ++ [n]
          channel := w.channel ++ [e] }
  | .writeSubscribe => if w.wrote = false then some { w with wrote := true } else none
  | .subscribe =>
    if w.wrote = true ∧ w.stream.isNone = true then
      some { w with stream := some (.start w.channel) }
    else none
  | .stream =>
    w.stream.bind fun task =>
      (task.turn responses w.channel).map fun task' =>
        { w with
          stream := some task'
          written := w.written ++
            (w.published.drop task.rx.next).take (task'.written.length - task.written.length) }
  | .ask =>
    if w.wrote = true ∧ w.asked = w.received ∧ w.asked < fetchOrder.length then
      some { w with asked := w.asked + 1 }
    else none
  | .serve env =>
    fetchOrder[w.replies.length]?.bind fun piece =>
      if w.replies.length < w.asked ∧ ¬(piece.readsFlows = true ∧ w.flowsLocked = true) then
        (dispatch w.daemon env piece.request).map fun h =>
          { w with
            replies := w.replies ++
              [⟨piece, h.response, writeFrame responses h.response, w.committed.length⟩] }
      else none
  | .receive =>
    w.replies[w.received]?.bind fun reply =>
      match reply.frame with
      | .ok frame =>
        if accepts responses frame reply.response = true then
          some { w with received := w.received + 1 }
        else none
      | .error _ => none

/-- A daemon that has just started, and a client that has not connected. -/
def start (rules : Inner) : World where
  daemon := .new rules
  committed := []
  pending := []
  published := []
  channel := []
  wrote := false
  stream := none
  written := []
  asked := 0
  replies := []
  received := 0

/-! ### What is delivered -/

/-- The frames that the client reads: those before the first that it does not read,
where its session ends. -/
def readable (responses : Codec Response) (written : List (Event × List UInt8)) :
    List (Event × List UInt8) :=
  written.takeWhile fun entry => accepts responses entry.2 (.event entry.1)

/-- Changes delivered on the subscription. -/
def World.delivered (responses : Codec Response) (w : World) : List Nat :=
  match w.stream with
  | none => []
  | some task => w.written.take (readable responses task.written).length

/-- The stream has not broken off: the task goes on, and the client reads all that it has
written. -/
def Intact (responses : Codec Response) (task : EventTask) : Prop :=
  task.ended = none ∧ readable responses task.written = task.written

instance (responses : Codec Response) (task : EventTask) : Decidable (Intact responses task) :=
  inferInstanceAs (Decidable (_ ∧ _))

/-- The receiver of the subscription, while its stream has not broken off. -/
def World.listener (responses : Codec Response) (w : World) : Option Subscriber :=
  match w.stream with
  | none => none
  | some task => if Intact responses task then some task.rx else none

/-! ## Nothing is lost -/

/-- The reply is what a daemon in this state answers. -/
def Shows (v : View) : Piece → Response → Prop
  | .status, .status status => status.paused = v.paused
  | .network, .network _ => True
  | .top, .top apps => ∃ rules now, apps = topApps rules now v.connections.vals
  | .connections, .connections conns => conns = v.connections.vals
  | .rules, .rules rules => rules = v.rules
  | _, _ => False

/-- Each piece that shows the change was fetched, from a state that has the change:
the state that the changes up to some point later than it lead to. -/
def Reflected (v₀ : View) (w : World) (n : Nat) : Prop :=
  ∀ e ∈ w.committed[n]?, ∀ piece : Piece, piece.shows e = true →
    ∃ reply ∈ w.replies, reply.piece = piece ∧ n < reply.committed ∧
      Shows (v₀.replay (w.committed.take reply.committed)) piece reply.response

/-- Every change is reflected in the snapshot or was delivered. -/
def NothingLost (responses : Codec Response) (v₀ : View) (w : World) : Prop :=
  ∀ n < w.committed.length, Reflected v₀ w n ∨ n ∈ w.delivered responses

/-- The session has started: the client has its snapshot, every change is published, and
the task of the subscription has received all there is, or has returned. -/
structure Started (w : World) : Prop where
  fetched : w.received = fetchOrder.length
  flushed : w.pending = []
  drained : ∃ task ∈ w.stream, task.ended = none → w.channel.length ≤ task.rx.next

/-- No piece that shows the change was read before it. -/
def Timely (w : World) (n : Nat) : Prop :=
  ∀ e ∈ w.committed[n]?, ∀ reply ∈ w.replies, reply.piece.shows e = true → n < reply.committed

/-- The change that the next publication overwrites, if the subscriber has not received
it. -/
def overwritten (w : World) (r : Subscriber) : Option Nat :=
  if r.next + eventChannelCapacity ≤ w.published.length then
    w.published[w.published.length - eventChannelCapacity]?
  else none

/-- The event that the subscriber receives next, if it is still kept. -/
def nextEvent (w : World) (r : Subscriber) : Option Event :=
  if w.channel.length ≤ r.next + eventChannelCapacity then w.channel[r.next]? else none

/-- The response can be written, and the client reads it. -/
def carries (responses : Codec Response) (response : Response) : Bool :=
  match writeFrame responses response with
  | .ok frame => accepts responses frame response
  | .error _ => false

/-- The condition on a step. An event published before the subscription, or after its
stream has broken off, is not delivered, nor is one that is overwritten before it is
received; where the stream breaks off, nothing that was still to come is. The change has
to be in the pieces then. -/
def Harmless (responses : Codec Response) (w : World) : Action → Prop
  | .publish i => ∀ n ∈ w.pending[i]?,
    match w.listener responses with
    | none => Timely w n
    | some r => ∀ m ∈ overwritten w r, Timely w m
  | .stream => ∀ r ∈ w.listener responses, ∀ e ∈ nextEvent w r,
    carries responses (.event e) = false → ∀ n ∈ w.published.drop r.next, Timely w n
  | _ => True

/-! ## The invariant -/

/-- What holds in every run. -/
structure Inv (v₀ : View) (w : World) : Prop where
  view : w.daemon.view = v₀.replay w.committed
  ok : w.daemon.Ok
  /-- Every change is pending or published, once. -/
  changes : (w.pending ++ w.published).Perm (List.range w.committed.length)
  /-- The channel carries the events of the published changes. -/
  channel : w.channel.map some = w.published.map (w.committed[·]?)
  order : w.replies.map Reply.piece = fetchOrder.take w.replies.length
  content : ∀ reply ∈ w.replies, reply.committed ≤ w.committed.length ∧
    Shows (v₀.replay (w.committed.take reply.committed)) reply.piece reply.response
  received : w.received ≤ w.replies.length
  within : ∀ task ∈ w.stream, task.rx.next ≤ w.channel.length
  /-- What the task has written are the events of the changes in `written`. -/
  frames : ∀ task ∈ w.stream,
    task.written.map (fun entry => some entry.1) = w.written.map (w.committed[·]?)
  /-- What was written, the task has passed. -/
  written : ∀ n ∈ w.written, ∃ task ∈ w.stream, ∃ p < task.rx.next, w.published[p]? = some n

variable {v₀ : View} {responses : Codec Response}

theorem Inv.lt_of_mem {w : World} (h : Inv v₀ w) {n : Nat}
    (hn : n ∈ w.pending ++ w.published) : n < w.committed.length :=
  List.mem_range.mp (h.changes.mem_iff.mp hn)

theorem Inv.lt_of_published {w : World} (h : Inv v₀ w) {n p : Nat}
    (hp : w.published[p]? = some n) : n < w.committed.length :=
  h.lt_of_mem (List.mem_append_right _ (List.mem_of_getElem? hp))

theorem Inv.nodup {w : World} (h : Inv v₀ w) : (w.pending ++ w.published).Nodup :=
  (h.changes.nodup_iff).mpr List.nodup_range

/-- Published changes are published at one position. -/
theorem Inv.position_unique {w : World} (h : Inv v₀ w) {n p q : Nat}
    (hp : w.published[p]? = some n) (hq : w.published[q]? = some n) : p = q := by
  obtain ⟨hplt, -⟩ := List.getElem?_eq_some_iff.mp hp
  exact (List.getElem?_inj hplt h.nodup.of_append_right).mp (hp.trans hq.symm)

theorem Inv.length_channel {w : World} (h : Inv v₀ w) : w.channel.length = w.published.length := by
  have hlen := congrArg List.length h.channel
  rwa [List.length_map, List.length_map] at hlen

theorem Inv.length_written {w : World} (h : Inv v₀ w) {task : EventTask}
    (ht : w.stream = some task) : task.written.length = w.written.length := by
  have hlen := congrArg List.length (h.frames task ht)
  rwa [List.length_map, List.length_map] at hlen

/-- A request for a piece is answered from the view. -/
theorem dispatch_shows {d : DaemonState} {env : Env} {piece : Piece} {h : Handled}
    (hd : dispatch d env piece.request = some h) : Shows d.view piece h.response := by
  cases piece with
  | top =>
    cases hd
    exact ⟨d.rules, env.now, rfl⟩
  | network =>
    cases hd
    trivial
  | _ =>
    cases hd
    rfl

theorem take_append_of_le {events more : List Event} {n : Nat} (h : n ≤ events.length) :
    (events ++ more).take n = events.take n := List.take_append_of_le_length h

theorem inv_start {rules : Inner} (h : rules.Reachable) :
    Inv (DaemonState.new rules).view (start rules) where
  view := rfl
  ok := DaemonState.ok_new h.inv
  changes := List.Perm.refl _
  channel := rfl
  order := rfl
  content _ hr := nomatch hr
  received := Nat.le_refl _
  within _ ht := nomatch ht
  frames _ ht := nomatch ht
  written _ hn := nomatch hn

/-! ### What a step does -/

theorem perform_cases {w w' : World} {t : Task} (hs : step responses w (.perform t) = some w') :
    ∃ daemon events, w.daemon.perform t = some (daemon, events) ∧
      w' = { w with
        daemon := daemon
        committed := w.committed ++ events
        pending := w.pending ++ List.range' w.committed.length events.length } := by
  simp only [step] at hs
  split at hs
  · cases hs
  · obtain ⟨⟨daemon, events⟩, hp, rfl⟩ := Option.map_eq_some_iff.mp hs
    exact ⟨daemon, events, hp, rfl⟩

theorem publish_cases {w w' : World} {i : Nat} (hs : step responses w (.publish i) = some w') :
    ∃ n e, w.pending[i]? = some n ∧ w.committed[n]? = some e ∧
      w' = { w with
        pending := w.pending.eraseIdx i
        published := w.published ++ [n]
        channel := w.channel ++ [e] } := by
  obtain ⟨n, hn, hs⟩ := Option.bind_eq_some_iff.mp hs
  obtain ⟨e, he, rfl⟩ := Option.map_eq_some_iff.mp hs
  exact ⟨n, e, hn, he, rfl⟩

theorem subscribe_cases {w w' : World} (hs : step responses w .subscribe = some w') :
    w.stream = none ∧ w' = { w with stream := some (.start w.channel) } := by
  simp only [step] at hs
  split at hs
  · rename_i hnone
    cases hs
    exact ⟨Option.isNone_iff_eq_none.mp hnone.2, rfl⟩
  · cases hs

theorem serve_cases {w w' : World} {env : Env} (hs : step responses w (.serve env) = some w') :
    ∃ piece handled, fetchOrder[w.replies.length]? = some piece ∧
      dispatch w.daemon env piece.request = some handled ∧
      w' = { w with
        replies := w.replies ++ [⟨piece, handled.response, writeFrame responses handled.response,
          w.committed.length⟩] } := by
  obtain ⟨piece, hpiece, hs⟩ := Option.bind_eq_some_iff.mp hs
  split at hs
  · obtain ⟨handled, hd, rfl⟩ := Option.map_eq_some_iff.mp hs
    exact ⟨piece, handled, hpiece, hd, rfl⟩
  · cases hs

theorem receive_cases {w w' : World} (hs : step responses w .receive = some w') :
    w.received < w.replies.length ∧ w' = { w with received := w.received + 1 } := by
  obtain ⟨reply, hreply, hs⟩ := Option.bind_eq_some_iff.mp hs
  obtain ⟨hlt, -⟩ := List.getElem?_eq_some_iff.mp hreply
  split at hs
  · split at hs
    · cases hs
      exact ⟨hlt, rfl⟩
    · cases hs
  · cases hs

theorem stream_cases {w w' : World} (hs : step responses w .stream = some w') :
    ∃ task task', w.stream = some task ∧ task.turn responses w.channel = some task' ∧
      w' = { w with
        stream := some task'
        written := w.written ++
          (w.published.drop task.rx.next).take (task'.written.length - task.written.length) } := by
  obtain ⟨task, htask, hs⟩ := Option.bind_eq_some_iff.mp hs
  obtain ⟨task', hturn, rfl⟩ := Option.map_eq_some_iff.mp hs
  exact ⟨task, task', htask, hturn, rfl⟩

/-- What a turn leaves: the event of the next change is written, or it ends the task, or
the task lags. -/
inductive Turned (responses : Codec Response) (w : World) (task task' : EventTask) :
    List Nat → Prop where
  | wrote {n : Nat} {e : Event} {frame : List UInt8} (hn : w.published[task.rx.next]? = some n)
      (he : w.committed[n]? = some e)
      (hrecv : task.rx.recv eventChannelCapacity w.channel = (.value e, task'.rx))
      (hframe : writeFrame responses (.event e) = .ok frame)
      (hwritten : task'.written = task.written ++ [(e, frame)]) (hended : task'.ended = none) :
      Turned responses w task task' (w.written ++ [n])
  | ended {e : Event} {error : IpcError}
      (hrecv : task.rx.recv eventChannelCapacity w.channel = (.value e, task'.rx))
      (hframe : writeFrame responses (.event e) = .error error)
      (hwritten : task'.written = task.written) (hended : task'.ended = some error) :
      Turned responses w task task' w.written
  | lagged {k : Nat} (hrecv : task.rx.recv eventChannelCapacity w.channel = (.lagged k, task'.rx))
      (hwritten : task'.written = task.written) (hended : task'.ended = none) :
      Turned responses w task task' w.written

theorem stream_turned {w w' : World} (h : Inv v₀ w) (hs : step responses w .stream = some w') :
    ∃ task task' written, w.stream = some task ∧ task.ended = none ∧
      Turned responses w task task' written ∧
      w' = { w with stream := some task', written := written } := by
  obtain ⟨task, task', htask, hturn, rfl⟩ := stream_cases hs
  obtain ⟨hgoing, hcases⟩ := EventTask.turn_cases hturn
  refine ⟨task, task', _, htask, hgoing, ?_, rfl⟩
  obtain ⟨e, frame, hrecv, hframe, hwritten, hended⟩ |
    ⟨e, error, hrecv, hframe, hwritten, hended⟩ | ⟨k, hrecv, hwritten, hended⟩ := hcases
  · -- the event on the channel is the one of the change published there
    obtain ⟨hat, -⟩ := Subscriber.recv_value hrecv
    obtain ⟨hlt, -⟩ := List.getElem?_eq_some_iff.mp hat
    rw [h.length_channel] at hlt
    have hn : w.published[task.rx.next]? = some w.published[task.rx.next] :=
      List.getElem?_eq_getElem hlt
    have he : w.committed[w.published[task.rx.next]]? = some e := by
      have hmap := congrArg (·[task.rx.next]?) h.channel
      simp only [List.getElem?_map, hat, hn, Option.map_some] at hmap
      exact (Option.some.inj hmap).symm
    have htake : (w.published.drop task.rx.next).take
        (task'.written.length - task.written.length) = [w.published[task.rx.next]] := by
      rw [hwritten, List.length_append, Nat.add_sub_cancel_left, List.drop_eq_getElem_cons hlt]
      rfl
    rw [htake]
    exact .wrote hn he hrecv hframe hwritten hended
  · rw [hwritten, Nat.sub_self, List.take_zero, List.append_nil]
    exact .ended hrecv hframe hwritten hended
  · rw [hwritten, Nat.sub_self, List.take_zero, List.append_nil]
    exact .lagged hrecv hwritten hended

/-- The steps that reach the channel or the subscription. -/
def Action.onChannel : Action → Bool
  | .publish _ | .subscribe | .stream => true
  | _ => false

/-- The other steps leave both alone. -/
theorem offChannel_frame {w w' : World} {a : Action} (ha : a.onChannel = false)
    (hs : step responses w a = some w') :
    w'.published = w.published ∧ w'.channel = w.channel ∧ w'.stream = w.stream ∧
      w'.written = w.written := by
  cases a with
  | publish i => cases ha
  | subscribe => cases ha
  | stream => cases ha
  | perform t =>
    obtain ⟨daemon, events, -, rfl⟩ := perform_cases hs
    exact ⟨rfl, rfl, rfl, rfl⟩
  | serve env =>
    obtain ⟨piece, handled, -, -, rfl⟩ := serve_cases hs
    exact ⟨rfl, rfl, rfl, rfl⟩
  | receive =>
    obtain ⟨-, rfl⟩ := receive_cases hs
    exact ⟨rfl, rfl, rfl, rfl⟩
  | _ =>
    simp only [step] at hs
    split at hs
    · cases hs
      exact ⟨rfl, rfl, rfl, rfl⟩
    · cases hs

/-! ### What a step preserves -/

/-- What is committed later does not change the events of earlier numbers. -/
theorem map_getElem?_append {numbers : List Nat} {events more : List Event}
    (h : ∀ n ∈ numbers, n < events.length) :
    numbers.map ((events ++ more)[·]?) = numbers.map (events[·]?) :=
  List.map_congr_left fun n hn => List.getElem?_append_left (h n hn)

theorem inv_perform {w w' : World} {t : Task} (h : Inv v₀ w)
    (hs : step responses w (.perform t) = some w') : Inv v₀ w' := by
  obtain ⟨d, events, hp, rfl⟩ := perform_cases hs
  obtain ⟨hview, hok⟩ := DaemonState.perform_view h.ok hp
  refine { h with view := ?_, ok := hok, changes := ?_, channel := ?_, content := ?_, frames := ?_ }
  · show d.view = v₀.replay (w.committed ++ events)
    rw [hview, h.view, View.replay_append]
  · -- the new changes take the next numbers
    have hrange : List.range (w.committed ++ events).length =
        List.range w.committed.length ++
          List.range' w.committed.length events.length := by
      rw [List.length_append, List.range_add, List.range'_eq_map_range]
    rw [hrange, List.append_assoc]
    refine (List.Perm.append_left _ List.perm_append_comm).trans ?_
    rw [← List.append_assoc]
    exact h.changes.append_right _
  · rw [h.channel]
    refine (map_getElem?_append fun n hn => ?_).symm
    exact h.lt_of_mem (List.mem_append_right _ hn)
  · -- earlier replies were read from a prefix of the changes, which is still one
    intro reply hreply
    obtain ⟨hle, hshows⟩ := h.content reply hreply
    constructor
    · rw [List.length_append]
      omega
    · rw [take_append_of_le hle]
      exact hshows
  · intro task htask
    rw [h.frames task htask]
    refine (map_getElem?_append fun n hn => ?_).symm
    obtain ⟨_, -, p, -, hpub⟩ := h.written n hn
    exact h.lt_of_published hpub

theorem inv_publish {w w' : World} {i : Nat} (h : Inv v₀ w)
    (hs : step responses w (.publish i) = some w') : Inv v₀ w' := by
  obtain ⟨n, e, hn, he, rfl⟩ := publish_cases hs
  obtain ⟨hi, hget⟩ := List.getElem?_eq_some_iff.mp hn
  refine { h with changes := ?_, channel := ?_, within := ?_, written := ?_ }
  · have hperm : (n :: w.pending.eraseIdx i).Perm w.pending := by
      rw [← hget]
      exact List.getElem_cons_eraseIdx_perm hi
    refine List.Perm.trans ?_ h.changes
    rw [← List.append_assoc]
    refine (List.perm_append_singleton _ _).trans ?_
    rw [← List.cons_append]
    exact hperm.append_right _
  · rw [List.map_append, List.map_append, h.channel, List.map_singleton, List.map_singleton, he]
  · intro task htask
    rw [List.length_append]
    exact Nat.le_trans (h.within task htask) (Nat.le_add_right _ _)
  · intro m hm
    obtain ⟨task, htask, p, hp, hpub⟩ := h.written m hm
    refine ⟨task, htask, p, hp, ?_⟩
    obtain ⟨hlt, -⟩ := List.getElem?_eq_some_iff.mp hpub
    rw [List.getElem?_append_left hlt]
    exact hpub

theorem Inv.written_nil {w : World} (h : Inv v₀ w) (hnone : w.stream = none) : w.written = [] := by
  refine List.eq_nil_iff_forall_not_mem.mpr fun n hn => ?_
  obtain ⟨task, htask, -⟩ := h.written n hn
  rw [hnone] at htask
  cases htask

theorem inv_subscribe {w w' : World} (h : Inv v₀ w) (hs : step responses w .subscribe = some w') :
    Inv v₀ w' := by
  obtain ⟨hnone, rfl⟩ := subscribe_cases hs
  -- nothing was written before there was a subscription
  have hnil := h.written_nil hnone
  refine { h with within := ?_, frames := ?_, written := ?_ }
  · intro task htask
    cases htask
    exact Nat.le_refl _
  · intro task htask
    cases htask
    rw [hnil]
    rfl
  · intro n hn
    rw [hnil] at hn
    cases hn

/-- What is written stays behind a task that moves on. -/
theorem Inv.written_behind {w : World} (h : Inv v₀ w) {task : EventTask} (ht : w.stream = some task)
    {next n : Nat} (hn : n ∈ w.written) (hle : task.rx.next ≤ next) :
    ∃ p < next, w.published[p]? = some n := by
  obtain ⟨task₀, htask₀, p, hp, hpub⟩ := h.written n hn
  cases ht.symm.trans htask₀
  exact ⟨p, Nat.lt_of_lt_of_le hp hle, hpub⟩

theorem inv_stream {w w' : World} (h : Inv v₀ w) (hs : step responses w .stream = some w') :
    Inv v₀ w' := by
  obtain ⟨task, task', written, htask, -, hturned, rfl⟩ := stream_turned h hs
  have hmove : task.rx.next ≤ task'.rx.next ∧ task'.rx.next ≤ w.channel.length := by
    cases hturned with
    | wrote hn he hrecv hframe hwritten hended =>
      exact ⟨Subscriber.next_le_of_recv hrecv, (Subscriber.recv_value hrecv).2.2.1⟩
    | ended hrecv hframe hwritten hended =>
      exact ⟨Subscriber.next_le_of_recv hrecv, (Subscriber.recv_value hrecv).2.2.1⟩
    | lagged hrecv hwritten hended =>
      exact ⟨Subscriber.next_le_of_recv hrecv, (Subscriber.recv_lagged hrecv).1⟩
  refine { h with within := ?_, frames := ?_, written := ?_ }
  · intro t ht
    cases ht
    exact hmove.2
  · intro t ht
    cases ht
    cases hturned with
    | wrote hn he hrecv hframe hwritten hended =>
      rw [hwritten, List.map_append, List.map_append, h.frames task htask, List.map_singleton,
        List.map_singleton, he]
    | ended hrecv hframe hwritten hended =>
      rw [hwritten]
      exact h.frames task htask
    | lagged hrecv hwritten hended =>
      rw [hwritten]
      exact h.frames task htask
  · intro m hm
    refine ⟨task', rfl, ?_⟩
    have hold : m ∈ w.written → ∃ p < task'.rx.next, w.published[p]? = some m :=
      fun hm => h.written_behind htask hm hmove.1
    cases hturned with
    | wrote hn he hrecv hframe hwritten hended =>
      rcases List.mem_append.mp hm with hm | hm
      · exact hold hm
      · rw [List.mem_singleton.mp hm]
        exact ⟨task.rx.next, by rw [(Subscriber.recv_value_next hrecv).1]; omega, hn⟩
    | ended hrecv hframe hwritten hended => exact hold hm
    | lagged hrecv hwritten hended => exact hold hm

theorem inv_serve {w w' : World} {env : Env} (h : Inv v₀ w)
    (hs : step responses w (.serve env) = some w') : Inv v₀ w' := by
  obtain ⟨piece, handled, hpiece, hd, rfl⟩ := serve_cases hs
  refine { h with order := ?_, content := ?_, received := ?_ }
  · rw [List.map_append, h.order, List.length_append, List.length_singleton,
      List.take_add_one, hpiece]
    rfl
  · intro reply hreply
    rcases List.mem_append.mp hreply with hreply | hreply
    · exact h.content reply hreply
    · -- the new reply was read from all the changes
      rw [List.mem_singleton.mp hreply]
      refine ⟨Nat.le_refl _, ?_⟩
      rw [List.take_length, ← h.view]
      exact dispatch_shows hd
  · rw [List.length_append]
    exact Nat.le_trans h.received (Nat.le_add_right _ _)

/-- **Step lemma.** -/
theorem inv_step {w w' : World} {a : Action} (h : Inv v₀ w) (hs : step responses w a = some w') :
    Inv v₀ w' := by
  cases a with
  | perform t => exact inv_perform h hs
  | publish i => exact inv_publish h hs
  | subscribe => exact inv_subscribe h hs
  | stream => exact inv_stream h hs
  | serve env => exact inv_serve h hs
  | writeSubscribe =>
    simp only [step] at hs
    split at hs
    · cases hs
      exact { h with }
    · cases hs
  | ask =>
    simp only [step] at hs
    split at hs
    · cases hs
      exact { h with }
    · cases hs
  | receive =>
    obtain ⟨hlt, rfl⟩ := receive_cases hs
    exact { h with received := hlt }

/-! ### What the client hears -/

theorem delivered_eq {w : World} {task : EventTask} (ht : w.stream = some task) :
    w.delivered responses = w.written.take (readable responses task.written).length := by
  rw [World.delivered, ht]

theorem listener_intact {w : World} {task : EventTask} (ht : w.stream = some task)
    (h : Intact responses task) : w.listener responses = some task.rx := by
  rw [World.listener, ht]
  exact if_pos h

theorem listener_broken {w : World} {task : EventTask} (ht : w.stream = some task)
    (h : ¬Intact responses task) : w.listener responses = none := by
  rw [World.listener, ht]
  exact if_neg h

theorem listener_none {w : World} (hnone : w.stream = none) : w.listener responses = none := by
  rw [World.listener, hnone]

/-- Who listens is the receiver of the task. -/
theorem listener_task {w : World} {r : Subscriber} (hr : w.listener responses = some r) :
    ∃ task, w.stream = some task ∧ Intact responses task ∧ task.rx = r := by
  cases ht : w.stream with
  | none =>
    rw [listener_none ht] at hr
    cases hr
  | some task =>
    by_cases h : Intact responses task
    · rw [listener_intact ht h] at hr
      exact ⟨task, rfl, h, Option.some.inj hr⟩
    · rw [listener_broken ht h] at hr
      cases hr

theorem delivered_subset {w : World} {n : Nat} (hn : n ∈ w.delivered responses) :
    n ∈ w.written := by
  cases ht : w.stream with
  | none =>
    rw [World.delivered, ht] at hn
    exact absurd hn List.not_mem_nil
  | some task =>
    rw [delivered_eq ht] at hn
    exact List.mem_of_mem_take hn

theorem length_readable_le (responses : Codec Response) (written : List (Event × List UInt8)) :
    (readable responses written).length ≤ written.length :=
  (List.takeWhile_prefix _).length_le

theorem readable_concat (written : List (Event × List UInt8)) (e : Event) (frame : List UInt8) :
    readable responses (written ++ [(e, frame)]) =
      if readable responses written = written ∧ accepts responses frame (.event e) = true then
        written ++ [(e, frame)]
      else readable responses written := by
  by_cases hall : readable responses written = written
  · unfold readable at hall ⊢
    rw [List.takeWhile_append, hall, if_pos rfl]
    cases hframe : accepts responses frame (.event e) <;> simp [hframe]
  · rw [if_neg fun h => hall h.1]
    unfold readable at hall ⊢
    rw [List.takeWhile_append, if_neg fun h => ?_]
    exact hall ((List.takeWhile_prefix _).eq_of_length h)

/-- A step of the subscription, as the client sees it. -/
inductive Heard (responses : Codec Response) (w w' : World) : Prop where
  | delivered {r r' : Subscriber} {e : Event} {n : Nat} (hr : w.listener responses = some r)
      (hr' : w'.listener responses = some r')
      (hrecv : r.recv eventChannelCapacity w.channel = (.value e, r'))
      (hcarries : carries responses (.event e) = true) (hn : w.published[r.next]? = some n)
      (hdel : w'.delivered responses = w.delivered responses ++ [n])
  | lagged {r r' : Subscriber} {k : Nat} (hr : w.listener responses = some r)
      (hr' : w'.listener responses = some r')
      (hrecv : r.recv eventChannelCapacity w.channel = (.lagged k, r'))
      (hdel : w'.delivered responses = w.delivered responses)
  | broke {r : Subscriber} {e : Event} (hr : w.listener responses = some r)
      (hr' : w'.listener responses = none) (he : nextEvent w r = some e)
      (hcarries : carries responses (.event e) = false)
      (hdel : w'.delivered responses = w.delivered responses)
  | silent (hr : w.listener responses = none) (hr' : w'.listener responses = none)
      (hdel : w'.delivered responses = w.delivered responses)

theorem nextEvent_of_recv {w : World} {r r' : Subscriber} {e : Event}
    (hrecv : r.recv eventChannelCapacity w.channel = (.value e, r')) : nextEvent w r = some e := by
  rw [nextEvent, if_pos (Subscriber.recv_value_next hrecv).2]
  exact (Subscriber.recv_value hrecv).1

/-- A task that has written no more has delivered no more. -/
theorem delivered_of_written_eq (responses : Codec Response) {w : World}
    {task task' : EventTask} (ht : w.stream = some task) (hwritten : task'.written = task.written) :
    World.delivered responses { w with stream := some task' } = w.delivered responses := by
  rw [delivered_eq ht, delivered_eq rfl, hwritten]

/-- A stream with a frame that the client does not read has broken off. -/
theorem not_intact_of_length {task : EventTask}
    (h : (readable responses task.written).length < task.written.length) :
    ¬Intact responses task :=
  fun hintact => Nat.ne_of_lt h (congrArg List.length hintact.2)

/-- **A frame more**: it is delivered if the stream had not broken off and the client reads
it. -/
theorem heard_wrote {w : World} {task task' : EventTask} {n : Nat} {e : Event}
    {frame : List UInt8} (h : Inv v₀ w) (ht : w.stream = some task) (hgoing : task.ended = none)
    (hn : w.published[task.rx.next]? = some n)
    (hrecv : task.rx.recv eventChannelCapacity w.channel = (.value e, task'.rx))
    (hframe : writeFrame responses (.event e) = .ok frame)
    (hwritten : task'.written = task.written ++ [(e, frame)]) (hended : task'.ended = none) :
    Heard responses w { w with stream := some task', written := w.written ++ [n] } := by
  have hlength := h.length_written ht
  have hmore : task'.written.length = task.written.length + 1 := by
    rw [hwritten, List.length_append, List.length_singleton]
  by_cases hall : readable responses task.written = task.written
  · have hlistener := listener_intact ht ⟨hgoing, hall⟩
    by_cases haccepts : accepts responses frame (.event e) = true
    · -- the client reads this frame too
      have hall' : readable responses task'.written = task'.written := by
        rw [hwritten, readable_concat, if_pos ⟨hall, haccepts⟩]
      refine .delivered hlistener (listener_intact rfl ⟨hended, hall'⟩) hrecv ?_ hn ?_
      · rw [carries, hframe]
        exact haccepts
      · rw [delivered_eq rfl, delivered_eq ht, hall', hall, hwritten, List.length_append, hlength,
          List.take_length]
        exact List.take_of_length_le (Nat.le_of_eq List.length_append)
    · have hshort : readable responses task'.written = task.written := by
        rw [hwritten, readable_concat, if_neg fun h => haccepts h.2, hall]
      have hbroken : ¬Intact responses task' := not_intact_of_length (by rw [hshort]; omega)
      refine .broke hlistener (listener_broken rfl hbroken) (nextEvent_of_recv hrecv) ?_ ?_
      · rw [carries, hframe]
        exact Bool.not_eq_true _ ▸ haccepts
      · rw [delivered_eq rfl, delivered_eq ht, hshort, hall]
        exact List.take_append_of_le_length (Nat.le_of_eq hlength)
  · -- the client has stopped reading
    have hshort : readable responses task'.written = readable responses task.written := by
      rw [hwritten, readable_concat, if_neg fun h => hall h.1]
    have hle := length_readable_le responses task.written
    have hbroken : ¬Intact responses task' := not_intact_of_length (by rw [hshort]; omega)
    refine .silent (listener_broken ht fun hi => hall hi.2) (listener_broken rfl hbroken) ?_
    rw [delivered_eq rfl, delivered_eq ht, hshort]
    exact List.take_append_of_le_length (by omega)

theorem heard {w w' : World} (h : Inv v₀ w) (hs : step responses w .stream = some w') :
    Heard responses w w' := by
  obtain ⟨task, task', written, ht, hgoing, hturned, rfl⟩ := stream_turned h hs
  cases hturned with
  | wrote hn he hrecv hframe hwritten hended =>
    exact heard_wrote h ht hgoing hn hrecv hframe hwritten hended
  | ended hrecv hframe hwritten hended =>
    have hbroken : World.listener responses { w with stream := some task' } = none := by
      refine listener_broken rfl fun hi => ?_
      have hgoes := hi.1
      rw [hended] at hgoes
      cases hgoes
    have hdel := delivered_of_written_eq responses ht hwritten
    by_cases hi : Intact responses task
    · refine .broke (listener_intact ht hi) hbroken (nextEvent_of_recv hrecv) ?_ hdel
      rw [carries, hframe]
    · exact .silent (listener_broken ht hi) hbroken hdel
  | lagged hrecv hwritten hended =>
    have hdel := delivered_of_written_eq responses ht hwritten
    have hintact : Intact responses task' ↔ Intact responses task := by
      rw [Intact, Intact, hwritten, hended, hgoing]
    by_cases hi : Intact responses task
    · exact .lagged (listener_intact ht hi) (listener_intact rfl (hintact.mpr hi)) hrecv hdel
    · exact .silent (listener_broken ht hi) (listener_broken rfl (mt hintact.mp hi)) hdel

/-- A stream that has not broken off breaks off on an event that is not carried. -/
theorem Heard.broken {w w' : World} {r : Subscriber} {e : Event} (h : Heard responses w w')
    (hr : w.listener responses = some r) (he : nextEvent w r = some e)
    (hcarries : carries responses (.event e) = false) :
    w'.listener responses = none ∧ w'.delivered responses = w.delivered responses := by
  cases h with
  | delivered hr₀ hr' hrecv hcarried hn hdel =>
    cases hr.symm.trans hr₀
    cases he.symm.trans (nextEvent_of_recv hrecv)
    cases hcarries.symm.trans hcarried
  | lagged hr₀ hr' hrecv hdel =>
    -- nothing is kept for a receiver that lags
    cases hr.symm.trans hr₀
    rw [nextEvent, if_neg (Nat.not_le.mpr (Subscriber.recv_lagged_next hrecv).2)] at he
    cases he
  | broke hr₀ hr' hnext hcarries' hdel => exact ⟨hr', hdel⟩
  | silent hr₀ hr' hdel => cases hr.symm.trans hr₀

/-- A new subscription has delivered nothing, as none before it. -/
theorem delivered_subscribe {w : World} (hi : Inv v₀ w) (hnone : w.stream = none) :
    World.delivered responses { w with stream := some (.start w.channel) } =
      w.delivered responses := by
  rw [delivered_eq rfl, World.delivered, hnone, hi.written_nil hnone]
  exact List.take_nil

/-- What the client hears is told by the task and what it has written. -/
theorem client_frame (responses : Codec Response) {w w' : World} (hstream : w'.stream = w.stream)
    (hwritten : w'.written = w.written) :
    w'.delivered responses = w.delivered responses ∧
      w'.listener responses = w.listener responses := by
  unfold World.delivered World.listener
  rw [hstream, hwritten]
  exact ⟨rfl, rfl⟩

/-! ## What a step leaves of earlier changes -/

/-- A step adds changes, replies and publications, and takes none back. -/
structure Extends (w w' : World) : Prop where
  committed : w.committed <+: w'.committed
  published : w.published <+: w'.published
  replies : ∀ reply ∈ w'.replies, reply ∈ w.replies ∨ reply.committed = w.committed.length
  kept : ∀ reply ∈ w.replies, reply ∈ w'.replies

theorem Extends.of_eq {w w' : World} (hc : w'.committed = w.committed)
    (hp : w'.published = w.published) (hr : w'.replies = w.replies) : Extends w w' where
  committed := hc ▸ List.prefix_refl _
  published := hp ▸ List.prefix_refl _
  replies _ h := .inl (hr ▸ h)
  kept _ h := hr ▸ h

theorem extends_step {w w' : World} {a : Action} (hs : step responses w a = some w') :
    Extends w w' := by
  cases a with
  | perform t =>
    obtain ⟨daemon, events, -, rfl⟩ := perform_cases hs
    exact ⟨List.prefix_append _ _, List.prefix_refl _, fun _ h => .inl h, fun _ h => h⟩
  | publish i =>
    obtain ⟨n, e, -, -, rfl⟩ := publish_cases hs
    exact ⟨List.prefix_refl _, List.prefix_append _ _, fun _ h => .inl h, fun _ h => h⟩
  | stream =>
    obtain ⟨task, task', -, -, rfl⟩ := stream_cases hs
    exact .of_eq rfl rfl rfl
  | serve env =>
    obtain ⟨piece, handled, -, -, rfl⟩ := serve_cases hs
    refine ⟨List.prefix_refl _, List.prefix_refl _, fun reply h => ?_, fun reply h => ?_⟩
    · rcases List.mem_append.mp h with h | h
      · exact .inl h
      · exact .inr (by rw [List.mem_singleton.mp h])
    · exact List.mem_append_left _ h
  | receive =>
    obtain ⟨-, rfl⟩ := receive_cases hs
    exact .of_eq rfl rfl rfl
  | _ =>
    simp only [step] at hs
    split at hs
    · cases hs
      exact .of_eq rfl rfl rfl
    · cases hs

theorem Extends.getElem? {w w' : World} (h : Extends w w') {n : Nat}
    (hn : n < w.committed.length) : w'.committed[n]? = w.committed[n]? := by
  obtain ⟨more, hmore⟩ := h.committed
  rw [← hmore, List.getElem?_append_left hn]

/-- A change stays timely: pieces read later are read after it. -/
theorem Timely.extends {w w' : World} {n : Nat} (h : Timely w n) (he : Extends w w')
    (hn : n < w.committed.length) : Timely w' n := by
  intro e hget reply hreply hshows
  rw [he.getElem? hn] at hget
  rcases he.replies reply hreply with hold | hnew
  · exact h e hget reply hold hshows
  · rw [hnew]
    exact hn

/-- A change that is not stays so. -/
theorem Timely.of_extends {w w' : World} {n : Nat} (h : Timely w' n) (he : Extends w w')
    (hn : n < w.committed.length) : Timely w n := by
  intro e hget reply hreply hshows
  rw [← he.getElem? hn] at hget
  exact h e hget reply (he.kept reply hreply) hshows

/-- A change keeps the position it is published at. -/
theorem Extends.position {w w' : World} (he : Extends w w') {n p : Nat}
    (hp : w.published[p]? = some n) : w'.published[p]? = some n := by
  obtain ⟨more, hmore⟩ := he.published
  obtain ⟨hlt, -⟩ := List.getElem?_eq_some_iff.mp hp
  rw [← hmore, List.getElem?_append_left hlt]
  exact hp

/-! ## Harmless runs lose nothing -/

/-- Every published change is timely, delivered, or still to be received. -/
def Accounted (responses : Codec Response) (w : World) : Prop :=
  ∀ p n, w.published[p]? = some n → Timely w n ∨ n ∈ w.delivered responses ∨
    ∃ r ∈ w.listener responses, ¬r.Gone eventChannelCapacity w.channel p

/-- A step that changes neither publications nor what was delivered or is to be
received. -/
theorem Accounted.idle {w w' : World} (hi : Inv v₀ w) (h : Accounted responses w)
    (he : Extends w w') (hp : w'.published = w.published) (hc : w'.channel = w.channel)
    (hd : w'.delivered responses = w.delivered responses)
    (hl : ∀ r ∈ w.listener responses, r ∈ w'.listener responses) : Accounted responses w' := by
  intro p n hget
  rw [hp] at hget
  rcases h p n hget with ht | hdel | ⟨r, hr, hgone⟩
  · exact .inl (ht.extends he (hi.lt_of_published hget))
  · exact .inr (.inl (hd ▸ hdel))
  · refine .inr (.inr ⟨r, hl r hr, ?_⟩)
    rw [hc]
    exact hgone

theorem overwritten_eq_some_iff {w : World} {r : Subscriber} {n : Nat} :
    overwritten w r = some n ↔ ∃ p, r.next ≤ p ∧ p + eventChannelCapacity = w.published.length ∧
      w.published[p]? = some n := by
  unfold overwritten
  split
  · constructor
    · exact fun h => ⟨_, by omega, by omega, h⟩
    · rintro ⟨p, hnext, hp, h⟩
      rw [← hp, Nat.add_sub_cancel]
      exact h
  · constructor
    · intro h
      cases h
    · rintro ⟨p, hnext, hp, -⟩
      omega

/-- A change published before stays accounted for: if the publication overwrites it,
it was harmless to. -/
theorem accounted_publish_old {w w' : World} {i p m : Nat} (hi : Inv v₀ w)
    (h : Accounted responses w) (hok : Harmless responses w (.publish i))
    (hs : step responses w (.publish i) = some w') (hold : w.published[p]? = some m) :
    Timely w' m ∨ m ∈ w'.delivered responses ∨
      ∃ r ∈ w'.listener responses, ¬r.Gone eventChannelCapacity w'.channel p := by
  have he := extends_step hs
  obtain ⟨n, e, hn, -, rfl⟩ := publish_cases hs
  have hm := hi.lt_of_published hold
  rcases h p m hold with ht | hdel | ⟨r, hr, hgone⟩
  · exact .inl (ht.extends he hm)
  · exact .inr (.inl hdel)
  · by_cases hover : p + eventChannelCapacity = w.channel.length
    · -- the value at `p` is the one that the publication overwrites
      simp only [Harmless] at hok
      rw [(hr : w.listener responses = some r)] at hok
      have hnext : r.next ≤ p := Nat.le_of_not_lt fun hlt => hgone (.inl hlt)
      have hmem : m ∈ overwritten w r :=
        overwritten_eq_some_iff.mpr ⟨p, hnext, hover.trans hi.length_channel, hold⟩
      exact .inl (Timely.extends (hok n hn m hmem) he hm)
    · refine .inr (.inr ⟨r, hr, ?_⟩)
      rw [Subscriber.gone_concat, not_or]
      exact ⟨hgone, hover⟩

/-- A published change is an earlier one, or the last. -/
theorem published_cases {published : List Nat} {n p m : Nat}
    (h : (published ++ [n])[p]? = some m) :
    published[p]? = some m ∨ p = published.length ∧ m = n := by
  rcases Nat.lt_or_ge p published.length with hlt | hge
  · rw [List.getElem?_append_left hlt] at h
    exact .inl h
  · obtain ⟨hlt, hget⟩ := List.getElem?_eq_some_iff.mp h
    rw [List.length_append, List.length_singleton] at hlt
    have hp : p = published.length := by omega
    subst hp
    rw [List.getElem_concat_length rfl] at hget
    exact .inr ⟨rfl, hget.symm⟩

/-- Who listens has received at most what was sent. -/
theorem Inv.listener_within {w : World} (h : Inv v₀ w) {r : Subscriber}
    (hr : w.listener responses = some r) : r.next ≤ w.channel.length := by
  obtain ⟨task, ht, -, rfl⟩ := listener_task hr
  exact h.within task ht

theorem accounted_publish {w w' : World} {i : Nat} (hi : Inv v₀ w) (h : Accounted responses w)
    (hok : Harmless responses w (.publish i)) (hs : step responses w (.publish i) = some w') :
    Accounted responses w' := by
  intro p m hget
  obtain ⟨n, e, hn, -, rfl⟩ := publish_cases hs
  rcases published_cases hget with hold | ⟨rfl, rfl⟩
  · exact accounted_publish_old hi h hok hs hold
  · -- the new publication
    rcases Option.eq_none_or_eq_some (w.listener responses) with hnone | ⟨r, hr⟩
    · have hm := (inv_publish hi hs).lt_of_published hget
      simp only [Harmless] at hok
      rw [hnone] at hok
      exact .inl (Timely.extends (hok _ hn) (extends_step hs) hm)
    · refine .inr (.inr ⟨r, hr, ?_⟩)
      have hwithin := hi.listener_within hr
      have hlength := hi.length_channel
      have hcap : 0 < eventChannelCapacity := by decide
      rintro (hlt | hlt)
      · omega
      · rw [List.length_append, List.length_singleton] at hlt
        omega

theorem accounted_stream {w w' : World} (hi : Inv v₀ w) (h : Accounted responses w)
    (hok : Harmless responses w .stream) (hs : step responses w .stream = some w') :
    Accounted responses w' := by
  have he := extends_step hs
  have hheard := heard hi hs
  obtain ⟨task, task', -, -, rfl⟩ := stream_cases hs
  intro p m hget
  rcases h p m hget with ht | hdel | ⟨r₀, hr₀, hnot⟩
  · exact .inl (ht.extends he (hi.lt_of_published hget))
  · refine .inr (.inl ?_)
    cases hheard with
    | delivered hr hr' hrecv hcarries hn hdel' =>
      rw [hdel']
      exact List.mem_append_left _ hdel
    | lagged hr hr' hrecv hdel' => exact hdel' ▸ hdel
    | broke hr hr' hnext hcarries hdel' => exact hdel' ▸ hdel
    | silent hr hr' hdel' => exact hdel' ▸ hdel
  · cases hheard with
    | delivered hr hr' hrecv hcarries hn hdel' =>
      cases hr₀.symm.trans hr
      obtain ⟨-, -, -, hgone⟩ := Subscriber.recv_value hrecv
      -- the message is the one handed out now, or it stays ahead of the cursor
      by_cases hp : p = r₀.next
      · rw [hp] at hget
        rw [← Option.some.inj (hn.symm.trans hget), hdel']
        exact .inr (.inl (List.mem_append_right _ (List.mem_singleton.mpr rfl)))
      · exact .inr (.inr ⟨_, hr', fun hg => ((hgone p).mp hg).elim hnot hp⟩)
    | lagged hr hr' hrecv hdel' =>
      -- a lag only skips what the channel has already overwritten
      cases hr₀.symm.trans hr
      obtain ⟨-, hgone⟩ := Subscriber.recv_lagged hrecv
      exact .inr (.inr ⟨_, hr', fun hg => hnot ((hgone p).mp hg)⟩)
    | broke hr hr' hnext hcarries hdel' =>
      -- all that was still to come is timely
      cases hr₀.symm.trans hr
      have hmem : m ∈ w.published.drop r₀.next := by
        have hle : r₀.next ≤ p := Nat.le_of_not_lt fun hlt => hnot (.inl hlt)
        refine List.mem_of_getElem? (i := p - r₀.next) ?_
        rw [List.getElem?_drop, Nat.add_sub_cancel' hle]
        exact hget
      exact .inl ((hok r₀ hr₀ _ hnext hcarries m hmem).extends he (hi.lt_of_published hget))
    | silent hr hr' hdel' => cases hr₀.symm.trans hr

/-- **Step lemma** of harmless runs. -/
theorem accounted_step {w w' : World} {a : Action} (hi : Inv v₀ w) (h : Accounted responses w)
    (hok : Harmless responses w a) (hs : step responses w a = some w') :
    Accounted responses w' := by
  have he := extends_step hs
  cases a with
  | publish i => exact accounted_publish hi h hok hs
  | stream => exact accounted_stream hi h hok hs
  | subscribe =>
    obtain ⟨hnone, rfl⟩ := subscribe_cases hs
    refine h.idle hi he rfl rfl (delivered_subscribe hi hnone) fun r hr => ?_
    rw [listener_none hnone] at hr
    cases hr
  | _ =>
    obtain ⟨hp, hc, hstream, hwritten⟩ := offChannel_frame rfl hs
    obtain ⟨hd, hl⟩ := client_frame responses hstream hwritten
    exact h.idle hi he hp hc hd fun r hr => hl ▸ hr

/-! ## Anything else loses a change -/

/-- The change is not timely, and its event can be delivered no more. -/
def Lost (responses : Codec Response) (w : World) (n : Nat) : Prop :=
  ¬Timely w n ∧ n ∉ w.delivered responses ∧ ∃ p, w.published[p]? = some n ∧
    ∀ r ∈ w.listener responses, r.Gone eventChannelCapacity w.channel p

/-- A step that delivers nothing and does not move the subscriber. -/
theorem Lost.idle {w w' : World} {n : Nat} (hi : Inv v₀ w) (h : Lost responses w n)
    (he : Extends w w') (hc : w.channel <+: w'.channel)
    (hd : w'.delivered responses = w.delivered responses)
    (hl : w'.listener responses = w.listener responses) : Lost responses w' n := by
  obtain ⟨hnot, hdel, p, hp, hgone⟩ := h
  refine ⟨fun ht => hnot (ht.of_extends he (hi.lt_of_published hp)), hd ▸ hdel, p, he.position hp,
    fun r hr => ?_⟩
  obtain ⟨more, hmore⟩ := hc
  rw [← hmore]
  exact (hgone r (hl ▸ hr)).append more

/-- Receiving does not bring a lost change back. -/
theorem lost_stream {w w' : World} {n : Nat} (hi : Inv v₀ w) (h : Lost responses w n)
    (hs : step responses w .stream = some w') : Lost responses w' n := by
  have he := extends_step hs
  have hheard := heard hi hs
  obtain ⟨task, task', -, -, rfl⟩ := stream_cases hs
  obtain ⟨hnot, hdel, p, hp, hgone⟩ := h
  refine ⟨fun ht => hnot (ht.of_extends he (hi.lt_of_published hp)), ?_, p, hp, fun r' hr₀ => ?_⟩
  · cases hheard with
    | delivered hr hr' hrecv hcarries hn hdel' =>
      -- what is received is not the lost change: that one is gone
      obtain ⟨-, hahead, -⟩ := Subscriber.recv_value hrecv
      rw [hdel', List.mem_append, List.mem_singleton, not_or]
      refine ⟨hdel, fun heq => hahead ?_⟩
      rw [← heq] at hn
      rw [hi.position_unique hn hp]
      exact hgone _ hr
    | lagged hr hr' hrecv hdel' => exact hdel' ▸ hdel
    | broke hr hr' hnext hcarries hdel' => exact hdel' ▸ hdel
    | silent hr hr' hdel' => exact hdel' ▸ hdel
  · cases hheard with
    | delivered hr hr' hrecv hcarries hn hdel' =>
      cases hr₀.symm.trans hr'
      exact ((Subscriber.recv_value hrecv).2.2.2 p).mpr (.inl (hgone _ hr))
    | lagged hr hr' hrecv hdel' =>
      cases hr₀.symm.trans hr'
      exact ((Subscriber.recv_lagged hrecv).2 p).mpr (hgone _ hr)
    | broke hr hr' hnext hcarries hdel' => cases hr₀.symm.trans hr'
    | silent hr hr' hdel' => cases hr₀.symm.trans hr'

/-- **Step lemma** of lost changes. -/
theorem lost_step {w w' : World} {a : Action} {n : Nat} (hi : Inv v₀ w) (h : Lost responses w n)
    (hs : step responses w a = some w') : Lost responses w' n := by
  have he := extends_step hs
  cases a with
  | stream => exact lost_stream hi h hs
  | publish i =>
    obtain ⟨m, e, -, -, rfl⟩ := publish_cases hs
    exact h.idle hi he (List.prefix_append _ _) rfl rfl
  | subscribe =>
    obtain ⟨hnot, hdel, p, hp, -⟩ := h
    obtain ⟨hnone, rfl⟩ := subscribe_cases hs
    refine ⟨fun ht => hnot (ht.of_extends he (hi.lt_of_published hp)),
      delivered_subscribe hi hnone ▸ hdel, p, hp, fun r hr => ?_⟩
    -- what was published before the subscription is behind it
    obtain ⟨task, htask, -, rfl⟩ := listener_task hr
    cases htask
    obtain ⟨hlt, -⟩ := List.getElem?_eq_some_iff.mp hp
    exact Subscriber.gone_join (hi.length_channel ▸ hlt)
  | _ =>
    obtain ⟨-, hc, hstream, hwritten⟩ := offChannel_frame rfl hs
    obtain ⟨hd, hl⟩ := client_frame responses hstream hwritten
    exact h.idle hi he (hc ▸ List.prefix_refl _) hd hl

/-- What is delivered, a subscriber that listens has passed. -/
theorem Inv.delivered_behind {w : World} (h : Inv v₀ w) {r : Subscriber} {n p : Nat}
    (hr : w.listener responses = some r) (hp : w.published[p]? = some n) (hle : r.next ≤ p) :
    n ∉ w.delivered responses := by
  intro hmem
  obtain ⟨task, htask, -, rfl⟩ := listener_task hr
  obtain ⟨q, hq, hpub⟩ := h.written_behind htask (delivered_subset hmem) (Nat.le_refl _)
  have hpos := h.position_unique hpub hp
  omega

/-- A publication that is not harmless loses a change. -/
theorem lost_publish {w w' : World} {i : Nat} (hi : Inv v₀ w)
    (hok : ¬Harmless responses w (.publish i)) (hs : step responses w (.publish i) = some w') :
    ∃ n, Lost responses w' n := by
  have he := extends_step hs
  obtain ⟨m, e, hm, -, rfl⟩ := publish_cases hs
  simp only [Harmless, not_forall] at hok
  obtain ⟨n, hn, hok⟩ := hok
  have hmn : m = n := Option.some.inj (hm.symm.trans hn)
  subst hmn
  rcases Option.eq_none_or_eq_some (w.listener responses) with hnone | ⟨r, hr⟩
  · -- nobody listens
    rw [hnone] at hok
    have hpending : m ∈ w.pending := List.mem_of_getElem? hm
    have hlt := hi.lt_of_mem (List.mem_append_left _ hpending)
    refine ⟨m, fun ht => hok (ht.of_extends he hlt), fun hmem => ?_, w.published.length,
      List.getElem?_concat_length, fun r hr => ?_⟩
    · obtain ⟨_, -, p, -, hpub⟩ := hi.written m (delivered_subset hmem)
      exact (List.nodup_append.mp hi.nodup).2.2 m hpending m (List.mem_of_getElem? hpub) rfl
    · cases hnone.symm.trans hr
  · -- overwritten before it was received
    rw [hr] at hok
    simp only [not_forall] at hok
    obtain ⟨n, hn, hnot⟩ := hok
    obtain ⟨p, hnext, hover, hpub⟩ := overwritten_eq_some_iff.mp hn
    refine ⟨n, fun ht => hnot (ht.of_extends he (hi.lt_of_published hpub)),
      hi.delivered_behind hr hpub hnext, p, he.position hpub, fun r' hr' => ?_⟩
    cases hr.symm.trans hr'
    exact Subscriber.gone_concat.mpr (.inr (hover.trans hi.length_channel.symm))

/-- A stream that breaks off harmfully loses a change. -/
theorem lost_broken {w w' : World} (hi : Inv v₀ w) (hok : ¬Harmless responses w .stream)
    (hs : step responses w .stream = some w') : ∃ n, Lost responses w' n := by
  have he := extends_step hs
  have hheard := heard hi hs
  obtain ⟨task, task', -, -, rfl⟩ := stream_cases hs
  simp only [Harmless, not_forall] at hok
  obtain ⟨r, hr, e, hnext, hcarries, n, hn, hnot⟩ := hok
  obtain ⟨k, hk⟩ := List.mem_iff_getElem?.mp hn
  rw [List.getElem?_drop] at hk
  obtain ⟨hr', hdel⟩ := hheard.broken hr hnext hcarries
  refine ⟨n, fun ht => hnot (ht.of_extends he (hi.lt_of_published hk)), ?_, r.next + k, hk,
    fun r₁ hr₁ => ?_⟩
  · rw [hdel]
    exact hi.delivered_behind hr hk (Nat.le_add_right _ _)
  · cases hr'.symm.trans hr₁

/-- A step that is not harmless loses a change. -/
theorem lost_of_not_harmless {w w' : World} {a : Action} (hi : Inv v₀ w)
    (hok : ¬Harmless responses w a) (hs : step responses w a = some w') :
    ∃ n, Lost responses w' n := by
  cases a with
  | publish i => exact lost_publish hi hok hs
  | stream => exact lost_broken hi hok hs
  | _ => exact absurd trivial hok

/-! ## The end of the start -/

theorem Started.pieces {w : World} (hi : Inv v₀ w) (h : Started w) :
    w.replies.map Reply.piece = fetchOrder := by
  have hlen : w.replies.length ≤ fetchOrder.length := by
    have heq := congrArg List.length hi.order
    rw [List.length_map, List.length_take] at heq
    omega
  have hge := hi.received
  rw [h.fetched] at hge
  rw [hi.order, List.take_of_length_le hge]

theorem mem_fetchOrder (piece : Piece) : piece ∈ fetchOrder := by
  cases piece <;> decide

/-- With all pieces read, a timely change is reflected. -/
theorem Timely.reflected {w : World} {n : Nat} (hi : Inv v₀ w) (hstarted : Started w)
    (h : Timely w n) : Reflected v₀ w n := by
  intro e he piece hshows
  have hmem : piece ∈ w.replies.map Reply.piece := by
    rw [hstarted.pieces hi]
    exact mem_fetchOrder piece
  obtain ⟨reply, hreply, rfl⟩ := List.mem_map.mp hmem
  exact ⟨reply, hreply, rfl, h e he reply hreply hshows, (hi.content reply hreply).2⟩

/-- Each piece is read once, so a reflected change is timely. -/
theorem Reflected.timely {w : World} {n : Nat} (hi : Inv v₀ w) (hstarted : Started w)
    (h : Reflected v₀ w n) : Timely w n := by
  intro e he reply hreply hshows
  obtain ⟨reply', hreply', hpiece, hlt, -⟩ := h e he reply.piece hshows
  have hnodup : (w.replies.map Reply.piece).Nodup := by
    rw [hstarted.pieces hi]
    decide
  rw [← List.inj_on_of_nodup_map hnodup hreply' hreply hpiece]
  exact hlt

theorem Accounted.nothingLost {w : World} (hi : Inv v₀ w) (hstarted : Started w)
    (h : Accounted responses w) : NothingLost responses v₀ w := by
  intro n hn
  have hmem : n ∈ w.pending ++ w.published := hi.changes.mem_iff.mpr (List.mem_range.mpr hn)
  rw [hstarted.flushed, List.nil_append] at hmem
  obtain ⟨p, hp⟩ := List.mem_iff_getElem?.mp hmem
  rcases h p n hp with ht | hdel | ⟨r, hr, hgone⟩
  · exact .inl (ht.reflected hi hstarted)
  · exact .inr hdel
  · -- a task that goes on has received everything
    obtain ⟨task, htask, hintact, rfl⟩ := listener_task hr
    obtain ⟨task', htask', hdrained⟩ := hstarted.drained
    cases htask.symm.trans htask'
    have hnext := hdrained hintact.1
    obtain ⟨hlt, -⟩ := List.getElem?_eq_some_iff.mp hp
    rw [← hi.length_channel] at hlt
    exact absurd (.inl (Nat.lt_of_lt_of_le hlt hnext)) hgone

theorem Lost.not_nothingLost {w : World} {n : Nat} (hi : Inv v₀ w) (hstarted : Started w)
    (h : Lost responses w n) : ¬NothingLost responses v₀ w := by
  intro hall
  obtain ⟨hnot, hdel, p, hp, -⟩ := h
  rcases hall n (hi.lt_of_published hp) with href | hmem
  · exact hnot (href.timely hi hstarted)
  · exact hdel hmem

/-- **The session's start**: for every run to its end, every change of rules, flows or
the paused flag is reflected in the pieces that show it or delivered on the
subscription, if and only if every step of the run was harmless. -/
theorem nothing_lost_iff {rules : Inner} {sched : List Action} {w : World}
    (hrules : rules.Reachable) (hrun : Runs.run (step responses) (start rules) sched = some w)
    (hstarted : Started w) :
    NothingLost responses (DaemonState.new rules).view w ↔
      Runs.AlongRun (step responses) (Harmless responses) (start rules) sched := by
  have hinv : ∀ {m : World} {as : List Action},
      Runs.run (step responses) (start rules) as = some m →
        Inv (DaemonState.new rules).view m :=
    fun h => Runs.run_invariant inv_step (inv_start hrules) h
  constructor
  · intro hall pre a post hsched m hm
    by_contra hok
    -- from the harmful step on, one change stays lost
    rw [hsched] at hrun
    obtain ⟨m', hm', hrest⟩ := Runs.run_append_eq_some.mp hrun
    cases hm.symm.trans hm'
    obtain ⟨next, hstep, hrest⟩ := Runs.run_cons_eq_some.mp hrest
    obtain ⟨n, hlost⟩ := lost_of_not_harmless (hinv hm) hok hstep
    have hnext : Inv (DaemonState.new rules).view next ∧ Lost responses next n :=
      ⟨inv_step (hinv hm) hstep, hlost⟩
    have hend := Runs.run_invariant
      (I := fun w => Inv (DaemonState.new rules).view w ∧ Lost responses w n)
      (fun h hs => ⟨inv_step h.1 hs, lost_step h.1 h.2 hs⟩) hnext hrest
    exact hend.2.not_nothingLost hend.1 hstarted hall
  · intro hok
    have hend := Runs.run_invariant_along
      (I := fun w => Inv (DaemonState.new rules).view w ∧ Accounted responses w)
      (fun h hok hs => ⟨inv_step h.1 hs, accounted_step h.1 h.2 hok hs⟩)
      ⟨inv_start hrules, fun p n hp => by cases hp⟩ hrun hok
    exact hend.2.nothingLost hend.1 hstarted

/-! ### Two starts -/

/-- One client adds a rule. -/
def addRule : Action :=
  .perform (.handle .epoch (.addRule ⟨"curl", .ofString "/usr/bin/curl", .block, true, none⟩))

/-- The rule, as the daemon announces it. -/
def curlRule : Rule :=
  ⟨1, "curl", .ofString "/usr/bin/curl", .block, true, none, "default", .epoch⟩

/-- The messages of a start on a fresh daemon, and the JSON of each. -/
def messages : List (Response × String) :=
  [(.status ⟨"0.1.0", 0, false, false, 0, 0, 0⟩,
      "\x7b\"Status\":\x7b\"version\":\"0.1.0\",\"uptime_secs\":0,\"paused\":false," ++
        "\"filtering_active\":false,\"rules_count\":0,\"tracked_connections\":0," ++
        "\"tracked_processes\":0\x7d\x7d"),
    (.network ⟨[], none, [], none, none, none⟩,
      "\x7b\"Network\":\x7b\"interfaces\":[],\"gateway\":null,\"dns_servers\":[]," ++
        "\"ssid\":null,\"metered\":null,\"primary_interface\":null\x7d\x7d"),
    (.top [], "\x7b\"Top\":[]\x7d"),
    (.connections [], "\x7b\"Connections\":[]\x7d"),
    (.rules [], "\x7b\"Rules\":[]\x7d"),
    (.event (.ruleAdded curlRule),
      "\x7b\"Event\":\x7b\"RuleAdded\":\x7b\"id\":1,\"name\":\"curl\"," ++
        "\"exe_path\":\"/usr/bin/curl\",\"action\":\"Block\",\"persistent\":true," ++
        "\"expires_at\":null,\"profile\":\"default\"," ++
        "\"updated_at\":\"1970-01-01T00:00:00Z\"\x7d\x7d\x7d")]

/-- The JSON of these messages. -/
def jsonOf (table : List (Response × String)) : Codec Response where
  encode v :=
    match table.find? (·.1 = v) with
    | some entry => .ok (entry.2.toUTF8.data.toList)
    | none => .error "unsupported"
  decode body :=
    match table.find? (·.2.toUTF8.data.toList = body) with
    | some entry => .ok entry.1
    | none => .error "expected value"

/-- The five fetches. -/
def fetches : List Action := (List.replicate 5 [.ask, .serve .epoch, .receive]).flatten

/-- The subscription is there before the fetches, and the rule comes after them. -/
def early : List Action :=
  [.writeSubscribe, .subscribe] ++ fetches ++ [addRule, .publish 0, .stream]

theorem early_runs :
    (Runs.run (step (jsonOf messages)) (start .firstStart) early).isSome = true := by
  decide +kernel

theorem nothing_lost_iff_early :
    let w := (Runs.run (step (jsonOf messages)) (start .firstStart) early).get early_runs
    Started w ∧ w.delivered (jsonOf messages) = [0] ∧
      (NothingLost (jsonOf messages) (DaemonState.new .firstStart).view w ↔
        Runs.AlongRun (step (jsonOf messages)) (Harmless (jsonOf messages)) (start .firstStart)
          early) :=
  have hstarted :
      Started ((Runs.run (step (jsonOf messages)) (start .firstStart) early).get early_runs) :=
    ⟨by decide +kernel, by decide +kernel,
      ⟨_, Option.get_mem (by decide +kernel), by decide +kernel⟩⟩
  ⟨hstarted, by decide +kernel,
    nothing_lost_iff (Inner.reachable_start _) (Option.some_get early_runs).symm hstarted⟩

/-- The rule comes after the fetches and before the subscription. -/
def late : List Action :=
  [.writeSubscribe] ++ fetches ++ [addRule, .publish 0, .subscribe]

theorem late_runs :
    (Runs.run (step (jsonOf messages)) (start .firstStart) late).isSome = true := by
  decide +kernel

/-- The client has fetched no rule and receives no event: the rule is lost on it. -/
theorem late_subscription_loses_rule :
    let w := (Runs.run (step (jsonOf messages)) (start .firstStart) late).get late_runs
    Started w ∧ w.daemon.rules.list.length = 1 ∧ w.delivered (jsonOf messages) = [] ∧
      ¬NothingLost (jsonOf messages) (DaemonState.new .firstStart).view w := by
  refine ⟨⟨by decide +kernel, by decide +kernel,
    ⟨_, Option.get_mem (by decide +kernel), by decide +kernel⟩⟩,
    by decide +kernel, by decide +kernel, fun h => ?_⟩
  have hearly : ∀ reply ∈
      ((Runs.run (step (jsonOf messages)) (start .firstStart) late).get late_runs).replies,
      ¬0 < reply.committed := by decide +kernel
  have hadded : ∃ e ∈
      ((Runs.run (step (jsonOf messages)) (start .firstStart) late).get late_runs).committed[0]?,
      Piece.rules.shows e = true := by decide +kernel
  rcases h 0 (by decide +kernel) with href | hdel
  · obtain ⟨e, he, hshows⟩ := hadded
    obtain ⟨reply, hreply, -, hlt, -⟩ := href e he .rules hshows
    exact hearly reply hreply hlt
  · revert hdel
    decide +kernel

end SessionStart

end TravelMode
