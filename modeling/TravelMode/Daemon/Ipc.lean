import TravelMode.Daemon.Main
import TravelMode.Lib.Broadcast

/-!
# Serving clients (`daemon/src/ipc.rs`)

- `handleClient`: one request, its response, and the end of the connection.
- `EventTask.turn`: one turn of the loop of `stream_events`. A subscriber that has lagged
  goes on; an event that cannot be written ends the stream.
- `EventTask.Carried`: what a task has written, out of what was published, and what it has
  dropped. `Carried.complete` tells by the counts that nothing was.
-/

namespace TravelMode

/-- A task in `stream_events`. -/
structure EventTask where
  rx : Broadcast.Subscriber
  /-- The events written, and the frame of each. -/
  written : List (Event × List UInt8)
  /-- What the task has returned. -/
  ended : Option IpcError

/-- `state.events.subscribe()` -/
def EventTask.start (published : List Event) : EventTask := ⟨.join published, [], none⟩

/-- One turn of the loop; `none` where the task waits for an event, or has returned. -/
def EventTask.turn (responses : Codec Response) (published : List Event) (t : EventTask) :
    Option EventTask :=
  match t.ended with
  | some _ => none
  | none =>
    match t.rx.recv eventChannelCapacity published with
    | (.value event, rx) =>
      match writeFrame responses (.event event) with
      | .ok bytes => some { t with rx := rx, written := t.written ++ [(event, bytes)] }
      | .error e => some { t with rx := rx, ended := some e }
    | (.lagged _, rx) => some { t with rx := rx }
    | (.empty, _) => none

/-- What a turn comes to: an event and its frame, the end of the stream on an event that
cannot be written, or a lag. -/
theorem EventTask.turn_cases {responses : Codec Response} {published : List Event}
    {t t' : EventTask} (h : t.turn responses published = some t') :
    t.ended = none ∧
      ((∃ event bytes, t.rx.recv eventChannelCapacity published = (.value event, t'.rx) ∧
          writeFrame responses (.event event) = .ok bytes ∧
          t'.written = t.written ++ [(event, bytes)] ∧ t'.ended = none) ∨
        (∃ event e, t.rx.recv eventChannelCapacity published = (.value event, t'.rx) ∧
          writeFrame responses (.event event) = .error e ∧
          t'.written = t.written ∧ t'.ended = some e) ∨
        ∃ n, t.rx.recv eventChannelCapacity published = (.lagged n, t'.rx) ∧
          t'.written = t.written ∧ t'.ended = none) := by
  unfold EventTask.turn at h
  cases hended : t.ended with
  -- a task that has returned takes no turn
  | some e =>
    rw [hended] at h
    cases h
  | none =>
    rw [hended] at h
    refine ⟨rfl, ?_⟩
    dsimp only at h
    split at h
    · rename_i event rx hrecv
      split at h
      · rename_i bytes hwrite
        cases h
        exact .inl ⟨event, bytes, hrecv, hwrite, rfl, rfl⟩
      · rename_i e hwrite
        cases h
        exact .inr (.inl ⟨event, e, hrecv, hwrite, rfl, rfl⟩)
    · rename_i n rx hrecv
      cases h
      exact .inr (.inr ⟨n, hrecv, rfl, rfl⟩)
    · cases h

/-! ## What a task carries -/

/-- How many events the task has received: those that it has written, and the one that
ended it. -/
def EventTask.received (t : EventTask) : Nat := t.written.length + t.ended.toList.length

/-- A task that goes on has written all that it has received. -/
theorem EventTask.received_of_going {t : EventTask} (h : t.ended = none) :
    t.received = t.written.length := by
  rw [received, h]
  rfl

theorem EventTask.written_le_received (t : EventTask) : t.written.length ≤ t.received :=
  Nat.le_add_right _ _

/-- What a turn does to the counts: one event is received, or the task lags. -/
theorem EventTask.turn_received {responses : Codec Response} {published : List Event}
    {t t' : EventTask} (h : t.turn responses published = some t') :
    t'.rx.joined = t.rx.joined ∧
      ((published.length ≤ t.rx.next + eventChannelCapacity ∧ t'.rx.next = t.rx.next + 1 ∧
          t'.received = t.received + 1) ∨
        (t.rx.next + eventChannelCapacity < published.length ∧ t.rx.next < t'.rx.next ∧
          t'.received = t.received)) := by
  unfold EventTask.received
  obtain ⟨hended, ⟨event, bytes, hrecv, -, hwritten, hended'⟩ |
    ⟨event, e, hrecv, -, hwritten, hended'⟩ | ⟨n, hrecv, hwritten, hended'⟩⟩ := turn_cases h
  · obtain ⟨hnext, hkept⟩ := Broadcast.Subscriber.recv_value_next hrecv
    refine ⟨Broadcast.Subscriber.joined_of_recv hrecv, .inl ⟨hkept, hnext, ?_⟩⟩
    rw [hwritten, hended, hended', List.length_append]
    rfl
  · obtain ⟨hnext, hkept⟩ := Broadcast.Subscriber.recv_value_next hrecv
    refine ⟨Broadcast.Subscriber.joined_of_recv hrecv, .inl ⟨hkept, hnext, ?_⟩⟩
    rw [hwritten, hended, hended']
    rfl
  · obtain ⟨hnext, hlag⟩ := Broadcast.Subscriber.recv_lagged_next hrecv
    refine ⟨Broadcast.Subscriber.joined_of_recv hrecv, .inr ⟨hlag, hnext, ?_⟩⟩
    rw [hwritten, hended, hended']

/-- The position was overwritten before the task received it, or its event ended the
task. -/
def EventTask.Dropped (published : List Event) (t : EventTask) (p : Nat) : Prop :=
  p + eventChannelCapacity < published.length ∨ t.ended ≠ none ∧ p + 1 = t.rx.next

/-- What the task has written are events published since it subscribed, each once and in
their order; what it has passed over was dropped. -/
def EventTask.Carried (published : List Event) (t : EventTask) : Prop :=
  t.rx.next ≤ published.length ∧
    ∃ carried : List Nat, carried.Pairwise (· < ·) ∧
      (∀ p ∈ carried, t.rx.joined ≤ p ∧ p < t.rx.next) ∧
      carried.map (published[·]?) = t.written.map (fun entry => some entry.1) ∧
      ∀ p, t.rx.joined ≤ p → p < t.rx.next → p ∉ carried → t.Dropped published p

namespace EventTask

variable {responses : Codec Response} {published : List Event} {t t' : EventTask}

theorem carried_start : (start published).Carried published := by
  refine ⟨Nat.le_refl _, [], List.Pairwise.nil, List.forall_mem_nil _, rfl, fun p hle hlt => ?_⟩
  exact absurd hlt (Nat.not_lt.mpr hle)

/-- What is published later does not change what was carried. -/
theorem Carried.publish (h : t.Carried published) (more : List Event) :
    t.Carried (published ++ more) := by
  obtain ⟨hnext, carried, hsorted, hrange, hwritten, hdropped⟩ := h
  refine ⟨?_, carried, hsorted, hrange, ?_, fun p hle hlt hp => ?_⟩
  · rw [List.length_append]
    omega
  · rw [← hwritten]
    refine List.map_congr_left fun p hp => List.getElem?_append_left ?_
    exact Nat.lt_of_lt_of_le (hrange p hp).2 hnext
  · refine (hdropped p hle hlt hp).imp_left fun hover => ?_
    rw [List.length_append]
    omega

/-- A position between the subscription and the next one is dropped after a turn, if it
was before. -/
theorem Dropped.turn {p : Nat} (hended : t.ended = none) (h : t.Dropped published p) :
    t'.Dropped published p :=
  h.elim .inl fun hend => absurd hended hend.1

/-- **A turn** carries the next event, ends the task on it, or passes over what is
overwritten. -/
theorem Carried.turn (h : t.Carried published) (hturn : t.turn responses published = some t') :
    t'.Carried published := by
  obtain ⟨hnext, carried, hsorted, hrange, hwritten, hdropped⟩ := h
  have hle := t.rx.le
  obtain ⟨hended, ⟨event, bytes, hrecv, -, hw, -⟩ | ⟨event, e, hrecv, -, hw, hended'⟩ |
    ⟨n, hrecv, hw, -⟩⟩ := turn_cases hturn
  · have hjoined := Broadcast.Subscriber.joined_of_recv hrecv
    obtain ⟨hat, -, hlen, -⟩ := Broadcast.Subscriber.recv_value hrecv
    obtain ⟨hsucc, -⟩ := Broadcast.Subscriber.recv_value_next hrecv
    refine ⟨hlen, carried ++ [t.rx.next], ?_, fun p hp => ?_, ?_, fun p hpj hpn hp => ?_⟩
    · refine List.pairwise_append.mpr ⟨hsorted, List.pairwise_singleton _ _, fun p hp q hq => ?_⟩
      rw [List.mem_singleton.mp hq]
      exact (hrange p hp).2
    · rw [hjoined, hsucc]
      rcases List.mem_append.mp hp with hp | hp
      · have hbound := hrange p hp
        omega
      · rw [List.mem_singleton.mp hp]
        omega
    · rw [hw, List.map_append, List.map_append, hwritten, List.map_singleton, hat]
      rfl
    · rw [List.mem_append, List.mem_singleton, not_or] at hp
      exact (hdropped p (by omega) (by omega) hp.1).turn hended
  · have hjoined := Broadcast.Subscriber.joined_of_recv hrecv
    obtain ⟨-, -, hlen, -⟩ := Broadcast.Subscriber.recv_value hrecv
    obtain ⟨hsucc, -⟩ := Broadcast.Subscriber.recv_value_next hrecv
    refine ⟨hlen, carried, hsorted, fun p hp => ?_, by rw [hw, hwritten], fun p hpj hpn hp => ?_⟩
    · have hbound := hrange p hp
      omega
    · by_cases hlast : p = t.rx.next
      · -- the event that cannot be written
        refine .inr ⟨?_, by omega⟩
        rw [hended']
        exact Option.some_ne_none e
      · exact (hdropped p (by omega) (by omega) hp).turn hended
  · have hjoined := Broadcast.Subscriber.joined_of_recv hrecv
    obtain ⟨hlen, hgone⟩ := Broadcast.Subscriber.recv_lagged hrecv
    obtain ⟨hlt, -⟩ := Broadcast.Subscriber.recv_lagged_next hrecv
    refine ⟨hlen, carried, hsorted, fun p hp => ?_, by rw [hw, hwritten], fun p hpj hpn hp => ?_⟩
    · have hbound := hrange p hp
      omega
    · by_cases hold : p < t.rx.next
      · exact (hdropped p (by omega) hold hp).turn hended
      · -- what the lag passes over is overwritten
        exact .inl (((hgone p).mp (.inl hpn)).resolve_left hold)

/-- **Nothing dropped**: a task that goes on, and has received an event for each position
that it has passed, has written all of them. -/
theorem Carried.complete (h : t.Carried published) (hended : t.ended = none)
    (heven : t.rx.joined + t.received = t.rx.next) :
    t.written.map Prod.fst = (published.drop t.rx.joined).take (t.rx.next - t.rx.joined) := by
  obtain ⟨hnext, carried, hsorted, hrange, hwritten, -⟩ := h
  have hlength : carried.length = t.rx.next - t.rx.joined := by
    have hmap := congrArg List.length hwritten
    rw [List.length_map, List.length_map] at hmap
    rw [received_of_going hended] at heven
    omega
  have hle := t.rx.le
  -- as many positions as there are between joining and now: all of them
  have hall : carried = List.range' t.rx.joined carried.length := by
    refine Broadcast.eq_range'_of_increasing hsorted fun p hp => ?_
    have hbound := hrange p hp
    omega
  have hsome : (t.written.map Prod.fst).map some =
      ((published.drop t.rx.joined).take carried.length).map some := by
    rw [List.map_map]
    refine hwritten.symm.trans ?_
    rw [hall, List.length_range']
    refine List.ext_getElem? fun i => ?_
    rw [List.getElem?_map, List.getElem?_map, List.getElem?_take]
    by_cases hi : i < carried.length
    · have hget : published[t.rx.joined + i]? = some published[t.rx.joined + i] :=
        List.getElem?_eq_getElem (by omega)
      rw [List.getElem?_range' hi, if_pos hi, List.getElem?_drop, Option.map_some, Nat.one_mul, hget]
      rfl
    · rw [if_neg hi, List.getElem?_eq_none (by rw [List.length_range']; omega)]
      rfl
  rw [← hlength]
  exact List.map_injective_iff.mpr (Option.some_injective _) hsome

end EventTask

/-- What `handle_client` comes to. -/
inductive Client where
  /-- The task returns, having written this. -/
  | closed (written : List UInt8) (handled : Option Handled) (reason : IpcError)
  /-- `dispatch` panics, and the task with it. -/
  | panicked
  | streaming (task : EventTask)

/-- `handle_client`, over what the client sends before it waits. -/
def handleClient (requests : Codec Request) (responses : Codec Response) (st : DaemonState)
    (env : Env) (published : List Event) (chunks : List (List UInt8)) : Client :=
  match (readFrameFrom requests .start chunks).1 with
  | .error e => .closed [] none e
  | .ok .subscribe => .streaming (.start published)
  | .ok request =>
    match dispatch st env request with
    | none => .panicked
    | some handled =>
      match writeFrame responses handled.response with
      | .ok bytes => .closed bytes (some handled) .closed
      | .error e => .closed [] (some handled) e

/-- A client that asks for no stream is answered by `dispatch`. -/
theorem handleClient_request {requests : Codec Request} {responses : Codec Response}
    {st : DaemonState} {env : Env} {published : List Event} {chunks : List (List UInt8)}
    {request : Request} (hread : (readFrameFrom requests .start chunks).1 = .ok request)
    (h : request ≠ .subscribe) :
    handleClient requests responses st env published chunks =
      match dispatch st env request with
      | none => .panicked
      | some handled =>
        match writeFrame responses handled.response with
        | .ok bytes => .closed bytes (some handled) .closed
        | .error e => .closed [] (some handled) e := by
  rw [handleClient, hread]
  cases request with
  | subscribe => exact absurd rfl h
  | _ => rfl

end TravelMode
