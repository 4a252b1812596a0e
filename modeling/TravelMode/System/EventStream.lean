import TravelMode.Gui.Client
import TravelMode.Lib.Runs

/-!
# The event stream under UI commands

The daemon writes events to a subscription, the bytes arrive in chunks of any
sizes, the UI issues commands, and the session's `select!` is polled in between.

`stream_survives`: where no command is taken while a frame is partly read, the
session hands the UI exactly the events written, in order, and does not fail. The
condition cannot be dropped: `header_dropped_ends_stream` is a run on which one
command costs the session its stream.

The invariant is `Intact`: the bytes not yet turned into events — taken by the
suspended read, unread in the socket, still on the way — are together the frames
of the events not yet handed over.
-/

namespace TravelMode

namespace EventStream

/-- A subscription: what the daemon wrote, what is on the way, and the session. -/
structure Stream where
  /-- The events written, oldest first. -/
  sent : List Event
  /-- Bytes written that have not arrived. -/
  wire : List UInt8
  session : Session

/-- Subscribed, before the first event. -/
def Stream.start : Stream := { sent := [], wire := [], session := .start }

inductive Step where
  /-- `stream_events` writes the frame of an event. -/
  | write (event : Event)
  /-- The next `n` bytes arrive. -/
  | arrive (n : Nat)
  /-- The UI issues a command. -/
  | command (cmd : GuiCmd)
  /-- The session's task is polled. -/
  | poll (order : PollOrder)

/-- One step. The daemon keeps the stream only while its writes succeed, and a
session that has returned is not polled. -/
def step (codec : Codec Response) (st : Stream) : Step → Option Stream
  | .write event =>
    match writeFrame codec (.event event) with
    | .ok bytes => some { st with sent := st.sent ++ [event], wire := st.wire ++ bytes }
    | .error _ => none
  | .arrive n =>
    if n ≤ st.wire.length then
      some { st with
        wire := st.wire.drop n
        session := { st.session with socket := st.session.socket ++ st.wire.take n } }
    else none
  | .command cmd =>
    some { st with session := { st.session with cmdRx := st.session.cmdRx ++ [cmd] } }
  | .poll order =>
    if st.session.ended = none then
      some { st with session := st.session.poll codec order }
    else none

/-! ### What a poll does to the bytes -/

/-- No command of this poll can be taken in the middle of a frame: the queue is
empty, or nothing of a frame has been read — or, where the frame is polled first,
the whole frame is there to complete. -/
def Unharmed (s : Session) : PollOrder → Prop
  | .cmdFirst => s.cmdRx = [] ∨ s.reader.consumed = []
  | .frameFirst =>
    s.cmdRx = [] ∨ s.reader.consumed ++ s.socket = [] ∨
      Frames.HoldsFrame (s.reader.consumed ++ s.socket)

instance (s : Session) (order : PollOrder) : Decidable (Unharmed s order) := by
  cases order <;> exact inferInstanceAs (Decidable (_ ∨ _))

/-- The condition on one step: frames are within `MAX_FRAME`, and polls unharmed. -/
def StepOk (codec : Codec Response) (st : Stream) : Step → Prop
  | .write event => codec.Fits (.event event)
  | .poll order => Unharmed st.session order
  | _ => True

instance (codec : Codec Response) (st : Stream) (a : Step) : Decidable (StepOk codec st a) := by
  cases a <;> unfold StepOk <;> infer_instance

/-- `bytes` are the frames of `events`, each within `MAX_FRAME` and decodable. -/
inductive FramesOf (codec : Codec Response) : List Event → List UInt8 → Prop where
  | nil : FramesOf codec [] []
  | cons {event : Event} {events : List Event} {body bytes : List UInt8}
      (decodes : codec.decode body = .ok (.event event)) (fits : body.length ≤ maxFrame)
      (rest : FramesOf codec events bytes) :
      FramesOf codec (event :: events) (Frames.frame body ++ bytes)

variable {codec : Codec Response}

theorem FramesOf.snoc {events : List Event} {bytes body : List UInt8} {event : Event}
    (h : FramesOf codec events bytes) (hdec : codec.decode body = .ok (.event event))
    (hfits : body.length ≤ maxFrame) :
    FramesOf codec (events ++ [event]) (bytes ++ Frames.frame body) := by
  induction h with
  | nil =>
    have hone := FramesOf.cons hdec hfits .nil
    rw [List.append_nil] at hone
    exact hone
  | cons decodes fits rest ih =>
    rw [List.append_assoc]
    exact .cons decodes fits ih

/-- The bytes of the subscription not yet turned into events. -/
def Stream.pendingBytes (st : Stream) : List UInt8 :=
  st.session.reader.consumed ++ st.session.socket ++ st.wire

/-- The stream is whole: what is not yet handed over is still there, frame by
frame. -/
structure Intact (codec : Codec Response) (st : Stream) : Prop where
  running : st.session.ended = none
  owed : ∃ rest, st.sent = st.session.toUi ++ rest ∧ FramesOf codec rest st.pendingBytes

theorem intact_start : Intact codec Stream.start :=
  ⟨rfl, [], rfl, .nil⟩

/-- With the frame of an event in front, the frame branch hands the event over and
starts anew behind it. -/
theorem frameBranch_frame {s : Session} {event : Event} {body left : List UInt8}
    (hdec : codec.decode body = .ok (.event event)) (hfits : body.length ≤ maxFrame)
    (h : s.reader.consumed ++ s.socket = Frames.frame body ++ left) :
    s.frameBranch codec =
      ({ s with reader := .start, socket := left, toUi := s.toUi ++ [event] }, true) := by
  have hready := Frames.Reader.poll_frame maxFrame_lt hfits left
  rw [← h, ← Frames.Reader.poll_resume maxFrame_lt] at hready
  rw [Session.frameBranch, readFrame, hready]
  simp only [hdec]

/-- Short of a frame, the frame branch waits with all it has read. -/
theorem frameBranch_pending {s : Session} {reader : Frames.Reader maxFrame}
    (h : Frames.Reader.start.poll (s.reader.consumed ++ s.socket) = .pending reader) :
    s.frameBranch codec = ({ s with reader := reader, socket := [] }, false) ∧
      reader.consumed = s.reader.consumed ++ s.socket ∧
      ¬ Frames.HoldsFrame (s.reader.consumed ++ s.socket) := by
  have hsame := (Frames.Reader.poll_resume maxFrame_lt s.reader s.socket).trans h
  refine ⟨?_, ?_, fun hholds => Frames.Reader.poll_ne_pending hholds reader h⟩
  · rw [Session.frameBranch, readFrame, hsame]
  · rw [Frames.Reader.consumed_of_pending h, Frames.Reader.consumed_start, List.nil_append]

/-- What the frame branch can do to a whole stream: hand over the next event, or
wait with all the bytes — and it waits only where no whole frame is at hand. -/
theorem frameBranch_cases {s : Session} {wire : List UInt8} {rest : List Event}
    (h : FramesOf codec rest (s.reader.consumed ++ s.socket ++ wire)) :
    (∃ event events left, rest = event :: events ∧
      s.frameBranch codec =
        ({ s with reader := .start, socket := left, toUi := s.toUi ++ [event] }, true) ∧
      FramesOf codec events (left ++ wire)) ∨
    (∃ reader, s.frameBranch codec = ({ s with reader := reader, socket := [] }, false) ∧
      reader.consumed = s.reader.consumed ++ s.socket ∧
      ¬ Frames.HoldsFrame (s.reader.consumed ++ s.socket) ∧
      (wire = [] → rest = [])) := by
  generalize hall : s.reader.consumed ++ s.socket ++ wire = all at h
  cases h with
  | nil =>
    obtain ⟨hnone, -⟩ := List.append_eq_nil_iff.mp hall
    have hpoll : Frames.Reader.start.poll (s.reader.consumed ++ s.socket) =
        .pending (.start : Frames.Reader maxFrame) := by
      rw [hnone]
      rfl
    obtain ⟨hbranch, hread, hholds⟩ := @frameBranch_pending codec s _ hpoll
    exact .inr ⟨_, hbranch, hread, hholds, fun _ => rfl⟩
  | @cons event events body later decodes fits owed =>
    rcases List.append_eq_append_iff.mp hall with ⟨missing, hframe, hwire⟩ | ⟨left, hbytes, hlater⟩
    · by_cases hmissing : missing = []
      · -- exactly the frame has arrived
        rw [hmissing, List.append_nil] at hframe
        rw [hmissing, List.nil_append] at hwire
        refine .inl ⟨event, events, [], rfl, frameBranch_frame decodes fits ?_, ?_⟩
        · rw [List.append_nil, hframe]
        · rw [List.nil_append, hwire]
          exact owed
      · -- the rest of the frame is still on the wire
        obtain ⟨reader, hpoll⟩ := Frames.Reader.poll_short maxFrame_lt fits hframe.symm hmissing
        obtain ⟨hbranch, hread, hholds⟩ := frameBranch_pending hpoll
        refine .inr ⟨reader, hbranch, hread, hholds, fun hnil => ?_⟩
        rw [hnil] at hwire
        exact absurd (List.append_eq_nil_iff.mp hwire.symm).1 hmissing
    · refine .inl ⟨event, events, left, rfl, frameBranch_frame decodes fits hbytes, ?_⟩
      rw [← hlater]
      exact owed

/-! ### What a step preserves -/

/-- A command taken between two frames costs the stream nothing. -/
theorem intact_cmdBranch {st : Stream} (h : Intact codec st)
    (hclean : st.session.cmdRx = [] ∨ st.session.reader.consumed = []) :
    Intact codec { st with session := st.session.cmdBranch.1 } := by
  obtain ⟨hrun, rest, hsent, howed⟩ := h
  cases hcmd : st.session.cmdRx with
  | nil =>
    rw [Session.cmdBranch, hcmd]
    exact ⟨hrun, rest, hsent, howed⟩
  | cons cmd cmds =>
    have hread : st.session.reader.consumed = [] := by
      rcases hclean with hnil | hread
      · rw [hcmd] at hnil
        cases hnil
      · exact hread
    rw [Session.cmdBranch, hcmd]
    refine ⟨hrun, rest, hsent, ?_⟩
    rw [Stream.pendingBytes, hread] at howed
    exact howed

/-- The frame branch keeps the stream whole. -/
theorem intact_frameBranch {st : Stream} (h : Intact codec st) :
    Intact codec { st with session := (st.session.frameBranch codec).1 } := by
  obtain ⟨hrun, rest, hsent, howed⟩ := h
  rcases frameBranch_cases howed with
    ⟨event, events, left, rfl, hbranch, hleft⟩ | ⟨reader, hbranch, hread, -, -⟩
  · rw [hbranch]
    refine ⟨hrun, events, ?_, hleft⟩
    rw [hsent, List.append_assoc, List.singleton_append]
  · rw [hbranch]
    refine ⟨hrun, rest, hsent, ?_⟩
    rw [Stream.pendingBytes, hread, List.append_nil]
    exact howed

/-- **Poll**: an unharmed poll keeps the stream whole. -/
theorem intact_poll {st : Stream} {order : PollOrder} (h : Intact codec st)
    (hok : Unharmed st.session order) :
    Intact codec { st with session := st.session.poll codec order } := by
  cases order with
  -- an empty command channel leaves the turn to the frames
  | cmdFirst =>
    cases hcmd : st.session.cmdRx with
    | nil =>
      have hpoll : st.session.poll codec .cmdFirst = (st.session.frameBranch codec).1 := by
        rw [Session.poll, Session.cmdBranch, hcmd]
        rfl
      rw [hpoll]
      exact intact_frameBranch h
    | cons cmd cmds =>
      have hpoll : st.session.poll codec .cmdFirst = st.session.cmdBranch.1 := by
        rw [Session.poll, Session.cmdBranch, hcmd]
        rfl
      rw [hpoll]
      exact intact_cmdBranch h hok
  | frameFirst =>
    have hframe := intact_frameBranch h
    obtain ⟨hrun, rest, hsent, howed⟩ := h
    -- a whole frame is handed over; otherwise the commands have their turn after the read
    rcases frameBranch_cases howed with
      ⟨event, events, left, rfl, hbranch, -⟩ | ⟨reader, hbranch, hread, hnone, -⟩
    · have hpoll : st.session.poll codec .frameFirst = (st.session.frameBranch codec).1 := by
        rw [Session.poll, hbranch]
        rfl
      rw [hpoll]
      exact hframe
    · have hpoll : st.session.poll codec .frameFirst =
          (st.session.frameBranch codec).1.cmdBranch.1 := by
        rw [Session.poll, hbranch]
        rfl
      rw [hpoll]
      refine intact_cmdBranch hframe ?_
      rw [hbranch]
      -- the poll may drop what the reader holds, and here that is nothing
      rcases hok with hnil | hempty | hholds
      · exact .inl hnil
      · exact .inr (hread.trans hempty)
      · exact absurd hholds hnone

/-- **Step lemma.** -/
theorem intact_step (hcodec : ∀ event, codec.RoundTrips (.event event)) {st st' : Stream}
    {a : Step} (h : Intact codec st) (hok : StepOk codec st a)
    (hstep : step codec st a = some st') : Intact codec st' := by
  obtain ⟨hrun, rest, hsent, howed⟩ := h
  cases a with
  | write event =>
    simp only [step, writeFrame] at hstep
    cases henc : codec.encode (.event event) with
    | error message =>
      rw [henc] at hstep
      cases hstep
    | ok body =>
      rw [henc] at hstep
      cases hstep
      refine ⟨hrun, rest ++ [event], ?_, ?_⟩
      · rw [hsent, List.append_assoc]
      · -- the frame joins the end of what is owed
        rw [Stream.pendingBytes, ← List.append_assoc]
        exact howed.snoc (hcodec event body henc) (Codec.fits_of_encode henc hok)
  | arrive n =>
    simp only [step] at hstep
    split at hstep
    · cases hstep
      refine ⟨hrun, rest, hsent, ?_⟩
      -- bytes move from the wire to the client, in order
      simp only [Stream.pendingBytes]
      rw [← List.append_assoc, List.append_assoc, List.take_append_drop]
      exact howed
    · cases hstep
  | command cmd =>
    cases hstep
    exact ⟨hrun, rest, hsent, howed⟩
  | poll order =>
    simp only [step] at hstep
    rw [if_pos hrun] at hstep
    cases hstep
    exact intact_poll ⟨hrun, rest, hsent, howed⟩ hok

/-- **Run lemma.** -/
theorem intact_run (hcodec : ∀ event, codec.RoundTrips (.event event)) {sched : List Step}
    {st : Stream} (hrun : Runs.run (step codec) Stream.start sched = some st)
    (hok : Runs.AlongRun (step codec) (StepOk codec) Stream.start sched) : Intact codec st := by
  exact Runs.run_invariant_along (intact_step hcodec) intact_start hrun hok

/-- Once everything has arrived, each poll hands over one of the events due. -/
theorem poll_hands_over {st : Stream} (h : Intact codec st) (hwire : st.wire = []) {n : Nat}
    (hn : st.session.toUi.length + n = st.sent.length) :
    ∃ st', Runs.run (step codec) st (List.replicate n (.poll .frameFirst)) = some st' ∧
      st'.session.ended = none ∧ st'.session.toUi = st.sent := by
  induction n generalizing st with
  | zero =>
    obtain ⟨hrun, rest, hsent, -⟩ := h
    refine ⟨st, rfl, hrun, ?_⟩
    have hlen := congrArg List.length hsent
    rw [List.length_append] at hlen
    -- nothing is left to hand over
    have hrest : rest = [] := List.eq_nil_of_length_eq_zero (by omega)
    rw [hsent, hrest, List.append_nil]
  | succ n ih =>
    obtain ⟨hrun, rest, hsent, howed⟩ := h
    rcases frameBranch_cases howed with
      ⟨event, events, left, rfl, hbranch, hleft⟩ | ⟨reader, -, -, -, hnone⟩
    · have hpoll : st.session.poll codec .frameFirst = (st.session.frameBranch codec).1 := by
        rw [Session.poll, hbranch]
        rfl
      have hstep : step codec st (.poll .frameFirst) =
          some { st with session := (st.session.frameBranch codec).1 } := by
        simp only [step]
        rw [if_pos hrun, hpoll]
      obtain ⟨st', hst', hres⟩ := ih (intact_frameBranch ⟨hrun, _, hsent, howed⟩) hwire (by
        rw [hbranch]
        simp only [List.length_append, List.length_singleton]
        omega)
      refine ⟨st', ?_, hres⟩
      rw [List.replicate_succ, Runs.run_cons, hstep]
      exact hst'
    · -- with the wire empty, no whole frame here means that all has been handed over
      have hlen := congrArg List.length hsent
      rw [hnone hwire, List.append_nil] at hlen
      omega

/-- A whole stream with no byte left outside the reader owes nothing. -/
theorem Intact.drained {st : Stream} (h : Intact codec st) (hwire : st.wire = [])
    (hsocket : st.session.socket = []) : st.session.toUi = st.sent := by
  obtain ⟨-, rest, hsent, howed⟩ := h
  have hwait : st.session.frameBranch codec =
      ({ st.session with reader := st.session.reader, socket := [] }, false) := by
    rw [Session.frameBranch, readFrame, hsocket, Frames.Reader.poll_nil]
  rcases frameBranch_cases howed with
    ⟨event, events, left, -, hbranch, -⟩ | ⟨reader, -, -, -, hnone⟩
  · rw [hwait] at hbranch
    cases congrArg Prod.snd hbranch
  · rw [hsent, hnone hwire, List.append_nil]

/-! ### The stream survives its commands -/

/-- Whatever is written, however it is split and whenever the UI issues commands:
while no frame is over `MAX_FRAME` and no command is taken in the middle of one,
the session has not failed, has handed over a prefix of what was sent, and all of
it when the bytes have been read; and from any point on, the arrival of what is on
the way and enough polls hand over the rest. -/
theorem stream_survives (codec : Codec Response)
    (hcodec : ∀ event, codec.RoundTrips (.event event)) {sched : List Step} {st : Stream}
    (hrun : Runs.run (step codec) Stream.start sched = some st)
    (hok : Runs.AlongRun (step codec) (StepOk codec) Stream.start sched) :
    st.session.ended = none ∧ st.session.toUi <+: st.sent ∧
      (st.wire = [] → st.session.socket = [] → st.session.toUi = st.sent) ∧
      ∃ polls st',
        Runs.run (step codec) st
          (.arrive st.wire.length :: List.replicate polls (.poll .frameFirst)) = some st' ∧
        st'.session.ended = none ∧ st'.session.toUi = st.sent := by
  have hintact := intact_run hcodec hrun hok
  obtain ⟨hended, rest, hsent, -⟩ := id hintact
  refine ⟨hended, ⟨rest, hsent.symm⟩, hintact.drained, rest.length, ?_⟩
  -- after the arrival the stream is still whole, and nothing is on the way
  have harrive : ∃ m, step codec st (.arrive st.wire.length) = some m ∧ m.wire = [] ∧
      m.sent = st.sent ∧ m.session.toUi = st.session.toUi := by
    refine ⟨_, if_pos (Nat.le_refl _), ?_, rfl, rfl⟩
    exact List.drop_length
  obtain ⟨m, hm, hwire, hmsent, hmui⟩ := harrive
  have hmintact : Intact codec m := intact_step hcodec hintact (a := .arrive _) trivial hm
  obtain ⟨st', hst', hrest⟩ := poll_hands_over hmintact hwire (n := rest.length) (by
    rw [hmsent, hmui, hsent, List.length_append])
  refine ⟨st', ?_, hmsent ▸ hrest⟩
  rw [Runs.run_cons, hm]
  exact hst'

/-! ### A run on which the condition holds, and one on which it does not -/

/-- `{"Event":{"PausedChanged":{"paused":true}}}` -/
def pausedBody : List UInt8 :=
  "\x7b\"Event\":\x7b\"PausedChanged\":\x7b\"paused\":true\x7d\x7d\x7d".toList.map fun c =>
    c.val.toUInt8

/-- The JSON of one event; no other value is written with it. -/
def pausedCodec : Codec Response where
  encode v := if v = .event (.pausedChanged true) then .ok pausedBody else .error "unsupported"
  decode body :=
    if body = pausedBody then .ok (.event (.pausedChanged true)) else .error "expected value"

theorem pausedCodec_roundTrips (event : Event) : pausedCodec.RoundTrips (.event event) := by
  intro body henc
  simp only [pausedCodec] at henc ⊢
  split at henc
  · rename_i heq
    cases henc
    rw [if_pos rfl, heq]
  · cases henc

/-- A command between two frames: it is queued before the frame arrives, and taken
when the frame has been handed over. -/
def betweenFrames : List Step :=
  [.write (.pausedChanged true), .command (.setPaused false), .arrive 47, .poll .frameFirst,
    .poll .cmdFirst]

theorem betweenFrames_runs :
    (Runs.run (step pausedCodec) Stream.start betweenFrames).isSome = true := by
  decide +kernel

theorem stream_survives_between :
    let st := (Runs.run (step pausedCodec) Stream.start betweenFrames).get betweenFrames_runs
    st.session.toUi <+: st.sent ∧ st.session.toUi = [.pausedChanged true] ∧
      st.session.attempted = [.setPaused false] :=
  have hsurvives := stream_survives pausedCodec pausedCodec_roundTrips
    (Option.some_get betweenFrames_runs).symm (by decide +kernel)
  ⟨hsurvives.2.1, by decide +kernel, by decide +kernel⟩

/-- The header arrives before the body, and a command is taken in between: the body
is then read as a header, and the session ends without the event. -/
def afterHeader : List Step :=
  [.write (.pausedChanged true), .arrive 4, .command (.setPaused false), .poll .frameFirst,
    .arrive 43, .poll .frameFirst]

theorem header_dropped_ends_stream :
    (∀ event, pausedCodec.RoundTrips (.event event)) ∧
    ∃ st, Runs.run (step pausedCodec) Stream.start afterHeader = some st ∧
      st.sent = [.pausedChanged true] ∧ st.wire = [] ∧ st.session.toUi = [] ∧
      st.session.ended = some "event stream lost: frame too large (2065843574 bytes)" :=
  ⟨pausedCodec_roundTrips, _, rfl, by decide +kernel, by decide +kernel, by decide +kernel,
    by decide +kernel⟩

end EventStream

end TravelMode
