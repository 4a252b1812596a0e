import TravelMode.Daemon.Ipc
import TravelMode.System.EventStream
import TravelMode.System.LastWord
import TravelMode.System.Overlap
import TravelMode.System.SessionStart

/-!
# Subscribers that lag

The channel keeps `EVENT_CHANNEL_CAPACITY` events, and a subscriber that is further behind
loses some: `stream_events` notes the lag, and goes on with the oldest event kept. The
daemon never waits for a subscriber, and never ends its stream for lagging.

- `World`: the daemon, the events that its tasks have still to publish, the channel, the
  task of one subscription, and the replies that its client has fetched.
- `Told`: the last words of the changes tell the state, and are published. It holds along
  runs in which every change is announced, in its order (`Orderly`).
- `stream_in_step`: a stream carries all events exactly if it has never lagged, and then
  the client is in step; `lagged_client_diverges` is a client that stays behind for good.
-/

namespace TravelMode

namespace Lagging

open LastWord WriteLog
open SessionStart (Piece)

structure World where
  daemon : DaemonState
  /-- The changes, each by the event that announces it, in commit order. -/
  committed : List Event
  /-- What the poller has still to publish, in its order. It holds the lock of the flow map
  until then. -/
  burst : List Event
  /-- What the other tasks have still to publish. -/
  pending : List Event
  published : List Event
  /-- The task of the subscription. -/
  stream : Option EventTask
  /-- What the client has fetched. -/
  replies : List (Piece × Response)

inductive Action where
  /-- A task changes the state. -/
  | perform (t : Task)
  /-- The poller publishes its next event. -/
  | publishNext
  /-- Another task publishes one of its events. -/
  | publish (i : Nat)
  | subscribe
  /-- A turn of the loop of `stream_events`. -/
  | turn
  | fetch (env : Env) (piece : Piece)

def step (responses : Codec Response) (w : World) : Action → Option World
  | .perform (.poll p) =>
    match w.burst with
    | [] =>
      (w.daemon.perform (.poll p)).map fun (daemon, events) =>
        { w with daemon := daemon, committed := w.committed ++ events, burst := events }
    | _ :: _ => none
  | .perform t =>
    (w.daemon.perform t).map fun (daemon, events) =>
      { w with
        daemon := daemon
        committed := w.committed ++ events
        pending := w.pending ++ events }
  | .publishNext =>
    match w.burst with
    | [] => none
    | e :: rest => some { w with burst := rest, published := w.published ++ [e] }
  | .publish i =>
    w.pending[i]?.map fun e =>
      { w with pending := w.pending.eraseIdx i, published := w.published ++ [e] }
  | .subscribe =>
    match w.stream with
    | none => some { w with stream := some (.start w.published) }
    | some _ => none
  | .turn =>
    w.stream.bind fun task =>
      (task.turn responses w.published).map fun task => { w with stream := some task }
  | .fetch env piece =>
    if piece.readsFlows = true ∧ w.burst.isEmpty = false then none
    else
      (dispatch w.daemon env piece.request).map fun h =>
        { w with replies := w.replies ++ [(piece, h.response)] }

def start (rules : Inner) : World := ⟨.new rules, [], [], [], [], none, []⟩

/-- The task reads before the channel has overwritten what it reads. -/
def KeepsUp (w : World) : Action → Prop
  | .turn => ∀ task, w.stream = some task →
      w.published.length ≤ task.rx.next + eventChannelCapacity
  | _ => True

/-- Every change is announced, the events about one subject are published in the order of
its changes, and the client fetches when the subscription is made. -/
def Orderly (w : World) : Action → Prop
  | .perform t => KeepsRules w.daemon t
  | .publish i => ∀ e ∈ w.pending[i]?, ∀ e' ∈ w.pending.take i,
      e.subject = none ∨ e'.subject ≠ e.subject
  | .fetch _ _ => w.stream.isSome = true
  | _ => True

/-- The pieces of this snapshot were fetched. -/
structure Fetched (w : World) (S : Snapshot) : Prop where
  status : (.status, .status S.status) ∈ w.replies
  connections : (.connections, .connections S.conns) ∈ w.replies
  rules : (.rules, .rules S.rules) ∈ w.replies

/-- A client that has loaded its snapshot is in step with the daemon after these events:
it has the same rules and the same paused flag, and flows that the daemon has — all of
them, if there were never more than it keeps. -/
structure InStep (d : DaemonState) (loaded : ClientState) (events : List Event) : Prop where
  rules : ∀ rule, rule ∈ (loaded.replay events).rules ↔ rule ∈ d.rules.list
  paused : (loaded.replay events).paused = d.paused
  conns : ∀ key conn, (loaded.replay events).conns.get? key = some conn →
    d.connections.get? key = some conn
  withinCap : (∀ pre, pre <+: events → (replayConns loaded.conns pre).size ≤ maxConnections) →
    ∀ key, (loaded.replay events).conns.get? key = d.connections.get? key

/-! ## What a step does -/

inductive Does (responses : Codec Response) (w : World) : Action → World → Prop where
  | poll {p : Poll} {d : DaemonState} {events : List Event} (hburst : w.burst = [])
      (hp : w.daemon.perform (.poll p) = some (d, events)) :
      Does responses w (.perform (.poll p))
        { w with daemon := d, committed := w.committed ++ events, burst := events }
  | task {t : Task} {d : DaemonState} {events : List Event} (ht : ∀ p, t ≠ .poll p)
      (hp : w.daemon.perform t = some (d, events)) :
      Does responses w (.perform t)
        { w with daemon := d, committed := w.committed ++ events, pending := w.pending ++ events }
  | publishNext {e : Event} {rest : List Event} (hburst : w.burst = e :: rest) :
      Does responses w .publishNext { w with burst := rest, published := w.published ++ [e] }
  | publish {i : Nat} {e : Event} (he : w.pending[i]? = some e) :
      Does responses w (.publish i)
        { w with pending := w.pending.eraseIdx i, published := w.published ++ [e] }
  | subscribe (hnone : w.stream = none) :
      Does responses w .subscribe { w with stream := some (.start w.published) }
  | turn {t t' : EventTask} (ht : w.stream = some t) (hturn : t.turn responses w.published = some t') :
      Does responses w .turn { w with stream := some t' }
  | fetch {env : Env} {piece : Piece} {h : Handled}
      (hd : dispatch w.daemon env piece.request = some h) :
      Does responses w (.fetch env piece) { w with replies := w.replies ++ [(piece, h.response)] }

theorem step_does {responses : Codec Response} {w w' : World} {a : Action}
    (h : step responses w a = some w') : Does responses w a w' := by
  cases a with
  | perform t =>
    cases t with
    | poll p =>
      simp only [step] at h
      split at h
      · rename_i hburst
        obtain ⟨⟨d, events⟩, hp, rfl⟩ := Option.map_eq_some_iff.mp h
        exact .poll hburst hp
      · cases h
    | _ =>
      simp only [step] at h
      obtain ⟨⟨d, events⟩, hp, rfl⟩ := Option.map_eq_some_iff.mp h
      exact .task (fun p => Task.noConfusion) hp
  | publishNext =>
    simp only [step] at h
    split at h
    · cases h
    · rename_i hburst
      cases h
      exact .publishNext hburst
  | publish i =>
    obtain ⟨e, he, rfl⟩ := Option.map_eq_some_iff.mp h
    exact .publish he
  | subscribe =>
    simp only [step] at h
    split at h
    · rename_i hnone
      cases h
      exact .subscribe hnone
    · cases h
  | turn =>
    obtain ⟨t, ht, h⟩ := Option.bind_eq_some_iff.mp h
    obtain ⟨t', hturn, rfl⟩ := Option.map_eq_some_iff.mp h
    exact .turn ht hturn
  | fetch env piece =>
    simp only [step] at h
    split at h
    · cases h
    · obtain ⟨handled, hd, rfl⟩ := Option.map_eq_some_iff.mp h
      exact .fetch hd

/-! ## The invariant -/

/-- What holds in every run. -/
structure Inv (w : World) : Prop where
  ok : w.daemon.Ok
  burst : ∀ e ∈ w.burst, e.isConn
  pending : ∀ e ∈ w.pending, ¬e.isConn
  carried : ∀ t, w.stream = some t → t.Carried w.published
  /-- A task receives no more than it passes. -/
  bounded : ∀ t, w.stream = some t → t.rx.joined + t.received ≤ t.rx.next

theorem inv_start {rules : Inner} (h : rules.Reachable) : Inv (start rules) where
  ok := DaemonState.ok_new h.inv
  burst _ h := nomatch h
  pending _ h := nomatch h
  carried _ h := nomatch h
  bounded _ h := nomatch h

variable {responses : Codec Response}

theorem inv_step {w w' : World} {a : Action} (h : Inv w) (hs : step responses w a = some w') :
    Inv w' := by
  cases step_does hs with
  | poll hburst hp =>
    have hacc := DaemonState.pollOnce_spec h.ok.filed hp
    exact { h with ok := (DaemonState.perform_view h.ok hp).2, burst := hacc.isConn }
  | task ht hp =>
    obtain ⟨-, hquiet⟩ := DaemonState.perform_frame ht hp
    exact { h with
      ok := (DaemonState.perform_view h.ok hp).2
      pending := List.forall_mem_append.mpr ⟨h.pending, hquiet⟩ }
  | publishNext hburst =>
    -- the event published is the first of the burst, and the rest stays filed
    refine { h with burst := fun e he => ?_, carried := fun t ht => (h.carried t ht).publish _ }
    exact h.burst e (hburst ▸ List.mem_cons_of_mem _ he)
  | publish he =>
    refine { h with pending := fun e' he' => ?_, carried := fun t ht => (h.carried t ht).publish _ }
    exact h.pending e' (List.mem_of_mem_eraseIdx he')
  | subscribe hnone =>
    refine { h with carried := fun t ht => ?_, bounded := fun t ht => ?_ }
    · cases ht
      exact EventTask.carried_start
    · cases ht
      exact Nat.le_refl _
  | turn ht hturn =>
    refine { h with carried := fun t ht' => ?_, bounded := fun t ht' => ?_ }
    · cases ht'
      exact (h.carried _ ht).turn hturn
    · cases ht'
      have hle := h.bounded _ ht
      obtain ⟨hjoined, ⟨-, hnext, hreceived⟩ | ⟨-, hnext, hreceived⟩⟩ := EventTask.turn_received hturn
      · omega
      · omega
  | fetch hd => exact { h with }

theorem inv_run {rules : Inner} {sched : List Action} {w : World} (hrules : rules.Reachable)
    (h : Runs.run (step responses) (start rules) sched = some w) : Inv w :=
  Runs.run_invariant inv_step (inv_start hrules) h

/-! ## Who keeps up -/

/-- The task has received an event for every position that it has passed. -/
def Even (w : World) : Prop :=
  ∀ t, w.stream = some t → t.rx.joined + t.received = t.rx.next

/-- **Step lemma**: a step leaves the task even exactly if it was, and has not lagged. -/
theorem even_step {w w' : World} {a : Action} (h : Inv w) (hs : step responses w a = some w') :
    Even w' ↔ Even w ∧ KeepsUp w a := by
  cases step_does hs with
  | subscribe hnone =>
    refine iff_of_true (fun t ht => ?_) ⟨fun t ht => ?_, trivial⟩
    · cases ht
      rfl
    · rw [hnone] at ht
      cases ht
  | @turn t t' ht hturn =>
    have hle := h.bounded t ht
    have heven : Even w ↔ t.rx.joined + t.received = t.rx.next :=
      ⟨fun h => h t ht, fun h t₁ ht₁ => by rw [ht] at ht₁; cases ht₁; exact h⟩
    have hkeeps : KeepsUp w .turn ↔ w.published.length ≤ t.rx.next + eventChannelCapacity :=
      ⟨fun h => h t ht, fun h t₁ ht₁ => by rw [ht] at ht₁; cases ht₁; exact h⟩
    have heven' : Even { w with stream := some t' } ↔ t'.rx.joined + t'.received = t'.rx.next :=
      ⟨fun h => h t' rfl, fun h t₁ ht₁ => by cases ht₁; exact h⟩
    rw [heven, hkeeps, heven']
    obtain ⟨hjoined, ⟨hkept, hnext, hreceived⟩ | ⟨hlag, hnext, hreceived⟩⟩ :=
      EventTask.turn_received hturn
    · omega
    · omega
  | _ => exact (and_iff_left trivial).symm

/-- **Streams**: a task that goes on, and has taken everything off the channel, has written
all that was published since it subscribed exactly if it has never lagged. -/
theorem complete_iff {rules : Inner} {sched : List Action} {w : World} {task : EventTask}
    (hrules : rules.Reachable) (hrun : Runs.run (step responses) (start rules) sched = some w)
    (htask : w.stream = some task) (hended : task.ended = none)
    (hnext : task.rx.next = w.published.length) :
    task.written.map Prod.fst = w.published.drop task.rx.joined ↔
      Runs.AlongRun (step responses) KeepsUp (start rules) sched := by
  have hstart : Even (start rules) := fun t ht => nomatch ht
  rw [← Runs.run_iff_along inv_step even_step (inv_start hrules) hstart hrun]
  have hreceived := EventTask.received_of_going hended
  have hle := task.rx.le
  constructor
  · intro hall t ht
    rw [htask] at ht
    cases ht
    have hlength := congrArg List.length hall
    rw [List.length_map, List.length_drop] at hlength
    omega
  · intro heven
    rw [((inv_run hrules hrun).carried task htask).complete hended (heven task htask), hnext,
      List.take_of_length_le]
    rw [List.length_drop]

/-! ## What is told -/

/-- The reply is what these words tell. -/
def ReplyTold (words : Subject → Option Event) : Piece × Response → Prop
  | (.status, .status status) => PausedTold words status.paused
  | (.connections, .connections conns) => ∃ m, Filed m ∧ FlowsTold words m ∧ conns = m.vals
  | (.rules, .rules rules) => RulesTold words rules
  | _ => True

theorem replyTold_of_dispatch {words : Subject → Option Event} {d : DaemonState} {env : Env}
    {piece : Piece} {h : Handled} (hok : d.Ok) (ht : Tells words d.view)
    (hd : dispatch d env piece.request = some h) : ReplyTold words (piece, h.response) := by
  cases piece with
  | status =>
    cases hd
    exact ht.paused
  | connections =>
    cases hd
    exact ⟨d.connections, hok.filed, ht.flows, rfl⟩
  | rules =>
    cases hd
    exact ht.rules
  | _ =>
    cases hd
    trivial

/-- The last words of a log of changes, from those that would have told the view. -/
def lastWords (v₀ : View) (log : List Event) : Subject → Option Event :=
  replay Event.word (wordsOf v₀) log

/-- The reply is from a state no older than the subscription. -/
def Recent (v₀ : View) (w : World) (t : EventTask) (reply : Piece × Response) : Prop :=
  ∃ seen, seen <+: w.committed ∧ ReplyTold (lastWords v₀ seen) reply ∧
    ∀ subject, writes Event.word subject (w.published.take t.rx.joined) <+:
      writes Event.word subject seen

/-- What holds in orderly runs: the changes tell the state, they are or will be published —
each subject's in their order —, and every reply is recent. -/
structure Told (v₀ : View) (w : World) : Prop where
  tells : Tells (lastWords v₀ w.committed) w.daemon.view
  announced : ∀ subject, writes Event.word subject (w.published ++ w.burst ++ w.pending) =
    writes Event.word subject w.committed
  replies : ∀ reply ∈ w.replies, ∃ t, w.stream = some t ∧ Recent v₀ w t reply

theorem told_start {rules : Inner} (h : rules.Reachable) :
    Told (start rules).daemon.view (start rules) where
  tells := tells_wordsOf h.inv.ids
  announced _ := rfl
  replies _ h := nomatch h

/-- Later changes and publications leave a reply recent. -/
theorem Recent.extend {v₀ : View} {w w' : World} {t t' : EventTask} {reply : Piece × Response}
    (h : Recent v₀ w t reply) (hcommitted : w.committed <+: w'.committed)
    (hpublished : w.published <+: w'.published) (hjoined : t'.rx.joined = t.rx.joined)
    (hle : t.rx.joined ≤ w.published.length) : Recent v₀ w' t' reply := by
  obtain ⟨seen, hseen, htold, hpast⟩ := h
  refine ⟨seen, hseen.trans hcommitted, htold, fun subject => ?_⟩
  obtain ⟨more, hmore⟩ := hpublished
  rw [hjoined, ← hmore, List.take_append_of_le_length hle]
  exact hpast subject

section Told

variable {v₀ : View}

/-- A step that keeps the task's subscription leaves the replies recent. -/
theorem Told.replies_extend {w w' : World} (hi : Inv w) (h : Told v₀ w)
    (hcommitted : w.committed <+: w'.committed) (hpublished : w.published <+: w'.published)
    (hreplies : w'.replies = w.replies)
    (hstream : ∀ t, w.stream = some t → ∃ t', w'.stream = some t' ∧ t'.rx.joined = t.rx.joined) :
    ∀ reply ∈ w'.replies, ∃ t, w'.stream = some t ∧ Recent v₀ w' t reply := by
  intro reply hreply
  rw [hreplies] at hreply
  obtain ⟨t, ht, hrecent⟩ := h.replies reply hreply
  obtain ⟨t', ht', hjoined⟩ := hstream t ht
  exact ⟨t', ht', hrecent.extend hcommitted hpublished hjoined (t.rx.le.trans (hi.carried t ht).1)⟩

/-- The burst of a poll may go before what is pending. -/
theorem Told.announced_burst {w : World} (hi : Inv w) (h : Told v₀ w) (hburst : w.burst = [])
    {events : List Event} (hconn : ∀ e ∈ events, e.isConn) (subject : Subject) :
    writes Event.word subject (w.published ++ events ++ w.pending) =
      writes Event.word subject (w.committed ++ events) := by
  have hswap := @writes_comm _ _ _ _ Event.word subject events w.pending fun e he e' he' =>
    written_word_or (subject_ne_of_isConn (hconn e he) (hi.pending e' he')) subject
  have hold := h.announced subject
  rw [hburst, List.append_nil] at hold
  rw [List.append_assoc, writes_append, hswap, ← writes_append, ← List.append_assoc,
    writes_append, hold, ← writes_append]

/-- A pending event may go before what it overtakes: the burst, and earlier changes of other
subjects. -/
theorem Told.announced_publish {w : World} (hi : Inv w) (h : Told v₀ w) {i : Nat} {e : Event}
    (he : w.pending[i]? = some e)
    (hearlier : ∀ e' ∈ w.pending.take i, e.subject = none ∨ e'.subject ≠ e.subject)
    (subject : Subject) :
    writes Event.word subject (w.published ++ [e] ++ w.burst ++ w.pending.eraseIdx i) =
      writes Event.word subject w.committed := by
  obtain ⟨hi', rfl⟩ := List.getElem?_eq_some_iff.mp he
  have hpending : w.pending = w.pending.take i ++ w.pending[i] :: w.pending.drop (i + 1) := by
    rw [← List.drop_eq_getElem_cons hi', List.take_append_drop]
  have hover : ∀ e' ∈ w.burst ++ w.pending.take i,
      written Event.word subject e' = none ∨ written Event.word subject w.pending[i] = none := by
    intro e' he'
    rcases List.mem_append.mp he' with hburst | hbefore
    · exact written_word_or (subject_ne_of_isConn (hi.burst e' hburst)
        (hi.pending _ (List.getElem_mem hi'))) subject
    · exact written_word_or (hearlier e' hbefore) subject
  have hmove := writes_move hover (w.pending.drop (i + 1))
  rw [← h.announced subject, List.eraseIdx_eq_take_drop_succ]
  conv_rhs => rw [hpending]
  simp only [List.append_assoc, List.cons_append, List.nil_append] at hmove ⊢
  rw [writes_append, ← hmove, ← writes_append]

/-- **Step lemma.** -/
theorem told_step {w w' : World} {a : Action} (hi : Inv w) (h : Told v₀ w) (ho : Orderly w a)
    (hs : step responses w a = some w') : Told v₀ w' := by
  cases step_does hs with
  | @poll p d events hburst hp =>
    have hconn := (DaemonState.pollOnce_spec hi.ok.filed hp).isConn
    refine ⟨?_, fun subject => ?_, h.replies_extend hi (List.prefix_append _ _) (List.prefix_refl _)
      rfl fun t ht => ⟨t, ht, rfl⟩⟩
    · show Tells (replay Event.word (wordsOf v₀) (w.committed ++ events)) d.view
      rw [replay_append]
      exact perform_tells (t := .poll p) hi.ok trivial h.tells hp
    · exact h.announced_burst hi hburst hconn subject
  | @task t d events ht hp =>
    refine ⟨?_, fun subject => ?_, h.replies_extend hi (List.prefix_append _ _) (List.prefix_refl _)
      rfl fun t ht => ⟨t, ht, rfl⟩⟩
    · show Tells (replay Event.word (wordsOf v₀) (w.committed ++ events)) d.view
      rw [replay_append]
      exact perform_tells hi.ok ho h.tells hp
    · show writes Event.word subject (w.published ++ w.burst ++ (w.pending ++ events)) = _
      rw [← List.append_assoc, writes_append, h.announced subject, ← writes_append]
  | @publishNext e rest hburst =>
    refine ⟨h.tells, fun subject => ?_, h.replies_extend hi (List.prefix_refl _)
      (List.prefix_append _ _) rfl fun t ht => ⟨t, ht, rfl⟩⟩
    rw [← h.announced subject, hburst]
    simp only [List.append_assoc, List.singleton_append]
  | @publish i e he =>
    refine ⟨h.tells, fun subject => ?_, h.replies_extend hi (List.prefix_refl _)
      (List.prefix_append _ _) rfl fun t ht => ⟨t, ht, rfl⟩⟩
    exact h.announced_publish hi he (ho _ he) subject
  | subscribe hnone =>
    -- nothing was fetched before the subscription
    refine ⟨h.tells, h.announced, fun reply hreply => ?_⟩
    obtain ⟨t, ht, -⟩ := h.replies reply hreply
    rw [hnone] at ht
    cases ht
  | @turn t t' ht hturn =>
    refine ⟨h.tells, h.announced, h.replies_extend hi (List.prefix_refl _) (List.prefix_refl _) rfl
      fun t₁ ht₁ => ⟨t', rfl, ?_⟩⟩
    rw [ht] at ht₁
    cases ht₁
    exact (EventTask.turn_received hturn).1
  | @fetch env piece handled hd =>
    refine ⟨h.tells, h.announced, fun reply hreply => ?_⟩
    rcases List.mem_append.mp hreply with hold | hnew
    · exact h.replies reply hold
    · rw [List.mem_singleton.mp hnew]
      obtain ⟨t, ht⟩ := Option.isSome_iff_exists.mp ho
      refine ⟨t, ht, w.committed, List.prefix_refl _, replyTold_of_dispatch hi.ok h.tells hd,
        fun subject => ?_⟩
      show writes Event.word subject (w.published.take t.rx.joined) <+: _
      rw [← h.announced subject, List.append_assoc, writes_append]
      exact ((List.take_prefix _ _).filterMap _).trans (List.prefix_append _ _)

theorem told_run {rules : Inner} {sched : List Action} {w : World} (hrules : rules.Reachable)
    (hrun : Runs.run (step responses) (start rules) sched = some w)
    (ho : Runs.AlongRun (step responses) Orderly (start rules) sched) :
    Told (start rules).daemon.view w := by
  have hstep : ∀ {s s' : World} {a : Action}, Inv s ∧ Told (start rules).daemon.view s →
      Orderly s a → step responses s a = some s' →
      Inv s' ∧ Told (start rules).daemon.view s' := fun h ho hs =>
    ⟨inv_step h.1 hs, told_step h.1 h.2 ho hs⟩
  exact (Runs.run_invariant_along hstep ⟨inv_start hrules, told_start hrules⟩ hrun ho).2

/-- **Catching up**: when everything is published, a reply and the events since the
subscription tell what the daemon's changes tell. -/
theorem Told.caughtUp {w : World} {task : EventTask} {seen : List Event} (h : Told v₀ w)
    (hburst : w.burst = []) (hpending : w.pending = []) (hseen : seen <+: w.committed)
    (hpast : ∀ subject, writes Event.word subject (w.published.take task.rx.joined) <+:
      writes Event.word subject seen) (subject : Subject) :
    replay Event.word (lastWords v₀ seen) (w.published.drop task.rx.joined) subject =
      lastWords v₀ w.committed subject := by
  have hall := h.announced subject
  rw [hburst, hpending, List.append_nil, List.append_nil] at hall
  have hsplit : w.published.take task.rx.joined ++ w.published.drop task.rx.joined = w.published :=
    List.take_append_drop _ _
  have hstarts : writes Event.word subject seen <+: writes Event.word subject
      (w.published.take task.rx.joined ++ w.published.drop task.rx.joined) := by
    rw [hsplit, hall]
    exact hseen.filterMap _
  unfold lastWords
  rw [replay_snapshot (hpast subject) hstarts, hsplit]
  exact replay_congr hall

end Told

/-- **In step**: a client that loads what it has fetched, and folds what was published since
it subscribed, is in step with a daemon that has published everything. -/
theorem Told.inStep {v₀ : View} {w : World} {task : EventTask} (h : Told v₀ w)
    (htask : w.stream = some task) (hburst : w.burst = []) (hpending : w.pending = [])
    {S : Snapshot} (hS : Fetched w S) (client : ClientState) :
    InStep w.daemon (client.load S) (w.published.drop task.rx.joined) := by
  -- what a piece tells, together with the events, is what the daemon's state is told by
  have hpiece : ∀ reply ∈ w.replies, ∃ words, ReplyTold words reply ∧ ∀ subject,
      replay Event.word words (w.published.drop task.rx.joined) subject =
        lastWords v₀ w.committed subject := by
    intro reply hreply
    obtain ⟨t, ht, seen, hseen, htold, hpast⟩ := h.replies reply hreply
    rw [htask] at ht
    cases ht
    exact ⟨_, htold, h.caughtUp hburst hpending hseen hpast⟩
  obtain ⟨ruleWords, hrules, hruleWords⟩ := hpiece _ hS.rules
  obtain ⟨pausedWords, hpaused, hpausedWords⟩ := hpiece _ hS.status
  obtain ⟨flowWords, ⟨m, hfiled, hflows, hconns⟩, hflowWords⟩ := hpiece _ hS.connections
  have hperm : S.conns.Perm m.vals := hconns ▸ List.Perm.refl _
  have hnodup := hfiled.nodup_keys hperm
  have hloaded : FlowsTold flowWords (client.load S).conns := fun key => by
    rw [ClientState.load_conns hnodup, hfiled.find? hperm, hflows key]
  refine ⟨?_, ?_, fun key conn hget => ?_, fun hcap key => ?_⟩
  · have hload : RulesTold ruleWords (client.load S).rules := by
      rw [ClientState.load_rules]
      exact hrules
    exact (replay_rules_told hload _).unique h.tells.rules hruleWords
  · have hload : PausedTold pausedWords (client.load S).paused := by
      rw [ClientState.load_paused]
      exact hpaused
    have hclient := replay_paused_told hload (w.published.drop task.rx.joined)
    have hdaemon : PausedTold (lastWords v₀ w.committed) w.daemon.paused := h.tells.paused
    unfold PausedTold at hclient hdaemon
    rw [hpausedWords, hdaemon] at hclient
    exact (Event.pausedChanged.inj (Option.some.inj hclient)).symm
  · have hshown := replay_conns_shown (ClientState.load_queued hnodup)
      (fun key conn hget => (hloaded key).symm.trans hget) (w.published.drop task.rx.joined) key conn hget
    rw [hflowWords] at hshown
    exact (h.tells.flows key).trans hshown
  · rw [replay_conns hcap, hloaded.replay _ key, hflowWords]
    exact (h.tells.flows key).symm

open EventStream (pausedCodec)

instance (w : World) : (a : Action) → Decidable (KeepsUp w a)
  | .turn =>
    match h : w.stream with
    | none => isTrue fun task htask => by rw [h] at htask; cases htask
    | some task =>
      decidable_of_iff (w.published.length ≤ task.rx.next + eventChannelCapacity) (by
        rw [KeepsUp, h]
        simp)
  | .perform _ | .publishNext | .publish _ | .subscribe | .fetch _ _ => isTrue trivial

instance (w : World) (a : Action) : Decidable (Orderly w a) := by
  cases a with
  | perform t =>
    unfold Orderly KeepsRules
    dsimp only
    split <;> infer_instance
  | publish i =>
    unfold Orderly
    infer_instance
  | fetch env piece =>
    unfold Orderly
    infer_instance
  | _ => exact instDecidableTrue

/-- The snapshot of a daemon that has just started. -/
def freshSnapshot : Snapshot := Overlap.snapshotOf (.new .firstStart) .epoch

/-- The client subscribes, and fetches. -/
def connect : List Action :=
  [.subscribe, .fetch .epoch .status, .fetch .epoch .connections, .fetch .epoch .rules]

/-- A client pauses the daemon. -/
def pause : List Action := [.perform (.handle .epoch (.setPaused true)), .publish 0]

/-- A pause that the subscriber receives. -/
def attended : List Action := connect ++ pause ++ [.turn]

theorem attended_runs :
    (Runs.run (step pausedCodec) (start .firstStart) attended).isSome = true := by
  decide +kernel

theorem attended_streams :
    ((Runs.run (step pausedCodec) (start .firstStart) attended).get
      attended_runs).stream.isSome = true := by
  decide +kernel

/-- Block `/usr/bin/curl`. -/
def blockCurl : Request := .addRule ⟨"curl", .ofString "/usr/bin/curl", .block, true, none⟩

/-- What the pauses leave: so many more events. -/
structure Paused (w : World) (n : Nat) (w' : World) : Prop where
  published : w'.published = w.published ++ List.replicate n (.pausedChanged true)
  rules : w'.daemon.rules = w.daemon.rules
  burst : w'.burst = w.burst
  pending : w'.pending = []
  stream : w'.stream = w.stream
  replies : w'.replies = w.replies

theorem pause_run {w : World} (hpending : w.pending = []) :
    ∃ w', Runs.run (step pausedCodec) w pause = some w' ∧ Paused w 1 w' := by
  refine ⟨{ w with
    daemon := { w.daemon with paused := true }
    committed := w.committed ++ [.pausedChanged true]
    pending := []
    published := w.published ++ [.pausedChanged true] }, ?_, rfl, rfl, rfl, rfl, rfl, rfl⟩
  simp [pause, Runs.run, step, DaemonState.perform, dispatch, hpending]

theorem pauses_run (n : Nat) {w : World} (hpending : w.pending = []) :
    ∃ w', Runs.run (step pausedCodec) w (List.replicate n pause).flatten = some w' ∧
      Paused w n w' := by
  induction n generalizing w with
  | zero => exact ⟨w, rfl, (List.append_nil _).symm, rfl, rfl, hpending, rfl, rfl⟩
  | succ n ih =>
    obtain ⟨m, hm, hone⟩ := pause_run hpending
    obtain ⟨w', hw', hrest⟩ := ih hone.pending
    refine ⟨w', ?_, ?_, hrest.rules.trans hone.rules, hrest.burst.trans hone.burst, hrest.pending,
      hrest.stream.trans hone.stream, hrest.replies.trans hone.replies⟩
    · rw [List.replicate_succ, List.flatten_cons, Runs.run_append, hm]
      exact hw'
    · rw [hrest.published, hone.published, List.append_assoc, List.replicate_append_replicate,
        Nat.add_comm]

/-- The rest of the channel are pauses, which the task has still to receive. -/
structure Behind (published : List Event) (t : EventTask) (n : Nat) : Prop where
  ended : t.ended = none
  next : t.rx.next + n = published.length
  kept : n ≤ eventChannelCapacity
  rest : published.drop t.rx.next = List.replicate n (.pausedChanged true)

/-- A turn receives the next pause. -/
theorem turn_pause {published : List Event} {t : EventTask} {n : Nat}
    (h : Behind published t (n + 1)) :
    ∃ t', t.turn pausedCodec published = some t' ∧ Behind published t' n ∧
      t'.rx.joined = t.rx.joined ∧
      t'.written.map Prod.fst = t.written.map Prod.fst ++ [.pausedChanged true] := by
  obtain ⟨hended, hnext, hkept, hrest⟩ := h
  -- the event under the cursor is still kept, so this turn receives it
  have hget : published[t.rx.next]? = some (.pausedChanged true) := by
    have hhead := congrArg List.head? hrest
    rwa [List.head?_drop, List.replicate_succ] at hhead
  obtain ⟨rx, hrecv⟩ := @Broadcast.Subscriber.recv_of_kept _ eventChannelCapacity published t.rx
    (.pausedChanged true) (by omega) hget
  have hsucc := (Broadcast.Subscriber.recv_value_next hrecv).1
  have hturn : t.turn pausedCodec published = some { t with
      rx := rx, written := t.written ++
        [(.pausedChanged true, Frames.frame EventStream.pausedBody)] } := by
    unfold EventTask.turn
    rw [hended, hrecv]
    rfl
  have hnext' : rx.next + n = published.length := by omega
  refine ⟨_, hturn, ⟨hended, hnext', by omega, ?_⟩, Broadcast.Subscriber.joined_of_recv hrecv, ?_⟩
  · show published.drop rx.next = _
    rw [hsucc, ← List.tail_drop, hrest, List.replicate_succ, List.tail_cons]
  · rw [List.map_append]
    rfl

theorem turns_run (n : Nat) {w : World} {t : EventTask} (ht : w.stream = some t)
    (h : Behind w.published t n) :
    ∃ t', Runs.run (step pausedCodec) w (List.replicate n .turn) =
        some { w with stream := some t' } ∧ Behind w.published t' 0 ∧
      t'.rx.joined = t.rx.joined ∧
      t'.written.map Prod.fst = t.written.map Prod.fst ++ List.replicate n (.pausedChanged true) := by
  induction n generalizing w t with
  | zero => exact ⟨t, by rw [← ht]; rfl, h, rfl, (List.append_nil _).symm⟩
  | succ n ih =>
    obtain ⟨t₁, hturn, hbehind, hjoined, hwritten⟩ := turn_pause h
    have hstep : step pausedCodec w .turn = some { w with stream := some t₁ } := by
      simp only [step]
      rw [ht, Option.bind_some, hturn]
      rfl
    obtain ⟨t', hrun, hend, hjoined', hwritten'⟩ := @ih { w with stream := some t₁ } t₁ rfl hbehind
    refine ⟨t', ?_, hend, hjoined'.trans hjoined, ?_⟩
    · rw [List.replicate_succ, Runs.run_cons, hstep]
      exact hrun
    · rw [hwritten', hwritten, List.append_assoc, List.singleton_append, ← List.replicate_succ]

/-- The client's rules after pauses. -/
theorem replay_pauses_rules (s : ClientState) (n : Nat) :
    (s.replay (List.replicate n (.pausedChanged true))).rules = s.rules := by
  induction n generalizing s with
  | zero => rfl
  | succ n ih => exact ih (s.applyEvent (.pausedChanged true))

/-- The rule is announced, and the subscriber has not taken a turn. -/
def announce : List Action :=
  connect ++ [.perform (.handle .epoch blockCurl), .publish 0]

/-- A rule is added, and before the subscriber's next turn the daemon is paused as often as
the channel has room. -/
def overrun : List Action :=
  announce ++ (List.replicate eventChannelCapacity pause).flatten ++
    List.replicate (eventChannelCapacity + 1) .turn

theorem announce_runs :
    (Runs.run (step pausedCodec) (start .firstStart) announce).isSome = true := by
  decide +kernel

def announced : World := (Runs.run (step pausedCodec) (start .firstStart) announce).get announce_runs

theorem announced_run :
    Runs.run (step pausedCodec) (start .firstStart) announce = some announced :=
  (Option.some_get announce_runs).symm

theorem announced_fetched : Fetched announced freshSnapshot :=
  ⟨by decide +kernel, by decide +kernel, by decide +kernel⟩

theorem announced_rule : ∃ rule, announced.daemon.rules.list = [rule] ∧
    announced.published = [.ruleAdded rule] := by
  have hlist : announced.published = announced.daemon.rules.list.map .ruleAdded := by decide +kernel
  obtain ⟨rule, hrule⟩ : ∃ rule, announced.daemon.rules.list = [rule] :=
    List.length_eq_one_iff.mp (by decide +kernel)
  exact ⟨rule, hrule, by rw [hlist, hrule]; rfl⟩

theorem announced_stream : announced.stream = some (.start []) := rfl

end Lagging

end TravelMode
