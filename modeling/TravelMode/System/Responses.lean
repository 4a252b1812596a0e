import TravelMode.Daemon.Ipc
import TravelMode.System.Framing
import TravelMode.System.Overlap

/-!
# One response per request

serde fails on a path that is not UTF-8, and `write_frame` then writes nothing. The paths
of rules come out of JSON; those of executables come from `/proc`, where they are any
bytes.

- `Watched`: the daemon, and a task in `stream_events`.
- `PathsInv`: every rule, stored or announced, has a UTF-8 path. Every step keeps it.
- `one_response_iff`: exactly when a request is answered, and when a stream carries every
  event; `foreign_path_unanswered` is a request that one process leaves without an answer.
-/

namespace TravelMode

/-- `serde_json` reads the paths of rules out of JSON strings. -/
def RulesJson.DecodesUtf8 (J : RulesJson) : Prop :=
  ∀ text p, J.fromStr text = some p → ∀ r ∈ p.rules, r.exePath.isUtf8 = true

/-- The executable that an event shows. -/
def Event.exe : Event → Option PathBuf
  | .connectionOpened conn => conn.exe
  | .connectionUpdated conn => conn.exe
  | .processStarted info => info.exe
  | _ => none

namespace Responses

/-- The executable, if there is one, has a UTF-8 path. -/
def Utf8 (exe : Option PathBuf) : Prop := ∀ p, exe = some p → p.isUtf8 = true

/-! ## The daemon and a subscriber -/

structure Watched where
  world : Overlap.World
  stream : Option EventTask

inductive Step where
  | daemon (a : Overlap.Action)
  | subscribe
  | turn

def step (responses : Codec Response) (s : Watched) : Step → Option Watched
  | .daemon a => (Overlap.step s.world a).map fun world => { s with world := world }
  | .subscribe =>
    match s.stream with
    | none => some { s with stream := some (.start s.world.published) }
    | some _ => none
  | .turn =>
    s.stream.bind fun task =>
      (task.turn responses s.world.published).map fun task => { s with stream := some task }

def start (rules : Inner) : Watched := ⟨Overlap.start rules, none⟩

/-- The request of this step came over the socket. -/
def OverIpc (requests : Codec Request) (_ : Watched) : Step → Prop
  | .daemon (.perform (.handle _ req)) => ∃ body, requests.decode body = .ok req
  | _ => True

/-! ## Paths of rules -/

/-- The event shows no rule, or one with a UTF-8 path. -/
def RuleUtf8 (e : Event) : Prop := ∀ rule, e = .ruleAdded rule → rule.exePath.isUtf8 = true

structure PathsInv (w : Overlap.World) : Prop where
  filed : Filed w.daemon.connections
  rules : ∀ r ∈ w.daemon.rules.rules, r.exePath.isUtf8 = true
  outbox : ∀ e ∈ w.outbox, RuleUtf8 e
  published : ∀ e ∈ w.published, RuleUtf8 e

theorem ruleUtf8_of_isConn {e : Event} (h : e.isConn) : RuleUtf8 e := by
  rintro rule rfl
  cases h

/-- What is in a message is UTF-8 if the executable in it is. -/
theorem paths_utf8_iff {e : Event} (h : RuleUtf8 e) :
    (∀ p ∈ e.paths, p.isUtf8 = true) ↔ Utf8 e.exe := by
  cases e with
  | connectionOpened conn => simp [Event.paths, Event.exe, Utf8]
  | connectionUpdated conn => simp [Event.paths, Event.exe, Utf8]
  | processStarted info => simp [Event.paths, Event.exe, Utf8]
  | ruleAdded rule => simp [Event.paths, Event.exe, Utf8, h rule rfl]
  | _ => simp [Event.paths, Event.exe, Utf8]

/-- Handling a request brings no path but its own. -/
theorem dispatch_paths {d : DaemonState} {env : Env} {req : Request} {handled : Handled}
    (hrules : ∀ r ∈ d.rules.rules, r.exePath.isUtf8 = true)
    (hreq : ∀ p ∈ req.paths, p.isUtf8 = true) (h : dispatch d env req = some handled) :
    (∀ r ∈ handled.state.rules.rules, r.exePath.isUtf8 = true) ∧
      ∀ e ∈ handled.published, RuleUtf8 e := by
  rcases dispatch_cases h with ⟨input, rule, rules, rfl, hadd, hstate, hpub⟩ |
    ⟨id, rule, rules, rfl, hrem, hstate, hpub⟩ | ⟨paused, rfl, hstate, hpub⟩ | ⟨hstate, hpub⟩
  · rw [hstate, hpub]
    obtain ⟨expiresAt, -, -, hrule, rfl⟩ := Inner.add_eq_some.mp hadd
    -- the path of the new rule is that of the request
    have hpath : rule.exePath.isUtf8 = true := by
      rw [hrule]
      exact hreq input.exePath (List.mem_singleton.mpr rfl)
    constructor
    · intro r hr
      rcases List.mem_append.mp hr with hr | hr
      · exact hrules r (List.mem_filter.mp hr).1
      · rw [List.mem_singleton.mp hr]
        exact hpath
    · intro e he rule' heq
      rw [List.mem_singleton.mp he] at heq
      cases heq
      exact hpath
  · rw [hstate, hpub]
    obtain ⟨-, -, hst⟩ := Inner.remove_eq_some hrem
    constructor
    · intro r hr
      refine hrules r ?_
      rw [hst] at hr
      exact List.mem_of_mem_eraseP hr
    · intro e he rule heq
      rw [List.mem_singleton.mp he] at heq
      cases heq
  · rw [hstate, hpub]
    refine ⟨hrules, fun e he rule heq => ?_⟩
    rw [List.mem_singleton.mp he] at heq
    cases heq
  · rw [hstate, hpub]
    exact ⟨hrules, List.forall_mem_nil _⟩

/-- The request of this task, if it handles one, shows UTF-8 paths only. -/
def TaskUtf8 : Task → Prop
  | .handle _ req => ∀ p ∈ req.paths, p.isUtf8 = true
  | _ => True

/-- One task brings no rule with another path. -/
theorem perform_paths {w : Overlap.World} {d : DaemonState} {events : List Event} {t : Task}
    (h : PathsInv w) (ht : TaskUtf8 t) (hp : w.daemon.perform t = some (d, events)) :
    Filed d.connections ∧ (∀ r ∈ d.rules.rules, r.exePath.isUtf8 = true) ∧
      ∀ e ∈ events, RuleUtf8 e := by
  cases t with
  -- the poller changes flows only; the reaper and the handlers are the ones that touch rules
  | poll p =>
    have hacc := DaemonState.pollOnce_spec h.filed hp
    have hconns : d.connections = replayConns w.daemon.connections events := hacc.conns
    have hrules : d.rules = w.daemon.rules := hacc.rules
    rw [hconns, hrules]
    exact ⟨filed_replayConns h.filed events, h.rules, fun e he => ruleUtf8_of_isConn (hacc.isConn e he)⟩
  | scan processes started exited =>
    cases hp
    refine ⟨h.filed, h.rules, fun e he => ?_⟩
    rcases mem_scanEvents he with ⟨info, rfl⟩ | ⟨pid, rfl⟩
    · exact fun rule heq => nomatch heq
    · exact fun rule heq => nomatch heq
  | verdict fs clock payload =>
    obtain ⟨rfl, hd⟩ := DaemonState.perform_verdict hp
    rw [hd]
    exact ⟨h.filed, h.rules, List.forall_mem_nil _⟩
  | handle env req =>
    obtain ⟨handled, hd, he⟩ := Option.map_eq_some_iff.mp hp
    cases he
    rw [(DaemonState.dispatch_frame hd).1]
    exact ⟨h.filed, dispatch_paths h.rules ht hd⟩
  | reap now =>
    cases hp
    refine ⟨h.filed, fun r hr => h.rules r (List.mem_filter.mp hr).1, fun e he rule heq => ?_⟩
    obtain ⟨id, -, rfl⟩ := List.mem_map.mp he
    cases heq

theorem pathsInv_step {w w' : Overlap.World} {a : Overlap.Action} (h : PathsInv w)
    (ha : ∀ t, a = .perform t → TaskUtf8 t) (hs : Overlap.step w a = some w') : PathsInv w' := by
  cases a with
  | perform t =>
    obtain ⟨⟨d, events⟩, hp, rfl⟩ := Option.map_eq_some_iff.mp hs
    obtain ⟨hfiled, hrules, hevents⟩ := perform_paths h (ha t rfl) hp
    dsimp only
    split
    · exact ⟨hfiled, hrules, h.outbox, List.forall_mem_append.mpr ⟨h.published, hevents⟩⟩
    · exact ⟨hfiled, hrules, List.forall_mem_append.mpr ⟨h.outbox, hevents⟩, h.published⟩
  | publish i =>
    obtain ⟨e, he, rfl⟩ := Option.map_eq_some_iff.mp hs
    refine ⟨h.filed, h.rules, fun e' he' => h.outbox e' (List.mem_of_mem_eraseIdx he'), ?_⟩
    refine List.forall_mem_append.mpr ⟨h.published, fun e' he' => ?_⟩
    rw [List.mem_singleton.mp he']
    exact h.outbox e (List.mem_of_getElem? he)

/-! ## Requests -/

/-- `handle_client` writes the one frame of what `dispatch` answers. -/
def Answered (requests : Codec Request) (responses : Codec Response) (d : DaemonState) (env : Env)
    (req : Request) (published : List Event) (chunks : List (List UInt8)) : Prop :=
  ∃ handled body, dispatch d env req = some handled ∧
    responses.encode handled.response = .ok body ∧
    handleClient requests responses d env published chunks =
      .closed (Frames.frame body) (some handled) .closed

/-- chrono has a duration of so many seconds. -/
def LifetimeOk (ttl : Option UInt64) : Prop :=
  ∀ secs, ttl = some secs → -(i64Max / 1000) ≤ asI64 secs ∧ asI64 secs ≤ i64Max / 1000

/-- What a request needs to be answered: the executables that its answer shows are UTF-8,
and `RuleStore::add` can represent the lifetime and the next id. -/
def Answerable (d : DaemonState) : Request → Prop
  | .getProcesses => ∀ info ∈ d.processes.vals, Utf8 info.exe
  | .getConnections => ∀ conn ∈ d.connections.vals, Utf8 conn.exe
  | .getTop => ∀ key first, (groupOf d.connections.vals key).head? = some first → Utf8 first.exe
  | .addRule rule => LifetimeOk rule.ttlSecs ∧ d.rules.nextId + 1 < u64Bound
  | _ => True

theorem ruleExpiry_isSome_iff {ttl : Option UInt64} {now : DateTime} :
    (ruleExpiry ttl now).isSome = true ↔ LifetimeOk ttl := by
  cases ttl with
  | none => simp [ruleExpiry, LifetimeOk]
  | some secs =>
    rw [Option.isSome_iff_exists, exists_ruleExpiry_iff]
    simp only [LifetimeOk, Option.some.injEq, forall_eq']

theorem add_isSome_iff {st : Inner} {rule : RuleInput} {now : DateTime} :
    (st.add rule now).isSome = true ↔ LifetimeOk rule.ttlSecs ∧ st.nextId + 1 < u64Bound := by
  rw [← @ruleExpiry_isSome_iff _ now, Inner.add]
  cases ruleExpiry rule.ttlSecs now with
  | none => simp
  | some expiresAt =>
    by_cases hnext : st.nextId + 1 < u64Bound
    · simp [hnext]
    · simp [hnext]

/-- Only a rule that the store cannot represent makes `dispatch` panic. -/
theorem dispatch_isSome {d : DaemonState} (env : Env) {req : Request} (h : Answerable d req) :
    ∃ handled, dispatch d env req = some handled := by
  cases req with
  | addRule rule =>
    obtain ⟨added, hadd⟩ := Option.isSome_iff_exists.mp ((@add_isSome_iff _ _ env.now).mpr h)
    exact ⟨_, Option.map_eq_some_iff.mpr ⟨added, hadd, rfl⟩⟩
  | removeRule id =>
    simp only [dispatch]
    split <;> exact ⟨_, rfl⟩
  | _ => exact ⟨_, rfl⟩

theorem filterMap_utf8_iff {α : Type} {exe : α → Option PathBuf} {values : List α} :
    (∀ p ∈ values.filterMap exe, p.isUtf8 = true) ↔ ∀ v ∈ values, Utf8 (exe v) := by
  constructor
  · intro h v hv p hp
    exact h p (List.mem_filterMap.mpr ⟨v, hv, hp⟩)
  · intro h p hp
    obtain ⟨v, hv, hp⟩ := List.mem_filterMap.mp hp
    exact h v hv p hp

/-- The executables that `top` shows are those of the first connections. -/
theorem topApps_utf8_iff {rules : Inner} {now : DateTime} {conns : List ConnectionInfo} :
    (∀ usage ∈ topApps rules now conns, Utf8 usage.exe) ↔
      ∀ key first, (groupOf conns key).head? = some first → Utf8 first.exe := by
  have hexe : ∀ usage, usage ∈ topApps rules now conns ↔
      ∃ key group, usageOf (groupOf conns key) = some group ∧ flagUsage rules now group = usage := by
    intro usage
    rw [topApps, sortUsage, List.mem_mergeSort, List.mem_map]
    constructor
    · rintro ⟨group, hgroup, rfl⟩
      obtain ⟨key, hkey⟩ := KeyedMap.mem_vals_iff.mp hgroup
      exact ⟨key, group, get?_topGroups conns key ▸ hkey, rfl⟩
    · rintro ⟨key, group, hgroup, rfl⟩
      exact ⟨group, KeyedMap.mem_vals_iff.mpr ⟨key, (get?_topGroups conns key).trans hgroup⟩, rfl⟩
  constructor
  · intro h key first hfirst
    exact h _ ((hexe _).mpr ⟨key, _, Option.map_eq_some_iff.mpr ⟨first, hfirst, rfl⟩, rfl⟩)
  · intro h usage husage
    obtain ⟨key, group, hgroup, rfl⟩ := (hexe usage).mp husage
    obtain ⟨first, hfirst, rfl⟩ := Option.map_eq_some_iff.mp hgroup
    exact h key first hfirst

/-- The executables in the answers, by request. -/
theorem response_utf8_iff {d : DaemonState} {env : Env} {req : Request} {handled : Handled}
    (hrules : ∀ r ∈ d.rules.rules, r.exePath.isUtf8 = true)
    (h : dispatch d env req = some handled) :
    (∀ p ∈ handled.response.paths, p.isUtf8 = true) ↔ Answerable d req := by
  cases req with
  | getProcesses =>
    cases h
    exact filterMap_utf8_iff
  | getConnections =>
    cases h
    exact filterMap_utf8_iff
  | getTop =>
    cases h
    exact filterMap_utf8_iff.trans topApps_utf8_iff
  | listRules =>
    cases h
    refine iff_of_true (fun p hp => ?_) trivial
    -- the paths of stored rules are checked when they come in
    obtain ⟨r, hr, rfl⟩ := List.mem_map.mp hp
    exact hrules r hr
  | addRule rule =>
    obtain ⟨added, hadd, rfl⟩ := Option.map_eq_some_iff.mp h
    exact iff_of_true (List.forall_mem_nil _)
      ((@add_isSome_iff _ _ env.now).mp (Option.isSome_iff_exists.mpr ⟨added, hadd⟩))
  | removeRule id =>
    refine iff_of_true ?_ trivial
    simp only [dispatch] at h
    split at h <;> cases h <;> exact List.forall_mem_nil _
  | _ =>
    cases h
    exact iff_of_true (List.forall_mem_nil _) trivial

/-- **Answers**: a request that arrives is answered exactly where it is answerable. -/
theorem answered_iff {requests : Codec Request} {responses : Codec Response}
    (henc : responses.EncodesUtf8) {d : DaemonState}
    (hrules : ∀ r ∈ d.rules.rules, r.exePath.isUtf8 = true) (env : Env) {req : Request}
    (hreq : req ≠ .subscribe) (published : List Event) {body rest : List UInt8}
    {chunks : List (List UInt8)} (hdec : requests.decode body = .ok req)
    (hfits : body.length ≤ maxFrame) (hchunks : chunks.flatten = Frames.frame body ++ rest) :
    Answered requests responses d env req published chunks ↔ Answerable d req := by
  obtain ⟨chunks', hread, -⟩ := Framing.readFrameFrom_frame hdec hfits hchunks
  have hhandle : handleClient requests responses d env published chunks = _ :=
    handleClient_request (congrArg Prod.fst hread) hreq
  constructor
  · rintro ⟨handled, response, hd, henc', -⟩
    rw [← response_utf8_iff hrules hd]
    exact (henc handled.response).mp ⟨response, henc'⟩
  · intro h
    obtain ⟨handled, hd⟩ := dispatch_isSome env h
    obtain ⟨response, henc'⟩ := (henc handled.response).mpr ((response_utf8_iff hrules hd).mpr h)
    refine ⟨handled, response, hd, henc', ?_⟩
    rw [hhandle, hd]
    dsimp only
    rw [writeFrame, henc']

/-! ## Streams -/

/-- The events published since the task subscribed. -/
def since (s : Watched) (task : EventTask) : List Event :=
  s.world.published.drop task.rx.joined

/-- The task has returned, or has taken everything off the channel. -/
def Finished (s : Watched) (task : EventTask) : Prop :=
  task.ended.isSome = true ∨ task.rx.next = s.world.published.length

/-- The task has written every event since it subscribed, each in its frame, and goes on. -/
def Complete (responses : Codec Response) (s : Watched) (task : EventTask) : Prop :=
  task.ended = none ∧ task.written.map Prod.fst = since s task ∧
    ∀ entry ∈ task.written, writeFrame responses (.event entry.1) = .ok entry.2

/-- The subscriber reads before the channel has overwritten what it reads. -/
def KeepsUp (s : Watched) : Step → Prop
  | .turn => ∀ task, s.stream = some task →
      s.world.published.length ≤ task.rx.next + eventChannelCapacity
  | _ => True

instance (s : Watched) : (a : Step) → Decidable (KeepsUp s a)
  | .turn =>
    match h : s.stream with
    | none => isTrue fun task htask => by rw [h] at htask; cases htask
    | some task =>
      decidable_of_iff (s.world.published.length ≤ task.rx.next + eventChannelCapacity) (by
        rw [KeepsUp, h]
        simp)
  | .daemon _ => isTrue trivial
  | .subscribe => isTrue trivial

/-- What was published stays published. -/
theorem published_prefix {w w' : Overlap.World} {a : Overlap.Action}
    (h : Overlap.step w a = some w') : w.published <+: w'.published := by
  cases a with
  | perform t =>
    obtain ⟨⟨d, events⟩, -, rfl⟩ := Option.map_eq_some_iff.mp h
    dsimp only
    split
    · exact List.prefix_append _ _
    · exact List.prefix_refl _
  | publish i =>
    obtain ⟨e, -, rfl⟩ := Option.map_eq_some_iff.mp h
    exact List.prefix_append _ _

/-- Everything a step can do to the task. -/
theorem stream_cases {responses : Codec Response} {s s' : Watched} {a : Step}
    (h : step responses s a = some s') :
    (s'.stream = s.stream ∧ s.world.published <+: s'.world.published ∧ a ≠ .turn) ∨
    (s.stream = none ∧ s'.stream = some (.start s.world.published) ∧ s'.world = s.world ∧
      a ≠ .turn) ∨
    (a = .turn ∧ s'.world = s.world ∧ ∃ task task', s.stream = some task ∧
      task.turn responses s.world.published = some task' ∧ s'.stream = some task') := by
  cases a with
  | daemon a =>
    obtain ⟨world, hw, rfl⟩ := Option.map_eq_some_iff.mp h
    exact .inl ⟨rfl, published_prefix hw, by simp⟩
  | subscribe =>
    simp only [step] at h
    split at h
    · rename_i hnone
      cases h
      exact .inr (.inl ⟨hnone, rfl, rfl, by simp⟩)
    · cases h
  | turn =>
    obtain ⟨task, htask, h⟩ := Option.bind_eq_some_iff.mp h
    obtain ⟨task', hturn, rfl⟩ := Option.map_eq_some_iff.mp h
    exact .inr (.inr ⟨rfl, rfl, task, task', htask, hturn, rfl⟩)

/-! ### Who has written everything has kept up -/

/-- No more was written than was received. -/
def Bounded (s : Watched) : Prop :=
  ∀ task, s.stream = some task → task.rx.joined + task.written.length ≤ task.rx.next

/-- Everything received was written, and the task goes on. -/
def Even (s : Watched) : Prop :=
  ∀ task, s.stream = some task →
    task.ended = none ∧ task.rx.joined + task.written.length = task.rx.next

variable {responses : Codec Response}

theorem bounded_step {s s' : Watched} {a : Step} (h : Bounded s)
    (hs : step responses s a = some s') : Bounded s' := by
  rcases stream_cases hs with ⟨hstream, -, -⟩ | ⟨-, hstream, -, -⟩ |
    ⟨-, -, task, task', htask, hturn, hstream⟩
  · intro task htask
    rw [hstream] at htask
    exact h task htask
  · intro task htask
    rw [hstream] at htask
    cases htask
    exact Nat.le_refl _
  · intro t ht
    rw [hstream] at ht
    cases ht
    have hle := h task htask
    have hreceived := EventTask.received_of_going (EventTask.turn_cases hturn).1
    have hwritten := EventTask.written_le_received task'
    obtain ⟨hjoined, ⟨-, hnext, hcount⟩ | ⟨-, hnext, hcount⟩⟩ := EventTask.turn_received hturn
    · omega
    · omega

/-- Backwards: a task that is even now was even before, and has not lagged in between. -/
theorem even_back {s s' : Watched} {a : Step} (hb : Bounded s) (h : Even s')
    (hs : step responses s a = some s') : Even s ∧ KeepsUp s a := by
  have hquiet : ∀ {b : Step}, b ≠ .turn → KeepsUp s b := by
    intro b hb
    cases b with
    | turn => exact absurd rfl hb
    | _ => trivial
  rcases stream_cases hs with ⟨hstream, -, ha⟩ | ⟨hnone, -, -, ha⟩ |
    ⟨rfl, -, task, task', htask, hturn, hstream⟩
  · exact ⟨fun task htask => h task (hstream.trans htask), hquiet ha⟩
  · refine ⟨fun task htask => ?_, hquiet ha⟩
    rw [hnone] at htask
    cases htask
  · obtain ⟨hended', heven⟩ := h task' hstream
    have hle := hb task htask
    obtain ⟨hended, -⟩ := EventTask.turn_cases hturn
    have hreceived := EventTask.received_of_going hended
    have hreceived' := EventTask.received_of_going hended'
    obtain ⟨hjoined, ⟨hkept, hnext, hcount⟩ | ⟨-, hnext, hcount⟩⟩ := EventTask.turn_received hturn
    · constructor
      · intro t ht
        rw [htask] at ht
        cases ht
        exact ⟨hended, by omega⟩
      · intro t ht
        rw [htask] at ht
        cases ht
        exact hkept
    · -- a lag takes the position past what can be written any more
      omega

theorem keepsUp_of_even {s₀ s : Watched} {sched : List Step} (hb : Bounded s₀)
    (hrun : Runs.run (step responses) s₀ sched = some s) (h : Even s) :
    Runs.AlongRun (step responses) KeepsUp s₀ sched := by
  induction sched using List.reverseRecOn generalizing s with
  | nil => exact Runs.alongRun_nil
  | append_singleton sched a ih =>
    obtain ⟨m, hm, hs⟩ := Runs.run_snoc.mp hrun
    have hbm : Bounded m := Runs.run_invariant (fun hi hs => bounded_step hi hs) hb hm
    obtain ⟨heven, hkeeps⟩ := even_back hbm h hs
    exact (Runs.alongRun_snoc hm).mpr ⟨ih hm heven, hkeeps⟩

/-! ### Who keeps up writes everything -/

/-- All that the task has received is written. -/
structure Written (responses : Codec Response) (s : Watched) (task : EventTask) : Prop where
  ended : task.ended = none
  next : task.rx.next ≤ s.world.published.length
  events : task.written.map Prod.fst = (since s task).take (task.rx.next - task.rx.joined)
  frames : ∀ entry ∈ task.written, writeFrame responses (.event entry.1) = .ok entry.2

/-- Every event since the subscription can be written. -/
def AllUtf8 (s : Watched) : Prop :=
  ∀ task, s.stream = some task → ∀ e ∈ since s task, ∀ p ∈ e.paths, p.isUtf8 = true

/-- What is published later does not change what can be written now. -/
theorem allUtf8_back {s s' : Watched} {a : Step} (h : AllUtf8 s')
    (hs : step responses s a = some s') : AllUtf8 s := by
  intro task htask e he
  rcases stream_cases hs with ⟨hstream, hstarts, -⟩ | ⟨hnone, -, -, -⟩ |
    ⟨-, hworld, t, t', ht, hturn, hstream⟩
  · exact h task (hstream.trans htask) e ((hstarts.drop _).subset he)
  · rw [hnone] at htask
    cases htask
  · obtain rfl : task = t := Option.some.inj (htask.symm.trans ht)
    have hjoined : t'.rx.joined = task.rx.joined := by
      obtain ⟨-, ⟨_, _, hrecv, -⟩ | ⟨_, _, hrecv, -⟩ | ⟨_, hrecv, -⟩⟩ := EventTask.turn_cases hturn
      all_goals exact Broadcast.Subscriber.joined_of_recv hrecv
    refine h t' hstream e ?_
    rw [since, hworld, hjoined]
    exact he

/-- A value received is one published since. -/
theorem received_since {s : Watched} {task : EventTask} {rx : Broadcast.Subscriber} {e : Event}
    (h : task.rx.recv eventChannelCapacity s.world.published = (.value e, rx)) :
    (since s task)[task.rx.next - task.rx.joined]? = some e := by
  have hle := task.rx.le
  rw [since, List.getElem?_drop, Nat.add_sub_of_le hle]
  exact (Broadcast.Subscriber.recv_value h).1

theorem written_step (henc : responses.EncodesUtf8) {s s' : Watched} {a : Step}
    (h : ∀ task, s.stream = some task → Written responses s task) (hk : KeepsUp s a)
    (hutf8 : AllUtf8 s) (hs : step responses s a = some s') :
    ∀ task, s'.stream = some task → Written responses s' task := by
  rcases stream_cases hs with ⟨hstream, hstarts, -⟩ | ⟨-, hstream, hworld, -⟩ |
    ⟨rfl, hworld, t, t', ht, hturn, hstream⟩
  · intro task htask
    rw [hstream] at htask
    obtain ⟨hended, hnext, hevents, hframes⟩ := h task htask
    obtain ⟨more, hmore⟩ := hstarts
    have hle := task.rx.le
    refine ⟨hended, hnext.trans (hmore ▸ by simp), ?_, hframes⟩
    rw [hevents, since, since, ← hmore, List.drop_append_of_le_length (hle.trans hnext),
      List.take_append_of_le_length (by rw [List.length_drop]; omega)]
  · intro task htask
    rw [hstream] at htask
    cases htask
    refine ⟨rfl, by rw [hworld]; exact Nat.le_refl _, ?_, List.forall_mem_nil _⟩
    show [] = List.take (s.world.published.length - s.world.published.length) _
    rw [Nat.sub_self, List.take_zero]
  · intro task htask
    rw [hstream] at htask
    cases htask
    obtain ⟨-, -, hevents, hframes⟩ := h t ht
    have hle := t.rx.le
    obtain ⟨-, ⟨event, bytes, hrecv, hwrite, hwritten, hended⟩ | ⟨event, e, hrecv, hwrite, -, -⟩ |
      ⟨n, hrecv, -, -⟩⟩ := EventTask.turn_cases hturn
    · have hnext := (Broadcast.Subscriber.recv_value_next hrecv).1
      have hjoined := Broadcast.Subscriber.joined_of_recv hrecv
      refine ⟨hended, ?_, ?_, ?_⟩
      · rw [hworld]
        exact (Broadcast.Subscriber.recv_value hrecv).2.2.1
      · have hsucc : t.rx.next + 1 - t.rx.joined = t.rx.next - t.rx.joined + 1 := by omega
        have hsince : since s' t' = since s t := by rw [since, since, hworld, hjoined]
        rw [hwritten, List.map_append, hevents, hsince, hjoined, hnext, hsucc, List.take_add_one,
          received_since hrecv]
        rfl
      · rw [hwritten]
        refine List.forall_mem_append.mpr ⟨hframes, fun entry hentry => ?_⟩
        rw [List.mem_singleton.mp hentry]
        exact hwrite
    · -- the event is among those that can be written
      have hmem : event ∈ since s t := List.mem_of_getElem? (received_since hrecv)
      obtain ⟨body, hbody⟩ := (henc (.event event)).mpr (hutf8 t ht event hmem)
      rw [writeFrame, hbody] at hwrite
      cases hwrite
    · have hlag := (Broadcast.Subscriber.recv_lagged_next hrecv).2
      have hup := hk t ht
      omega

theorem written_of_keepsUp (henc : responses.EncodesUtf8) {s₀ s : Watched} {sched : List Step}
    (hstart : s₀.stream = none) (hrun : Runs.run (step responses) s₀ sched = some s)
    (hk : Runs.AlongRun (step responses) KeepsUp s₀ sched) (hutf8 : AllUtf8 s) :
    ∀ task, s.stream = some task → Written responses s task := by
  induction sched using List.reverseRecOn generalizing s with
  | nil =>
    cases hrun
    intro task htask
    rw [hstart] at htask
    cases htask
  | append_singleton sched a ih =>
    obtain ⟨m, hm, hs⟩ := Runs.run_snoc.mp hrun
    obtain ⟨hkeeps, hlast⟩ := (Runs.alongRun_snoc hm).mp hk
    have hback := allUtf8_back hutf8 hs
    exact written_step henc (ih hm hkeeps hback) hlast hback hs

/-- **Streams**: what a finished task has written is all that was published since it
subscribed exactly if that can be written, and the task kept up. -/
theorem complete_iff (henc : responses.EncodesUtf8) {s₀ s : Watched} {sched : List Step}
    (hstart : s₀.stream = none) (hrun : Runs.run (step responses) s₀ sched = some s)
    (hpaths : PathsInv s.world) {task : EventTask} (htask : s.stream = some task)
    (hfin : Finished s task) :
    Complete responses s task ↔
      Runs.AlongRun (step responses) KeepsUp s₀ sched ∧ ∀ e ∈ since s task, Utf8 e.exe := by
  have hrule : ∀ e ∈ since s task, RuleUtf8 e := fun e he =>
    hpaths.published e (List.mem_of_mem_drop he)
  constructor
  · rintro ⟨hended, hevents, hframes⟩
    have hnext : task.rx.next = s.world.published.length := by
      rcases hfin with h | h
      · rw [hended] at h
        cases h
      · exact h
    constructor
    · -- nothing is missing on the stream, so the task never lagged
      have hlength := congrArg List.length hevents
      rw [List.length_map, since, List.length_drop] at hlength
      have hle := task.rx.le
      refine keepsUp_of_even (fun t ht => ?_) hrun fun t ht => ?_
      · rw [hstart] at ht
        cases ht
      · rw [htask] at ht
        cases ht
        exact ⟨hended, by omega⟩
    · intro e he
      rw [← hevents] at he
      -- each event went out as a frame, so its paths could be encoded
      obtain ⟨entry, hentry, rfl⟩ := List.mem_map.mp he
      obtain ⟨body, hbody, -⟩ := Framing.writeFrame_eq_ok.mp (hframes entry hentry)
      rw [hevents] at he
      exact (paths_utf8_iff (hrule _ he)).mp ((henc _).mp ⟨body, hbody⟩)
  · rintro ⟨hkeeps, hutf8⟩
    have hall : AllUtf8 s := by
      intro t ht e he
      rw [htask] at ht
      cases ht
      exact (paths_utf8_iff (hrule e he)).mpr (hutf8 e he)
    obtain ⟨hended, -, hevents, hframes⟩ := written_of_keepsUp henc hstart hrun hkeeps hall task htask
    refine ⟨hended, ?_, hframes⟩
    rcases hfin with h | h
    · rw [hended] at h
      cases h
    · rw [hevents, h, List.take_of_length_le]
      rw [since, List.length_drop]

/-- A rules file brings UTF-8 paths only. -/
theorem pathsInv_start {J : RulesJson} (hJ : J.DecodesUtf8) {path : PathBuf} {text : Option String}
    {now : DateTime} {rules : Inner}
    (hload : Inner.load path (text.bind J.fromStr) now = some rules) :
    PathsInv (Overlap.start rules) := by
  refine ⟨filed_empty, fun r hr => ?_, List.forall_mem_nil _, List.forall_mem_nil _⟩
  change r ∈ rules.rules at hr
  unfold Inner.load at hload
  dsimp only at hload
  split at hload
  · cases hload
    obtain ⟨hr, -⟩ := List.mem_filter.mp hr
    cases hparse : text.bind J.fromStr with
    | none =>
      rw [hparse] at hr
      cases hr
    | some p =>
      rw [hparse] at hr
      obtain ⟨text', -, htext⟩ := Option.bind_eq_some_iff.mp hparse
      exact hJ text' p htext r hr
  · cases hload

theorem pathsInv_run {requests : Codec Request} (hreq : requests.DecodesUtf8) {s₀ s : Watched}
    {sched : List Step} (h₀ : PathsInv s₀.world)
    (hipc : Runs.AlongRun (step responses) (OverIpc requests) s₀ sched)
    (hrun : Runs.run (step responses) s₀ sched = some s) : PathsInv s.world := by
  refine @Runs.run_invariant_along _ _ _ (fun s => PathsInv s.world) _ ?_ _ _ _ h₀ hrun hipc
  intro s s' a h ha hs
  cases a with
  | daemon a =>
    obtain ⟨world, hw, rfl⟩ := Option.map_eq_some_iff.mp hs
    refine pathsInv_step h (fun t ht => ?_) hw
    subst ht
    cases t with
    | handle env req =>
      -- a request has come in as a frame, and its paths with it
      obtain ⟨body, hbody⟩ := ha
      exact hreq body req hbody
    | _ => trivial
  | subscribe =>
    simp only [step] at hs
    split at hs
    · cases hs
      exact h
    · cases hs
  | turn =>
    obtain ⟨task, -, hs⟩ := Option.bind_eq_some_iff.mp hs
    obtain ⟨task', -, rfl⟩ := Option.map_eq_some_iff.mp hs
    exact h

/-- **One response per request**: in every state that the daemon reaches, a request that
arrives is answered by the one frame of its response, and a finished stream has carried
every event, exactly if the executables shown are UTF-8 (and, for a new rule, its lifetime
and id can be represented; for a stream, its subscriber has kept up). -/
theorem one_response_iff {J : RulesJson} {requests : Codec Request} (hJ : J.DecodesUtf8)
    (hreq : requests.DecodesUtf8) (henc : responses.EncodesUtf8) {path : PathBuf}
    {text : Option String} {now : DateTime} {rules : Inner}
    (hload : Inner.load path (text.bind J.fromStr) now = some rules) {sched : List Step}
    {s : Watched} (hipc : Runs.AlongRun (step responses) (OverIpc requests) (start rules) sched)
    (hrun : Runs.run (step responses) (start rules) sched = some s) :
    (∀ env req body rest chunks, req ≠ .subscribe → requests.decode body = .ok req →
      body.length ≤ maxFrame → chunks.flatten = Frames.frame body ++ rest →
      (Answered requests responses s.world.daemon env req s.world.published chunks ↔
        Answerable s.world.daemon req)) ∧
    (∀ task, s.stream = some task → Finished s task →
      (Complete responses s task ↔
        Runs.AlongRun (step responses) KeepsUp (start rules) sched ∧
        ∀ e ∈ since s task, Utf8 e.exe)) := by
  have hpaths := pathsInv_run hreq (pathsInv_start hJ hload) hipc hrun
  constructor
  · intro env req body rest chunks hne hdec hfits hchunks
    exact answered_iff henc hpaths.rules env hne _ hdec hfits hchunks
  · intro task htask hfin
    exact complete_iff henc rfl hrun hpaths htask hfin

/-! ### One process, under a UTF-8 path and under another -/

/-- A process that a scan finds. -/
def demo (exe : PathBuf) : ProcessInfo := ⟨4242, "demo", some exe, some "root", 1⟩

/-- `/opt/demo`. -/
def plainPath : PathBuf := .ofString "/opt/demo"

/-- `/opt/demo` with an `ö` in Latin-1. -/
def foreignPath : PathBuf := ⟨[47, 111, 112, 116, 47, 100, 101, 109, 246]⟩

/-- The JSON of a process under `plainPath`. -/
def demoJson : String :=
  "\x7b\"pid\":4242,\"name\":\"demo\",\"exe\":\"/opt/demo\",\"user\":\"root\",\"ppid\":1\x7d"

/-- The bodies of the two messages that show the process. -/
def demoBody (v : Response) : List UInt8 :=
  if v = .processes [demo plainPath] then
    Framing.ascii ("\x7b\"Processes\":[" ++ demoJson ++ "]\x7d")
  else if v = .event (.processStarted (demo plainPath)) then
    Framing.ascii ("\x7b\"Event\":\x7b\"ProcessStarted\":" ++ demoJson ++ "\x7d\x7d")
  else []

def demoCodec : Codec Response where
  encode v :=
    if v.paths.all PathBuf.isUtf8 then .ok (demoBody v)
    else .error "path contains invalid UTF-8 characters"
  decode _ := .error "unsupported"

theorem demoCodec_encodesUtf8 : demoCodec.EncodesUtf8 := by
  intro v
  simp only [demoCodec]
  by_cases h : v.paths.all PathBuf.isUtf8 = true
  · rw [if_pos h]
    exact iff_of_true ⟨_, rfl⟩ (List.all_eq_true.mp h)
  · rw [if_neg h]
    exact iff_of_false (by simp) fun hall => h (List.all_eq_true.mpr hall)

/-- `"GetProcesses"` -/
def getProcessesBody : List UInt8 := Framing.ascii "\"GetProcesses\""

/-- The one request, and no other. -/
def demoRequests : Codec Request where
  encode req := if req = .getProcesses then .ok getProcessesBody else .error "unsupported"
  decode body := if body = getProcessesBody then .ok .getProcesses else .error "expected value"

theorem demoRequests_decodesUtf8 : demoRequests.DecodesUtf8 := by
  intro body req h
  simp only [demoRequests] at h
  split at h
  · cases h
    exact List.forall_mem_nil _
  · cases h

/-- serde_json on an empty store. -/
def emptyJson : RulesJson := .just ⟨1, []⟩ ""

theorem emptyJson_decodesUtf8 : emptyJson.DecodesUtf8 := by
  intro text p h
  simp only [emptyJson, RulesJson.just] at h
  split at h
  · cases h
    exact List.forall_mem_nil _
  · cases h

/-- A client subscribes, and a scan finds the process under this path. -/
def scanned (exe : PathBuf) : List Step :=
  [.subscribe,
    .daemon (.perform (.scan (KeyedMap.empty.insert 4242 (demo exe)) [demo exe] [])), .turn]

theorem scanned_runs :
    (Runs.run (step demoCodec) (start .firstStart) (scanned plainPath)).isSome = true := by
  decide +kernel

theorem scanned_overIpc (exe : PathBuf) :
    Runs.AlongRun (step demoCodec) (OverIpc demoRequests) (start .firstStart) (scanned exe) := by
  intro pre a post h m hm
  have ha : a ∈ scanned exe := h ▸ List.mem_append_right _ List.mem_cons_self
  simp only [scanned, List.mem_cons, List.not_mem_nil, or_false] at ha
  rcases ha with rfl | rfl | rfl <;> trivial

/-- The task after its turn. -/
def plainTask : EventTask where
  rx := ⟨0, 1, Nat.zero_le _⟩
  written := [(.processStarted (demo plainPath),
    Frames.frame (demoBody (.event (.processStarted (demo plainPath)))))]
  ended := none

theorem one_response_iff_plain :
    let s := (Runs.run (step demoCodec) (start .firstStart) (scanned plainPath)).get scanned_runs
    Answered demoRequests demoCodec s.world.daemon .epoch .getProcesses s.world.published
        [Frames.frame getProcessesBody] ∧
      s.stream = some plainTask ∧ since s plainTask = [.processStarted (demo plainPath)] ∧
      Complete demoCodec s plainTask := by
  intro s
  have hplain : plainPath.isUtf8 = true := by decide
  have hstream : s.stream = some plainTask := rfl
  have hsince : since s plainTask = [.processStarted (demo plainPath)] := rfl
  obtain ⟨hanswered, hcomplete⟩ := one_response_iff emptyJson_decodesUtf8
    demoRequests_decodesUtf8 demoCodec_encodesUtf8
    (show Inner.load Inner.firstStart.path (Option.bind none emptyJson.fromStr) .epoch =
      some .firstStart from rfl)
    (scanned_overIpc plainPath) (Option.some_get scanned_runs).symm
  refine ⟨?_, hstream, hsince, ?_⟩
  · refine (hanswered .epoch .getProcesses getProcessesBody [] _ (by decide) (by decide +kernel)
      (by decide +kernel) (by simp)).mpr fun info hinfo p hp => ?_
    rw [List.mem_singleton.mp (show info ∈ [demo plainPath] from hinfo)] at hp
    cases hp
    exact hplain
  · refine (hcomplete plainTask hstream (.inr (by decide +kernel))).mpr ⟨?_, fun e he p hp => ?_⟩
    · decide +kernel
    · rw [hsince] at he
      rw [List.mem_singleton.mp he] at hp
      cases hp
      exact hplain

/-- The process under `foreignPath` leaves the request without an answer, and ends the
stream. -/
theorem foreign_path_unanswered :
    demoCodec.EncodesUtf8 ∧ ∃ s task handled,
      Runs.run (step demoCodec) (start .firstStart) (scanned foreignPath) = some s ∧
      demoRequests.decode getProcessesBody = .ok .getProcesses ∧
      handleClient demoRequests demoCodec s.world.daemon .epoch s.world.published
        [Frames.frame getProcessesBody] = .closed [] (some handled)
          (.json "path contains invalid UTF-8 characters") ∧
      handled.response = .processes [demo foreignPath] ∧
      s.stream = some task ∧ since s task = [.processStarted (demo foreignPath)] ∧
      task.written = [] ∧
      task.ended = some (.json "path contains invalid UTF-8 characters") :=
  ⟨demoCodec_encodesUtf8, _, _, _, rfl, by decide +kernel, rfl, by decide +kernel, rfl,
    by decide +kernel, rfl, by decide +kernel⟩

end Responses

end TravelMode
