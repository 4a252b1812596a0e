import TravelMode.Daemon.Main

/-!
# The daemon's tasks, and what their events say

Poller, scanner, packet queue, request handlers and reaper run at the same time; each
changes the state in one critical section, and publishes.

- `Task` and `DaemonState.perform`: one such section, with the events it announces.
- `View`: the part of the state that events are about — flows, rules, the paused flag —
  with `View.apply`, the meaning of an event on it.
- `perform_view`: a task changes the view exactly as its events say.
- `queueOwned`: what only the packet queue writes.
-/

namespace TravelMode

/-- One critical section of one of the daemon's tasks. -/
inductive Task where
  | poll (p : Poll)
  /-- A scan of the processes, with whatever it found and published. -/
  | scan (processes : KeyedMap Nat ProcessInfo) (started : List ProcessInfo) (exited : List Nat)
  | verdict (fs : ProcFs) (clock : DaemonState.Clock) (payload : List UInt8)
  | handle (env : Env) (req : Request)
  | reap (now : DateTime)

/-- What a scan publishes. -/
def scanEvents (started : List ProcessInfo) (exited : List Nat) : List Event :=
  started.map .processStarted ++ exited.map .processExited

/-- Poller and scanner publish under the lock that they write under; a handler and the
reaper publish after the change. -/
def Task.publishesLocked : Task → Bool
  | .poll _ => true
  | .scan .. => true
  | _ => false

/-- Run the section: the state it leaves, and its events. -/
def DaemonState.perform (d : DaemonState) : Task → Option (DaemonState × List Event)
  | .poll p => d.pollOnce p
  | .scan processes started exited =>
    some ({ d with processes := processes }, scanEvents started exited)
  | .verdict fs clock payload =>
    match d.decide fs clock payload with
    | .ok (_, d') => some (d', [])
    | .error _ => none
  | .handle env req => (dispatch d env req).map fun h => (h.state, h.published)
  | .reap now => some (reaperPass d now)

/-! ## The meaning of events -/

/-- What the events are about. -/
structure View where
  connections : KeyedMap String ConnectionInfo
  rules : List Rule
  paused : Bool

def DaemonState.view (d : DaemonState) : View := ⟨d.connections, d.rules.rules, d.paused⟩

/-- What an event says has happened. -/
def View.apply (v : View) : Event → View
  | .ruleAdded rule =>
    { v with rules := v.rules.filter (fun r => !Inner.sameTarget r rule) ++ [rule] }
  | .ruleRemoved id => { v with rules := v.rules.filter fun r => !(r.id == id) }
  | .pausedChanged paused => { v with paused := paused }
  | e => { v with connections := replayConn v.connections e }

/-- Events are the only changes of the flows. -/
theorem View.apply_connections (v : View) (e : Event) :
    (v.apply e).connections = replayConn v.connections e := by
  cases e <;> rfl

/-- Fold a stream of events. -/
def View.replay (v : View) (events : List Event) : View := events.foldl View.apply v

theorem View.replay_append (v : View) (es fs : List Event) :
    v.replay (es ++ fs) = (v.replay es).replay fs := List.foldl_append

theorem mem_scanEvents {started : List ProcessInfo} {exited : List Nat} {e : Event}
    (h : e ∈ scanEvents started exited) :
    (∃ info, e = .processStarted info) ∨ ∃ pid, e = .processExited pid := by
  rcases List.mem_append.mp h with h | h
  · obtain ⟨info, -, rfl⟩ := List.mem_map.mp h
    exact .inl ⟨info, rfl⟩
  · obtain ⟨pid, -, rfl⟩ := List.mem_map.mp h
    exact .inr ⟨pid, rfl⟩

/-- The scanner's events are about nothing in view. -/
theorem View.replay_scanEvents (v : View) (started : List ProcessInfo) (exited : List Nat) :
    v.replay (scanEvents started exited) = v := by
  have hquiet : ∀ e ∈ scanEvents started exited, v.apply e = v := by
    intro e he
    rcases mem_scanEvents he with ⟨info, rfl⟩ | ⟨pid, rfl⟩
    · rfl
    · rfl
  generalize scanEvents started exited = es at hquiet
  induction es with
  | nil => rfl
  | cons e es ih =>
    show (v.apply e).replay es = v
    rw [hquiet e List.mem_cons_self]
    exact ih fun e' he' => hquiet e' (List.mem_cons_of_mem _ he')

/-- Events that are about connections, or about nothing in view. -/
theorem View.replay_conns (v : View) {events : List Event}
    (h : ∀ e ∈ events, (∀ rule, e ≠ .ruleAdded rule) ∧ (∀ id, e ≠ .ruleRemoved id) ∧
      ∀ paused, e ≠ .pausedChanged paused) :
    v.replay events = { v with connections := replayConns v.connections events } := by
  induction events generalizing v with
  | nil => rfl
  | cons e es ih =>
    obtain ⟨hadded, hremoved, hpaused⟩ := h e List.mem_cons_self
    have hone : v.apply e = { v with connections := replayConn v.connections e } := by
      cases e with
      | ruleAdded rule => exact absurd rfl (hadded rule)
      | ruleRemoved id => exact absurd rfl (hremoved id)
      | pausedChanged paused => exact absurd rfl (hpaused paused)
      | _ => rfl
    show (v.apply e).replay es = _
    rw [ih _ fun e' he' => h e' (List.mem_cons_of_mem _ he'), hone]
    rfl

/-- A connection event is about nothing else. -/
theorem Event.isConn.ne {e : Event} (h : e.isConn) :
    (∀ rule, e ≠ .ruleAdded rule) ∧ (∀ id, e ≠ .ruleRemoved id) ∧
      ∀ paused, e ≠ .pausedChanged paused := by
  refine ⟨?_, ?_, ?_⟩
  all_goals
    rintro x rfl
    cases h

/-- Any other event is about no connection. -/
theorem Event.not_isConn {e : Event} (h : e.connKey = none) : ¬e.isConn := by
  rw [Event.isConn, h]
  exact Bool.false_ne_true

/-- Events that are not about connections do not change the flows. -/
theorem replayConns_of_not_isConn {conns : KeyedMap String ConnectionInfo} {events : List Event}
    (h : ∀ e ∈ events, ¬e.isConn) : replayConns conns events = conns := by
  induction events with
  | nil => rfl
  | cons e es ih =>
    have hone : replayConn conns e = conns := by
      cases e with
      | connectionOpened conn => exact absurd rfl (h _ List.mem_cons_self)
      | connectionUpdated conn => exact absurd rfl (h _ List.mem_cons_self)
      | connectionClosed key => exact absurd rfl (h _ List.mem_cons_self)
      | _ => rfl
    show replayConns (replayConn conns e) es = conns
    rw [hone]
    exact ih fun e' he' => h e' (List.mem_cons_of_mem _ he')

theorem View.replay_ruleRemoved (v : View) (ids : List Nat) :
    v.replay (ids.map Event.ruleRemoved) =
      { v with rules := v.rules.filter fun r => decide (r.id ∉ ids) } := by
  induction ids generalizing v with
  | nil =>
    show v = { v with rules := v.rules.filter fun r => decide (r.id ∉ []) }
    rw [List.filter_eq_self.mpr fun r _ => by simp]
  | cons id ids ih =>
    show (v.apply (.ruleRemoved id)).replay (ids.map Event.ruleRemoved) = _
    rw [ih]
    show View.mk v.connections ((v.rules.filter _).filter _) v.paused = View.mk _ _ _
    rw [List.filter_filter]
    congr 1
    refine List.filter_congr fun r _ => ?_
    rw [Bool.eq_iff_iff]
    simp [List.mem_cons, not_or, and_comm]

/-! ## Tasks do what their events say -/

/-- What every task relies on. -/
structure DaemonState.Ok (d : DaemonState) : Prop where
  filed : Filed d.connections
  store : Inner.Inv d.rules.persisted

theorem filed_empty : Filed .empty := fun _ _ h => nomatch h

theorem DaemonState.ok_new {rules : Inner} (h : Inner.Inv rules.persisted) :
    (DaemonState.new rules).Ok := ⟨filed_empty, h⟩

namespace DaemonState

variable {d d' : DaemonState} {events : List Event}

theorem handle_view {env : Env} {req : Request} {handled : Handled} (hok : d.Ok)
    (hd : dispatch d env req = some handled) :
    handled.state.view = d.view.replay handled.published ∧ handled.state.Ok := by
  rcases dispatch_cases hd with ⟨input, rule, rules, rfl, hadd, hstate, hpub⟩ |
    ⟨id, rule, rules, rfl, hrem, hstate, hpub⟩ | ⟨paused, rfl, hstate, hpub⟩ | ⟨hstate, hpub⟩
  · rw [hstate, hpub]
    have hinv := Inner.add_inv hok.store hadd
    obtain ⟨expiresAt, -, -, -, hst⟩ := Inner.add_eq_some.mp hadd
    refine ⟨?_, hok.filed, hinv⟩
    show View.mk d.connections rules.rules d.paused = _
    rw [hst]
    rfl
  · rw [hstate, hpub]
    obtain ⟨-, -, hst⟩ := Inner.remove_eq_some hrem
    refine ⟨?_, hok.filed, Inner.remove_inv hok.store hrem⟩
    show View.mk d.connections rules.rules d.paused =
      View.mk d.connections (d.rules.rules.filter fun r => !(r.id == id)) d.paused
    rw [hst]
    congr 1
    -- ids are unique, so taking the first rule with the id takes them all
    exact Inner.eraseP_id_eq_filter hok.store.ids id
  · rw [hstate, hpub]
    exact ⟨rfl, hok.filed, hok.store⟩
  · rw [hstate, hpub]
    exact ⟨rfl, hok⟩

theorem pollOnce_view {p : Poll} (hok : d.Ok) (h : d.pollOnce p = some (d', events)) :
    d'.view = d.view.replay events ∧ d'.Ok := by
  have hacc := pollOnce_spec hok.filed h
  have hrules : d'.rules = d.rules := hacc.rules
  have hpaused : d'.paused = d.paused := hacc.paused
  have hconns : d'.connections = replayConns d.connections events := hacc.conns
  refine ⟨?_, ?_, ?_⟩
  · rw [View.replay_conns d.view fun e he => (hacc.isConn e he).ne]
    show View.mk d'.connections d'.rules.rules d'.paused = _
    rw [hrules, hpaused, hconns]
    rfl
  · rw [hconns]
    exact filed_replayConns hok.filed events
  · rw [hrules]
    exact hok.store

/-- A handler leaves the flows alone. -/
theorem dispatch_frame {env : Env} {req : Request} {handled : Handled}
    (hd : dispatch d env req = some handled) :
    handled.state.connections = d.connections ∧ ∀ e ∈ handled.published, ¬e.isConn := by
  have hquiet : ∀ {e : Event}, e.connKey = none → ∀ e' ∈ [e], ¬e'.isConn := by
    intro e he e' he'
    rw [List.mem_singleton.mp he']
    exact Event.not_isConn he
  rcases dispatch_cases hd with ⟨_, _, _, -, -, hstate, hpub⟩ | ⟨_, _, _, -, -, hstate, hpub⟩ |
    ⟨_, -, hstate, hpub⟩ | ⟨hstate, hpub⟩
  · rw [hstate, hpub]
    exact ⟨rfl, hquiet rfl⟩
  · rw [hstate, hpub]
    exact ⟨rfl, hquiet rfl⟩
  · rw [hstate, hpub]
    exact ⟨rfl, hquiet rfl⟩
  · rw [hstate, hpub]
    exact ⟨rfl, List.forall_mem_nil _⟩

/-- A verdict says nothing. -/
theorem perform_verdict {fs : ProcFs} {clock : Clock} {payload : List UInt8}
    (h : d.perform (.verdict fs clock payload) = some (d', events)) :
    events = [] ∧ d' = { d with
      attrib := d'.attrib, blockedCount := d'.blockedCount, blockLog := d'.blockLog } := by
  simp only [perform] at h
  split at h
  · rename_i verdict d'' hdec
    cases h
    exact ⟨rfl, decide_frame hdec⟩
  · cases h

/-- Only the poller touches the flows, and says so. -/
theorem perform_frame {t : Task} (hpoll : ∀ p, t ≠ .poll p)
    (h : d.perform t = some (d', events)) :
    d'.connections = d.connections ∧ ∀ e ∈ events, ¬e.isConn := by
  cases t with
  | poll p => exact absurd rfl (hpoll p)
  | scan processes started exited =>
    cases h
    refine ⟨rfl, fun e he => ?_⟩
    rcases mem_scanEvents he with ⟨info, rfl⟩ | ⟨pid, rfl⟩
    · exact Event.not_isConn rfl
    · exact Event.not_isConn rfl
  | verdict fs clock payload =>
    obtain ⟨rfl, hd'⟩ := perform_verdict h
    rw [hd']
    exact ⟨rfl, List.forall_mem_nil _⟩
  | handle env req =>
    obtain ⟨handled, hd, he⟩ := Option.map_eq_some_iff.mp h
    cases he
    exact dispatch_frame hd
  | reap now =>
    cases h
    refine ⟨rfl, fun e he => ?_⟩
    obtain ⟨id, -, rfl⟩ := List.mem_map.mp he
    exact Event.not_isConn rfl

/-- Only an `AddRule` announces a rule, and nothing else. -/
theorem perform_added {t : Task} (hok : d.Ok)
    (h : d.perform t = some (d', events)) :
    (∀ rule, .ruleAdded rule ∉ events) ∨
      ∃ env input rule rules, t = .handle env (.addRule input) ∧
        d.rules.add input env.now = some (rule, rules) ∧ events = [.ruleAdded rule] := by
  cases t with
  | poll p =>
    refine .inl fun rule hrule => ?_
    exact ((pollOnce_spec hok.filed h).isConn _ hrule).ne.1 rule rfl
  | scan processes started exited =>
    cases h
    refine .inl fun rule hrule => ?_
    rcases mem_scanEvents hrule with ⟨info, he⟩ | ⟨pid, he⟩
    · cases he
    · cases he
  | verdict fs clock payload =>
    obtain ⟨rfl, -⟩ := perform_verdict h
    exact .inl fun rule => List.not_mem_nil
  | reap now =>
    cases h
    refine .inl fun rule hrule => ?_
    obtain ⟨id, -, he⟩ := List.mem_map.mp hrule
    cases he
  | handle env req =>
    obtain ⟨handled, hd, he⟩ := Option.map_eq_some_iff.mp h
    cases he
    rcases dispatch_cases hd with ⟨input, rule, rules, rfl, hadd, -, hpub⟩ |
      ⟨_, _, _, -, -, -, hpub⟩ | ⟨_, -, -, hpub⟩ | ⟨-, hpub⟩
    · exact .inr ⟨env, input, rule, rules, rfl, hadd, hpub⟩
    -- the other requests announce something else, or nothing
    all_goals
      refine .inl fun rule hrule => ?_
      rw [hpub] at hrule
      simp at hrule

/-- **Tasks and their events**: the view after a task is the view before it with the
task's own events folded in. -/
theorem perform_view {t : Task} (hok : d.Ok) (h : d.perform t = some (d', events)) :
    d'.view = d.view.replay events ∧ d'.Ok := by
  cases t with
  | poll p => exact pollOnce_view hok h
  | scan processes started exited =>
    cases h
    exact ⟨(View.replay_scanEvents d.view started exited).symm, hok.filed, hok.store⟩
  | verdict fs clock payload =>
    obtain ⟨rfl, hd'⟩ := perform_verdict h
    rw [hd']
    exact ⟨rfl, hok.filed, hok.store⟩
  | handle env req =>
    obtain ⟨handled, hd, he⟩ := Option.map_eq_some_iff.mp h
    cases he
    exact handle_view hok hd
  | reap now =>
    cases h
    refine ⟨?_, hok.filed, Inner.reapExpired_inv hok.store now⟩
    show View.mk d.connections _ d.paused = d.view.replay (List.map Event.ruleRemoved _)
    rw [View.replay_ruleRemoved]
    congr 1
    exact (Inner.filter_not_mem_ids hok.store.ids _).symm

/-! ## What the packet queue has for itself -/

/-- What no other task writes: the flag, the count and the throttle. -/
def queueOwned (d : DaemonState) : Bool × Nat × LogThrottle ThrottleKey :=
  (d.filteringActive, d.blockedCount, d.blockLog)

theorem visitFlow_queueOwned (p : Poll) (acc : DaemonState × List Event) (f : ParsedFlow) :
    (visitFlow p acc f).1.queueOwned = acc.1.queueOwned := by
  unfold visitFlow
  cases acc.1.connections.get? f.key with
  | some existing =>
    dsimp only
    split
    · rfl
    · rfl
  | none => rfl

theorem pollOnce_queueOwned {p : Poll} {r : DaemonState × List Event}
    (h : d.pollOnce p = some r) : r.1.queueOwned = d.queueOwned := by
  obtain ⟨-, -, rfl⟩ := pollOnce_eq_some.mp h
  have hclosed : (p.closedOrder.foldl closeFlow (d, [])).1.queueOwned = d.queueOwned :=
    List.foldlRecOn p.closedOrder closeFlow (motive := fun acc => acc.1.queueOwned = d.queueOwned)
      rfl fun acc hacc key _ => show (closeFlow acc key).1.queueOwned = _ from hacc
  exact List.foldlRecOn p.seenOrder (visitFlow p)
    (motive := fun acc => acc.1.queueOwned = d.queueOwned) hclosed
    fun acc hacc f _ => (visitFlow_queueOwned p acc f).trans hacc

/-- The other tasks leave it alone. -/
theorem perform_queueOwned {t : Task} (hverdict : ∀ fs clock payload, t ≠ .verdict fs clock payload)
    (h : d.perform t = some (d', events)) : d'.queueOwned = d.queueOwned := by
  cases t with
  | poll p => exact pollOnce_queueOwned h
  | scan processes started exited =>
    cases h
    rfl
  | verdict fs clock payload => exact absurd rfl (hverdict fs clock payload)
  | handle env req =>
    obtain ⟨handled, hd, he⟩ := Option.map_eq_some_iff.mp h
    cases he
    rcases dispatch_cases hd with ⟨_, _, _, -, -, hstate, -⟩ | ⟨_, _, _, -, -, hstate, -⟩ |
      ⟨_, -, hstate, -⟩ | ⟨hstate, -⟩
    all_goals exact (congrArg queueOwned hstate).trans rfl
  | reap now =>
    cases h
    rfl

end DaemonState

end TravelMode
