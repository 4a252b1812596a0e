import TravelMode.Daemon.Tasks
import TravelMode.Gui.Eviction
import TravelMode.Gui.Snapshot
import TravelMode.Lib.WriteLog

/-!
# The last word on a subject

Every event about flows, rules or the paused flag says all there is to say of its subject.
So a state is told by the last event about each subject, and it does not matter how events
about different subjects interleave.

- `Event.word`: what an event says, as a write to a log.
- `Tells`: the last words tell this state. The daemon's tasks keep it, as long as no
  `AddRule` replaces a rule (`perform_tells`).
- `replay_rules_told`, `replay_paused_told`, `replay_conns_shown`: so does the client's fold,
  up to the flows that its cap evicts; `replay_conns`: within the cap it evicts none.
-/

namespace TravelMode

/-- What an event is about. -/
inductive Subject where
  | flow (key : String)
  | rule (id : Nat)
  | paused
deriving DecidableEq

def Event.subject : Event → Option Subject
  | .connectionOpened conn => some (.flow conn.key)
  | .connectionUpdated conn => some (.flow conn.key)
  | .connectionClosed key => some (.flow key)
  | .ruleAdded rule => some (.rule rule.id)
  | .ruleRemoved id => some (.rule id)
  | .pausedChanged _ => some .paused
  | _ => none

/-- An event has the word on its subject. -/
def Event.word (e : Event) : Option (Subject × Option Event) :=
  e.subject.map fun subject => (subject, some e)

theorem View.apply_paused {v : View} {e : Event} (h : e.subject ≠ some .paused) :
    (v.apply e).paused = v.paused := by
  cases e with
  | pausedChanged paused => exact absurd rfl h
  | _ => rfl

theorem ClientState.applyEvent_paused {s : ClientState} {e : Event} (h : e.subject ≠ some .paused) :
    (s.applyEvent e).paused = s.paused := by
  cases e with
  | pausedChanged paused => exact absurd rfl h
  | connectionClosed key =>
    show (s.removeConn key).paused = s.paused
    unfold ClientState.removeConn
    cases s.conns.get? key <;> rfl
  | _ => rfl

namespace LastWord

open WriteLog

theorem written_word (e : Event) (subject : Subject) :
    written Event.word subject e = if e.subject = some subject then some (some e) else none := by
  unfold written Event.word
  cases e.subject with
  | none => rfl
  | some s =>
    rw [Option.map_some, Option.bind_some]
    exact if_congr (Option.some.injEq s subject ▸ Iff.rfl) rfl rfl

/-- Events about different subjects write under different keys. -/
theorem written_word_or {e e' : Event} (h : e'.subject = none ∨ e.subject ≠ e'.subject)
    (subject : Subject) :
    written Event.word subject e = none ∨ written Event.word subject e' = none := by
  rw [written_word, written_word]
  by_cases hs : e.subject = some subject
  · refine .inr (if_neg fun hs' => ?_)
    rcases h with hnone | hne
    · rw [hnone] at hs'
      cases hs'
    · exact hne (hs.trans hs'.symm)
  · exact .inl (if_neg hs)

theorem connKey_eq_some {e : Event} {key : String} :
    e.connKey = some key ↔ e.subject = some (.flow key) := by
  cases e <;> simp [Event.connKey, Event.subject]

/-- An event about a flow, and one that is not. -/
theorem subject_ne_of_isConn {e e' : Event} (h : e.isConn) (h' : ¬e'.isConn) :
    e'.subject = none ∨ e.subject ≠ e'.subject := by
  refine .inr fun heq => h' ?_
  obtain ⟨key, hkey⟩ := Option.isSome_iff_exists.mp h
  rw [Event.isConn, connKey_eq_some.mpr (heq.symm.trans (connKey_eq_some.mp hkey))]
  rfl

theorem put_word (words : Subject → Option Event) (e : Event) (subject : Subject) :
    put Event.word words e subject = if e.subject = some subject then some e else words subject := by
  rw [put, written_word]
  split <;> rfl

theorem put_word_self (words : Subject → Option Event) {e : Event} {subject : Subject}
    (h : e.subject = some subject) : put Event.word words e subject = some e := by
  rw [put_word, if_pos h]

theorem put_word_of_ne (words : Subject → Option Event) {e : Event} {subject : Subject}
    (h : e.subject ≠ some subject) : put Event.word words e subject = words subject := by
  rw [put_word, if_neg h]

theorem subject_ruleAdded {rule : Rule} {id : Nat} :
    (Event.ruleAdded rule).subject = some (.rule id) ↔ rule.id = id := by
  rw [Event.subject, Option.some.injEq, Subject.rule.injEq]

theorem subject_ruleRemoved {id id' : Nat} :
    (Event.ruleRemoved id).subject = some (.rule id') ↔ id = id' := by
  rw [Event.subject, Option.some.injEq, Subject.rule.injEq]

/-! ## States that are told by words -/

/-- A flow is what the last event about it says. -/
def FlowsTold (words : Subject → Option Event) (conns : KeyedMap String ConnectionInfo) : Prop :=
  ∀ key, conns.get? key = (words (.flow key)).bind Event.connValue

/-- A rule is in force if the last event about its id added it. -/
def RulesTold (words : Subject → Option Event) (rules : List Rule) : Prop :=
  ∀ rule, rule ∈ rules ↔ words (.rule rule.id) = some (.ruleAdded rule)

def PausedTold (words : Subject → Option Event) (paused : Bool) : Prop :=
  words .paused = some (.pausedChanged paused)

structure Tells (words : Subject → Option Event) (v : View) : Prop where
  flows : FlowsTold words v.connections
  rules : RulesTold words v.rules
  paused : PausedTold words v.paused

/-- Events that would have told this state. -/
def wordsOf (v : View) : Subject → Option Event
  | .flow key => (v.connections.get? key).map .connectionOpened
  | .rule id => (v.rules.find? fun r => r.id == id).map .ruleAdded
  | .paused => some (.pausedChanged v.paused)

theorem tells_wordsOf {v : View} (hids : (v.rules.map Rule.id).Nodup) : Tells (wordsOf v) v where
  flows key := by
    show _ = ((v.connections.get? key).map Event.connectionOpened).bind Event.connValue
    cases v.connections.get? key <;> rfl
  rules rule := by
    show _ ↔ (v.rules.find? fun r => r.id == rule.id).map Event.ruleAdded = _
    constructor
    · intro hmem
      cases hfind : v.rules.find? fun r => r.id == rule.id with
      | none => exact absurd (beq_iff_eq.mpr rfl) (List.find?_eq_none.mp hfind rule hmem)
      | some r =>
        have hid : r.id = rule.id := by simpa using List.find?_some hfind
        rw [List.inj_on_of_nodup_map hids (List.mem_of_find?_eq_some hfind) hmem hid]
        rfl
    · intro h
      obtain ⟨r, hfind, hr⟩ := Option.map_eq_some_iff.mp h
      rw [← Event.ruleAdded.inj hr]
      exact List.mem_of_find?_eq_some hfind
  paused := rfl

/-! ## One event -/

section Fold

variable {words : Subject → Option Event}

theorem FlowsTold.apply {conns : KeyedMap String ConnectionInfo} (h : FlowsTold words conns)
    (e : Event) : FlowsTold (put Event.word words e) (replayConn conns e) := by
  intro key
  rw [get?_replayConn]
  by_cases hkey : e.connKey = some key
  · rw [if_pos hkey, put_word_self words (connKey_eq_some.mp hkey)]
    rfl
  · rw [if_neg hkey, put_word_of_ne words fun hs => hkey (connKey_eq_some.mpr hs)]
    exact h key

theorem FlowsTold.replay {conns : KeyedMap String ConnectionInfo} (h : FlowsTold words conns)
    (events : List Event) :
    FlowsTold (WriteLog.replay Event.word words events) (replayConns conns events) := by
  induction events generalizing words conns with
  | nil => exact h
  | cons e es ih => exact ih (h.apply e)

/-- An event that is not about rules leaves them as they are told. -/
theorem RulesTold.quiet {rules : List Rule} {e : Event} (h : RulesTold words rules)
    (he : ∀ id, e.subject ≠ some (.rule id)) : RulesTold (put Event.word words e) rules := by
  intro rule
  rw [put_word_of_ne words (he rule.id)]
  exact h rule

theorem RulesTold.removed {rules : List Rule} (h : RulesTold words rules) (id : Nat) :
    RulesTold (put Event.word words (.ruleRemoved id)) (rules.filter fun r => r.id != id) := by
  intro rule
  rw [List.mem_filter, h rule, bne_iff_ne]
  by_cases hid : rule.id = id
  · rw [put_word_self words (subject_ruleRemoved.mpr hid.symm)]
    exact iff_of_false (fun hmem => hmem.2 hid) nofun
  · rw [put_word_of_ne words fun hs => hid (subject_ruleRemoved.mp hs).symm, and_iff_left hid]

/-- The added rule, and the others but for its id. -/
theorem RulesTold.added {rules : List Rule} (h : RulesTold words rules) (rule : Rule) :
    RulesTold (put Event.word words (.ruleAdded rule))
      ((rules.filter fun r => r.id != rule.id) ++ [rule]) := by
  intro r
  rw [List.mem_append, List.mem_singleton, List.mem_filter, h r, bne_iff_ne]
  by_cases hid : r.id = rule.id
  · rw [put_word_self words (subject_ruleAdded.mpr hid.symm), or_iff_right fun hmem => hmem.2 hid,
      Option.some.injEq, Event.ruleAdded.injEq]
    exact eq_comm
  · rw [put_word_of_ne words fun hs => hid (subject_ruleAdded.mp hs).symm, and_iff_left hid,
      or_iff_left fun heq => hid (congrArg Rule.id heq)]

/-- States that are told by the same words have the same rules. -/
theorem RulesTold.unique {words' : Subject → Option Event} {rules rules' : List Rule}
    (h : RulesTold words rules) (h' : RulesTold words' rules')
    (hwords : ∀ subject, words subject = words' subject) (rule : Rule) :
    rule ∈ rules ↔ rule ∈ rules' := by
  rw [h rule, h' rule, hwords]

/-- What the client makes of an event about rules is what it says. -/
theorem applyEvent_rules_told {s : ClientState} (h : RulesTold words s.rules) (e : Event) :
    RulesTold (put Event.word words e) (s.applyEvent e).rules := by
  rw [ClientState.applyEvent_rules]
  cases e with
  | ruleAdded rule => exact h.added rule
  | ruleRemoved id => exact h.removed id
  | _ => exact h.quiet fun id => by simp [Event.subject]

theorem applyEvent_paused_told {s : ClientState} (h : PausedTold words s.paused) (e : Event) :
    PausedTold (put Event.word words e) (s.applyEvent e).paused := by
  by_cases hpause : e.subject = some .paused
  · cases e with
    | pausedChanged paused => exact put_word_self words rfl
    | _ => simp [Event.subject] at hpause
  · refine (put_word_of_ne words hpause).trans ?_
    rw [ClientState.applyEvent_paused hpause]
    exact h

end Fold

/-! ## The client -/

section Client

variable {words : Subject → Option Event} {s : ClientState}

theorem replay_rules_told (h : RulesTold words s.rules) (events : List Event) :
    RulesTold (replay Event.word words events) (s.replay events).rules := by
  induction events generalizing words s with
  | nil => exact h
  | cons e es ih => exact ih (applyEvent_rules_told h e)

theorem replay_paused_told (h : PausedTold words s.paused) (events : List Event) :
    PausedTold (replay Event.word words events) (s.replay events).paused := by
  induction events generalizing words s with
  | nil => exact h
  | cons e es ih => exact ih (applyEvent_paused_told h e)

/-- The flows that a client has are told so. -/
def FlowsShown (words : Subject → Option Event) (conns : KeyedMap String ConnectionInfo) : Prop :=
  ∀ key conn, conns.get? key = some conn → (words (.flow key)).bind Event.connValue = some conn

/-- An event and the cap leave no flow but what the event says. -/
theorem applyEvent_conns_sub (hq : ClientState.Queued s.conns s.connOrder) {e : Event} {key : String}
    {conn : ConnectionInfo} (h : (s.applyEvent e).conns.get? key = some conn) :
    (replayConn s.conns e).get? key = some conn := by
  cases e with
  | connectionOpened c => exact ((ClientState.upsertConn_capped hq c true).get? key conn |>.mp h).2
  | connectionUpdated c => exact ((ClientState.upsertConn_capped hq c false).get? key conn |>.mp h).2
  | connectionClosed k =>
    change (s.removeConn k).conns.get? key = some conn at h
    rwa [ClientState.removeConn_conns] at h
  | _ => exact h

theorem applyEvent_conns_shown (hq : ClientState.Queued s.conns s.connOrder)
    (h : FlowsShown words s.conns) (e : Event) :
    FlowsShown (put Event.word words e) (s.applyEvent e).conns := by
  intro key conn hget
  have hsub := applyEvent_conns_sub hq hget
  rw [get?_replayConn] at hsub
  split at hsub
  · rename_i hkey
    rw [put_word_self words (connKey_eq_some.mp hkey)]
    exact hsub
  · rename_i hkey
    rw [put_word_of_ne words fun hs => hkey (connKey_eq_some.mpr hs)]
    exact h key conn hsub

theorem replay_conns_shown (hq : ClientState.Queued s.conns s.connOrder)
    (h : FlowsShown words s.conns) (events : List Event) :
    FlowsShown (replay Event.word words events) (s.replay events).conns := by
  induction events generalizing words s with
  | nil => exact h
  | cons e es ih =>
    exact ih (ClientState.applyEvent_queued hq e) (applyEvent_conns_shown hq h e)

/-- Within the cap, an event does to the client's flows what it says. -/
theorem applyEvent_conns {e : Event} (h : (replayConn s.conns e).size ≤ maxConnections) :
    (s.applyEvent e).conns = replayConn s.conns e := by
  cases e with
  | connectionOpened c =>
    exact congrArg Prod.fst (ClientState.enforceConnCap_of_le h _)
  | connectionUpdated c =>
    exact congrArg Prod.fst (ClientState.enforceConnCap_of_le h _)
  | connectionClosed k => exact ClientState.removeConn_conns s k
  | _ => rfl

theorem replay_conns {events : List Event}
    (h : ∀ pre, pre <+: events → (replayConns s.conns pre).size ≤ maxConnections) :
    (s.replay events).conns = replayConns s.conns events := by
  induction events generalizing s with
  | nil => rfl
  | cons e es ih =>
    have hone : (s.applyEvent e).conns = replayConn s.conns e :=
      applyEvent_conns (h [e] ⟨es, rfl⟩)
    show ((s.applyEvent e).replay es).conns = replayConns (replayConn s.conns e) es
    rw [← hone]
    refine ih fun pre hpre => ?_
    rw [hone]
    exact h (e :: pre) (List.cons_prefix_cons.mpr ⟨rfl, hpre⟩)

end Client

/-! ## The daemon -/

section Daemon

variable {words : Subject → Option Event}

/-- An added rule that is new, and replaces nothing. -/
def Fresh (rules : List Rule) (e : Event) : Prop :=
  ∀ rule, e = .ruleAdded rule → ∀ r ∈ rules, r.id ≠ rule.id ∧ Inner.sameTarget r rule = false

theorem Tells.apply {v : View} (h : Tells words v) {e : Event} (hfresh : Fresh v.rules e) :
    Tells (put Event.word words e) (v.apply e) where
  flows := by
    rw [View.apply_connections]
    exact h.flows.apply e
  rules := by
    cases e with
    | ruleAdded rule =>
      -- the rule that is replaced is the one with this id, as no other has its target
      have hkeep : v.rules.filter (fun r => !Inner.sameTarget r rule) =
          v.rules.filter fun r => r.id != rule.id := by
        refine List.filter_congr fun r hr => ?_
        obtain ⟨hid, htarget⟩ := hfresh rule rfl r hr
        rw [htarget, bne_iff_ne.mpr hid]
        rfl
      show RulesTold _ (v.rules.filter _ ++ [rule])
      rw [hkeep]
      exact h.rules.added rule
    | ruleRemoved id => exact h.rules.removed id
    | _ => exact h.rules.quiet fun id => by simp [Event.subject]
  paused := by
    by_cases hpause : e.subject = some .paused
    · cases e with
      | pausedChanged paused => exact put_word_self words rfl
      | _ => simp [Event.subject] at hpause
    · refine (put_word_of_ne words hpause).trans ?_
      rw [View.apply_paused hpause]
      exact h.paused

/-- Events that add no rule. -/
theorem Tells.replay {v : View} (h : Tells words v) {events : List Event}
    (hadded : ∀ rule, .ruleAdded rule ∉ events) :
    Tells (replay Event.word words events) (v.replay events) := by
  induction events generalizing words v with
  | nil => exact h
  | cons e es ih =>
    refine ih (h.apply fun rule he => ?_) fun rule hrule => ?_
    · exact absurd (he ▸ List.mem_cons_self) (hadded rule)
    · exact hadded rule (List.mem_cons_of_mem _ hrule)

/-- The task replaces no rule: an `AddRule` finds no rule with its path and action. -/
def KeepsRules (d : DaemonState) : Task → Prop
  | .handle _ (.addRule input) => ∀ r ∈ d.rules.list,
      ¬(r.exePath.pathEq input.exePath = true ∧ r.action = input.action)
  | _ => True

/-- **The daemon's side**: a task that replaces no rule says all that it changes. -/
theorem perform_tells {d d' : DaemonState} {t : Task} {events : List Event} (hok : d.Ok)
    (hkeeps : KeepsRules d t) (h : Tells words d.view) (hp : d.perform t = some (d', events)) :
    Tells (replay Event.word words events) d'.view := by
  rw [(DaemonState.perform_view hok hp).1]
  rcases DaemonState.perform_added hok hp with hadded | ⟨env, input, rule, rules, rfl, hadd, rfl⟩
  · exact h.replay hadded
  · refine h.apply fun rule' hrule r hr => ?_
    cases hrule
    obtain ⟨expiresAt, -, -, hnew, -⟩ := Inner.add_eq_some.mp hadd
    have hid : rule.id = d.rules.nextId := by rw [hnew]; rfl
    refine ⟨?_, ?_⟩
    · rw [hid]
      exact Nat.ne_of_lt (hok.store.fresh r hr)
    · by_contra hsame
      rw [Bool.not_eq_false, Inner.sameTarget, Bool.and_eq_true, decide_eq_true_iff, hnew] at hsame
      exact hkeeps r hr hsame

end Daemon

end LastWord

end TravelMode
