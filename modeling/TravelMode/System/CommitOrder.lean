import Mathlib.Data.List.Perm.Basic
import TravelMode.Daemon.RuleFile
import TravelMode.Daemon.Main
import TravelMode.Gui.State
import TravelMode.Lib.Runs

/-!
# The order in which rule events are published

A handler and the reaper change the rule store under its mutex, and publish when they
have let go of it. So the order of publications need not be the order of changes.

- `World`: the daemon, what its handlers and its reaper have still to publish, and what is
  published. One handler publishes one event; the reaper works off a round before the next.
- `Ordered`: no removal is published before the addition of the same rule, nor with that
  addition still to be published. `ordered_step` says which steps keep it.
- `commit_order_iff`: exactly when rule events come out in order, and no client keeps a
  deleted rule; `removed_before_added` is a run on which they do not.
-/

namespace TravelMode

namespace CommitOrder

structure World where
  daemon : DaemonState
  /-- The events that handlers have still to publish, one of each handler. -/
  handlers : List Event
  /-- The rest of the reaper's round, in its order. -/
  reaper : List Event
  published : List Event
  /-- The ids that `remove` and `reap_expired` have taken out of the store. -/
  deleted : List Nat

inductive Action where
  /-- A handler runs `dispatch` up to its publication. -/
  | handle (env : Env) (req : Request)
  /-- The handler at this position publishes. -/
  | publish (i : Nat)
  /-- The reaper's next round, up to its first publication. -/
  | reap (now : DateTime)
  | reaperPublish

/-- The ids of the rules that are gone. -/
def goneIds (before after : Inner) : List Nat :=
  (before.rules.filter fun r => decide (r ∉ after.rules)).map Rule.id

/-- What a request deletes: `add` replaces rules, but deletes none. -/
def deletedBy (before after : Inner) : Request → List Nat
  | .removeRule _ => goneIds before after
  | _ => []

def step (w : World) : Action → Option World
  | .handle env req =>
    (dispatch w.daemon env req).map fun handled =>
      { w with
        daemon := handled.state
        handlers := w.handlers ++ handled.published
        deleted := w.deleted ++ deletedBy w.daemon.rules handled.state.rules req }
  | .publish i =>
    w.handlers[i]?.map fun e =>
      { w with handlers := w.handlers.eraseIdx i, published := w.published ++ [e] }
  | .reap now =>
    match w.reaper with
    | [] =>
      let (daemon, events) := reaperPass w.daemon now
      some { w with
        daemon := daemon
        reaper := events
        deleted := w.deleted ++ goneIds w.daemon.rules daemon.rules }
    | _ :: _ => none
  | .reaperPublish =>
    match w.reaper with
    | [] => none
    | e :: rest => some { w with reaper := rest, published := w.published ++ [e] }

/-- Nothing is pending, nothing published yet. -/
def start (d : DaemonState) : World := ⟨d, [], [], [], []⟩

/-- Every event of the run, published or not. -/
def World.events (w : World) : List Event := w.handlers ++ w.reaper ++ w.published

/-- The event that an action publishes. -/
def nextEvent (w : World) : Action → Option Event
  | .publish i => w.handlers[i]?
  | .reaperPublish => w.reaper.head?
  | _ => none

/-- A removal before an addition of the same rule. -/
def Misordered (e e' : Event) : Prop :=
  ∃ rule, e = .ruleRemoved rule.id ∧ e' = .ruleAdded rule

/-- The id of the rule that an event adds. -/
def addedId : Event → Option Nat
  | .ruleAdded rule => some rule.id
  | _ => none

/-- The rule whose removal is published is not one whose addition is still to be. -/
def InTurn (w : World) (a : Action) : Prop :=
  match nextEvent w a with
  | some (.ruleRemoved id) => ∀ e ∈ w.handlers, addedId e ≠ some id
  | _ => True

instance (w : World) (a : Action) : Decidable (InTurn w a) := by
  unfold InTurn
  split <;> infer_instance

theorem inTurn_iff {w : World} {a : Action} :
    InTurn w a ↔ ∀ id, nextEvent w a = some (.ruleRemoved id) →
      ∀ rule, .ruleAdded rule ∈ w.handlers → rule.id ≠ id := by
  unfold InTurn
  constructor
  · intro h id hid rule hrule heq
    rw [hid] at h
    exact h _ hrule (congrArg some heq)
  · intro h
    split
    · rename_i id hid
      intro e he hadded
      cases e with
      | ruleAdded rule => exact h id hid rule he (Option.some.inj hadded)
      | _ => cases hadded
    · trivial

/-! ## What a step can do -/

/-- A change of the store, and the events about it: an added rule is new, a removed one is
not. -/
structure Commit (before after : Inner) (events : List Event) : Prop where
  store : Inner.Inv after.persisted
  next : before.nextId ≤ after.nextId
  added : ∀ rule, .ruleAdded rule ∈ events → before.nextId ≤ rule.id
  removed : ∀ id, .ruleRemoved id ∈ events → id < after.nextId

theorem Commit.none {st : Inner} {events : List Event} (hi : Inner.Inv st.persisted)
    (h : ∀ e ∈ events, (∀ rule, e ≠ .ruleAdded rule) ∧ ∀ id, e ≠ .ruleRemoved id) :
    Commit st st events where
  store := hi
  next := Nat.le_refl _
  added rule hrule := absurd rfl ((h _ hrule).1 rule)
  removed id hid := absurd rfl ((h _ hid).2 id)

/-- A store that stays as it is has lost no rule. -/
theorem not_mem_deletedBy_self {st : Inner} {req : Request} {id : Nat} :
    id ∉ deletedBy st st req := by
  intro hid
  cases req with
  | removeRule _ =>
    obtain ⟨r, hr, -⟩ := List.mem_map.mp hid
    obtain ⟨hr, hgone⟩ := List.mem_filter.mp hr
    exact of_decide_eq_true hgone hr
  | _ => cases hid

theorem commit_dispatch {d : DaemonState} {env : Env} {req : Request} {handled : Handled}
    (hi : Inner.Inv d.rules.persisted) (h : dispatch d env req = some handled) :
    Commit d.rules handled.state.rules handled.published ∧
      ∀ id ∈ deletedBy d.rules handled.state.rules req, .ruleRemoved id ∈ handled.published := by
  rcases dispatch_cases h with ⟨input, rule, rules, rfl, hadd, hstate, hpub⟩ |
    ⟨id, rule, rules, rfl, hrem, hstate, hpub⟩ | ⟨paused, rfl, hstate, hpub⟩ | ⟨hstate, hpub⟩
  · rw [hstate, hpub]
    have hinv := Inner.add_inv hi hadd
    obtain ⟨expiresAt, -, -, hrule, rfl⟩ := Inner.add_eq_some.mp hadd
    refine ⟨⟨hinv, Nat.le_succ _, fun rule' hmem => ?_, fun id hmem => ?_⟩, List.forall_mem_nil _⟩
    · cases List.mem_singleton.mp hmem
      rw [hrule]
      exact Nat.le_refl _
    · cases List.mem_singleton.mp hmem
  · rw [hstate, hpub]
    have hinv := Inner.remove_inv hi hrem
    obtain ⟨hmem, hid, rfl⟩ := Inner.remove_eq_some hrem
    refine ⟨⟨hinv, Nat.le_refl _, fun rule' h' => ?_, fun id' h' => ?_⟩, fun id' hid' => ?_⟩
    · cases List.mem_singleton.mp h'
    · cases List.mem_singleton.mp h'
      exact hid ▸ hi.fresh rule hmem
    · obtain ⟨r, hr, rfl⟩ := List.mem_map.mp hid'
      obtain ⟨hr, hgone⟩ := List.mem_filter.mp hr
      -- what is gone has the id that was removed
      have hrid : r.id = id := by
        by_contra hne
        have hkept : r ∈ d.rules.rules.filter fun r => !(r.id == id) :=
          List.mem_filter.mpr ⟨hr, by simpa using hne⟩
        rw [← Inner.eraseP_id_eq_filter (show (d.rules.rules.map Rule.id).Nodup from hi.ids)]
          at hkept
        exact of_decide_eq_true hgone hkept
      rw [hrid]
      exact List.mem_singleton.mpr rfl
  · rw [hstate, hpub]
    refine ⟨.none hi fun e he => ?_, List.forall_mem_nil _⟩
    rw [List.mem_singleton.mp he]
    exact ⟨fun _ => Event.noConfusion, fun _ => Event.noConfusion⟩
  · rw [hstate, hpub]
    refine ⟨.none hi (List.forall_mem_nil _), fun id hid => absurd hid ?_⟩
    exact not_mem_deletedBy_self

theorem commit_reaperPass {d : DaemonState} (hi : Inner.Inv d.rules.persisted) (now : DateTime) :
    Commit d.rules (reaperPass d now).1.rules (reaperPass d now).2 ∧
      (∀ rule, .ruleAdded rule ∉ (reaperPass d now).2) ∧
      ∀ id ∈ goneIds d.rules (reaperPass d now).1.rules, .ruleRemoved id ∈ (reaperPass d now).2 := by
  have hadded : ∀ rule, .ruleAdded rule ∉ (reaperPass d now).2 := by
    intro rule h
    obtain ⟨id, -, hid⟩ := List.mem_map.mp h
    cases hid
  refine ⟨⟨Inner.reapExpired_inv hi now, Nat.le_refl _, fun rule h => absurd h (hadded rule),
    fun id h => ?_⟩, hadded, fun id h => ?_⟩
  · obtain ⟨id', hid', heq⟩ := List.mem_map.mp h
    cases heq
    obtain ⟨r, hr, rfl⟩ := List.mem_map.mp hid'
    exact hi.fresh r (List.mem_filter.mp hr).1
  · obtain ⟨r, hr, rfl⟩ := List.mem_map.mp h
    obtain ⟨hr, hgone⟩ := List.mem_filter.mp hr
    refine List.mem_map.mpr ⟨r.id, List.mem_map.mpr ⟨r, List.mem_filter.mpr ⟨hr, ?_⟩, rfl⟩, rfl⟩
    by_contra hlive
    refine of_decide_eq_true hgone (List.mem_filter.mpr ⟨hr, ?_⟩)
    simpa using hlive

/-- Everything a step can do: a change of the store, by a handler or by the reaper, or a
publication. -/
theorem step_cases {w w' : World} {a : Action} (hi : Inner.Inv w.daemon.rules.persisted)
    (h : step w a = some w') :
    (nextEvent w a = none ∧ ∃ events ids, Commit w.daemon.rules w'.daemon.rules events ∧
      w'.published = w.published ∧ w'.deleted = w.deleted ++ ids ∧
      (∀ id ∈ ids, .ruleRemoved id ∈ events) ∧
      ((w'.handlers = w.handlers ++ events ∧ w'.reaper = w.reaper) ∨
        (w.reaper = [] ∧ w'.handlers = w.handlers ∧ w'.reaper = events ∧
          ∀ rule, .ruleAdded rule ∉ events))) ∨
    ∃ e, nextEvent w a = some e ∧ w'.daemon = w.daemon ∧ w'.deleted = w.deleted ∧
      w'.published = w.published ++ [e] ∧
      (((e :: w'.handlers).Perm w.handlers ∧ w'.reaper = w.reaper) ∨
        (w'.handlers = w.handlers ∧ w.reaper = e :: w'.reaper)) := by
  cases a with
  | handle env req =>
    obtain ⟨handled, hd, rfl⟩ := Option.map_eq_some_iff.mp h
    obtain ⟨hcommit, hdeleted⟩ := commit_dispatch hi hd
    exact .inl ⟨rfl, _, _, hcommit, rfl, rfl, hdeleted, .inl ⟨rfl, rfl⟩⟩
  | publish i =>
    obtain ⟨e, he, rfl⟩ := Option.map_eq_some_iff.mp h
    refine .inr ⟨e, he, rfl, rfl, rfl, .inl ⟨?_, rfl⟩⟩
    -- what is published leaves its place among the handlers, wherever that is
    obtain ⟨hlt, rfl⟩ := List.getElem?_eq_some_iff.mp he
    exact List.getElem_cons_eraseIdx_perm hlt
  | reap now =>
    simp only [step] at h
    split at h
    · rename_i hreaper
      cases h
      -- a round starts only when the last one is published
      obtain ⟨hcommit, hadded, hdeleted⟩ := commit_reaperPass hi now
      exact .inl ⟨rfl, _, _, hcommit, rfl, rfl, hdeleted, .inr ⟨hreaper, rfl, rfl, hadded⟩⟩
    · cases h
  | reaperPublish =>
    simp only [step] at h
    split at h
    · cases h
    · rename_i e rest hreaper
      cases h
      exact .inr ⟨e, by rw [nextEvent, hreaper]; rfl, rfl, rfl, rfl, .inr ⟨rfl, hreaper⟩⟩

/-! ## The invariant -/

structure Inv (w : World) : Prop where
  store : Inner.Inv w.daemon.rules.persisted
  removed : ∀ id, .ruleRemoved id ∈ w.events → id < w.daemon.rules.nextId
  /-- The reaper adds nothing. -/
  reaper : ∀ rule, .ruleAdded rule ∉ w.reaper
  /-- What was deleted is announced, or will be. -/
  deleted : ∀ id ∈ w.deleted, .ruleRemoved id ∈ w.events

theorem inv_start {d : DaemonState} (h : Inner.Inv d.rules.persisted) : Inv (start d) where
  store := h
  removed _ h := nomatch h
  reaper _ h := nomatch h
  deleted _ h := nomatch h

theorem inv_step {w w' : World} {a : Action} (h : Inv w) (hs : step w a = some w') : Inv w' := by
  rcases step_cases h.store hs with
    ⟨-, events, ids, hcommit, hpub, hdel, hids, hplace⟩ | ⟨e, -, hd, hdel, hpub, hplace⟩
  · have hmem : ∀ e, e ∈ w'.events ↔ e ∈ w.events ∨ e ∈ events := by
      intro e
      rcases hplace with ⟨hh, hr⟩ | ⟨hr, hh, hr', -⟩
      · simp only [World.events, hpub, hh, hr, List.mem_append]
        tauto
      · simp only [World.events, hpub, hh, hr, hr', List.mem_append, List.not_mem_nil]
        tauto
    refine ⟨hcommit.store, fun id hid => ?_, fun rule hrule => ?_, fun id hid => ?_⟩
    · rcases (hmem _).mp hid with hid | hid
      · exact Nat.lt_of_lt_of_le (h.removed id hid) hcommit.next
      · exact hcommit.removed id hid
    · rcases hplace with ⟨-, hr⟩ | ⟨-, -, hr', hnone⟩
      · exact h.reaper rule (hr ▸ hrule)
      · exact hnone rule (hr' ▸ hrule)
    · rw [hdel] at hid
      rcases List.mem_append.mp hid with hid | hid
      · exact (hmem _).mpr (.inl (h.deleted id hid))
      · exact (hmem _).mpr (.inr (hids id hid))
  · -- what is published is what was pending
    have hmem : ∀ e', e' ∈ w'.events ↔ e' ∈ w.events := by
      intro e'
      rcases hplace with ⟨hh, hr⟩ | ⟨hh, hr⟩
      · simp only [World.events, hpub, hr, List.mem_append, ← hh.mem_iff, List.mem_cons,
          List.not_mem_nil, or_false]
        tauto
      · simp only [World.events, hpub, hh, hr, List.mem_append, List.mem_cons, List.not_mem_nil,
          or_false]
        tauto
    refine ⟨hd ▸ h.store, fun id hid => ?_, fun rule hrule => ?_, fun id hid => ?_⟩
    · rw [hd]
      exact h.removed id ((hmem _).mp hid)
    · rcases hplace with ⟨-, hr⟩ | ⟨-, hr⟩
      · exact h.reaper rule (hr ▸ hrule)
      · exact h.reaper rule (hr ▸ List.mem_cons_of_mem _ hrule)
    · exact (hmem _).mpr (h.deleted id (hdel ▸ hid))

/-! ## Order -/

/-- Nothing published is out of order, nor will be what is published next. -/
structure Ordered (w : World) : Prop where
  published : w.published.Pairwise fun e e' => ¬Misordered e e'
  pending : ∀ id, .ruleRemoved id ∈ w.published → ∀ rule, .ruleAdded rule ∈ w.handlers → rule.id ≠ id

/-- A change of the store leaves the order as it was: what it adds has a new id. -/
theorem Inv.ordered_commit {w w' : World} (h : Inv w) (hpub : w'.published = w.published)
    (hold : ∀ rule, .ruleAdded rule ∈ w.handlers → .ruleAdded rule ∈ w'.handlers)
    (hnew : ∀ rule, .ruleAdded rule ∈ w'.handlers →
      .ruleAdded rule ∈ w.handlers ∨ w.daemon.rules.nextId ≤ rule.id) :
    Ordered w' ↔ Ordered w := by
  constructor
  · rintro ⟨hpw, hpend⟩
    rw [hpub] at hpw hpend
    exact ⟨hpw, fun id hid rule hrule => hpend id hid rule (hold rule hrule)⟩
  · rintro ⟨hpw, hpend⟩
    refine ⟨hpub ▸ hpw, fun id hid rule hrule => ?_⟩
    rw [hpub] at hid
    rcases hnew rule hrule with hrule | hle
    · exact hpend id hid rule hrule
    · -- the id of a new rule is above every id removed so far
      have hlt := h.removed id (List.mem_append_right _ hid)
      omega

/-- A publication keeps the order if it announces no removal before the rule's own addition. -/
theorem ordered_publish {w w' : World} {a : Action} {e : Event} (hnext : nextEvent w a = some e)
    (hpub : w'.published = w.published ++ [e])
    (hhandlers : ∀ e', e' ∈ w'.handlers → e' ∈ w.handlers)
    (hadded : ∀ rule, .ruleAdded rule ∈ w.handlers →
      e = .ruleAdded rule ∨ .ruleAdded rule ∈ w'.handlers)
    (hfrom : ∀ rule, e = .ruleAdded rule → .ruleAdded rule ∈ w.handlers) :
    Ordered w' ↔ Ordered w ∧ InTurn w a := by
  constructor
  · rintro ⟨hpw, hpend⟩
    rw [hpub] at hpw hpend
    obtain ⟨hpw, -, hlast⟩ := List.pairwise_append.mp hpw
    refine ⟨⟨hpw, fun id hid rule hrule heq => ?_⟩,
      inTurn_iff.mpr fun id hid rule hrule heq => ?_⟩
    · rcases hadded rule hrule with he | he
      · exact hlast _ hid e (List.mem_singleton.mpr rfl) ⟨rule, by rw [heq], he⟩
      · exact hpend id (List.mem_append_left _ hid) rule he heq
    · rw [hnext] at hid
      cases hid
      rcases hadded rule hrule with he | he
      · cases he
      · exact hpend id (List.mem_append_right _ (List.mem_singleton.mpr rfl)) rule he heq
  · rintro ⟨⟨hpw, hpend⟩, hin⟩
    constructor
    · rw [hpub]
      refine List.pairwise_append.mpr ⟨hpw, List.pairwise_singleton _ _, fun e₀ he₀ e₁ he₁ => ?_⟩
      rintro ⟨rule, rfl, hrule⟩
      rw [List.mem_singleton.mp he₁] at hrule
      exact hpend rule.id he₀ rule (hfrom rule hrule) rfl
    · intro id hid rule hrule
      rw [hpub] at hid
      rcases List.mem_append.mp hid with hid | hid
      · exact hpend id hid rule (hhandlers _ hrule)
      · rw [List.mem_singleton] at hid
        exact inTurn_iff.mp hin id (hid ▸ hnext) rule (hhandlers _ hrule)

/-- **Step lemma**: a step leaves the events ordered exactly if they were, and it
publishes in turn. -/
theorem ordered_step {w w' : World} {a : Action} (h : Inv w) (hs : step w a = some w') :
    Ordered w' ↔ Ordered w ∧ InTurn w a := by
  rcases step_cases h.store hs with
    ⟨hnext, events, ids, hcommit, hpub, -, -, hplace⟩ | ⟨e, hnext, -, -, hpub, hplace⟩
  · have hin : InTurn w a := by
      rw [inTurn_iff, hnext]
      exact fun id hid => nomatch hid
    rw [and_iff_left hin]
    refine h.ordered_commit hpub (fun rule hrule => ?_) fun rule hrule => ?_
    · rcases hplace with ⟨hh, -⟩ | ⟨-, hh, -⟩
      · rw [hh]
        exact List.mem_append_left _ hrule
      · rw [hh]
        exact hrule
    · rcases hplace with ⟨hh, -⟩ | ⟨-, hh, -⟩
      · rw [hh] at hrule
        exact (List.mem_append.mp hrule).imp_right (hcommit.added rule)
      · exact .inl (hh ▸ hrule)
  · refine ordered_publish hnext hpub (fun e' he' => ?_) (fun rule hrule => ?_) ?_
    · rcases hplace with ⟨hh, -⟩ | ⟨hh, -⟩
      · exact hh.mem_iff.mp (List.mem_cons_of_mem _ he')
      · exact hh ▸ he'
    · rcases hplace with ⟨hh, -⟩ | ⟨hh, -⟩
      · rcases List.mem_cons.mp (hh.mem_iff.mpr hrule) with he | he
        · exact .inl he.symm
        · exact .inr he
      · exact .inr (hh ▸ hrule)
    · rintro rule rfl
      rcases hplace with ⟨hh, -⟩ | ⟨-, hr⟩
      · exact hh.mem_iff.mp List.mem_cons_self
      · exact absurd (hr ▸ List.mem_cons_self) (h.reaper rule)

/-- **Run lemma.** -/
theorem ordered_run {w₀ w : World} {sched : List Action} (h : Inv w₀) (ho : Ordered w₀)
    (hrun : Runs.run step w₀ sched = some w) : Ordered w ↔ Runs.AlongRun step InTurn w₀ sched :=
  Runs.run_iff_along (fun hi hs => inv_step hi hs) (fun hi hs => ordered_step hi hs) h ho hrun

/-! ## What the client keeps -/

/-- A rule that is not there, and not added, is not there. -/
theorem stays_out {id : Nat} {events : List Event} (s : ClientState)
    (hout : ∀ r ∈ s.rules, r.id ≠ id) (hadded : ∀ rule, .ruleAdded rule ∈ events → rule.id ≠ id) :
    ∀ r ∈ (s.replay events).rules, r.id ≠ id := by
  induction events generalizing s with
  | nil => exact hout
  | cons e events ih =>
    refine ih (s.applyEvent e) ?_ fun rule hrule => hadded rule (List.mem_cons_of_mem _ hrule)
    rw [ClientState.applyEvent_rules]
    cases e with
    | ruleAdded rule =>
      intro r hr
      rcases List.mem_append.mp hr with hr | hr
      · exact hout r (List.mem_filter.mp hr).1
      · rw [List.mem_singleton.mp hr]
        exact hadded rule List.mem_cons_self
    | ruleRemoved id' => exact fun r hr => hout r (List.mem_filter.mp hr).1
    | _ => exact hout

/-- Where rule events come in order, a client keeps no rule whose removal it has seen. -/
theorem not_kept {id : Nat} {events : List Event} (s : ClientState)
    (hpw : events.Pairwise fun e e' => ¬Misordered e e') (hmem : .ruleRemoved id ∈ events) :
    ∀ r ∈ (s.replay events).rules, r.id ≠ id := by
  induction events generalizing s with
  | nil => cases hmem
  | cons e events ih =>
    obtain ⟨hfirst, hrest⟩ := List.pairwise_cons.mp hpw
    rcases List.mem_cons.mp hmem with rfl | hmem
    · refine stays_out (s.applyEvent (.ruleRemoved id)) (fun r hr => ?_) fun rule hrule heq => ?_
      · rw [ClientState.applyEvent_rules] at hr
        simpa using (List.mem_filter.mp hr).2
      · exact hfirst _ hrule ⟨rule, by rw [heq], rfl⟩
    · exact ih (s.applyEvent e) hrest hmem

/-- **Commit order**: when every handler and the reaper have published, rule events have
come out in the order of their changes, and no client keeps a rule that was deleted,
exactly if every removal was published in turn. -/
theorem commit_order_iff {d : DaemonState} (hd : d.rules.Reachable) {sched : List Action}
    {w : World} (hrun : Runs.run step (start d) sched = some w) (hhandlers : w.handlers = [])
    (hreaper : w.reaper = []) :
    (w.published.Pairwise (fun e e' => ¬Misordered e e') ∧
      ∀ client : ClientState, ∀ r ∈ (client.replay w.published).rules, r.id ∉ w.deleted) ↔
    Runs.AlongRun step InTurn (start d) sched := by
  have hi : Inv w := Runs.run_invariant (fun hi hs => inv_step hi hs) (inv_start hd.inv) hrun
  have ho : Ordered (start d) := ⟨List.Pairwise.nil, fun _ h => nomatch h⟩
  rw [← ordered_run (inv_start hd.inv) ho hrun]
  constructor
  · rintro ⟨hpw, -⟩
    refine ⟨hpw, fun id _ rule hrule => ?_⟩
    rw [hhandlers] at hrule
    cases hrule
  · rintro ⟨hpw, -⟩
    refine ⟨hpw, fun client r hr hdel => ?_⟩
    have hannounced := hi.deleted r.id hdel
    rw [World.events, hhandlers, hreaper] at hannounced
    exact not_kept client hpw hannounced r hr rfl

/-! ### A rule added and removed, both ways -/

/-- Block `/usr/bin/curl`. -/
def blockCurl : Request := .addRule ⟨"curl", .ofString "/usr/bin/curl", .block, true, none⟩

/-- The handler of the removal finds the rule announced. -/
def inTurn : List Action :=
  [.handle .epoch blockCurl, .publish 0, .handle .epoch (.removeRule 1), .publish 0]

theorem inTurn_runs : (Runs.run step (start (.new .firstStart)) inTurn).isSome = true := by
  decide +kernel

theorem commit_order_iff_inTurn :
    let w := (Runs.run step (start (.new .firstStart)) inTurn).get inTurn_runs
    w.published.length = 2 ∧ w.deleted = [1] ∧
      w.published.Pairwise (fun e e' => ¬Misordered e e') ∧
      ∀ client : ClientState, ∀ r ∈ (client.replay w.published).rules, r.id ∉ w.deleted :=
  ⟨by decide +kernel, by decide +kernel,
    (commit_order_iff (Inner.reachable_start _) (Option.some_get inTurn_runs).symm
      (by decide +kernel) (by decide +kernel)).mpr (by decide +kernel)⟩

/-- The handler of the removal is the faster one. -/
def overtaken : List Action :=
  [.handle .epoch blockCurl, .handle .epoch (.removeRule 1), .publish 1, .publish 0]

/-- The removal is published before the addition, and a client that has seen both keeps
the rule that the store has deleted. -/
theorem removed_before_added :
    ∃ w rule, Runs.run step (start (.new .firstStart)) overtaken = some w ∧
      w.handlers = [] ∧ w.reaper = [] ∧ rule.id = 1 ∧
      w.published = [.ruleRemoved 1, .ruleAdded rule] ∧
      w.daemon.rules.rules = [] ∧ w.deleted = [1] ∧
      (ClientState.default.replay w.published).rules = [rule] :=
  ⟨_, _, rfl, by decide +kernel, by decide +kernel, rfl, rfl, by decide +kernel,
    by decide +kernel, by decide +kernel⟩

end CommitOrder

end TravelMode
