import TravelMode.Daemon.Main
import TravelMode.Daemon.RuleFile
import TravelMode.Gui.State

/-!
# The client's mirror of the rules

The daemon keeps its rules by executable and action, the client folds
`RuleAdded` and `RuleRemoved` into a list kept by id. The two have to stay in step
over any sequence of requests and reaper passes.

- `handle`: one request, or one reaper pass, handled to completion — the store is
  mutated, then the events are published and folded by the client.
- `Mirrors`: the client holds the daemon's ids, shows no other rule id, and shows
  an app blocked exactly when the daemon has a Block rule for it.
- `mirrors_iff`: this holds throughout a run if and only if no `AddRule` of the run
  replaces a rule. `RuleStore::add` drops the rule it replaces without an event, so
  the client keeps it; `remove` and the reaper publish what they drop.
-/

namespace TravelMode

namespace RuleMirror

/-- What changes the daemon's rules. -/
inductive Op where
  | addRule (rule : RuleInput)
  | removeRule (id : Nat)
  | reap

/-- The daemon and a client that receives every event. -/
structure World where
  daemon : DaemonState
  client : ClientState

/-- One operation handled to completion: the daemon's new state, and the events. -/
def handle (d : DaemonState) (env : Env) : Op → Option (DaemonState × List Event)
  | .addRule rule => (dispatch d env (.addRule rule)).map fun h => (h.state, h.published)
  | .removeRule id => (dispatch d env (.removeRule id)).map fun h => (h.state, h.published)
  | .reap => some (reaperPass d env.now)

/-- Handle an operation, then fold its events. -/
def step (w : World) (op : Env × Op) : Option World :=
  (handle w.daemon op.1 op.2).map fun (daemon, events) => ⟨daemon, w.client.replay events⟩

/-- The client agrees with the daemon about the rules. -/
structure Mirrors (w : World) : Prop where
  ids : (w.client.rules.map Rule.id).Perm (w.daemon.rules.list.map Rule.id)
  shown : ∀ key app id, w.client.apps.get? key = some app → app.blockRuleId = some id →
    ∃ r ∈ w.daemon.rules.list, r.id = id
  blocked : ∀ key app, w.client.apps.get? key = some app →
    (app.blocked = true ↔
      ∃ exe, app.exe = some exe ∧ ∃ r ∈ w.daemon.rules.list, r.blocks exe = true)

/-- The operation does not replace a stored rule: an `AddRule` finds no rule with its
path and action. -/
def KeepsRules (w : World) : Env × Op → Prop
  | (_, .addRule rule) => ∀ r ∈ w.daemon.rules.list,
      ¬(r.exePath.pathEq rule.exePath = true ∧ r.action = rule.action)
  | _ => True

/-- The invariant of runs without a replacement. -/
structure Sync (w : World) : Prop where
  store : Inner.Inv w.daemon.rules.persisted
  rules : w.client.rules = w.daemon.rules.list
  client : w.client.Reachable

/-- In step, the flags of the client are the flags of the daemon. -/
theorem Sync.mirrors {w : World} (h : Sync w) : Mirrors w where
  ids := by rw [h.rules]
  shown key app id hget hid := by
    rw [← h.rules]
    exact h.client.flagsOk.blockRuleId_mem hget hid
  blocked key app hget := by
    rw [← h.rules]
    exact h.client.flagsOk.blocked_iff hget

/-! ## Folding the events of one operation -/

/-- Folding removals drops the rules with those ids. -/
theorem replay_ruleRemoved_rules (s : ClientState) (ids : List Nat) :
    (s.replay (ids.map Event.ruleRemoved)).rules =
      s.rules.filter fun r => decide (r.id ∉ ids) := by
  induction ids generalizing s with
  | nil => exact (List.filter_eq_self.mpr fun r _ => by simp).symm
  | cons id ids ih =>
    show ((s.applyEvent (.ruleRemoved id)).replay (ids.map Event.ruleRemoved)).rules = _
    rw [ih]
    show (s.rules.filter _).filter _ = _
    rw [List.filter_filter]
    refine List.filter_congr fun r _ => ?_
    rw [Bool.eq_iff_iff]
    simp [List.mem_cons, not_or, and_comm]

/-- A fresh rule is appended by the client. -/
theorem applyEvent_ruleAdded_rules {s : ClientState} {rule : Rule}
    (h : ∀ r ∈ s.rules, r.id ≠ rule.id) :
    (s.applyEvent (.ruleAdded rule)).rules = s.rules ++ [rule] := by
  show (s.rules.filter fun r => r.id != rule.id) ++ [rule] = _
  rw [List.filter_eq_self.mpr fun r hr => by simpa using h r hr]

/-- What an `AddRule` that is handled to completion does. -/
theorem step_addRule {w w' : World} {env : Env} {input : RuleInput}
    (h : step w (env, .addRule input) = some w') :
    ∃ rule rules, w.daemon.rules.add input env.now = some (rule, rules) ∧
      w'.daemon.rules = rules ∧ w'.client = w.client.applyEvent (.ruleAdded rule) := by
  obtain ⟨⟨d, events⟩, hh, rfl⟩ := Option.map_eq_some_iff.mp h
  obtain ⟨handled, hd, he⟩ := Option.map_eq_some_iff.mp hh
  obtain ⟨⟨rule, rules⟩, hadd, rfl⟩ := Option.map_eq_some_iff.mp hd
  cases he
  exact ⟨rule, rules, hadd, rfl, rfl⟩

/-- The id of an added rule is new to the client as well. -/
theorem Sync.fresh {w : World} {input : RuleInput} {now : DateTime} {rule : Rule} {rules : Inner}
    (hs : Sync w) (hadd : w.daemon.rules.add input now = some (rule, rules)) :
    ∀ r ∈ w.client.rules, r.id ≠ rule.id := by
  obtain ⟨expiresAt, -, -, hrule, -⟩ := Inner.add_eq_some.mp hadd
  have hid : rule.id = w.daemon.rules.nextId := by rw [hrule]; rfl
  intro r hr
  rw [hs.rules] at hr
  have hlt := hs.store.fresh r hr
  rw [hid]
  exact Nat.ne_of_lt hlt

/-- An `AddRule` that replaces nothing. -/
theorem Sync.addRule {w w' : World} {env : Env} {input : RuleInput} (hs : Sync w)
    (hk : KeepsRules w (env, .addRule input)) (h : step w (env, .addRule input) = some w') :
    Sync w' := by
  obtain ⟨rule, rules, hadd, hrules, hclient⟩ := step_addRule h
  have hinv := Inner.add_inv hs.store hadd
  have hfresh := hs.fresh hadd
  obtain ⟨expiresAt, -, -, hrule, hst⟩ := Inner.add_eq_some.mp hadd
  refine { store := hrules ▸ hinv, rules := ?_, client := hclient ▸ hs.client.event _ }
  rw [hclient, hrules, applyEvent_ruleAdded_rules hfresh, hs.rules, hst]
  -- nothing has the target of the new rule, so `add` drops nothing
  show w.daemon.rules.rules ++ [rule] = _ ++ [rule]
  congr 1
  refine (List.filter_eq_self.mpr fun r hr => ?_).symm
  rw [Bool.not_eq_true', Inner.sameTarget, Bool.and_eq_false_iff, decide_eq_false_iff_not]
  by_contra hcon
  rw [not_or, Bool.not_eq_false, not_not] at hcon
  rw [hrule] at hcon
  exact hk r hr hcon

/-- A `RemoveRule`, whether or not it finds the id. -/
theorem Sync.removeRule {w w' : World} {env : Env} {id : Nat} (hs : Sync w)
    (h : step w (env, .removeRule id) = some w') : Sync w' := by
  obtain ⟨⟨d, events⟩, hh, rfl⟩ := Option.map_eq_some_iff.mp h
  simp only [handle, dispatch] at hh
  cases hrem : w.daemon.rules.remove id with
  | none =>
    rw [hrem] at hh
    cases hh
    exact hs
  | some removed =>
    obtain ⟨rule, rules⟩ := removed
    rw [hrem] at hh
    cases hh
    obtain ⟨-, -, hst⟩ := Inner.remove_eq_some hrem
    refine { store := Inner.remove_inv hs.store hrem, rules := ?_,
             client := hs.client.replay [.ruleRemoved id] }
    show w.client.rules.filter _ = rules.rules
    rw [hst, hs.rules]
    exact (Inner.eraseP_id_eq_filter hs.store.ids id).symm

/-- A step that replaces nothing keeps daemon and client in step. -/
theorem step_sync {w w' : World} {op : Env × Op} (hs : Sync w) (hk : KeepsRules w op)
    (h : step w op = some w') : Sync w' := by
  obtain ⟨env, op⟩ := op
  cases op with
  | addRule input => exact hs.addRule hk h
  | removeRule id => exact hs.removeRule h
  | reap =>
    obtain ⟨⟨d, events⟩, hh, rfl⟩ := Option.map_eq_some_iff.mp h
    cases hh
    refine { store := Inner.reapExpired_inv hs.store env.now, rules := ?_,
             client := hs.client.replay _ }
    show (w.client.replay (List.map Event.ruleRemoved _)).rules = _
    rw [replay_ruleRemoved_rules, hs.rules]
    exact Inner.filter_not_mem_ids hs.store.ids _

/-- After a replacement the client still has the rule that the daemon dropped. -/
theorem step_replaces {w w' : World} {op : Env × Op} (hs : Sync w) (hk : ¬KeepsRules w op)
    (h : step w op = some w') : ¬Mirrors w' := by
  obtain ⟨env, op⟩ := op
  cases op with
  | removeRule id => exact absurd trivial hk
  | reap => exact absurd trivial hk
  | addRule input =>
    obtain ⟨rule, rules, hadd, hrules, hclient⟩ := step_addRule h
    obtain ⟨expiresAt, -, -, hrule, hst⟩ := Inner.add_eq_some.mp hadd
    have hid : rule.id = w.daemon.rules.nextId := by rw [hrule]; rfl
    simp only [KeepsRules, not_forall, not_not] at hk
    obtain ⟨r, hr, hpath, haction⟩ := hk
    have hlt : r.id < w.daemon.rules.nextId := hs.store.fresh r hr
    intro hm
    -- the client keeps `r`
    have hkept : r.id ∈ w'.client.rules.map Rule.id := by
      rw [hclient, applyEvent_ruleAdded_rules (hs.fresh hadd)]
      refine List.mem_map.mpr ⟨r, List.mem_append_left _ ?_, rfl⟩
      rw [hs.rules]
      exact hr
    -- the daemon does not
    have hmem := hm.ids.mem_iff.mp hkept
    rw [hrules, hst] at hmem
    obtain ⟨s, hs', hsid⟩ := List.mem_map.mp hmem
    rcases List.mem_append.mp hs' with hs' | hs'
    · have hsame : Inner.sameTarget s rule = false := by simpa using (List.mem_filter.mp hs').2
      have hsr : s = r :=
        List.inj_on_of_nodup_map hs.store.ids (List.mem_filter.mp hs').1 hr hsid
      rw [hsr, hrule, Inner.sameTarget, Bool.and_eq_false_iff, decide_eq_false_iff_not] at hsame
      rcases hsame with hp | ha
      · exact Bool.false_ne_true (hp.symm.trans hpath)
      · exact ha haction
    · rw [List.mem_singleton.mp hs', hid] at hsid
      omega

/-! ## Whole runs -/

/-- Without replacements, daemon and client are in step after the run. -/
theorem run_sync {w w' : World} {ops : List (Env × Op)} (hs : Sync w)
    (h : Runs.run step w ops = some w') (hk : Runs.AlongRun step KeepsRules w ops) : Sync w' := by
  exact Runs.run_invariant_along step_sync hs h hk

/-- **The rule mirror**: from a client that holds the daemon's rules, daemon and client
agree after every step of a run if and only if no `AddRule` of the run replaces a
stored rule. -/
theorem mirrors_iff {w w' : World} {ops : List (Env × Op)}
    (hstore : w.daemon.rules.Reachable) (hclient : w.client.Reachable)
    (hrules : w.client.rules = w.daemon.rules.list) (h : Runs.run step w ops = some w') :
    (∀ pre m, pre <+: ops → Runs.run step w pre = some m → Mirrors m) ↔
      Runs.AlongRun step KeepsRules w ops := by
  have hsync : Sync w := ⟨hstore.inv, hrules, hclient⟩
  constructor
  · intro hall
    induction ops using List.reverseRecOn generalizing w' with
    | nil => exact Runs.alongRun_nil
    | append_singleton ops op ih =>
      obtain ⟨m, hm, hstep⟩ := Runs.run_snoc.mp h
      have hops := ih hm fun pre m' hpre hm' =>
        hall pre m' (hpre.trans (List.prefix_append ops [op])) hm'
      refine (Runs.alongRun_snoc hm).mpr ⟨hops, ?_⟩
      by_contra hk
      exact step_replaces (run_sync hsync hm hops) hk hstep
        (hall (ops ++ [op]) w' (List.prefix_refl _) h)
  · intro hk pre m hpre hm
    exact (run_sync hsync hm (Runs.alongRun_prefix hk hpre)).mirrors

/-! ### Runs on concrete input -/

/-- A fresh daemon and a client that has just connected to it. -/
def fresh : World := ⟨.new .firstStart, .default⟩

/-- Block `/usr/bin/curl`. -/
def blockCurl : Op :=
  .addRule ⟨"curl", .ofString "/usr/bin/curl", .block, true, none⟩

/-- Curl is blocked, and wget for no time; the reaper comes, and curl's rule is removed and
added again. -/
def blockAgain : List (Env × Op) :=
  [(.epoch, blockCurl),
    (.epoch, .addRule ⟨"wget", .ofString "/usr/bin/wget", .block, false, some 0⟩),
    (.epoch, .reap), (.epoch, .removeRule 1), (.epoch, blockCurl)]

theorem blockAgain_runs : (Runs.run step fresh blockAgain).isSome = true := by decide +kernel

theorem mirrors_iff_block :
    let w := (Runs.run step fresh blockAgain).get blockAgain_runs
    w.daemon.rules.list.map Rule.id = [3] ∧ w.client.rules.map Rule.id = [3] ∧
      ((∀ pre m, pre <+: blockAgain → Runs.run step fresh pre = some m → Mirrors m) ↔
        Runs.AlongRun step KeepsRules fresh blockAgain) :=
  ⟨by decide +kernel, by decide +kernel,
    mirrors_iff (Inner.reachable_start _) .default rfl (Option.some_get blockAgain_runs).symm⟩

/-- Blocking twice and then removing the rule that the daemon has: the client still
shows the app blocked, by the first rule. -/
theorem block_twice_not_mirrored :
    ∃ w, Runs.run step fresh
        [(.epoch, blockCurl), (.epoch, blockCurl), (.epoch, .removeRule 2)] = some w ∧
      w.daemon.rules.list = [] ∧ w.client.rules.map Rule.id = [1] ∧
      (w.client.apps.get? "/usr/bin/curl").map AppEntry.blockRuleId = some (some 1) ∧
      (w.client.apps.get? "/usr/bin/curl").map AppEntry.blocked = some true ∧ ¬Mirrors w := by
  refine ⟨_, rfl, by decide +kernel, by decide +kernel, by decide +kernel, by decide +kernel, ?_⟩
  intro h
  have hlen := h.ids.length_eq
  revert hlen
  decide +kernel

end RuleMirror

end TravelMode
