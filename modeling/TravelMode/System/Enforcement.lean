import TravelMode.Daemon.ConntrackText
import TravelMode.Daemon.Main
import TravelMode.Lib.Runs

/-!
# Killing the flows of blocked apps

Two tasks kill: the poll loop, once, for the rules that there are when it has made its first
pass, and the handler of `AddRule`, for the rule that it has stored. Requests, the reaper and
the other tasks run between any two of their steps.

- `Issue`: the step that brought a kill about: the store of a handler's rule, or the listing.
- `kills_agree`: every kill was brought about so, and the verdict path blocks the app exactly
  when filtering is not paused and the steps since then have left a Block rule in force.
- `startup_enforced_iff`: the flows that the first readable table brings are gone through exactly
  when no read failed before, and their rules are still stored when the loop lists them.
- `enforce_undisturbed`, `addRule_undisturbed`: without interference, the steps are
  `kill_flows_for_block_rules` and the handler.
-/

namespace TravelMode

namespace Enforcement

/-! ## The system -/

/-- Where the poll loop is. -/
inductive Loop where
  /-- At its top. -/
  | poll
  /-- About to list the rules. -/
  | list
  /-- Killing, for these paths one after the other. -/
  | kill (paths : List PathBuf)
deriving DecidableEq

/-- The daemon, the poll loop and the handlers. -/
structure World where
  daemon : DaemonState
  startupEnforced : Bool
  loop : Loop
  /-- The Block rules that handlers have stored and have yet to kill for. -/
  handlers : List Rule
  /-- The flows that `kill_flows_for_block_rules` has tried to kill. -/
  attempts : List ConnectionInfo

inductive Action where
  | poll (t : TablePoll)
  | listRules
  | startupKill (now : DateTime)
  | addRule (now : DateTime) (input : RuleInput)
  | handlerKill (i : Nat) (now : DateTime)
  | removeRule (id : Nat)
  | setPaused (value : Bool)
  | reap (now : DateTime)
  /-- Other work of the daemon, which writes neither rules nor flows nor the switch. -/
  | work (d : DaemonState)

/-- The paths of the Block rules. -/
def blockPaths (rules : Inner) : List PathBuf :=
  (rules.list.filter fun r => r.action = .block).map Rule.exePath

/-- The loop with these paths to kill for. -/
def killing : List PathBuf → Loop
  | [] => .poll
  | path :: paths => .kill (path :: paths)

/-- One step. -/
def step (w : World) : Action → Option World
  | .poll t =>
    match w.loop with
    | .poll => (w.daemon.pollTable t).map fun r =>
        { w with
          daemon := r.1
          startupEnforced := true
          loop := if w.startupEnforced then .poll else .list }
    | _ => none
  | .listRules =>
    match w.loop with
    | .list => some { w with loop := killing (blockPaths w.daemon.rules) }
    | _ => none
  | .startupKill _ =>
    match w.loop with
    | .kill (path :: paths) =>
      some { w with
        loop := killing paths
        attempts := w.attempts ++ matchingFlows w.daemon.connections path }
    | _ => none
  | .addRule now input =>
    (w.daemon.rules.add input now).map fun (stored, rules) =>
      { w with
        daemon := { w.daemon with rules := rules }
        handlers := if stored.action = .block then w.handlers ++ [stored] else w.handlers }
  | .handlerKill i _ =>
    if i < w.handlers.length then some { w with handlers := w.handlers.eraseIdx i } else none
  | .removeRule id =>
    some { w with
      daemon := { w.daemon with
        rules := ((w.daemon.rules.remove id).map Prod.snd).getD w.daemon.rules } }
  | .setPaused value => some { w with daemon := { w.daemon with paused := value } }
  | .reap now => some { w with daemon := (reaperPass w.daemon now).1 }
  | .work d =>
    some { w with daemon := { d with
      rules := w.daemon.rules, connections := w.daemon.connections, paused := w.daemon.paused } }

/-- The daemon with the rules it has loaded. -/
def start (rules : Inner) : World where
  daemon := .new rules
  startupEnforced := false
  loop := .poll
  handlers := []
  attempts := []

/-- The action kills the flows of the path. -/
inductive Kills (w : World) : Action → PathBuf → DateTime → Prop where
  | startup {path : PathBuf} {paths : List PathBuf} (now : DateTime)
      (h : w.loop = .kill (path :: paths)) : Kills w (.startupKill now) path now
  | handler {r : Rule} {i : Nat} (now : DateTime) (h : w.handlers[i]? = some r) :
      Kills w (.handlerKill i now) r.exePath now

/-- The poll loop's own steps. -/
def Action.ofLoop : Action → Bool
  | .poll _ | .listRules | .startupKill _ => true
  | _ => false

/-- What a step is for the poll loop: one of its own, or another task's, which leaves its
place, its flows and what it has tried to kill. -/
inductive LoopStep (w : World) : Action → World → Prop where
  | poll (t : TablePoll) (r : DaemonState × List Event) (hloop : w.loop = .poll)
      (hpoll : w.daemon.pollTable t = some r) :
      LoopStep w (.poll t) { w with
        daemon := r.1
        startupEnforced := true
        loop := if w.startupEnforced then .poll else .list }
  | listRules (hloop : w.loop = .list) :
      LoopStep w .listRules { w with loop := killing (blockPaths w.daemon.rules) }
  | startupKill (now : DateTime) {path : PathBuf} {paths : List PathBuf}
      (hloop : w.loop = .kill (path :: paths)) :
      LoopStep w (.startupKill now) { w with
        loop := killing paths
        attempts := w.attempts ++ matchingFlows w.daemon.connections path }
  | other {a : Action} {w' : World} (hother : a.ofLoop = false)
      (hconns : w'.daemon.connections = w.daemon.connections)
      (henforced : w'.startupEnforced = w.startupEnforced) (hloop : w'.loop = w.loop)
      (hattempts : w'.attempts = w.attempts) : LoopStep w a w'

theorem step_loop {w w' : World} {a : Action} (h : step w a = some w') : LoopStep w a w' := by
  cases a with
  | poll t =>
    unfold step at h
    dsimp only at h
    split at h
    · rename_i hloop
      obtain ⟨r, hpoll, rfl⟩ := Option.map_eq_some_iff.mp h
      exact .poll t r hloop hpoll
    · cases h
  | listRules =>
    unfold step at h
    dsimp only at h
    split at h
    · rename_i hloop
      cases h
      exact .listRules hloop
    · cases h
  | startupKill now =>
    unfold step at h
    dsimp only at h
    split at h
    · rename_i path paths hloop
      cases h
      exact .startupKill now hloop
    · cases h
  | addRule now input =>
    obtain ⟨added, -, rfl⟩ := Option.map_eq_some_iff.mp h
    exact .other rfl rfl rfl rfl rfl
  | handlerKill i now =>
    obtain ⟨-, h⟩ := Option.ite_none_right_eq_some.mp h
    cases h
    exact .other rfl rfl rfl rfl rfl
  | removeRule id =>
    cases h
    exact .other rfl rfl rfl rfl rfl
  | setPaused value =>
    cases h
    exact .other rfl rfl rfl rfl rfl
  | reap now =>
    cases h
    exact .other rfl rfl rfl rfl rfl
  | work d =>
    cases h
    exact .other rfl rfl rfl rfl rfl

/-! ## Steps without interference -/

/-- The flows that the kills for the paths are about. -/
def victims (conns : KeyedMap String ConnectionInfo) (paths : List PathBuf) :
    List ConnectionInfo :=
  paths.flatMap (matchingFlows conns)

theorem killFlowsForBlockRules_eq (available : Bool) (d : DaemonState) :
    killFlowsForBlockRules available d =
      (victims d.connections (blockPaths d.rules)).flatMap (killFlow available) := by
  unfold killFlowsForBlockRules victims blockPaths killFlowsForExe
  rw [List.flatMap_map, List.flatMap_assoc]

/-- The kills of the loop, one after the other. -/
theorem kills_undisturbed (now : DateTime) (paths : List PathBuf) (w : World)
    (h : w.loop = killing paths) :
    Runs.run step w (List.replicate paths.length (.startupKill now)) =
      some { w with
        loop := .poll
        attempts := w.attempts ++ victims w.daemon.connections paths } := by
  induction paths generalizing w with
  | nil =>
    obtain ⟨daemon, startupEnforced, loop, handlers, attempts⟩ := w
    cases h
    simp [victims]
  | cons path paths ih =>
    have hstep : step w (.startupKill now) = some
        { w with
          loop := killing paths
          attempts := w.attempts ++ matchingFlows w.daemon.connections path } := by
      simp only [step, h, killing]
    rw [List.length_cons, List.replicate_succ, Runs.run_cons, hstep, Option.bind_some, ih _ rfl]
    simp [victims]

/-- Undisturbed, the loop tries to kill what `kill_flows_for_block_rules` runs commands for. -/
theorem enforce_undisturbed {w : World} (h : w.loop = .list) (now : DateTime)
    (available : Bool) :
    ∃ w', Runs.run step w (.listRules ::
        List.replicate (blockPaths w.daemon.rules).length (.startupKill now)) = some w' ∧
      w'.loop = .poll ∧ ∃ flows, w'.attempts = w.attempts ++ flows ∧
        flows.flatMap (killFlow available) = killFlowsForBlockRules available w.daemon := by
  have hlist : step w .listRules =
      some { w with loop := killing (blockPaths w.daemon.rules) } := by
    simp only [step, h]
  refine ⟨{ w with
      loop := .poll
      attempts := w.attempts ++ victims w.daemon.connections (blockPaths w.daemon.rules) },
    ?_, rfl, _, rfl, (killFlowsForBlockRules_eq available w.daemon).symm⟩
  rw [Runs.run_cons, hlist, Option.bind_some, kills_undisturbed now _ _ rfl]

/-- Undisturbed, a handler stores its rule and kills, as `dispatch` does. -/
theorem addRule_undisturbed {w : World} {env : Env} {input : RuleInput} {handled : Handled}
    (h : dispatch w.daemon env (.addRule input) = some handled) :
    ∃ (stored : Rule) (w' : World),
      step w (.addRule env.now input) = some w' ∧ w'.daemon = handled.state ∧
      (stored.action = .block → Kills w' (.handlerKill w.handlers.length env.now) stored.exePath
        env.now) ∧
      handled.commands = if stored.action = .block then
        killFlowsForExe env.conntrackAvailable w'.daemon.connections stored.exePath else [] := by
  obtain ⟨⟨stored, rules⟩, hadd, rfl⟩ := Option.map_eq_some_iff.mp h
  have hstep : step w (.addRule env.now input) = some
      { w with
        daemon := { w.daemon with rules := rules }
        handlers := if stored.action = .block then w.handlers ++ [stored] else w.handlers } := by
    rw [step, hadd]
    rfl
  refine ⟨stored, _, hstep, rfl, fun hblock => ?_, rfl⟩
  refine .handler env.now ?_
  show (if stored.action = .block then w.handlers ++ [stored] else _)[_]? = _
  rw [if_pos hblock]
  exact List.getElem?_concat_length

/-! ## The rules in force -/

/-- The verdict path drops the packets of the app: filtering is not paused, and the app is
blocked. -/
def Blocking (d : DaemonState) (path : PathBuf) (now : DateTime) : Prop :=
  d.paused = false ∧ d.rules.isBlocked path now = true

/-- The action stores the rule. -/
def Action.Stores (w : World) (r : Rule) (a : Action) : Prop :=
  ∃ now input rules, a = .addRule now input ∧ w.daemon.rules.add input now = some (r, rules)

/-- What the action leaves of a rule: `add` replaces rules for its target, `remove` drops the
rule with the id, the reaper what has expired. -/
def Action.Keeps (r : Rule) : Action → Prop
  | .addRule _ input => ¬(r.exePath.pathEq input.exePath = true ∧ r.action = input.action)
  | .removeRule id => r.id ≠ id
  | .reap now => isExpired r now = false
  | _ => True

/-- The rule is one of these or the steps from `w` stored it, and none since has dropped it. -/
def Survives (base : List Rule) (w : World) (steps : List Action) (r : Rule) : Prop :=
  (r ∈ base ∧ ∀ a ∈ steps, a.Keeps r) ∨
    ∃ pre a post m, steps = pre ++ a :: post ∧ Runs.run step w pre = some m ∧ a.Stores m r ∧
      ∀ b ∈ post, b.Keeps r

/-- What the switch was set to last. -/
def lastPaused (steps : List Action) : Option Bool :=
  (steps.filterMap fun a => match a with
    | .setPaused value => some value
    | _ => none).getLast?

theorem survives_nil {base : List Rule} {w : World} {r : Rule} :
    Survives base w [] r ↔ r ∈ base := by
  constructor
  · rintro (⟨hr, -⟩ | ⟨pre, a, post, m, heq, -⟩)
    · exact hr
    · cases pre <;> cases heq
  · exact fun hr => .inl ⟨hr, fun _ ha => nomatch ha⟩

/-- One step more. -/
theorem survives_snoc {base : List Rule} {w m : World} {steps : List Action} {a : Action}
    {r : Rule} (hm : Runs.run step w steps = some m) :
    Survives base w (steps ++ [a]) r ↔ Survives base w steps r ∧ a.Keeps r ∨ a.Stores m r := by
  constructor
  · rintro (⟨hr, hkeeps⟩ | ⟨pre, b, post, m', heq, hm', hstores, hkeeps⟩)
    · exact .inl ⟨.inl ⟨hr, fun b hb => hkeeps b (List.mem_append_left _ hb)⟩,
        hkeeps a (List.mem_append_right _ List.mem_cons_self)⟩
    · -- the rule was stored by the last step, or before it
      rcases List.eq_nil_or_concat post with rfl | ⟨post, last, rfl⟩
      · obtain ⟨rfl, hlast⟩ := List.append_inj' heq rfl
        cases hlast
        rw [hm] at hm'
        cases hm'
        exact .inr hstores
      · rw [List.concat_eq_append, ← List.cons_append, ← List.append_assoc] at heq
        obtain ⟨rfl, hlast⟩ := List.append_inj' heq rfl
        cases hlast
        rw [List.concat_eq_append] at hkeeps
        exact .inl ⟨.inr ⟨pre, b, post, m', rfl, hm', hstores, fun c hc =>
          hkeeps c (List.mem_append_left _ hc)⟩,
          hkeeps a (List.mem_append_right _ List.mem_cons_self)⟩
  · rintro (⟨⟨hr, hkeeps⟩ | ⟨pre, b, post, m', rfl, hm', hstores, hkeeps⟩, hlast⟩ | hstores)
    · refine .inl ⟨hr, fun b hb => ?_⟩
      rcases List.mem_append.mp hb with hb | hb
      · exact hkeeps b hb
      · rw [List.mem_singleton.mp hb]
        exact hlast
    · refine .inr ⟨pre, b, post ++ [a], m', by simp, hm', hstores, fun c hc => ?_⟩
      rcases List.mem_append.mp hc with hc | hc
      · exact hkeeps c hc
      · rw [List.mem_singleton.mp hc]
        exact hlast
    · exact .inr ⟨steps, a, [], m, rfl, hm, hstores, fun _ hc => nomatch hc⟩

/-- What holds in every run. -/
structure Inv (w : World) : Prop where
  store : Inner.Inv w.daemon.rules.persisted
  filed : Filed w.daemon.connections

theorem inv_start {rules : Inner} (h : Inner.Inv rules.persisted) : Inv (start rules) where
  store := h
  filed := fun _ _ hc => nomatch hc

/-- Nothing that a poll does is about rules or the switch. -/
theorem pollTable_frame {d : DaemonState} {t : TablePoll} {r : DaemonState × List Event}
    (hf : Filed d.connections) (h : d.pollTable t = some r) :
    r.1.rules = d.rules ∧ r.1.paused = d.paused ∧ Filed r.1.connections := by
  unfold DaemonState.pollTable at h
  split at h
  · cases h
    exact ⟨rfl, rfl, hf⟩
  · have hacc := DaemonState.pollOnce_spec hf h
    exact ⟨hacc.rules, hacc.paused, hacc.conns ▸ filed_replayConns hf _⟩

theorem add_rules {st rules : Inner} {input : RuleInput} {now : DateTime} {stored : Rule}
    (hadd : st.add input now = some (stored, rules)) (r : Rule) :
    r ∈ rules.rules ↔
      r ∈ st.rules ∧ ¬(r.exePath.pathEq input.exePath = true ∧ r.action = input.action) ∨
        r = stored := by
  obtain ⟨expiresAt, -, -, rfl, rfl⟩ := Inner.add_eq_some.mp hadd
  rw [List.mem_append, List.mem_filter, List.mem_singleton, Bool.not_eq_true', ← Bool.not_eq_true,
    Inner.sameTarget, Bool.and_eq_true, decide_eq_true_iff]
  rfl

theorem remove_rules {st : Inner} (h : Inner.Inv st.persisted) (id : Nat) (r : Rule) :
    r ∈ (((st.remove id).map Prod.snd).getD st).rules ↔ r ∈ st.rules ∧ r.id ≠ id := by
  cases hremove : st.remove id with
  | none =>
    -- no rule has the id
    have hnone : ∀ s ∈ st.rules, s.id ≠ id := by
      have hfind := List.find?_eq_none.mp (Option.map_eq_none_iff.mp hremove)
      exact fun s hs he => hfind s hs (by simpa using he)
    exact ⟨fun hr => ⟨hr, hnone r hr⟩, And.left⟩
  | some removed =>
    obtain ⟨rule, rules⟩ := removed
    obtain ⟨-, -, rfl⟩ := Inner.remove_eq_some hremove
    show r ∈ st.rules.eraseP _ ↔ _
    have hids : (st.rules.map Rule.id).Nodup := h.ids
    rw [Inner.eraseP_id_eq_filter hids, List.mem_filter]
    simp

/-- A step that leaves the rules alone. -/
theorem rules_idle {w w' : World} {a : Action} {r : Rule}
    (hrules : w'.daemon.rules = w.daemon.rules) (hkeeps : a.Keeps r)
    (hstores : ∀ now input, a ≠ .addRule now input) :
    r ∈ w'.daemon.rules.rules ↔ r ∈ w.daemon.rules.rules ∧ a.Keeps r ∨ a.Stores w r := by
  rw [hrules, and_iff_left hkeeps, or_iff_left]
  rintro ⟨now, input, rules, ha, -⟩
  exact hstores now input ha

/-- **Step lemma**: what a step makes of the rules. -/
theorem step_rules {w w' : World} {a : Action} (h : Inv w) (hstep : step w a = some w')
    (r : Rule) :
    r ∈ w'.daemon.rules.rules ↔ r ∈ w.daemon.rules.rules ∧ a.Keeps r ∨ a.Stores w r := by
  cases a with
  | poll t =>
    cases step_loop hstep with
    | poll _ _ _ hpoll =>
      exact rules_idle (pollTable_frame h.filed hpoll).1 trivial fun _ _ he => nomatch he
    | other hother => cases hother
  | listRules =>
    cases step_loop hstep with
    | listRules => exact rules_idle rfl trivial fun _ _ he => nomatch he
    | other hother => cases hother
  | startupKill now =>
    cases step_loop hstep with
    | startupKill => exact rules_idle rfl trivial fun _ _ he => nomatch he
    | other hother => cases hother
  | addRule now input =>
    obtain ⟨⟨stored, rules⟩, hadd, rfl⟩ := Option.map_eq_some_iff.mp hstep
    refine (add_rules hadd r).trans (or_congr_right ⟨?_, ?_⟩)
    · rintro rfl
      exact ⟨now, input, rules, rfl, hadd⟩
    · rintro ⟨now', input', rules', ha, hadd'⟩
      cases ha
      rw [hadd] at hadd'
      cases hadd'
      rfl
  | handlerKill i now =>
    obtain ⟨-, hstep⟩ := Option.ite_none_right_eq_some.mp hstep
    cases hstep
    exact rules_idle rfl trivial fun _ _ he => nomatch he
  | removeRule id =>
    cases hstep
    refine (remove_rules h.store id r).trans (or_iff_left ?_).symm
    rintro ⟨_, _, _, ha, -⟩
    cases ha
  | setPaused value =>
    cases hstep
    exact rules_idle rfl trivial fun _ _ he => nomatch he
  | reap now =>
    cases hstep
    show r ∈ w.daemon.rules.rules.filter _ ↔ _
    rw [List.mem_filter, Bool.not_eq_true', or_iff_left]
    · rfl
    · rintro ⟨_, _, _, ha, -⟩
      cases ha
  | work d =>
    cases hstep
    exact rules_idle rfl trivial fun _ _ he => nomatch he

theorem step_inv {w w' : World} {a : Action} (h : Inv w) (hstep : step w a = some w') :
    Inv w' := by
  cases a with
  | poll t =>
    cases step_loop hstep with
    | poll _ r _ hpoll =>
      obtain ⟨hrules, -, hfiled⟩ := pollTable_frame h.filed hpoll
      refine ⟨?_, hfiled⟩
      show Inner.Inv r.1.rules.persisted
      exact hrules ▸ h.store
    | other hother => cases hother
  | listRules =>
    cases step_loop hstep with
    | listRules => exact ⟨h.store, h.filed⟩
    | other hother => cases hother
  | startupKill now =>
    cases step_loop hstep with
    | startupKill => exact ⟨h.store, h.filed⟩
    | other hother => cases hother
  | addRule now input =>
    obtain ⟨⟨stored, rules⟩, hadd, rfl⟩ := Option.map_eq_some_iff.mp hstep
    exact ⟨Inner.add_inv h.store hadd, h.filed⟩
  | handlerKill i now =>
    obtain ⟨-, hstep⟩ := Option.ite_none_right_eq_some.mp hstep
    cases hstep
    exact ⟨h.store, h.filed⟩
  | removeRule id =>
    cases hstep
    refine ⟨?_, h.filed⟩
    show Inner.Inv (((w.daemon.rules.remove id).map Prod.snd).getD w.daemon.rules).persisted
    cases hremove : w.daemon.rules.remove id with
    | none => exact h.store
    | some removed => exact Inner.remove_inv h.store hremove
  | setPaused value =>
    cases hstep
    exact ⟨h.store, h.filed⟩
  | reap now =>
    cases hstep
    exact ⟨Inner.reapExpired_inv h.store now, h.filed⟩
  | work d =>
    cases hstep
    exact ⟨h.store, h.filed⟩

/-- **Run lemma**: the store holds the rules that survive the steps. -/
theorem rules_of_run {w w' : World} {steps : List Action} (h : Inv w)
    (hrun : Runs.run step w steps = some w') (r : Rule) :
    r ∈ w'.daemon.rules.rules ↔ Survives w.daemon.rules.rules w steps r := by
  refine Runs.run_history (I := fun steps w' => ∀ r, r ∈ w'.daemon.rules.rules ↔
    Survives w.daemon.rules.rules w steps r) (fun r => survives_nil.symm) ?_ hrun r
  intro steps m m' a hm ih hstep r
  rw [step_rules (Runs.run_invariant step_inv h hm) hstep, survives_snoc hm, ih]

theorem lastPaused_snoc (steps : List Action) (a : Action) :
    lastPaused (steps ++ [a]) = match a with
      | .setPaused value => some value
      | _ => lastPaused steps := by
  unfold lastPaused
  rw [List.filterMap_append]
  cases a <;> simp

/-- A step that is no switch leaves the switch alone. -/
theorem step_paused {w w' : World} {a : Action} (h : Inv w) (hstep : step w a = some w') :
    w'.daemon.paused = match a with
      | .setPaused value => value
      | _ => w.daemon.paused := by
  cases a with
  | poll t =>
    cases step_loop hstep with
    | poll _ _ _ hpoll => exact (pollTable_frame h.filed hpoll).2.1
    | other hother => cases hother
  | listRules =>
    cases step_loop hstep with
    | listRules => rfl
    | other hother => cases hother
  | startupKill now =>
    cases step_loop hstep with
    | startupKill => rfl
    | other hother => cases hother
  | addRule now input =>
    obtain ⟨added, -, rfl⟩ := Option.map_eq_some_iff.mp hstep
    rfl
  | handlerKill i now =>
    obtain ⟨-, hstep⟩ := Option.ite_none_right_eq_some.mp hstep
    cases hstep
    rfl
  | _ =>
    cases hstep
    rfl

/-- The switch is where the run put it last. -/
theorem paused_of_run {rules : Inner} (h : Inner.Inv rules.persisted) {acts : List Action}
    {w : World} (hrun : Runs.run step (start rules) acts = some w) :
    w.daemon.paused = (lastPaused acts).getD false := by
  refine Runs.run_history (I := fun acts w => w.daemon.paused = (lastPaused acts).getD false)
    rfl ?_ hrun
  intro acts m m' a hm ih hstep
  rw [step_paused (Runs.run_invariant step_inv (inv_start h) hm) hstep, lastPaused_snoc]
  cases a <;> first | rfl | exact ih

/-! ## What brings a kill about -/

/-- The step makes another one kill for the rule: a handler kills for the rule that it has
stored, the poll loop for those that it has listed. -/
inductive Causes (before : World) (r : Rule) : Action → World → Action → DateTime → Prop where
  | stored {a : Action} {w : World} {i : Nat} (now : DateTime) (hstores : a.Stores before r)
      (h : w.handlers[i]? = some r) : Causes before r a w (.handlerKill i now) now
  | listed {w : World} {paths : List PathBuf} (now : DateTime)
      (hlisted : r ∈ before.daemon.rules.list) (h : w.loop = .kill (r.exePath :: paths)) :
      Causes before r .listRules w (.startupKill now) now

/-- What brought a kill about, and the steps between. -/
structure Issue (rules : Inner) (acts : List Action) (w : World) (kill : Action)
    (now : DateTime) where
  pre : List Action
  cause : Action
  between : List Action
  before : World
  after : World
  rule : Rule
  split : acts = pre ++ cause :: between
  start : Runs.run step (start rules) pre = some before
  step : step before cause = some after
  rest : Runs.run Enforcement.step after between = some w
  block : rule.action = .block
  causes : Causes before rule cause w kill now

/-- A Block rule for the path of `r` is in force after the steps: `r` itself, or one stored
since. -/
def InForce (r : Rule) (after : World) (between : List Action) (now : DateTime) : Prop :=
  ∃ s, Survives [r] after between s ∧ s.blocks r.exePath = true ∧ isExpired s now = false

/-- The paths that the loop has yet to kill for. -/
def Loop.paths : Loop → List PathBuf
  | .kill paths => paths
  | _ => []

theorem paths_killing (paths : List PathBuf) : (killing paths).paths = paths := by
  cases paths <;> rfl

/-- Where the handlers' rules come from. -/
theorem step_handlers {w w' : World} {a : Action} {r : Rule} (hstep : step w a = some w')
    (hr : r ∈ w'.handlers) : r ∈ w.handlers ∨ r.action = .block ∧ a.Stores w r := by
  cases a with
  | poll t =>
    cases step_loop hstep with
    | poll => exact .inl hr
    | other hother => cases hother
  | listRules =>
    cases step_loop hstep with
    | listRules => exact .inl hr
    | other hother => cases hother
  | startupKill now =>
    cases step_loop hstep with
    | startupKill => exact .inl hr
    | other hother => cases hother
  | addRule now input =>
    obtain ⟨⟨stored, rules⟩, hadd, rfl⟩ := Option.map_eq_some_iff.mp hstep
    change r ∈ (if stored.action = .block then w.handlers ++ [stored] else w.handlers) at hr
    split at hr
    · rename_i hblock
      rcases List.mem_append.mp hr with hr | hr
      · exact .inl hr
      · rw [List.mem_singleton.mp hr]
        exact .inr ⟨hblock, now, input, rules, rfl, hadd⟩
    · exact .inl hr
  | handlerKill i now =>
    obtain ⟨-, hstep⟩ := Option.ite_none_right_eq_some.mp hstep
    cases hstep
    exact .inl (List.mem_of_mem_eraseIdx hr)
  | _ =>
    cases hstep
    exact .inl hr

/-- Where the loop's paths come from. -/
theorem step_paths {w w' : World} {a : Action} {path : PathBuf} (hstep : step w a = some w')
    (hpath : path ∈ w'.loop.paths) :
    path ∈ w.loop.paths ∨ a = .listRules ∧ path ∈ blockPaths w.daemon.rules := by
  cases step_loop hstep with
  | poll t r hloop hpoll =>
    change path ∈ (if w.startupEnforced then Loop.poll else Loop.list).paths at hpath
    split at hpath <;> cases hpath
  | listRules hloop =>
    change path ∈ (killing _).paths at hpath
    rw [paths_killing] at hpath
    exact .inr ⟨rfl, hpath⟩
  | startupKill now hloop =>
    change path ∈ (killing _).paths at hpath
    rw [paths_killing] at hpath
    rw [hloop]
    exact .inl (List.mem_cons_of_mem _ hpath)
  | other _ _ _ hloop _ =>
    rw [hloop] at hpath
    exact .inl hpath

/-- The rules that handlers hold were stored, and the paths that the loop holds were listed. -/
structure Traced (rules : Inner) (acts : List Action) (w : World) : Prop where
  handlers : ∀ r ∈ w.handlers, r.action = .block ∧
    Runs.During step (fun m a => a.Stores m r) (start rules) acts
  listed : ∀ path ∈ w.loop.paths, Runs.During step
    (fun m a => a = .listRules ∧ path ∈ blockPaths m.daemon.rules) (start rules) acts

theorem traced_of_run {rules : Inner} {acts : List Action} {w : World}
    (hrun : Runs.run step (start rules) acts = some w) : Traced rules acts w := by
  refine Runs.run_history (I := Traced rules)
    ⟨fun _ hr => absurd hr List.not_mem_nil, fun _ hp => absurd hp List.not_mem_nil⟩ ?_ hrun
  intro acts m m' a hm ih hstep
  constructor
  · intro r hr
    rcases step_handlers hstep hr with hr | ⟨hblock, hstores⟩
    · exact ⟨(ih.handlers r hr).1, (ih.handlers r hr).2.append _⟩
    · exact ⟨hblock, Runs.during_last hm hstores⟩
  · intro path hpath
    rcases step_paths hstep hpath with hpath | hlisted
    · exact (ih.listed path hpath).append _
    · exact Runs.during_last hm hlisted

/-- What was during a run, was at a step of it. -/
theorem exists_issue {rules : Inner} {acts : List Action} {w : World} {kill : Action}
    {now : DateTime} {r : Rule} (hrun : Runs.run step (start rules) acts = some w)
    (hblock : r.action = .block)
    (h : Runs.During step (fun m a => Causes m r a w kill now) (start rules) acts) :
    ∃ issue : Issue rules acts w kill now, issue.rule = r := by
  obtain ⟨pre, a, post, m, hsplit, hm, hcauses⟩ := h
  rw [hsplit] at hrun
  obtain ⟨m', hm', hrest⟩ := Runs.run_append_eq_some.mp hrun
  rw [hm] at hm'
  cases hm'
  obtain ⟨after, hafter, hrest⟩ := Runs.run_cons_eq_some.mp hrest
  exact ⟨⟨pre, a, post, m, after, r, hsplit, hm, hafter, hrest, hblock, hcauses⟩, rfl⟩

/-- Every kill was brought about by the store or the listing of a Block rule. -/
theorem kill_issued {rules : Inner} {acts : List Action} {w : World}
    (hrun : Runs.run step (start rules) acts = some w) {kill : Action} {path : PathBuf}
    {now : DateTime} (hkill : Kills w kill path now) :
    ∃ issue : Issue rules acts w kill now, issue.rule.exePath = path := by
  have htraced := traced_of_run hrun
  cases hkill with
  | startup now hloop =>
    have hpath : path ∈ w.loop.paths := by
      rw [hloop]
      exact List.mem_cons_self
    obtain ⟨pre, a, post, m, hsplit, hm, rfl, hlisted⟩ := htraced.listed path hpath
    obtain ⟨r, hr, rfl⟩ := List.mem_map.mp hlisted
    obtain ⟨hr, hblock⟩ := List.mem_filter.mp hr
    obtain ⟨issue, hissue⟩ := exists_issue hrun (of_decide_eq_true hblock)
      ⟨pre, _, post, m, hsplit, hm, .listed now hr hloop⟩
    exact ⟨issue, congrArg Rule.exePath hissue⟩
  | @handler r _ now hi =>
    obtain ⟨hblock, pre, a, post, m, hsplit, hm, hstores⟩ :=
      htraced.handlers r (List.mem_of_getElem? hi)
    obtain ⟨issue, hissue⟩ := exists_issue hrun hblock
      ⟨pre, a, post, m, hsplit, hm, .stored now hstores hi⟩
    exact ⟨issue, congrArg Rule.exePath hissue⟩

/-- A kill is for the path of the rule that brought it about. -/
theorem Causes.path {before w : World} {r : Rule} {cause kill : Action} {path : PathBuf}
    {now : DateTime} (h : Causes before r cause w kill now) (hkill : Kills w kill path now) :
    r.exePath = path := by
  cases h with
  | stored _ _ h =>
    cases hkill with
    | handler _ h' =>
      rw [h] at h'
      cases h'
      rfl
  | listed _ _ h =>
    cases hkill with
    | startup _ h' =>
      rw [h] at h'
      cases h'
      rfl

/-- The rule is in the store when the kill has been brought about. -/
theorem Causes.mem {before after w : World} {r : Rule} {cause kill : Action} {now : DateTime}
    (h : Causes before r cause w kill now) (hinv : Inv before)
    (hstep : step before cause = some after) : r ∈ after.daemon.rules.rules := by
  cases h with
  | stored _ hstores _ => exact (step_rules hinv hstep r).mpr (.inr hstores)
  | listed _ hlisted _ => exact (step_rules hinv hstep r).mpr (.inl ⟨hlisted, trivial⟩)

/-- A path has one Block rule, so what is blocked after the steps is what they have left of
that, or what they have stored. -/
theorem isBlocked_iff {after w : World} {between : List Action} {r : Rule} {now : DateTime}
    (h : Inv after) (hr : r ∈ after.daemon.rules.rules) (hblock : r.action = .block)
    (hrun : Runs.run step after between = some w) :
    w.daemon.rules.isBlocked r.exePath now = true ↔ InForce r after between now := by
  have hself : r.blocks r.exePath = true := Rule.blocks_iff.mpr ⟨hblock, PathBuf.pathEq_refl _⟩
  unfold Inner.isBlocked InForce
  rw [List.any_eq_true]
  refine exists_congr fun s => ?_
  rw [rules_of_run h hrun, Bool.and_eq_true, Bool.not_eq_true']
  refine and_congr_left fun ⟨hs, _⟩ => or_congr_left (and_congr_left fun _ => ?_)
  rw [List.mem_singleton]
  constructor
  · exact fun hmem => Inner.blockRule_unique h.store hmem hr hs hself
  · rintro rfl
    exact hr

/-- In every run, at every kill: it was brought about by the store or the listing of a Block
rule, and the verdict path blocks the app exactly when the switch was not last set to pause, and
of the steps since the store or listing none has replaced, removed or reaped that rule (or none
has the rule stored last in its place), and it has not expired. -/
theorem kills_agree {rules : Inner} (h : Inner.Inv rules.persisted) {acts : List Action}
    {w : World} (hrun : Runs.run step (start rules) acts = some w) {kill : Action}
    {path : PathBuf} {now : DateTime} (hkill : Kills w kill path now) :
    Nonempty (Issue rules acts w kill now) ∧ ∀ issue : Issue rules acts w kill now,
      issue.rule.exePath = path ∧
        (Blocking w.daemon path now ↔
          lastPaused acts ≠ some true ∧ InForce issue.rule issue.after issue.between now) := by
  obtain ⟨issue, -⟩ := kill_issued hrun hkill
  refine ⟨⟨issue⟩, fun issue => ?_⟩
  have hpath := issue.causes.path hkill
  have hbefore := Runs.run_invariant step_inv (inv_start h) issue.start
  have hmem := issue.causes.mem hbefore issue.step
  have hpaused : w.daemon.paused = false ↔ lastPaused acts ≠ some true := by
    rw [paused_of_run h hrun]
    cases lastPaused acts with
    | none => simp
    | some value => cases value <;> simp
  refine ⟨hpath, ?_⟩
  rw [Blocking, hpaused, ← hpath,
    isBlocked_iff (step_inv hbefore issue.step) hmem issue.block issue.rest]

/-! ### Kills by a handler -/

/-- A Block of `/usr/bin/curl`. -/
def blockCurl (ttlSecs : Option UInt64) : RuleInput :=
  ⟨"curl", .ofString "/usr/bin/curl", .block, true, ttlSecs⟩

/-- The rule that a fresh daemon stores for it. -/
def curlRule (expiresAt : Option DateTime) : Rule :=
  ⟨1, "curl", .ofString "/usr/bin/curl", .block, true, expiresAt, "default", .epoch⟩

/-- A fresh daemon that has stored it, when its handler is about to kill. -/
def storedCurl (expiresAt : Option DateTime) : World :=
  { start .firstStart with
    daemon := { DaemonState.new .firstStart with
      rules := { Inner.firstStart with nextId := 2, rules := [curlRule expiresAt] } }
    handlers := [curlRule expiresAt] }

/-- The switch is put to pause and back, the rule stored, and another one removed. -/
def curlRun : List Action :=
  [.setPaused true, .addRule .epoch (blockCurl none), .setPaused false, .removeRule 7]

theorem curlRun_runs : Runs.run step (start .firstStart) curlRun = some (storedCurl none) := rfl

theorem kills_agree_curl :
    Kills (storedCurl none) (.handlerKill 0 .epoch) (.ofString "/usr/bin/curl") .epoch ∧
      Blocking (storedCurl none).daemon (.ofString "/usr/bin/curl") .epoch := by
  have hkill : Kills (storedCurl none) (.handlerKill 0 .epoch) (.ofString "/usr/bin/curl")
      .epoch := .handler (r := curlRule none) .epoch rfl
  have hinv : Inner.Inv Inner.firstStart.persisted := Inner.inv_empty
  let issue : Issue .firstStart curlRun (storedCurl none) (.handlerKill 0 .epoch) .epoch :=
    { pre := [.setPaused true]
      cause := .addRule .epoch (blockCurl none)
      between := [.setPaused false, .removeRule 7]
      before := { start .firstStart with
        daemon := { DaemonState.new .firstStart with paused := true } }
      after := { storedCurl none with
        daemon := { (storedCurl none).daemon with paused := true } }
      rule := curlRule none
      split := rfl
      start := rfl
      step := rfl
      rest := rfl
      block := rfl
      causes := .stored .epoch ⟨_, _, _, rfl, rfl⟩ rfl }
  refine ⟨hkill, (((kills_agree hinv curlRun_runs hkill).2 issue).2).mpr
    ⟨by decide, curlRule none, ?_, by simp [issue, Rule.blocks, curlRule], rfl⟩⟩
  refine .inl ⟨List.mem_singleton_self _, fun a ha => ?_⟩
  rcases List.mem_cons.mp ha with rfl | ha
  · trivial
  · rw [List.mem_singleton.mp ha]
    exact (by decide : (curlRule none).id ≠ 7)

/-- What is killed for is what is blocked. -/
def Agrees (w : World) (a : Action) : Prop :=
  ∀ path now, Kills w a path now → Blocking w.daemon path now

/-- Flows are killed while filtering is paused, and for a rule that expires at once. -/
theorem kills_disagree :
    ¬Runs.AlongRun step Agrees (start .firstStart)
        [.setPaused true, .addRule .epoch (blockCurl none), .handlerKill 0 .epoch] ∧
      ¬Runs.AlongRun step Agrees (start .firstStart)
        [.addRule .epoch (blockCurl (some 0)), .handlerKill 0 .epoch] := by
  constructor
  · intro h
    obtain ⟨hpaused, -⟩ := h [.setPaused true, .addRule .epoch (blockCurl none)] _ [] rfl
      { storedCurl none with daemon := { (storedCurl none).daemon with paused := true } }
      rfl (.ofString "/usr/bin/curl") .epoch (.handler (r := curlRule none) .epoch rfl)
    cases hpaused
  · intro h
    obtain ⟨-, hblocked⟩ := h [.addRule .epoch (blockCurl (some 0))] _ [] rfl
      (storedCurl (some .epoch)) rfl (.ofString "/usr/bin/curl") .epoch
      (.handler (r := curlRule (some .epoch)) .epoch rfl)
    exact absurd hblocked (by decide)

/-! ## The first table -/

/-- What is known while no table could be read. -/
structure Unread (acts : List Action) (w : World) : Prop where
  connections : w.daemon.connections = .empty
  attempts : w.attempts = []
  enforced : w.startupEnforced = true ↔ ∃ t, .poll t ∈ acts

theorem start_unread (rules : Inner) : Unread [] (start rules) where
  connections := rfl
  attempts := rfl
  enforced := ⟨fun h => (nomatch h), fun ⟨_, h⟩ => (nomatch h)⟩

/-- A step that is no poll. -/
theorem Unread.frame {acts : List Action} {w w' : World} {a : Action} (h : Unread acts w)
    (ha : ∀ t, a ≠ .poll t) (hconns : w'.daemon.connections = w.daemon.connections)
    (hattempts : w'.attempts = []) (henforced : w'.startupEnforced = w.startupEnforced) :
    Unread (acts ++ [a]) w' where
  connections := hconns.trans h.connections
  attempts := hattempts
  enforced := by
    rw [henforced, h.enforced]
    refine exists_congr fun t => ?_
    rw [List.mem_append, List.mem_singleton, or_iff_left fun he => ha t he.symm]

theorem step_unread {acts : List Action} {w w' : World} {a : Action} (h : Unread acts w)
    (ha : ∀ t, a = .poll t → t.text = none) (hstep : step w a = some w') :
    Unread (acts ++ [a]) w' := by
  cases step_loop hstep with
  | poll t r _ hpoll =>
    -- the table cannot be read
    rw [DaemonState.pollTable, ha t rfl] at hpoll
    cases hpoll
    exact ⟨h.connections, h.attempts, iff_of_true rfl
      ⟨t, List.mem_append_right _ List.mem_cons_self⟩⟩
  | listRules =>
    exact h.frame (fun _ he => nomatch he) rfl h.attempts rfl
  | @startupKill now path paths =>
    refine h.frame (fun _ he => nomatch he) rfl ?_ rfl
    show w.attempts ++ matchingFlows w.daemon.connections path = []
    rw [h.attempts, h.connections]
    rfl
  | other hother hconns henforced _ hattempts =>
    have hpoll : ∀ t, a ≠ .poll t := by
      rintro t rfl
      cases hother
    exact h.frame hpoll hconns (hattempts.trans h.attempts) henforced

theorem unread_of_run {rules : Inner} {acts : List Action} {w : World}
    (hfail : ∀ t, .poll t ∈ acts → t.text = none)
    (h : Runs.run step (start rules) acts = some w) : Unread acts w := by
  refine Runs.run_history (I := fun acts w => (∀ t, .poll t ∈ acts → t.text = none) →
    Unread acts w) (fun _ => start_unread rules) ?_ h hfail
  intro tr m m' a _ ih hstep hpolls
  refine step_unread (ih fun t ht => hpolls t (List.mem_append_left _ ht)) (fun t ht => ?_) hstep
  exact hpolls t (List.mem_append_right _ (List.mem_singleton.mpr ht.symm))

/-- The pass over the flows that the state `w1` has: the rules are yet to be listed, or
were listed once, and the flows of the first paths have been gone through. -/
inductive Pass (w1 : World) : List Action → World → Prop where
  | listing {acts : List Action} {w : World} (fresh : .listRules ∉ acts)
      (enforced : w.startupEnforced = true) (loop : w.loop = .list)
      (conns : w.daemon.connections = w1.daemon.connections) (attempts : w.attempts = []) :
      Pass w1 acts w
  | killing {mid rest : List Action} {w2 w : World} {gone todo : List PathBuf}
      (run : Runs.run step w1 mid = some w2) (fresh : .listRules ∉ mid) (once : .listRules ∉ rest)
      (paths : gone ++ todo = blockPaths w2.daemon.rules)
      (enforced : w.startupEnforced = true) (loop : w.loop = killing todo)
      (conns : todo ≠ [] → w.daemon.connections = w1.daemon.connections)
      (attempts : w.attempts = victims w1.daemon.connections gone) :
      Pass w1 (mid ++ .listRules :: rest) w

theorem killing_eq_poll {paths : List PathBuf} : killing paths = .poll ↔ paths = [] := by
  cases paths <;> simp [killing]

theorem killing_ne_list (paths : List PathBuf) : killing paths ≠ .list := by
  cases paths <;> simp [killing]

theorem killing_eq_kill {paths todo : List PathBuf} : killing paths = .kill todo →
    paths = todo := by
  cases paths <;> simp [killing]

theorem victims_snoc (conns : KeyedMap String ConnectionInfo) (paths : List PathBuf)
    (path : PathBuf) :
    victims conns (paths ++ [path]) = victims conns paths ++ matchingFlows conns path := by
  simp [victims]

theorem step_pass {w1 w w' : World} {acts : List Action} {a : Action} (h : Pass w1 acts w)
    (hrun : Runs.run step w1 acts = some w) (hstep : step w a = some w') :
    Pass w1 (acts ++ [a]) w' := by
  cases h with
  | listing fresh enforced loop conns attempts =>
    cases step_loop hstep with
    | poll t r hloop _ =>
      rw [loop] at hloop
      cases hloop
    | listRules =>
      have hpaths : [] ++ blockPaths w.daemon.rules = blockPaths w.daemon.rules := rfl
      exact .killing hrun fresh List.not_mem_nil hpaths enforced rfl (fun _ => conns) attempts
    | startupKill now hloop =>
      rw [loop] at hloop
      cases hloop
    | other hother hconns henforced hloop hattempts =>
      have hlist : a ≠ .listRules := by
        rintro rfl
        cases hother
      refine .listing (fun hmem => ?_) (henforced.trans enforced) (hloop.trans loop)
        (hconns.trans conns) (hattempts.trans attempts)
      rcases List.mem_append.mp hmem with hmem | hmem
      · exact fresh hmem
      · exact hlist (List.mem_singleton.mp hmem).symm
  | @killing mid rest w2 _ gone todo run fresh once paths enforced loop conns attempts =>
    have hlast {a : Action} (ha : a ≠ .listRules) : .listRules ∉ rest ++ [a] := by
      intro hmem
      rcases List.mem_append.mp hmem with hmem | hmem
      · exact once hmem
      · exact ha (List.mem_singleton.mp hmem).symm
    rw [List.append_assoc, List.cons_append]
    cases step_loop hstep with
    | poll t r hloop _ =>
      -- the next pass of the poller: the kills are through
      have hdone : todo = [] := killing_eq_poll.mp (loop.symm.trans hloop)
      subst hdone
      exact .killing run fresh (hlast fun he => nomatch he) paths rfl (if_pos enforced)
        (fun hne => absurd rfl hne) attempts
    | listRules hloop => exact absurd (loop.symm.trans hloop) (killing_ne_list todo)
    | @startupKill now path left hloop =>
      have htodo : todo = path :: left := killing_eq_kill (loop.symm.trans hloop)
      subst htodo
      have hconns := conns (List.cons_ne_nil path left)
      have hpaths : (gone ++ [path]) ++ left = blockPaths w2.daemon.rules := by
        rw [List.append_assoc]
        exact paths
      refine .killing run fresh (hlast fun he => nomatch he) hpaths enforced rfl
        (fun _ => hconns) ?_
      show w.attempts ++ matchingFlows w.daemon.connections path = _
      rw [attempts, hconns, victims_snoc]
    | other hother hconns henforced hloop hattempts =>
      have hlist : a ≠ .listRules := by
        rintro rfl
        cases hother
      exact .killing run fresh (hlast hlist) paths (henforced.trans enforced) (hloop.trans loop)
        (fun hne => hconns.trans (conns hne)) (hattempts.trans attempts)

theorem pass_of_run {w1 w : World} {acts : List Action} (hloop : w1.loop = .list)
    (henforced : w1.startupEnforced = true) (hattempts : w1.attempts = [])
    (h : Runs.run step w1 acts = some w) : Pass w1 acts w :=
  Runs.run_history (.listing List.not_mem_nil henforced hloop rfl hattempts)
    (fun hrun h => step_pass h hrun) h

/-- The pass has been made: the loop kills no more. -/
structure Past (attempts : List ConnectionInfo) (w : World) : Prop where
  enforced : w.startupEnforced = true
  loop : w.loop = .poll
  attempts : w.attempts = attempts

theorem step_past {attempts : List ConnectionInfo} {w w' : World} {a : Action}
    (h : Past attempts w) (hstep : step w a = some w') : Past attempts w' := by
  obtain ⟨henforced, hloop, hattempts⟩ := h
  cases step_loop hstep with
  | poll t r _ _ => exact ⟨rfl, if_pos henforced, hattempts⟩
  | listRules hlist =>
    rw [hloop] at hlist
    cases hlist
  | startupKill now hkill =>
    rw [hloop] at hkill
    cases hkill
  | other _ _ henforced' hloop' hattempts' =>
    exact ⟨henforced'.trans henforced, hloop'.trans hloop, hattempts'.trans hattempts⟩

/-- A Block rule is in force for the program of the flow. -/
def BlockedAt (d : DaemonState) (conn : ConnectionInfo) (now : DateTime) : Prop :=
  ∃ exe, conn.exe = some exe ∧ d.rules.isBlocked exe now = true

/-- When the loop lists the rules, a Block rule for the program of the flow is stored. -/
def ListedRule (w1 : World) (post : List Action) (conn : ConnectionInfo) : Prop :=
  ∃ mid rest w2, post = mid ++ .listRules :: rest ∧ Runs.run step w1 mid = some w2 ∧
    ∃ r ∈ w2.daemon.rules.rules, r.action = .block ∧ conn.ownedBy r.exePath = true

theorem mem_victims {conns : KeyedMap String ConnectionInfo} {rules : Inner}
    {conn : ConnectionInfo} : conn ∈ victims conns (blockPaths rules) ↔
      (∃ key, conns.get? key = some conn) ∧
        ∃ r ∈ rules.rules, r.action = .block ∧ conn.ownedBy r.exePath = true := by
  unfold victims blockPaths Inner.list
  simp only [List.mem_flatMap, List.mem_map, List.mem_filter, mem_matchingFlows,
    decide_eq_true_eq]
  constructor
  · rintro ⟨path, ⟨r, ⟨hr, hblock⟩, rfl⟩, hkey, howned⟩
    exact ⟨hkey, r, hr, hblock, howned⟩
  · rintro ⟨hkey, r, hr, hblock, howned⟩
    exact ⟨r.exePath, ⟨r, ⟨hr, hblock⟩, rfl⟩, hkey, howned⟩

/-- After the pass, the kills are those for the rules listed. -/
theorem Pass.attempts_iff {w1 w : World} {acts : List Action} (h : Pass w1 acts w)
    (hdone : w.loop = .poll) {key : String} {conn : ConnectionInfo}
    (hkey : w1.daemon.connections.get? key = some conn) :
    conn ∈ w.attempts ↔ ListedRule w1 acts conn := by
  cases h with
  | listing _ _ loop _ _ =>
    rw [loop] at hdone
    cases hdone
  | @killing mid rest w2 _ gone todo run fresh once paths _ loop _ attempts =>
    have htodo : todo = [] := killing_eq_poll.mp (loop.symm.trans hdone)
    rw [htodo, List.append_nil] at paths
    rw [attempts, paths, mem_victims, and_iff_right ⟨key, hkey⟩]
    constructor
    · rintro ⟨r, hr⟩
      exact ⟨mid, rest, w2, rfl, run, r, hr⟩
    · rintro ⟨mid', rest', w2', heq, run', r, hr⟩
      -- the rules are listed once
      obtain ⟨rfl, -, -⟩ := (List.append_cons_inj_of_notMem fresh once).mp heq
      rw [run] at run'
      cases run'
      exact ⟨r, hr⟩

/-- Reads fail until the one of `t`. After the pass, a flow of its table was gone through
exactly when that was the first read, and a Block rule for the flow was listed. -/
theorem attempts_iff {rules : Inner} {pre post : List Action} {w0 w1 w' : World} {t : TablePoll}
    (h0 : Runs.run step (start rules) pre = some w0)
    (hfail : ∀ u, .poll u ∈ pre → u.text = none) (h1 : step w0 (.poll t) = some w1)
    (h' : Runs.run step w1 post = some w') (hdone : w'.loop = .poll) {key : String}
    {conn : ConnectionInfo} (hkey : w1.daemon.connections.get? key = some conn) :
    conn ∈ w'.attempts ↔ (∀ u, .poll u ∉ pre) ∧ ListedRule w1 post conn := by
  have hunread := unread_of_run hfail h0
  by_cases hpoll : ∃ u, .poll u ∈ pre
  · -- the latch is set, and nothing is gone through
    have henforced : w0.startupEnforced = true := hunread.enforced.mpr hpoll
    have hpast1 : Past [] w1 := by
      cases step_loop h1 with
      | poll _ r _ _ => exact ⟨rfl, if_pos henforced, hunread.attempts⟩
      | other hother => cases hother
    rw [(Runs.run_invariant step_past hpast1 h').attempts]
    exact iff_of_false List.not_mem_nil fun h => absurd hpoll (not_exists.mpr h.1)
  · have hnone : ∀ u, .poll u ∉ pre := not_exists.mp hpoll
    have henforced : ¬w0.startupEnforced = true := fun he => hpoll (hunread.enforced.mp he)
    have hpass : Pass w1 post w' := by
      cases step_loop h1 with
      | poll _ r _ _ => exact pass_of_run (if_neg henforced) rfl hunread.attempts h'
      | other hother => cases hother
    rw [and_iff_right hnone]
    exact hpass.attempts_iff hdone hkey

/-- In every run, however many reads fail first: the pass goes through all the flows that the
first table brings of programs blocked at that time, exactly when, if there are any, no read
failed, and a Block rule for each was still stored when the loop listed the rules. -/
theorem startup_enforced_iff {rules : Inner} {pre post : List Action} {w0 w1 w' : World}
    {t : TablePoll} (h0 : Runs.run step (start rules) pre = some w0)
    (hfail : ∀ u, .poll u ∈ pre → u.text = none) (h1 : step w0 (.poll t) = some w1)
    (h' : Runs.run step w1 post = some w') (hdone : w'.loop = .poll) :
    (∀ key conn, w1.daemon.connections.get? key = some conn → BlockedAt w1.daemon conn t.now →
      conn ∈ w'.attempts) ↔
    ∀ key conn, w1.daemon.connections.get? key = some conn → BlockedAt w1.daemon conn t.now →
      (∀ u, .poll u ∉ pre) ∧ ListedRule w1 post conn := by
  refine forall_congr' fun key => forall_congr' fun conn => forall_congr' fun hkey =>
    forall_congr' fun _ => ?_
  exact attempts_iff h0 hfail h1 h' hdone hkey

theorem step_poll {w : World} {t : TablePoll} {r : DaemonState × List Event}
    (hloop : w.loop = .poll) (hpoll : w.daemon.pollTable t = some r) :
    step w (.poll t) = some { w with
      daemon := r.1
      startupEnforced := true
      loop := if w.startupEnforced then .poll else .list } := by
  simp only [step, hloop, hpoll, Option.map_some]

/-! ### A flow that pre-dates the daemon -/

/-- A table with a flow of `/usr/bin/curl`. -/
def curlTable : List Char :=
  ["ipv4 2 tcp 6 300 ESTABLISHED src=192.168.1.10 dst=93.184.216.34 ",
    "sport=51234 dport=443 bytes=60 src=93.184.216.34 bytes=90\n"].flatMap String.toList

/-- Reading it. -/
def curlPoll : TablePoll where
  text := some curlTable
  now := .epoch
  procFs := fun _ => DaemonState.curlProcFs
  closedOrder := []
  seenOrder := (seenFlows (parseTable curlTable)).vals

/-- A failed read. -/
def failedPoll : TablePoll := { curlPoll with text := none }

/-- The rules with a persisted block. -/
def blockedCurl : Inner :=
  { Inner.firstStart with nextId := 2, rules := [curlRule none] }

/-- The flow found. -/
def curlFlow : ConnectionInfo where
  key := "tcp:192.168.1.10:51234-93.184.216.34:443"
  protocol := .tcp
  localAddr := .v4 ⟨192, 168, 1, 10⟩
  localPort := 51234
  remoteAddr := .v4 ⟨93, 184, 216, 34⟩
  remotePort := 443
  bytesSent := 60
  bytesRecv := 90
  pid := some 4242
  processName := some "curl"
  exe := some (.ofString "/usr/bin/curl")
  started := .epoch
  lastSeen := .epoch

theorem curlPoll_places :
    ((DaemonState.new blockedCurl).pollTable curlPoll).map
        (fun r => (r.1.connections.vals, r.1.rules)) = some ([curlFlow], blockedCurl) := by
  decide +kernel

/-- The daemon after the first table has the flow, and blocks its program. -/
theorem curlPoll_found : ∃ r, (DaemonState.new blockedCurl).pollTable curlPoll = some r ∧
    r.1.connections.vals = [curlFlow] ∧ (∃ key, r.1.connections.get? key = some curlFlow) ∧
    r.1.rules = blockedCurl ∧ BlockedAt r.1 curlFlow .epoch := by
  obtain ⟨r, hpoll, hr⟩ := Option.map_eq_some_iff.mp curlPoll_places
  obtain ⟨hvals, hrules⟩ := Prod.mk.inj hr
  refine ⟨r, hpoll, hvals, ?_, hrules, .ofString "/usr/bin/curl", rfl, ?_⟩
  · rw [← KeyedMap.mem_vals_iff, hvals]
    exact List.mem_singleton_self curlFlow
  · rw [hrules]
    simp [Inner.isBlocked, Rule.blocks, blockedCurl, curlRule, isExpired]

theorem startup_enforced_curl :
    ∃ w1 w', step (start blockedCurl) (.poll curlPoll) = some w1 ∧
      Runs.run step w1 (.listRules :: List.replicate (blockPaths w1.daemon.rules).length
        (.startupKill .epoch)) = some w' ∧
      (∃ key, w1.daemon.connections.get? key = some curlFlow) ∧ curlFlow ∈ w'.attempts := by
  obtain ⟨r, hpoll, hvals, ⟨key, hkey⟩, hrules, hblocked⟩ := curlPoll_found
  let w1 : World :=
    { start blockedCurl with daemon := r.1, startupEnforced := true, loop := .list }
  have h1 : step (start blockedCurl) (.poll curlPoll) = some w1 := step_poll rfl hpoll
  have hlist : w1.loop = .list := rfl
  obtain ⟨w', hrun, hdone, -⟩ := enforce_undisturbed hlist .epoch true
  refine ⟨w1, w', h1, hrun, ⟨key, hkey⟩, (startup_enforced_iff (t := curlPoll)
    (Runs.run_nil _) (fun _ h => nomatch h) h1 hrun hdone).mpr ?_ key curlFlow hkey hblocked⟩
  intro key conn hconn _
  -- it is the one flow there is
  have hmem : conn ∈ r.1.connections.vals := KeyedMap.mem_vals_iff.mpr ⟨key, hconn⟩
  rw [hvals, List.mem_singleton] at hmem
  subst hmem
  refine ⟨fun _ h => (nomatch h), [], _, w1, rfl, rfl, curlRule none, ?_, rfl,
    PathBuf.pathEq_refl _⟩
  show curlRule none ∈ r.1.rules.rules
  rw [hrules]
  exact List.mem_singleton_self (curlRule none)

/-- The first read fails, and with no flows known the loop makes its pass. -/
def passedEarly : List Action := [.poll failedPoll, .listRules, .startupKill .epoch]

/-- Nothing is done about the flow that the second read brings. -/
theorem startup_missed :
    ¬∀ (rules : Inner) (pre post : List Action) (w0 w1 w' : World) (t : TablePoll),
      Runs.run step (start rules) pre = some w0 → (∀ u, .poll u ∈ pre → u.text = none) →
        step w0 (.poll t) = some w1 → Runs.run step w1 post = some w' → w'.loop = .poll →
          ∀ key conn, w1.daemon.connections.get? key = some conn →
            BlockedAt w1.daemon conn t.now → conn ∈ w'.attempts := by
  intro h
  obtain ⟨r, hpoll, -, ⟨key, hkey⟩, -, hblocked⟩ := curlPoll_found
  let w0 : World := { start blockedCurl with startupEnforced := true }
  let w1 : World := { w0 with daemon := r.1 }
  have h0 : Runs.run step (start blockedCurl) passedEarly = some w0 := rfl
  have hfail : ∀ u, .poll u ∈ passedEarly → u.text = none := by
    intro u hu
    rcases List.mem_cons.mp hu with hu | hu
    · cases hu
      rfl
    · simp at hu
  have h1 : step w0 (.poll curlPoll) = some w1 := step_poll rfl hpoll
  have hattempt : curlFlow ∈ w1.attempts :=
    h blockedCurl passedEarly [] w0 w1 w1 curlPoll h0 hfail h1 rfl rfl key curlFlow hkey hblocked
  cases hattempt

end Enforcement

end TravelMode
