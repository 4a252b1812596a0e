import TravelMode.Gui.Ready
import TravelMode.System.Overlap
import TravelMode.System.RuleMirror

/-!
# The switch of an app and its Block rule

GUI and daemon as one loop: what the user does sends commands, commands are requests, requests
change the daemon's rules, the daemon publishes what it changed, and the GUI renders it. Each
action is handled to the end before the next one.

- `World` and `step`: inputs of the user, tasks of the daemon (with the requests of other
  clients), and sessions that start and end at any time. A command may fail at any time.
- `Fair`: the paths that reach the client are absolute and UTF-8, and no other client replaces
  a rule while the GUI is connected. A replacement is not published (`RuleMirror`).
- `run_linked`: while connected, the Blocked section is what the daemon's rules block.
- `flip_toggles`: the flip of a switch adds or removes the Block rule of that app, and that of
  no other; then its row is in the other section.
-/

namespace TravelMode

namespace LightSwitch

/-! ## The loop -/

structure World where
  daemon : DaemonState
  app : App
  /-- A session is connected. -/
  linked : Bool

inductive Action where
  /-- The user, or the clock; `fault` is the error of a command that cannot be sent. -/
  | input (env : Env) (fault : Option String) (input : App.Input)
  | task (t : Task)
  | connect (S : Snapshot)
  | disconnect

/-- Events are read from the connection of a session. -/
def World.publish (gtk : Gtk) (w : World) (events : List Event) : World :=
  if w.linked then { w with app := w.app.receive gtk events } else w

/-- The toast of a command that has failed. -/
def World.fail (gtk : Gtk) (w : World) (message : String) : World :=
  { w with app := App.step gtk w.app (.msg (.client (.commandFailed message))) }

/-- `try_command`, and the handler of its request. -/
def obey (gtk : Gtk) (env : Env) (fault : Option String) (w : World) (cmd : GuiCmd) :
    Option World :=
  match cmd.request, fault with
  | none, _ => some w
  | some _, some message => some (w.fail gtk message)
  | some req, none =>
    (dispatch w.daemon env req).map fun handled =>
      let w := { w with daemon := handled.state }.publish gtk handled.published
      match handled.response with
      | .ok => w
      | .error message => w.fail gtk ("daemon error: " ++ message)
      -- the text goes on with the `Debug` of the response
      | _ => w.fail gtk "unexpected response: "

/-- One action, handled to the end. -/
def step (gtk : Gtk) (w : World) : Action → Option World
  -- these come from the daemon
  | .input _ _ (.msg (.client _)) => none
  | .input env fault input =>
    let app := App.step gtk w.app input
    Runs.run (obey gtk env fault) { w with app := app } (app.sent.drop w.app.sent.length)
  | .task t =>
    (w.daemon.perform t).map fun (daemon, events) =>
      { w with daemon := daemon }.publish gtk events
  | .connect S =>
    some { w with
      linked := true
      app := App.step gtk w.app (.msg (.client (.connected S))) }
  | .disconnect =>
    some { w with
      linked := false
      app := App.step gtk w.app (.msg (.client .disconnected)) }

/-- Before the first session. -/
def start (d : DaemonState) (dark : Bool) : World := ⟨d, .init dark, false⟩

/-- What the environment is relied on for: while connected, events bring plain paths, other
clients replace no rule, and a switch that was flipped in vain is left alone until its page is
refreshed; a session starts from what the daemon has. -/
def Fair (w : World) : Action → Prop
  | .input _ _ (.flip key) => w.linked = true →
      ∀ l, w.app.appsPage.look key = some l → l.face.active = !l.home
  | .task t => w.linked = true →
      (∀ d events, w.daemon.perform t = some (d, events) → ∀ e ∈ events, Op.Plain (.event e)) ∧
      ∀ env input, t = .handle env (.addRule input) →
        RuleMirror.KeepsRules ⟨w.daemon, w.app.state⟩ (env, .addRule input)
  | .connect S => (∃ env, Overlap.TakenFrom w.daemon env S) ∧ Op.Plain (.snapshot S)
  | _ => True

/-- What toasts and the request of a command preserve, the command preserves. -/
theorem obey_rule {gtk : Gtk} {I : World → Prop} {env : Env} {fault : Option String} {w w' : World}
    {cmd : GuiCmd} (hfail : ∀ {w} message, I w → I (w.fail gtk message))
    (hhandle : ∀ {req d events}, cmd.request = some req →
      w.daemon.perform (.handle env req) = some (d, events) →
        I ({ w with daemon := d }.publish gtk events))
    (h : I w) (hobey : obey gtk env fault w cmd = some w') : I w' := by
  unfold obey at hobey
  split at hobey
  · cases hobey
    exact h
  · cases hobey
    exact hfail _ h
  · rename_i req hreq
    obtain ⟨handled, hd, rfl⟩ := Option.map_eq_some_iff.mp hobey
    have hperform : w.daemon.perform (.handle env req) =
        some (handled.state, handled.published) := by
      show (dispatch w.daemon env req).map _ = _
      rw [hd]
      rfl
    have hdone := hhandle hreq hperform
    dsimp only
    split
    · exact hdone
    · exact hfail _ hdone
    · exact hfail _ hdone

/-- **Step rule**: what inputs and tasks preserve, with their events, and the starts and ends of
sessions, every action preserves, whatever commands it sends and whichever of them fail. -/
theorem step_rule {gtk : Gtk} {I : World → Prop} {a : Action} {w w' : World}
    (hinput : ∀ {w input}, (∀ op, App.Input.op? input = some op → op = .tick) → I w →
      I { w with app := App.step gtk w.app input })
    (htask : ∀ {w t d events}, (a = .task t ∨ ∃ env req, t = .handle env req) →
      w.daemon.perform t = some (d, events) → I w →
        I ({ w with daemon := d }.publish gtk events))
    (hconnect : ∀ {S}, a = .connect S →
      I { w with linked := true, app := App.step gtk w.app (.msg (.client (.connected S))) })
    (hdisconnect :
      I { w with linked := false, app := App.step gtk w.app (.msg (.client .disconnected)) })
    (h : I w) (hstep : step gtk w a = some w') : I w' := by
  have hfail : ∀ {w} message, I w → I (w.fail gtk message) := fun message h =>
    hinput (fun op hop => nomatch hop) h
  have hobey : ∀ {env fault w w' cmd}, I w → obey gtk env fault w cmd = some w' → I w' :=
    fun h hobey => obey_rule hfail
      (fun _ hperform => htask (.inr ⟨_, _, rfl⟩) hperform h) h hobey
  cases a with
  | input env fault input =>
    have hclient : ∀ m, input ≠ .msg (.client m) := by
      rintro m rfl
      cases hstep
    have hstep : Runs.run (obey gtk env fault) { w with app := App.step gtk w.app input }
        ((App.step gtk w.app input).sent.drop w.app.sent.length) = some w' := by
      rw [← hstep]
      cases input with
      | msg m =>
        cases m with
        | client msg => exact absurd rfl (hclient msg)
        | _ => rfl
      | _ => rfl
    refine Runs.run_invariant hobey (hinput (fun op hop => ?_) h) hstep
    cases input with
    | msg m =>
      cases m with
      | client msg => exact absurd rfl (hclient msg)
      | tick =>
        cases hop
        rfl
      | _ => cases hop
    | _ => cases hop
  | task t =>
    obtain ⟨⟨d, events⟩, hperform, rfl⟩ := Option.map_eq_some_iff.mp hstep
    exact htask (.inl rfl) hperform h
  | connect S =>
    cases hstep
    exact hconnect rfl
  | disconnect =>
    cases hstep
    exact hdisconnect

/-! ## What every action keeps -/

/-- The GUI has what the daemon has. -/
structure Linked (w : World) : Prop where
  rules : w.app.state.rules = w.daemon.rules.list
  paused : w.app.state.paused = w.daemon.paused
  online : w.app.state.connected = true

structure Inv (gtk : Gtk) (w : World) : Prop where
  daemon : w.daemon.Ok
  ready : w.app.Ready gtk
  linked : w.linked = true → w.app.running = true → Linked w

variable {gtk : Gtk} {w w' : World}

theorem inv_start {d : DaemonState} (hd : d.Ok) (dark : Bool) : Inv gtk (start d dark) where
  daemon := hd
  ready := App.ready_init gtk dark
  linked h := nomatch h

theorem load_connected (s : ClientState) (S : Snapshot) : (s.load S).connected = true := by
  have hloop : ∀ (conns : List ConnectionInfo) (s : ClientState),
      (conns.foldl ClientState.loadConn s).connected = s.connected := by
    intro conns s
    induction conns generalizing s with
    | nil => rfl
    | cons c cs ih =>
      rw [List.foldl_cons, ih]
      rfl
  exact hloop S.conns _

theorem replay_connected (s : ClientState) (events : List Event) :
    (s.replay events).connected = s.connected := by
  refine List.foldlRecOn (motive := fun s' => s'.connected = s.connected) events
    ClientState.applyEvent rfl fun s' hs' e _ => ?_
  rw [← hs']
  cases e with
  | connectionClosed key =>
    show (s'.removeConn key).connected = _
    unfold ClientState.removeConn
    cases s'.conns.get? key <;> rfl
  | _ => rfl

/-- The client and the view of the daemon fold events alike, but for rules that are added. -/
theorem replay_alike {s : ClientState} {v : View} {events : List Event}
    (hquiet : ∀ rule, .ruleAdded rule ∉ events) (hrules : s.rules = v.rules)
    (hpaused : s.paused = v.paused) :
    (s.replay events).rules = (v.replay events).rules ∧
      (s.replay events).paused = (v.replay events).paused := by
  induction events generalizing s v with
  | nil => exact ⟨hrules, hpaused⟩
  | cons e es ih =>
    refine ih (s := s.applyEvent e) (v := v.apply e)
      (fun rule hrule => hquiet rule (List.mem_cons_of_mem _ hrule)) ?_ ?_
    · rw [ClientState.applyEvent_rules]
      cases e with
      | ruleAdded rule => exact absurd List.mem_cons_self (hquiet rule)
      | ruleRemoved id =>
        show s.rules.filter _ = v.rules.filter _
        rw [hrules]
        rfl
      | _ => exact hrules
    · cases e with
      | pausedChanged paused => rfl
      | connectionClosed key =>
        show (s.removeConn key).paused = v.paused
        rw [← hpaused]
        unfold ClientState.removeConn
        cases s.conns.get? key <;> rfl
      | _ => exact hpaused

/-- A change of the daemon and its events. -/
theorem Inv.publish (h : Inv gtk w) {d : DaemonState} {events : List Event} (hok : d.Ok)
    (hplain : w.linked = true → ∀ e ∈ events, Op.Plain (.event e))
    (hagree : w.linked = true → w.app.running = true →
      (w.app.state.replay events).rules = d.rules.list ∧
        (w.app.state.replay events).paused = d.paused) :
    Inv gtk ({ w with daemon := d }.publish gtk events) := by
  unfold World.publish
  by_cases hlinked : w.linked = true
  · rw [if_pos hlinked]
    refine ⟨hok, h.ready.receive (hplain hlinked), fun _ hrunning => ?_⟩
    have hrunning' := App.running_of_receive hrunning
    have hstate : (w.app.receive gtk events).state = w.app.state.replay events :=
      (App.receive_of_running hrunning' events).1
    obtain ⟨hrules, hpaused⟩ := hagree hlinked hrunning'
    refine ⟨?_, ?_, ?_⟩
    · exact (congrArg ClientState.rules hstate).trans hrules
    · exact (congrArg ClientState.paused hstate).trans hpaused
    · refine (congrArg ClientState.connected hstate).trans ?_
      rw [replay_connected, (h.linked hlinked hrunning').online]
  · rw [if_neg hlinked]
    exact ⟨hok, h.ready, fun h' => absurd h' hlinked⟩

/-- A toast changes nothing else. -/
theorem Inv.fail (h : Inv gtk w) (message : String) : Inv gtk (w.fail gtk message) := by
  refine ⟨h.daemon, h.ready.step fun op hop => (nomatch hop), fun hlinked hrunning => ?_⟩
  obtain ⟨hrunning, hstep⟩ := App.running_of_step hrunning
  have hstate : (w.fail gtk message).app.state = w.app.state := by
    show (App.step gtk w.app _).state = _
    rw [hstep]
    rfl
  have hl := h.linked hlinked hrunning
  exact ⟨hstate ▸ hl.rules, hstate ▸ hl.paused, hstate ▸ hl.online⟩

/-- A rule that replaces none is the client's as well. -/
theorem Linked.added (h : Linked w) (hok : w.daemon.Ok) (hclient : w.app.state.Reachable)
    {env : Env} {input : RuleInput}
    (hkeeps : RuleMirror.KeepsRules ⟨w.daemon, w.app.state⟩ (env, .addRule input))
    {rule : Rule} {rules : Inner} (hadd : w.daemon.rules.add input env.now = some (rule, rules)) :
    (w.app.state.replay [.ruleAdded rule]).rules = rules.list ∧
      (w.app.state.replay [.ruleAdded rule]).paused = w.daemon.paused := by
  have hsync : RuleMirror.Sync ⟨w.daemon, w.app.state⟩ := ⟨hok.store, h.rules, hclient⟩
  have hstep : RuleMirror.step ⟨w.daemon, w.app.state⟩ (env, .addRule input) =
      some ⟨{ w.daemon with rules := rules }, w.app.state.replay [.ruleAdded rule]⟩ := by
    simp only [RuleMirror.step, RuleMirror.handle, dispatch, hadd, Option.map_some]
  exact ⟨(hsync.addRule hkeeps hstep).rules, h.paused⟩

/-- A task of the daemon, as its events say. -/
theorem Inv.task (h : Inv gtk w) {t : Task} (hfair : Fair w (.task t)) {d : DaemonState}
    {events : List Event} (hperform : w.daemon.perform t = some (d, events)) :
    Inv gtk ({ w with daemon := d }.publish gtk events) := by
  obtain ⟨hview, hok⟩ := DaemonState.perform_view h.daemon hperform
  refine h.publish hok (fun hlinked => (hfair hlinked).1 d events hperform) ?_
  intro hlinked hrunning
  have hl := h.linked hlinked hrunning
  rcases DaemonState.perform_added h.daemon hperform with hquiet |
    ⟨env, input, rule, rules, rfl, hadd, rfl⟩
  · have halike := replay_alike hquiet (v := w.daemon.view) hl.rules hl.paused
    rw [← hview] at halike
    exact halike
  · have hd : d = { w.daemon with rules := rules } := by
      simp only [DaemonState.perform, dispatch, hadd, Option.map_some, Option.some.injEq,
        Prod.mk.injEq] at hperform
      exact hperform.1.symm
    rw [hd]
    exact hl.added h.daemon h.ready.client ((hfair hlinked).2 env input rfl) hadd

/-- An event without a path. -/
theorem plain_of_pathless {e : Event} (hexes : Op.exes (.event e) = [])
    (hrules : Op.rules (.event e) = []) : Op.Plain (.event e) := by
  intro p hp
  rw [hexes, Op.blockPaths, hrules] at hp
  cases hp

/-- The request of a command is one that the GUI's own rules and paths allow. -/
theorem fair_request {env : Env} {cmd : GuiCmd} {req : Request} (hreq : cmd.request = some req)
    (hblock : ∀ name exe, cmd = .block name exe → w.linked = true →
      PlainPath exe ∧ ∀ r ∈ w.daemon.rules.list, r.blocks exe = false) :
    Fair w (.task (.handle env req)) := by
  intro hlinked
  cases cmd with
  | block name exe =>
    obtain ⟨hplain, hnone⟩ := hblock name exe rfl hlinked
    cases hreq
    refine ⟨fun d events hperform e he p hp => ?_, fun env' input ht r hr => ?_⟩
    · obtain ⟨handled, hd, hpair⟩ := Option.map_eq_some_iff.mp hperform
      obtain ⟨⟨rule, rules⟩, hadd, rfl⟩ := Option.map_eq_some_iff.mp hd
      obtain ⟨expiresAt, -, -, hrule, -⟩ := Inner.add_eq_some.mp hadd
      cases hpair
      cases List.mem_singleton.mp he
      have hexe : rule.exePath = exe := congrArg Rule.exePath hrule
      have hp : p = rule.exePath := by
        simp only [Op.exes, Op.blockPaths, Op.rules, List.nil_append] at hp
        obtain ⟨r, hr, rfl⟩ := List.mem_map.mp hp
        rw [List.mem_singleton.mp (List.mem_of_mem_filter hr)]
      rw [hp, hexe]
      exact hplain
    · cases ht
      rintro ⟨hpath, haction⟩
      have hblocks : r.blocks exe = true := Rule.blocks_iff.mpr ⟨haction, hpath⟩
      rw [hnone r hr] at hblocks
      cases hblocks
  | setPaused paused =>
    cases hreq
    refine ⟨fun d events hperform e he => ?_, fun env' input ht => nomatch ht⟩
    cases hperform
    cases List.mem_singleton.mp he
    exact plain_of_pathless rfl rfl
  | unblock id =>
    cases hreq
    refine ⟨fun d events hperform e he => ?_, fun env' input ht => nomatch ht⟩
    obtain ⟨handled, hd, hpair⟩ := Option.map_eq_some_iff.mp hperform
    cases hpair
    rcases dispatch_cases hd with ⟨_, _, _, hreq, -⟩ | ⟨_, _, _, -, -, -, hpub⟩ |
      ⟨_, hreq, -⟩ | ⟨-, hpub⟩
    · cases hreq
    · rw [hpub] at he
      cases List.mem_singleton.mp he
      exact plain_of_pathless rfl rfl
    · cases hreq
    · rw [hpub] at he
      cases he
  | _ => cases hreq

/-- A command of the GUI. -/
theorem Inv.obey (h : Inv gtk w) {env : Env} {fault : Option String} {cmd : GuiCmd}
    (hblock : ∀ name exe, cmd = .block name exe → w.linked = true →
      PlainPath exe ∧ ∀ r ∈ w.daemon.rules.list, r.blocks exe = false)
    (hobey : LightSwitch.obey gtk env fault w cmd = some w') : Inv gtk w' :=
  obey_rule (fun message h => h.fail message)
    (fun hreq hperform => h.task (fair_request hreq hblock) hperform) h hobey

/-- While connected, something was rendered. -/
theorem Inv.shown (h : Inv gtk w) (hlinked : w.linked = true) (hrunning : w.app.running = true) :
    w.app.state ≠ .default := by
  intro hdefault
  have honline := (h.linked hlinked hrunning).online
  rw [hdefault] at honline
  cases honline

/-- So everything in view is. -/
theorem Inv.rendered (h : Inv gtk w) (hlinked : w.linked = true) (hrunning : w.app.running = true) :
    ∃ seen, w.app.Rendered seen :=
  h.ready.current.rendered.2.resolve_right (h.shown hlinked hrunning)

/-- A row and the entry it is for. -/
theorem Inv.entry (h : Inv gtk w) (hlinked : w.linked = true) (hrunning : w.app.running = true)
    {key : String} {l : Look Bool AppRow} (hl : w.app.appsPage.look key = some l) :
    ∃ entry, w.app.state.apps.get? key = some entry ∧ entry.blocked = l.home ∧
      entry.exe = l.face.exe := by
  have hmem : key ∈ w.app.appsPage.displayed l.home :=
    (h.ready.current.appsPage_ok.mem_displayed l.home key).mpr ⟨l, hl, rfl⟩
  obtain ⟨seen, hrendered⟩ := h.rendered hlinked hrunning
  obtain ⟨entry, hentry, hblocked⟩ := (hrendered.appKeys l.home key).mp hmem
  exact ⟨entry, hentry, hblocked, (h.ready.exe_eq hl hentry).symm⟩

/-- A row is among the blocked ones exactly if the daemon has a Block rule for its executable. -/
theorem Inv.home_iff (h : Inv gtk w) (hlinked : w.linked = true) (hrunning : w.app.running = true)
    {key : String} {l : Look Bool AppRow} (hl : w.app.appsPage.look key = some l) :
    l.home = true ↔
      ∃ exe, l.face.exe = some exe ∧ ∃ r ∈ w.daemon.rules.list, r.blocks exe = true := by
  obtain ⟨entry, hentry, hhome, hexe⟩ := h.entry hlinked hrunning hl
  rw [← hhome, ← hexe, ← (h.linked hlinked hrunning).rules]
  exact h.ready.client.flagsOk.blocked_iff hentry

/-- A flip that blocks is one of a switch that is on. -/
theorem block_mem_flip {l : Look Bool AppRow} {name : String} {exe : PathBuf}
    (h : .block name exe ∈ AppsPage.flip l) : l.face.active = true ∧ l.face.exe = some exe := by
  unfold AppsPage.flip AppRow.stateSet at h
  cases hactive : l.face.active with
  | false =>
    rw [hactive] at h
    split at h
    · split at h
      · cases h
      · simp only [Bool.not_false, if_true] at h
        split at h
        · cases List.mem_singleton.mp h
        · cases h
    · cases h
  | true =>
    rw [hactive] at h
    split at h
    · split at h
      · cases h
      · simp only [Bool.not_true, Bool.false_eq_true, if_false] at h
        split at h
        · rename_i exe' hexe
          cases List.mem_singleton.mp h
          exact ⟨rfl, hexe⟩
        · cases h
    · cases h

/-- What the user does changes nothing of what was fetched. -/
theorem perform_fetched (gtk : Gtk) (app : App) {input : App.Input}
    (hclient : ∀ m, input ≠ .msg (.client m)) :
    (App.perform gtk app input).state.rules = app.state.rules ∧
      (App.perform gtk app input).state.paused = app.state.paused ∧
      (App.perform gtk app input).state.connected = app.state.connected := by
  cases input with
  | msg m =>
    cases m with
    | client msg => exact absurd rfl (hclient msg)
    | _ => exact ⟨rfl, rfl, rfl⟩
  | close =>
    unfold App.perform
    dsimp only
    split <;> exact ⟨rfl, rfl, rfl⟩
  | _ => exact ⟨rfl, rfl, rfl⟩

/-- An input, before its commands are handled. -/
theorem Inv.input (h : Inv gtk w) {input : App.Input} (hclient : ∀ m, input ≠ .msg (.client m)) :
    Inv gtk { w with app := App.step gtk w.app input } := by
  refine ⟨h.daemon, h.ready.step fun op hop p hp => ?_, fun hlinked hrunning => ?_⟩
  · -- only a tick is an operation
    cases input with
    | msg m =>
      cases m with
      | client msg => exact absurd rfl (hclient msg)
      | tick =>
        cases hop
        cases hp
      | _ => cases hop
    | _ => cases hop
  · obtain ⟨hrunning, hstep⟩ := App.running_of_step hrunning
    obtain ⟨hrules, hpaused, honline⟩ := perform_fetched gtk w.app hclient
    have hl := h.linked hlinked hrunning
    refine ⟨?_, ?_, ?_⟩
    · exact (congrArg (fun app => app.state.rules) hstep).trans (hrules.trans hl.rules)
    · exact (congrArg (fun app => app.state.paused) hstep).trans (hpaused.trans hl.paused)
    · exact (congrArg (fun app => app.state.connected) hstep).trans (honline.trans hl.online)

/-- What the user does, with the command that it sends. -/
theorem Inv.user (h : Inv gtk w) {env : Env} {fault : Option String} {input : App.Input}
    (hclient : ∀ m, input ≠ .msg (.client m)) (hfair : Fair w (.input env fault input))
    (hrun : Runs.run (LightSwitch.obey gtk env fault) { w with app := App.step gtk w.app input }
      ((App.step gtk w.app input).sent.drop w.app.sent.length) = some w') : Inv gtk w' := by
  have hinput := h.input hclient
  rw [h.ready.drop_sent input] at hrun
  by_cases hrunning : w.app.running = true
  · rw [if_pos hrunning] at hrun
    have hone := App.length_command_le w.app input
    match hcmds : App.command w.app input with
    | [] =>
      rw [hcmds] at hrun
      cases hrun
      exact hinput
    | [cmd] =>
      rw [hcmds] at hrun
      obtain ⟨m, hm, hrun⟩ := Runs.run_cons_eq_some.mp hrun
      cases hrun
      refine hinput.obey (fun name exe hcmd hlinked => ?_) hm
      -- only a switch that is on blocks, and there is no rule then
      have hmem : .block name exe ∈ App.command w.app input := by
        rw [hcmds, hcmd]
        exact List.mem_singleton_self _
      obtain ⟨key, l, rfl, hl, hflip⟩ := App.block_mem_command hmem
      obtain ⟨hactive, hexe⟩ := block_mem_flip hflip
      have hhome : l.home ≠ true := by
        have hplace := hfair hlinked l hl
        rw [hactive] at hplace
        simpa using hplace.symm
      refine ⟨(h.ready.rows key l hl).2 exe hexe, fun r hr => ?_⟩
      refine Bool.eq_false_iff.mpr fun hblocks => hhome ?_
      exact (h.home_iff hlinked hrunning hl).mpr ⟨exe, hexe, r, hr, hblocks⟩
    | cmd :: cmd' :: cmds =>
      rw [hcmds] at hone
      simp at hone
  · rw [if_neg hrunning] at hrun
    cases hrun
    exact hinput

/-- A session starts with what the daemon has. -/
theorem Inv.connect (h : Inv gtk w) {S : Snapshot} (hfair : Fair w (.connect S)) :
    Inv gtk { w with
      linked := true
      app := App.step gtk w.app (.msg (.client (.connected S))) } := by
  obtain ⟨⟨env, hS⟩, hplain⟩ := hfair
  refine ⟨h.daemon, h.ready.step fun op hop => ?_, fun _ hrunning => ?_⟩
  · cases hop
    exact hplain
  · obtain ⟨-, hstep⟩ := App.running_of_step hrunning
    have hstate : (App.step gtk w.app (.msg (.client (.connected S)))).state =
        w.app.state.load S := by
      rw [hstep]
      rfl
    refine ⟨?_, ?_, ?_⟩
    · exact (congrArg ClientState.rules hstate).trans ((ClientState.load_rules _ S).trans hS.rules)
    · refine (congrArg ClientState.paused hstate).trans ((ClientState.load_paused _ S).trans ?_)
      rw [hS.status]
      rfl
    · refine (congrArg ClientState.connected hstate).trans ?_
      exact load_connected _ S

theorem inv_step {a : Action} (h : Inv gtk w) (hfair : Fair w a)
    (hstep : LightSwitch.step gtk w a = some w') : Inv gtk w' := by
  cases a with
  | input env fault input =>
    have hclient : ∀ m, input ≠ .msg (.client m) := by
      rintro m rfl
      cases hstep
    refine h.user hclient hfair ?_
    rw [← hstep]
    cases input with
    | msg m =>
      cases m with
      | client msg => exact absurd rfl (hclient msg)
      | _ => rfl
    | _ => rfl
  | task t =>
    obtain ⟨⟨d, events⟩, hperform, rfl⟩ := Option.map_eq_some_iff.mp hstep
    exact h.task hfair hperform
  | connect S =>
    cases hstep
    exact h.connect hfair
  | disconnect =>
    cases hstep
    refine ⟨h.daemon, h.ready.step fun op hop => (nomatch hop), fun hlinked => ?_⟩
    cases hlinked

/-- Every fair run keeps the invariant. -/
theorem inv_run {d : DaemonState} {dark : Bool} {actions : List Action} (hd : d.Ok)
    (hrun : Runs.run (LightSwitch.step gtk) (start d dark) actions = some w)
    (hfair : Runs.AlongRun (LightSwitch.step gtk) Fair (start d dark) actions) : Inv gtk w :=
  Runs.run_invariant_along inv_step (inv_start hd dark) hrun hfair

/-- In any run the application is as some inputs have left it. -/
theorem run_reached {d : DaemonState} {dark : Bool} {actions : List Action}
    (hrun : Runs.run (LightSwitch.step gtk) (start d dark) actions = some w) :
    ∃ inputs, w.app = App.run gtk dark inputs := by
  have hinput : ∀ {app : App} (input : App.Input), (∃ inputs, app = App.run gtk dark inputs) →
      ∃ inputs, App.step gtk app input = App.run gtk dark inputs := by
    rintro app input ⟨inputs, rfl⟩
    exact ⟨inputs ++ [input], (App.run_snoc ..).symm⟩
  refine Runs.run_invariant (I := fun w => ∃ inputs, w.app = App.run gtk dark inputs)
    (fun h hs => ?_) ⟨[], rfl⟩ hrun
  refine step_rule (fun _ h => hinput _ h) (fun {w t d events} _ _ h => ?_)
    (fun {S} _ => hinput _ h) (hinput _ h) h hs
  unfold World.publish
  split
  · exact List.foldlRecOn (motive := fun app => ∃ inputs, app = App.run gtk dark inputs) events _ h
      fun app happ e _ => hinput _ happ
  · exact h

/-- **The Blocked section is the daemon's rules**: after any fair run, while a session is
connected, all in view is rendered, the paused flag is the daemon's, a row is in the Blocked
section exactly if the daemon has a Block rule for its executable, and every Block rule has a
row there. -/
theorem run_linked {gtk : Gtk} {d : DaemonState} {dark : Bool} {actions : List Action} {w : World}
    (hd : d.Ok) (hrun : Runs.run (step gtk) (start d dark) actions = some w)
    (hfair : Runs.AlongRun (step gtk) Fair (start d dark) actions)
    (hlinked : w.linked = true) (hrunning : w.app.running = true) :
    (∃ inputs, w.app = App.run gtk dark inputs ∧ w.app.Rendered (App.seen gtk dark inputs)) ∧
      w.app.pausedFlag = w.daemon.paused ∧
      (∀ key l, w.app.appsPage.look key = some l →
        (key ∈ w.app.appsPage.displayed true ↔
          ∃ exe, l.face.exe = some exe ∧ ∃ r ∈ w.daemon.rules.list, r.blocks exe = true)) ∧
      ∀ r ∈ w.daemon.rules.list, r.action = .block →
        r.appKey ∈ w.app.appsPage.displayed true := by
  have h := inv_run hd hrun hfair
  have hl := h.linked hlinked hrunning
  obtain ⟨inputs, happ⟩ := run_reached hrun
  have hrendered : w.app.Rendered (App.seen gtk dark inputs) := by
    have hstate := h.shown hlinked hrunning
    rw [happ] at hstate ⊢
    exact (App.run_tracked gtk dark inputs).rendered.2.resolve_right hstate
  refine ⟨⟨inputs, happ, hrendered⟩, ?_, fun key l hlook => ?_, fun r hr haction => ?_⟩
  · rw [h.ready.current.rendered.1, hl.paused]
  · rw [← h.home_iff hlinked hrunning hlook, h.ready.current.appsPage_ok.mem_displayed, hlook]
    simp
  · obtain ⟨entry, hentry, hblocked⟩ := h.ready.charted.ruled (hl.rules ▸ hr) haction
    exact (hrendered.appKeys true r.appKey).mpr ⟨entry, hentry, hblocked⟩

/-- Another client has blocked curl. -/
def blockedDaemon : DaemonState :=
  { DaemonState.new .firstStart with
    rules := ⟨2, [⟨1, "curl", .ofString "/usr/bin/curl", .block, true, none, "default", .epoch⟩],
      .ofString "/etc/travelmode/rules.json"⟩ }

/-- Another client blocks curl, then a session starts. -/
def blockedActions : List Action :=
  [.task (.handle .epoch (.addRule ⟨"curl", .ofString "/usr/bin/curl", .block, true, none⟩)),
    .connect (Overlap.snapshotOf blockedDaemon .epoch)]

theorem blocked_fair :
    Runs.AlongRun (step .plain) Fair (start (.new .firstStart) false) blockedActions := by
  refine Runs.alongRun_cons.mpr ⟨fun hlinked => (nomatch hlinked), fun m hm => ?_⟩
  have hdaemon : m.daemon = blockedDaemon := by
    cases hm
    rfl
  refine Runs.alongRun_cons.mpr ⟨⟨⟨.epoch, ?_⟩, ?_⟩, fun m hm => Runs.alongRun_nil⟩
  · rw [hdaemon]
    exact Overlap.takenFrom_snapshotOf blockedDaemon .epoch
  · have hpaths : Op.exes (.snapshot (Overlap.snapshotOf blockedDaemon .epoch)) ++
        Op.blockPaths (.snapshot (Overlap.snapshotOf blockedDaemon .epoch)) =
          [.ofString "/usr/bin/curl"] := by
      decide +kernel
    intro p hp
    rw [hpaths] at hp
    rw [List.mem_singleton.mp hp]
    exact ⟨by decide +kernel, by decide +kernel⟩

theorem blocked_ok : (DaemonState.new .firstStart).Ok := DaemonState.ok_new Inner.inv_empty

/-- What comes of it, and of a flip. -/
theorem blocked_runs : ∃ w l w',
    Runs.run (step .plain) (start (.new .firstStart) false) blockedActions = some w ∧
      w.app.appsPage.look "/usr/bin/curl" = some l ∧
      step .plain w (.input .epoch none (.flip "/usr/bin/curl")) = some w' ∧
      w.linked = true ∧ w.app.running = true ∧ l.home = true ∧ l.face.active = false ∧
      l.face.exe = some (.ofString "/usr/bin/curl") := by
  have hall : ((Runs.run (step .plain) (start (.new .firstStart) false) blockedActions).bind
      fun w => (w.app.appsPage.look "/usr/bin/curl").bind fun l =>
        (step .plain w (.input .epoch none (.flip "/usr/bin/curl"))).map fun _ =>
          (w.linked, w.app.running, l.home, l.face.active, l.face.exe)) =
      some (true, true, true, false, some (.ofString "/usr/bin/curl")) := by
    decide +kernel
  obtain ⟨w, hrun, hw⟩ := Option.bind_eq_some_iff.mp hall
  obtain ⟨l, hl, hw⟩ := Option.bind_eq_some_iff.mp hw
  obtain ⟨w', hstep, hfacts⟩ := Option.map_eq_some_iff.mp hw
  simp only [Prod.mk.injEq] at hfacts
  exact ⟨w, l, w', hrun, hl, hstep, hfacts⟩

/-- The rule has a row in the Blocked section. -/
theorem run_linked_blocked : ∃ w,
    Runs.run (step .plain) (start (.new .firstStart) false) blockedActions = some w ∧
      ∀ r ∈ w.daemon.rules.list, r.action = .block →
        r.appKey ∈ w.app.appsPage.displayed true := by
  obtain ⟨w, -, -, hrun, -, -, hlinked, hrunning, -⟩ := blocked_runs
  exact ⟨w, hrun, (run_linked blocked_ok hrun blocked_fair hlinked hrunning).2.2.2⟩

/-! ## One flip -/

/-- After an update every switch is where its section says. -/
theorem active_of_update {page : Page Bool AppRow} (hok : page.Ok) (s : ClientState) {key : String}
    {l : Look Bool AppRow} (hl : (AppsPage.update gtk page s).1.look key = some l) :
    l.face.active = !l.home := by
  have hlook := (Page.update_spec hok gtk AppsPage.design s.apps).2 key
  change (AppsPage.update gtk page s).1.look key = _ at hlook
  rw [hl] at hlook
  obtain ⟨entry, -, hl⟩ := Option.map_eq_some_iff.mp hlook.symm
  cases hold : page.look key with
  | none =>
    rw [hold] at hl
    change Page.made AppsPage.design entry = l at hl
    rw [← hl, AppsPage.made_eq]
    rfl
  | some old =>
    rw [hold] at hl
    change Page.refreshed AppsPage.design old entry = l at hl
    rw [← hl]
    exact congrArg (fun done : AppRow × List GuiCmd => done.1.active)
      (AppsPage.refreshRow_eq old.face entry)

theorem unflipped_flips (n : Nat) (l : Look Bool AppRow) :
    AppsPage.unflipped (AppsPage.flipped^[n] l) = AppsPage.unflipped l := by
  induction n generalizing l with
  | zero => rfl
  | succ n ih => rw [Function.iterate_succ_apply, ih, AppsPage.unflipped_flipped]

/-- What a row's switch would send, while connected. -/
theorem Inv.flip_eq (h : Inv gtk w) (hlinked : w.linked = true) (hrunning : w.app.running = true)
    {key : String} {l : Look Bool AppRow} {exe : PathBuf}
    (hl : w.app.appsPage.look key = some l) (hexe : l.face.exe = some exe)
    (hplace : l.face.active = !l.home) :
    (l.home = false ∧ AppsPage.flip l = [.block l.face.name exe]) ∨
      ∃ r ∈ w.daemon.rules.list, r.blocks exe = true ∧ l.home = true ∧
        AppsPage.flip l = [.unblock r.id] := by
  obtain ⟨entry, hentry, hhome, hentryExe⟩ := h.entry hlinked hrunning hl
  obtain ⟨seen, hrendered⟩ := h.rendered hlinked hrunning
  obtain ⟨first, hlook⟩ := hrendered.appRow hentry
  have hshown : AppsPage.unflipped l = AppsPage.shown first entry := by
    rw [Option.some.inj (hl.symm.trans hlook), unflipped_flips]
    rfl
  have hface := congrArg (fun l : Look Bool AppRow => l.face) hshown
  have hsensitive : l.face.sensitive = true := by
    refine (congrArg AppRow.sensitive hface).trans ?_
    show entry.exe.isSome = true
    rw [hentryExe, hexe]
    rfl
  have hupdating : l.face.updating = false := congrArg AppRow.updating hface
  have hruleId : l.face.ruleId = entry.blockRuleId := congrArg AppRow.ruleId hface
  unfold AppsPage.flip AppRow.stateSet
  rw [if_pos hsensitive, hupdating, hplace, Bool.not_not, hexe]
  cases hblocked : l.home with
  | false => exact .inl ⟨rfl, rfl⟩
  | true =>
    -- the flags name the first rule that blocks the executable
    have hflags := ClientState.flagged h.ready.client.flagsOk hentry
    obtain ⟨exe', hexe', r, hr, haction, hpath⟩ := hflags.blocked.mp (hhome.trans hblocked)
    have hsome : (w.app.state.rules.find? fun r =>
        decide (r.action = .block) && r.exePath.pathEq exe').isSome = true :=
      List.find?_isSome.mpr ⟨r, hr, by simp [haction, hpath]⟩
    obtain ⟨r, hfind⟩ := Option.isSome_iff_exists.mp hsome
    have hblocks : r.blocks exe' = true :=
      List.find?_some (p := fun r : Rule => r.blocks exe') hfind
    have hid : entry.blockRuleId = some r.id := by
      rw [hflags.ruleId, hexe', Option.bind_some, hfind]
      rfl
    have hsame : exe' = exe := by
      rw [hexe', hexe] at hentryExe
      exact Option.some.inj hentryExe
    refine .inr ⟨r, ?_, hsame ▸ hblocks, rfl, ?_⟩
    · rw [← (h.linked hlinked hrunning).rules]
      exact List.mem_of_find?_eq_some hfind
    · rw [hruleId, hid]
      rfl

/-- The flip of a switch: its request is handled, and the event arrives. -/
theorem Inv.flipped (h : Inv gtk w) (hlinked : w.linked = true) (hrunning : w.app.running = true)
    {key : String} {l : Look Bool AppRow} {cmd : GuiCmd} {req : Request} {env : Env}
    (hl : w.app.appsPage.look key = some l) (hflip : AppsPage.flip l = [cmd])
    (hreq : cmd.request = some req)
    (hstep : LightSwitch.step gtk w (.input env none (.flip key)) = some w') :
    ∃ handled, dispatch w.daemon env req = some handled ∧
      ∀ e, handled.response = .ok → handled.published = [e] →
        w' = ⟨handled.state,
          App.perform gtk (App.perform gtk w.app (.flip key)) (.msg (.client (.event e))),
          true⟩ := by
  have hperform : App.step gtk w.app (.flip key) = App.perform gtk w.app (.flip key) :=
    if_pos hrunning
  have hcmds : App.command w.app (.flip key) = [cmd] := by
    show ((w.app.appsPage.look key).map AppsPage.flip).getD [] = _
    rw [hl, Option.map_some, Option.getD_some, hflip]
  change Runs.run (LightSwitch.obey gtk env none) _ _ = some w' at hstep
  rw [h.ready.drop_sent, if_pos hrunning, hcmds, hperform] at hstep
  obtain ⟨m, hm, hstep⟩ := Runs.run_cons_eq_some.mp hstep
  cases hstep
  unfold LightSwitch.obey at hm
  rw [hreq] at hm
  obtain ⟨handled, hd, rfl⟩ := Option.map_eq_some_iff.mp hm
  refine ⟨handled, hd, fun e hok hpub => ?_⟩
  have hreceive : (App.perform gtk w.app (.flip key)).receive gtk [e] =
      App.perform gtk (App.perform gtk w.app (.flip key)) (.msg (.client (.event e))) :=
    if_pos hrunning
  dsimp only
  rw [hok, hpub, World.publish, if_pos hlinked, hlinked, hreceive]

/-- What a flip does to the daemon: the rule that it adds, or the one that it removes. -/
theorem Inv.flip_cases (h : Inv gtk w) (hlinked : w.linked = true) (hrunning : w.app.running = true)
    {key : String} {l : Look Bool AppRow} {exe : PathBuf} {env : Env}
    (hl : w.app.appsPage.look key = some l) (hexe : l.face.exe = some exe)
    (hplace : l.face.active = !l.home)
    (hstep : LightSwitch.step gtk w (.input env none (.flip key)) = some w') :
    ∃ rules e, w' = ⟨{ w.daemon with rules := rules },
        App.perform gtk (App.perform gtk w.app (.flip key)) (.msg (.client (.event e))), true⟩ ∧
      ((l.home = false ∧ ∃ rule : Rule, rule.action = .block ∧ rule.exePath = exe ∧
          rule.expiresAt = none ∧ rules.list = w.daemon.rules.list ++ [rule]) ∨
        (l.home = true ∧ ∃ rule ∈ w.daemon.rules.list, rule.blocks exe = true ∧
          rules.list = w.daemon.rules.list.filter fun r => !(r.id == rule.id))) := by
  rcases h.flip_eq hlinked hrunning hl hexe hplace with ⟨hhome, hflip⟩ |
    ⟨r, hr, hblocks, hhome, hflip⟩
  · obtain ⟨handled, hd, hdone⟩ := h.flipped hlinked hrunning hl hflip rfl hstep
    obtain ⟨⟨rule, rules⟩, hadd, rfl⟩ := Option.map_eq_some_iff.mp hd
    obtain ⟨expiresAt, hexpiry, -, hrule, hrules⟩ := Inner.add_eq_some.mp hadd
    refine ⟨rules, _, hdone _ rfl rfl, .inl ⟨hhome, rule, ?_, ?_, ?_, ?_⟩⟩
    · rw [hrule]
      rfl
    · rw [hrule]
      rfl
    · rw [hrule]
      cases hexpiry
      rfl
    · rw [hrules]
      show w.daemon.rules.rules.filter _ ++ [rule] = w.daemon.rules.rules ++ [rule]
      rw [List.filter_eq_self.mpr fun r hr => ?_]
      -- nothing blocks the executable yet
      rw [Bool.not_eq_true', ← Bool.not_eq_true]
      intro hsame
      rw [hrule, Inner.sameTarget, Bool.and_eq_true, decide_eq_true_iff] at hsame
      have hhome' := (h.home_iff hlinked hrunning hl).mpr
        ⟨exe, hexe, r, hr, Rule.blocks_iff.mpr ⟨hsame.2, hsame.1⟩⟩
      rw [hhome] at hhome'
      cases hhome'
  · obtain ⟨handled, hd, hdone⟩ := h.flipped hlinked hrunning hl hflip rfl hstep
    obtain ⟨removed, hfind⟩ : ∃ removed, w.daemon.rules.rules.find? (fun s => s.id == r.id) =
        some removed :=
      Option.isSome_iff_exists.mp (List.find?_isSome.mpr ⟨r, hr, by simp⟩)
    simp only [dispatch, Inner.remove, hfind, Option.map_some, Option.some.injEq] at hd
    subst hd
    refine ⟨_, _, hdone _ rfl rfl, .inr ⟨hhome, r, hr, hblocks, ?_⟩⟩
    exact Inner.eraseP_id_eq_filter h.daemon.store.ids r.id

/-- Rules that are dropped and do not block a path make no difference to it. -/
theorem any_filter_of_imp {rules : List Rule} {keep holds : Rule → Bool}
    (h : ∀ r ∈ rules, holds r = true → keep r = true) :
    (rules.filter keep).any holds = rules.any holds := by
  rw [List.any_filter, Bool.eq_iff_iff, List.any_eq_true, List.any_eq_true]
  refine exists_congr fun r => and_congr_right fun hr => ?_
  rw [Bool.and_eq_true]
  exact ⟨And.right, fun hholds => ⟨h r hr hholds, hholds⟩⟩

/-- What is blocked after a flip, by the rules that are live. -/
theorem any_flipped {store rules : Inner} (hstore : Inner.Inv store.persisted)
    {blocked : Bool} {exe : PathBuf}
    (h : (blocked = false ∧ ∃ rule : Rule, rule.action = .block ∧ rule.exePath = exe ∧
        rule.expiresAt = none ∧ rules.list = store.list ++ [rule]) ∨
      (blocked = true ∧ ∃ rule ∈ store.list, rule.blocks exe = true ∧
        rules.list = store.list.filter fun r => !(r.id == rule.id)))
    (live : Rule → Bool) (hlive : ∀ r, r.expiresAt = none → live r = true) (p : PathBuf) :
    (rules.list.any fun r => r.blocks p && live r) =
      if exe.pathEq p then !blocked else store.list.any fun r => r.blocks p && live r := by
  rcases h with ⟨rfl, rule, haction, rfl, hexpires, hrules⟩ | ⟨rfl, rule, hrule, hblocks, hrules⟩
  · rw [hrules, List.any_append, List.any_cons, List.any_nil, Bool.or_false, hlive rule hexpires,
      Rule.blocks, haction]
    by_cases hp : rule.exePath.pathEq p = true
    · rw [if_pos hp, hp]
      simp
    · rw [if_neg hp, Bool.eq_false_iff.mpr hp]
      simp
  · rw [hrules]
    have hpath : rule.exePath.pathEq exe = true := (Rule.blocks_iff.mp hblocks).2
    by_cases hp : exe.pathEq p = true
    · rw [if_pos hp, Bool.not_true, List.any_eq_false]
      intro r hr hholds
      obtain ⟨hr, hid⟩ := List.mem_filter.mp hr
      rw [Bool.and_eq_true, ← Rule.blocks_congr hp] at hholds
      rw [Inner.blockRule_unique hstore hr hrule hholds.1 hblocks] at hid
      simp at hid
    · rw [if_neg hp]
      refine any_filter_of_imp fun r hr hholds => ?_
      rw [Bool.not_eq_true', beq_eq_false_iff_ne]
      intro hid
      have hsame : r = rule := List.inj_on_of_nodup_map hstore.ids hr hrule hid
      rw [Bool.and_eq_true, hsame, Rule.blocks_iff] at hholds
      rw [PathBuf.pathEq_comm] at hpath
      exact hp (PathBuf.pathEq_trans hpath hholds.1.2)

/-- **A flip flips the rule**: after any fair run, while a session is connected, flipping the
switch of a row toggles whether the daemon blocks the row's executable, and changes nothing
else about the daemon; and the row is then in the other section, its switch where the user put
it, or has left the page, which a row that was just blocked does not. -/
theorem flip_toggles {gtk : Gtk} {d : DaemonState} {dark : Bool} {actions : List Action}
    {w w' : World} (hd : d.Ok) (hrun : Runs.run (step gtk) (start d dark) actions = some w)
    (hfair : Runs.AlongRun (step gtk) Fair (start d dark) actions)
    (hlinked : w.linked = true) (hrunning : w.app.running = true)
    {key : String} {l : Look Bool AppRow} {exe : PathBuf} {env : Env}
    (hl : w.app.appsPage.look key = some l) (hexe : l.face.exe = some exe)
    (hplace : l.face.active = !l.home)
    (hstep : step gtk w (.input env none (.flip key)) = some w') :
    (w'.linked = true ∧ w'.app.running = true) ∧
      (w'.daemon = { w.daemon with rules := w'.daemon.rules } ∧
        ∀ p now, w'.daemon.rules.isBlocked p now =
          if exe.pathEq p then l.face.active else w.daemon.rules.isBlocked p now) ∧
      (∀ l', w'.app.appsPage.look key = some l' →
        l'.home = l.face.active ∧ l'.face.active = !l.face.active) ∧
      (l.face.active = true → key ∈ w'.app.appsPage.displayed true) := by
  have h := inv_run hd hrun hfair
  have hfair' : Fair w (.input env none (.flip key)) := by
    intro _ l' hl'
    rw [hl] at hl'
    cases hl'
    exact hplace
  have h' : Inv gtk w' := inv_step h hfair' hstep
  obtain ⟨rules, e, hw', hcases⟩ := h.flip_cases hlinked hrunning hl hexe hplace hstep
  have hlinked' : w'.linked = true := congrArg World.linked hw'
  have hrunning' : w'.app.running = true := by
    rw [hw']
    exact hrunning
  have hdaemon : w'.daemon = { w.daemon with rules := rules } := congrArg World.daemon hw'
  have hpage : w'.app.appsPage =
      (AppsPage.update gtk (App.perform gtk w.app (.flip key)).appsPage w'.app.state).1 := by
    rw [hw']
    rfl
  have hrules : w'.daemon.rules = rules := congrArg DaemonState.rules hdaemon
  obtain ⟨⟨name, hkey⟩, hplain⟩ := h.ready.rows key l hl
  rw [hplace]
  refine ⟨⟨hlinked', hrunning'⟩, ⟨?_, fun p now => ?_⟩, fun l' hl' => ?_, fun hoff => ?_⟩
  · rw [hrules]
    exact hdaemon
  · rw [hrules]
    refine any_flipped h.daemon.store hcases (fun r => !isExpired r now) (fun r hr => ?_) p
    rw [StoreFile.isExpired_of_expiresAt_none hr]
    rfl
  · -- the row is still for the same executable
    obtain ⟨⟨name', hkey'⟩, hplain'⟩ := h'.ready.rows key l' hl'
    have hexe' : l'.face.exe = some exe :=
      (ClientState.exe_of_appKey hplain' hplain (hkey'.symm.trans hkey)).trans hexe
    have hall := any_flipped h.daemon.store hcases (fun _ => true) (fun _ _ => rfl) exe
    rw [if_pos (PathBuf.pathEq_refl exe)] at hall
    have hhome : l'.home = !l.home := by
      rw [Bool.eq_iff_iff, h'.home_iff hlinked' hrunning' hl', hexe', ← hall, hrules,
        List.any_eq_true]
      simp
    have hok := (h.ready.current.performed (.flip key)).appsPage_ok
    rw [hpage] at hl'
    exact ⟨hhome, by rw [active_of_update hok _ hl', hhome]⟩
  · rcases hcases with ⟨-, rule, haction, rfl, -, hlist⟩ | ⟨hon, -⟩
    · have hmem : rule ∈ w'.app.state.rules := by
        rw [(h'.linked hlinked' hrunning').rules, hrules, hlist]
        exact List.mem_append_right _ (List.mem_singleton_self rule)
      obtain ⟨entry, hentry, hblocked⟩ := h'.ready.charted.ruled hmem haction
      have hsame : rule.appKey = key := by
        rw [hkey, hexe]
        rfl
      obtain ⟨seen, hrendered'⟩ := h'.rendered hlinked' hrunning'
      exact (hrendered'.appKeys true key).mpr ⟨entry, hsame ▸ hentry, hblocked⟩
    · rw [hon] at hoff
      cases hoff

/-- The user unblocks curl. -/
theorem flip_toggles_blocked : ∃ w w',
    Runs.run (step .plain) (start (.new .firstStart) false) blockedActions = some w ∧
      step .plain w (.input .epoch none (.flip "/usr/bin/curl")) = some w' ∧
      ∀ now, w'.daemon.rules.isBlocked (.ofString "/usr/bin/curl") now = false := by
  obtain ⟨w, l, w', hrun, hl, hstep, hlinked, hrunning, hhome, hactive, hexe⟩ := blocked_runs
  have hplace : l.face.active = !l.home := by rw [hactive, hhome]; rfl
  obtain ⟨-, ⟨-, hblocked⟩, -⟩ :=
    flip_toggles blocked_ok hrun blocked_fair hlinked hrunning hl hexe hplace hstep
  refine ⟨w, w', hrun, hstep, fun now => ?_⟩
  rw [hblocked, if_pos (PathBuf.pathEq_refl _), hactive]

end LightSwitch

end TravelMode
