import TravelMode.Gui.AppsPage
import TravelMode.Gui.ConnsPage
import TravelMode.Gui.Fmt
import TravelMode.Gui.Operations

/-!
# The application (`gui/src/app.rs`, `tray.rs`, `pages/dashboard.rs`, `pages/settings.rs`)

The root component folds messages into a `ClientState` and re-renders everything from it. The
paused flag is shown in three places: the state's, the switch of the settings page, and the
checkmark of the tray, which reads a flag of its own.

- `App`, `AppMsg`, `handle` (`App::update`) and `refresh`.
- `Input`: a message, or what the user does; `step` and `run`.
- `Seen`: what was rendered, and the switches flipped since.
- `run_rendered`: once anything was rendered, everything in view is told by the current state, the
  entries that rows were made from, and the switches flipped since.
- `step_sent`: what an input sends, by what is in view. Refreshing sends nothing.
-/

namespace TravelMode

namespace ClientState

/-- `active_app_count`. -/
def activeAppCount (s : ClientState) : Nat :=
  (s.apps.vals.filter fun app => decide (0 < app.connections)).length

/-- `blocked_app_count`. -/
def blockedAppCount (s : ClientState) : Nat := (s.apps.vals.filter AppEntry.blocked).length

end ClientState

/-! ## Dashboard and settings -/

/-- What the dashboard shows. -/
structure Dashboard where
  network : String
  metered : Bool
  gateway : String
  dns : String
  downSpeed : Nat
  upSpeed : Nat
  /-- Session totals, down and up. -/
  session : Nat × Nat
  active : Nat
  blocked : Nat
deriving DecidableEq

namespace Dashboard

/-- `DashboardPage::new`: the rows are empty. -/
def new : Dashboard := ⟨"", false, "", "", 0, 0, (0, 0), 0, 0⟩

/-- The address of the gateway. -/
def gatewayText (net : NetworkInfo) : String :=
  match net.gateway with
  | some gateway => String.ofList gateway.text
  | none => "—"

/-- The DNS servers. -/
def dnsText (net : NetworkInfo) : String :=
  if net.dnsServers.isEmpty then "—"
  else ", ".intercalate (net.dnsServers.map fun d => String.ofList d.text)

/-- `DashboardPage::update`: every widget is set. -/
def update (s : ClientState) : Dashboard where
  network :=
    match s.network with
    | some net => (net.ssid.or net.primaryInterface).getD "Not connected"
    | none => "—"
  metered := (s.network.bind NetworkInfo.metered).getD false
  gateway := (s.network.map gatewayText).getD "—"
  dns := (s.network.map dnsText).getD "—"
  downSpeed := s.speedDown
  upSpeed := s.speedUp
  session := (s.totalDown, s.totalUp)
  active := s.activeAppCount
  blocked := s.blockedAppCount

end Dashboard

/-- What the settings page shows, and its guard. -/
structure Settings where
  version : String
  uptime : String
  filtering : String
  pauseIcon : String
  pauseUpdating : Bool
  pauseSwitch : Bool
deriving DecidableEq

namespace Settings

/-- `SettingsPage::new`. -/
def new : Settings := ⟨"", "", "", "pause", false, false⟩

/-- The handler of the pause switch. -/
def stateSet (page : Settings) (active : Bool) : List GuiCmd :=
  if page.pauseUpdating then [] else [.setPaused active]

/-- `set_active` of the pause switch. -/
def setActive (page : Settings) (active : Bool) : Settings × List GuiCmd :=
  if page.pauseSwitch = active then (page, [])
  else ({ page with pauseSwitch := active }, page.stateSet active)

/-- `SettingsPage::update`. -/
def update (page : Settings) (s : ClientState) : Settings × List GuiCmd :=
  let page :=
    { page with
      pauseIcon := if s.paused then "play" else "pause"
      version := (s.status.map Status.version).getD "—"
      uptime := (s.status.map fun st : Status => String.ofList (humanUptime st.uptimeSecs)).getD "—"
      filtering :=
        match s.status with
        | some status => if status.filteringActive then "Active" else "Inactive"
        | none => "Unreachable"
      pauseUpdating := true }
  let set := page.setActive s.paused
  ({ set.1 with pauseUpdating := false }, set.2)

/-- The page that a state is shown on. -/
def of (s : ClientState) : Settings := (update new s).1

/-- A refresh sets everything, and sends nothing. -/
theorem update_eq (page : Settings) (s : ClientState) : page.update s = (of s, []) := by
  obtain ⟨version, uptime, filtering, pauseIcon, pauseUpdating, pauseSwitch⟩ := page
  unfold of update setActive stateSet new
  cases s.paused <;> cases pauseSwitch <;> rfl

@[simp] theorem of_pauseSwitch (s : ClientState) : (of s).pauseSwitch = s.paused := by
  unfold of update setActive stateSet new
  cases s.paused <;> rfl

@[simp] theorem of_pauseUpdating (s : ClientState) : (of s).pauseUpdating = false := rfl

end Settings

/-! ## The root component -/

/-- Messages from the client thread to the UI. -/
inductive ClientMsg where
  | connected (S : Snapshot)
  | disconnected
  | event (e : Event)
  | commandFailed (message : String)

/-- Everything the root component reacts to. -/
inductive AppMsg where
  | client (msg : ClientMsg)
  | tick
  | retry
  | themeChanged
  | trayOpen
  | trayQuit
  | trayReady (ok : Bool)

/-- `ui_icon_name`. -/
def uiIconName (name : String) (dark : Bool) : String :=
  "travelmode-ui-" ++ name ++ "-" ++ if dark then "dark" else "light"

/-- The root component with everything it shows. -/
structure App where
  state : ClientState
  /-- What went into the command channel, oldest first. -/
  sent : List GuiCmd
  /-- The flag that the tray reads. -/
  pausedFlag : Bool
  darkFlag : Bool
  trayAvailable : Bool
  quitting : Bool
  dashboard : Dashboard
  appsPage : Page Bool AppRow
  connsPage : Page Protocol ConnRow
  settings : Settings
  /-- The window is shown, or hidden in the tray. -/
  visible : Bool
  banner : Bool
  subtitle : String
  toasts : List String
  /-- The icon names of the tabs. -/
  tabs : List String
  running : Bool

namespace App

/-- The icons of the tabs. -/
def tabIcons (dark : Bool) : List String :=
  ["plane", "apps", "connections", "settings"].map fun icon => uiIconName icon dark

/-- `App::init`. -/
def init (dark : Bool) : App where
  state := .default
  sent := []
  pausedFlag := false
  darkFlag := dark
  trayAvailable := false
  quitting := false
  dashboard := .new
  appsPage := AppsPage.new
  connsPage := ConnsPage.new
  settings := .new
  visible := true
  banner := true
  subtitle := ""
  toasts := []
  tabs := tabIcons dark
  running := true

/-- The subtitle of the window. -/
def subtitleOf (s : ClientState) : String :=
  if !s.connected then "Offline"
  else (s.network.bind fun n => n.ssid.or n.primaryInterface).getD ""

/-- `refresh`: re-render chrome and all pages from the current state. -/
def refresh (gtk : Gtk) (app : App) : App :=
  let apps := AppsPage.update gtk app.appsPage app.state
  let settings := app.settings.update app.state
  { app with
    banner := !app.state.connected
    subtitle := subtitleOf app.state
    tabs := tabIcons app.darkFlag
    dashboard := .update app.state
    appsPage := apps.1
    connsPage := ConnsPage.update gtk app.connsPage app.state
    settings := settings.1
    sent := app.sent ++ apps.2 ++ settings.2 }

/-- The paused flag that an event leaves. -/
def flagAfter (flag : Bool) : Event → Bool
  | .pausedChanged paused => paused
  | _ => flag

/-- `App::update`. -/
def handle (gtk : Gtk) (app : App) : AppMsg → App
  | .client (.connected S) =>
    refresh gtk { app with pausedFlag := S.status.paused, state := app.state.load S }
  | .client .disconnected => refresh gtk { app with state := { app.state with connected := false } }
  | .client (.event e) =>
    refresh gtk
      { app with pausedFlag := flagAfter app.pausedFlag e, state := app.state.applyEvent e }
  | .client (.commandFailed message) => { app with toasts := app.toasts ++ [message] }
  | .tick => refresh gtk { app with state := app.state.tick }
  | .retry => { app with sent := app.sent ++ [.reconnect] }
  | .themeChanged => refresh gtk app
  | .trayOpen => { app with visible := true }
  | .trayQuit => { app with quitting := true, running := false }
  | .trayReady ok => { app with trayAvailable := ok }

/-! ## Inputs -/

/-- A message, or what the user does. -/
inductive Input where
  | msg (m : AppMsg)
  /-- The switch of an app on the Applications page. -/
  | flip (key : String)
  /-- The pause switch of the settings page. -/
  | flipPause
  /-- "Pause Filtering" in the tray's menu. -/
  | trayPause
  /-- The system's colour scheme changes. -/
  | theme (dark : Bool)
  /-- The window is asked to close. -/
  | close

/-- One input. -/
def perform (gtk : Gtk) (app : App) : Input → App
  | .msg m => handle gtk app m
  | .flip key =>
    let page := AppsPage.toggle app.appsPage key
    { app with appsPage := page.1, sent := app.sent ++ page.2 }
  | .flipPause =>
    let page := app.settings.setActive (!app.settings.pauseSwitch)
    { app with settings := page.1, sent := app.sent ++ page.2 }
  | .trayPause => { app with sent := app.sent ++ [.setPaused (!app.pausedFlag)] }
  | .theme dark => { app with darkFlag := dark, sent := app.sent ++ [.refreshTrayIcon] }
  | .close =>
    if app.trayAvailable && !app.quitting then { app with visible := false }
    else { app with running := false }

/-- One input, while the application runs. -/
def step (gtk : Gtk) (app : App) (input : Input) : App :=
  if app.running then perform gtk app input else app

/-- The application after some inputs. -/
def run (gtk : Gtk) (dark : Bool) (inputs : List Input) : App :=
  inputs.foldl (step gtk) (init dark)

theorem run_snoc (gtk : Gtk) (dark : Bool) (inputs : List Input) (input : Input) :
    run gtk dark (inputs ++ [input]) = step gtk (run gtk dark inputs) input := List.foldl_concat ..

/-! ## What was rendered -/

/-- The states that were rendered, oldest first, and the switches that were flipped since the
last of them. -/
structure Seen where
  rendered : List ClientState
  flips : List String
  /-- How often the pause switch was. -/
  pauseFlips : Nat

/-- The input re-renders everything. -/
def Input.refreshes : Input → Bool
  | .msg (.client (.commandFailed _)) => false
  | .msg (.client _) => true
  | .msg .tick => true
  | .msg .themeChanged => true
  | _ => false

/-- After an input that leads to this state. -/
def Seen.next (seen : Seen) (state : ClientState) (input : Input) : Seen :=
  if input.refreshes then ⟨seen.rendered ++ [state], [], 0⟩
  else
    match input with
    | .flip key => { seen with flips := seen.flips ++ [key] }
    | .flipPause => { seen with pauseFlips := seen.pauseFlips + 1 }
    | _ => seen

/-- One input, and what it renders. -/
def track (gtk : Gtk) (p : App × Seen) (input : Input) : App × Seen :=
  if p.1.running then
    (perform gtk p.1 input, p.2.next (perform gtk p.1 input).state input)
  else p

/-- What some inputs have rendered. -/
def seen (gtk : Gtk) (dark : Bool) (inputs : List Input) : Seen :=
  (inputs.foldl (track gtk) (init dark, ⟨[], [], 0⟩)).2

theorem track_fst (gtk : Gtk) (p : App × Seen) (input : Input) :
    (track gtk p input).1 = step gtk p.1 input := by
  unfold track step
  split <;> rfl

theorem foldl_track_fst (gtk : Gtk) (inputs : List Input) (p : App × Seen) :
    (inputs.foldl (track gtk) p).1 = inputs.foldl (step gtk) p.1 := by
  induction inputs generalizing p with
  | nil => rfl
  | cons input inputs ih =>
    rw [List.foldl_cons, List.foldl_cons, ih, track_fst]

/-! ## One state behind everything in view -/

/-- The flag that an event leaves is that of the state it leaves. -/
theorem flagAfter_eq (s : ClientState) (e : Event) :
    flagAfter s.paused e = (s.applyEvent e).paused := by
  cases e with
  | connectionClosed key =>
    show s.paused = (s.removeConn key).paused
    unfold ClientState.removeConn
    cases s.conns.get? key <;> rfl
  | _ => rfl

/-- The pages come from updates and flips, and no guard is up between inputs. -/
structure Follows (gtk : Gtk) (app : App) (seen : Seen) (ops : List AppsPage.Op) : Prop where
  apps : app.appsPage = (AppsPage.run gtk ops).1
  conns : app.connsPage = ConnsPage.run gtk seen.rendered
  updates : ops.filterMap AppsPage.Op.state? = seen.rendered
  guard : app.settings.pauseUpdating = false
  flag : app.pausedFlag = app.state.paused

/-- The last update was from the current state, and the chrome shows it too. -/
structure UpToDate (app : App) (seen : Seen) (ops : List AppsPage.Op) : Prop where
  banner : app.banner = !app.state.connected
  subtitle : app.subtitle = subtitleOf app.state
  dashboard : app.dashboard = .update app.state
  settings : app.settings =
    { Settings.of app.state with pauseSwitch := not^[seen.pauseFlips] app.state.paused }
  last : ∃ pre : List AppsPage.Op, ops = pre ++ .update app.state :: seen.flips.map .toggle

variable {gtk : Gtk} {app : App} {seen : Seen} {ops : List AppsPage.Op}

theorem Follows.refreshed (h : app.Follows gtk seen ops) :
    (app.refresh gtk).Follows gtk ⟨seen.rendered ++ [app.state], [], 0⟩
        (ops ++ [.update app.state]) ∧
      (app.refresh gtk).UpToDate ⟨seen.rendered ++ [app.state], [], 0⟩
        (ops ++ [.update app.state]) := by
  constructor
  · constructor
    · show (AppsPage.update gtk app.appsPage app.state).1 = _
      rw [h.apps, AppsPage.run_snoc]
      rfl
    · show ConnsPage.update gtk app.connsPage app.state = _
      rw [h.conns]
      exact (List.foldl_concat ..).symm
    · rw [List.filterMap_append, h.updates]
      rfl
    · show (app.settings.update app.state).1.pauseUpdating = false
      rw [Settings.update_eq]
      rfl
    · exact h.flag
  · constructor
    · rfl
    · rfl
    · rfl
    · show (app.settings.update app.state).1 = { Settings.of app.state with
        pauseSwitch := app.state.paused }
      rw [Settings.update_eq, ← Settings.of_pauseSwitch]
    · exact ⟨ops, rfl⟩

/-- **A refresh sends nothing**, wherever it moves switches. -/
theorem refresh_sent (gtk : Gtk) (app : App) : (app.refresh gtk).sent = app.sent := by
  show app.sent ++ (AppsPage.update gtk app.appsPage app.state).2 ++
    (app.settings.update app.state).2 = app.sent
  rw [AppsPage.update_silent, Settings.update_eq, List.append_nil, List.append_nil]

/-- What holds between inputs: pages follow, and the view is up to date unless nothing
was rendered yet. -/
def Tracked (gtk : Gtk) (app : App) (seen : Seen) : Prop :=
  ∃ ops, app.Follows gtk seen ops ∧ (app.UpToDate seen ops ∨ app.state = .default)

theorem tracked_init (gtk : Gtk) (dark : Bool) : (init dark).Tracked gtk ⟨[], [], 0⟩ :=
  ⟨[], ⟨rfl, rfl, rfl, rfl, rfl⟩, .inr rfl⟩

/-- A change of the state that is rendered at once. -/
theorem Follows.changed (h : app.Follows gtk seen ops) {s : ClientState} {flag : Bool}
    (hflag : flag = s.paused) :
    (refresh gtk { app with pausedFlag := flag, state := s }).Tracked gtk
      ⟨seen.rendered ++ [s], [], 0⟩ := by
  have hfollows : ({ app with pausedFlag := flag, state := s } : App).Follows gtk seen ops :=
    ⟨h.apps, h.conns, h.updates, h.guard, hflag⟩
  exact ⟨_, hfollows.refreshed.1, .inl hfollows.refreshed.2⟩

/-- A change of anything that is no part of the view. -/
theorem Tracked.aside (h : app.Tracked gtk seen) {app' : App} (hstate : app'.state = app.state)
    (hpages : app'.appsPage = app.appsPage ∧ app'.connsPage = app.connsPage)
    (hsettings : app'.settings = app.settings) (hflag : app'.pausedFlag = app.pausedFlag)
    (hchrome : app'.banner = app.banner ∧ app'.subtitle = app.subtitle ∧
      app'.dashboard = app.dashboard) : app'.Tracked gtk seen := by
  obtain ⟨ops, hfollows, hcurrent⟩ := h
  refine ⟨ops, ⟨hpages.1 ▸ hfollows.apps, hpages.2 ▸ hfollows.conns, hfollows.updates,
    hsettings ▸ hfollows.guard, by rw [hflag, hstate, hfollows.flag]⟩, ?_⟩
  rcases hcurrent with hup | hdefault
  · refine .inl ⟨?_, ?_, ?_, ?_, ?_⟩
    · rw [hchrome.1, hstate, hup.banner]
    · rw [hchrome.2.1, hstate, hup.subtitle]
    · rw [hchrome.2.2, hstate, hup.dashboard]
    · rw [hsettings, hstate, hup.settings]
    · rw [hstate]
      exact hup.last
  · exact .inr (hstate.trans hdefault)

theorem Tracked.handled (h : app.Tracked gtk seen) (m : AppMsg) :
    (handle gtk app m).Tracked gtk (seen.next (handle gtk app m).state (.msg m)) := by
  obtain ⟨ops, hfollows, -⟩ := id h
  cases m with
  | client msg =>
    cases msg with
    | connected S => exact hfollows.changed (ClientState.load_paused app.state S).symm
    | disconnected =>
      exact hfollows.changed (s := { app.state with connected := false }) hfollows.flag
    | event e =>
      refine hfollows.changed (s := app.state.applyEvent e) ?_
      rw [hfollows.flag]
      exact flagAfter_eq app.state e
    | commandFailed message => exact h.aside rfl ⟨rfl, rfl⟩ rfl rfl ⟨rfl, rfl, rfl⟩
  | tick => exact hfollows.changed (s := app.state.tick) hfollows.flag
  | themeChanged => exact hfollows.changed (s := app.state) hfollows.flag
  | _ => exact h.aside rfl ⟨rfl, rfl⟩ rfl rfl ⟨rfl, rfl, rfl⟩

/-- A flip of the pause switch. -/
theorem setActive_not (page : Settings) :
    page.setActive (!page.pauseSwitch) =
      ({ page with pauseSwitch := !page.pauseSwitch }, page.stateSet (!page.pauseSwitch)) := by
  refine if_neg ?_
  simp

/-- **Step lemma**: one input, and what it renders. -/
theorem Tracked.performed (h : app.Tracked gtk seen) (input : Input) :
    (perform gtk app input).Tracked gtk
      (seen.next (perform gtk app input).state input) := by
  cases input with
  | msg m => exact h.handled m
  | flip key =>
    obtain ⟨ops, hfollows, hcurrent⟩ := h
    refine ⟨ops ++ [.toggle key], ⟨?_, hfollows.conns, ?_, hfollows.guard, hfollows.flag⟩, ?_⟩
    · show (AppsPage.toggle app.appsPage key).1 = _
      rw [hfollows.apps, AppsPage.run_snoc]
      rfl
    · rw [List.filterMap_append, hfollows.updates]
      exact List.append_nil _
    · rcases hcurrent with hup | hdefault
      · obtain ⟨pre, hops⟩ := hup.last
        refine .inl ⟨hup.banner, hup.subtitle, hup.dashboard, hup.settings, pre, ?_⟩
        show _ = pre ++ .update app.state :: (seen.flips ++ [key]).map .toggle
        rw [hops, List.map_append, List.append_assoc]
        rfl
      · exact .inr hdefault
  | flipPause =>
    obtain ⟨ops, hfollows, hcurrent⟩ := h
    have hset := congrArg Prod.fst (setActive_not app.settings)
    refine ⟨ops, ⟨hfollows.apps, hfollows.conns, hfollows.updates, ?_, hfollows.flag⟩, ?_⟩
    · show (app.settings.setActive (!app.settings.pauseSwitch)).1.pauseUpdating = false
      rw [hset]
      exact hfollows.guard
    · rcases hcurrent with hup | hdefault
      · refine .inl ⟨hup.banner, hup.subtitle, hup.dashboard, ?_, hup.last⟩
        show (app.settings.setActive (!app.settings.pauseSwitch)).1 = { Settings.of app.state with
          pauseSwitch := not^[seen.pauseFlips + 1] app.state.paused }
        rw [hset, hup.settings, Function.iterate_succ_apply']
      · exact .inr hdefault
  | trayPause => exact h.aside rfl ⟨rfl, rfl⟩ rfl rfl ⟨rfl, rfl, rfl⟩
  | theme dark => exact h.aside rfl ⟨rfl, rfl⟩ rfl rfl ⟨rfl, rfl, rfl⟩
  | close =>
    unfold perform
    dsimp only
    split
    · exact h.aside rfl ⟨rfl, rfl⟩ rfl rfl ⟨rfl, rfl, rfl⟩
    · exact h.aside rfl ⟨rfl, rfl⟩ rfl rfl ⟨rfl, rfl, rfl⟩

/-- **Run lemma.** -/
theorem run_tracked (gtk : Gtk) (dark : Bool) (inputs : List Input) :
    (run gtk dark inputs).Tracked gtk (App.seen gtk dark inputs) := by
  have hall : (inputs.foldl (track gtk) (init dark, ⟨[], [], 0⟩)).1.Tracked gtk
      (inputs.foldl (track gtk) (init dark, ⟨[], [], 0⟩)).2 := by
    refine List.foldlRecOn (motive := fun p => p.1.Tracked gtk p.2)
      (b := (init dark, ⟨[], [], 0⟩)) inputs (track gtk) (tracked_init gtk dark)
      fun p h input _ => ?_
    unfold track
    split
    · exact h.performed input
    · exact h
  rwa [foldl_track_fst] at hall

/-- Something tells what is in view. -/
def Current (gtk : Gtk) (app : App) : Prop := ∃ seen, app.Tracked gtk seen

theorem current_init (gtk : Gtk) (dark : Bool) : (init dark).Current gtk :=
  ⟨_, tracked_init gtk dark⟩

theorem Current.performed (h : app.Current gtk) (input : Input) :
    (perform gtk app input).Current gtk := h.imp' _ fun _ h => h.performed input

theorem run_current (gtk : Gtk) (dark : Bool) (inputs : List Input) :
    (run gtk dark inputs).Current gtk := ⟨_, run_tracked gtk dark inputs⟩

/-- Everything in view is told by the state: chrome, dashboard and settings; the rows of the apps
in their sections; the rows of the flows. A row keeps what it has of the entry that it was made
from, the first since its key last came. A switch is where the state has it, but for the flips
since. -/
structure Rendered (app : App) (seen : Seen) : Prop where
  last : seen.rendered.getLast? = some app.state
  banner : app.banner = !app.state.connected
  subtitle : app.subtitle = subtitleOf app.state
  dashboard : app.dashboard = .update app.state
  settings : app.settings =
    { Settings.of app.state with pauseSwitch := not^[seen.pauseFlips] app.state.paused }
  settled : app.appsPage.Settled ∧ app.connsPage.Settled
  appKeys : ∀ blocked key, key ∈ app.appsPage.displayed blocked ↔
    ∃ entry, app.state.apps.get? key = some entry ∧ entry.blocked = blocked
  appRows : ∀ key, app.appsPage.look key = (app.state.apps.get? key).bind fun entry =>
    (AppsPage.lifetime (seen.rendered.map .update) key).head?.map fun first =>
      AppsPage.flipped^[seen.flips.count key] (AppsPage.shown first entry)
  connKeys : ∀ proto key, key ∈ app.connsPage.displayed proto ↔
    (app.state.conns.get? key).isSome = true ∧
      ∃ first, (ConnsPage.lifetime seen.rendered key).head? = some first ∧ first.protocol = proto
  connRows : ∀ key, app.connsPage.look key = (app.state.conns.get? key).bind fun conn =>
    (ConnsPage.lifetime seen.rendered key).head?.map fun first => ConnsPage.shown first conn

/-- A lifetime is told by the states of the updates. -/
theorem lifetime_updates {states : List ClientState}
    (h : ops.filterMap AppsPage.Op.state? = states) (key : String) :
    AppsPage.lifetime ops key = AppsPage.lifetime (states.map .update) key := by
  have hstates : (states.map AppsPage.Op.update).filterMap AppsPage.Op.state? = states := by
    rw [List.filterMap_map]
    exact List.filterMap_some
  unfold AppsPage.lifetime
  rw [h, hstates]

/-- What the pages show is told by what was rendered. -/
theorem Tracked.rendered (h : app.Tracked gtk seen) :
    app.pausedFlag = app.state.paused ∧ (app.Rendered seen ∨ app.state = .default) := by
  obtain ⟨ops, hfollows, hcurrent⟩ := h
  refine ⟨hfollows.flag, hcurrent.imp_left fun hup => ?_⟩
  obtain ⟨pre, hops⟩ := hup.last
  have happs := hfollows.apps
  rw [hops] at happs
  have hstates : seen.rendered = pre.filterMap AppsPage.Op.state? ++ [app.state] := by
    have hnone : (seen.flips.map AppsPage.Op.toggle).filterMap AppsPage.Op.state? = [] := by
      rw [List.filterMap_map]
      exact List.filterMap_none _
    rw [← hfollows.updates, hops, List.filterMap_append]
    show _ ++ app.state :: (seen.flips.map AppsPage.Op.toggle).filterMap AppsPage.Op.state? = _
    rw [hnone]
  have hupdates : (pre ++ [AppsPage.Op.update app.state]).filterMap AppsPage.Op.state? =
      seen.rendered := by
    rw [hstates, List.filterMap_append]
    rfl
  have hconns := hfollows.conns
  rw [hstates] at hconns
  obtain ⟨hsettled, hkeys, hrows⟩ := AppsPage.renders gtk pre app.state seen.flips
  obtain ⟨hconnsSettled, -, hconnRows⟩ :=
    ConnsPage.renders gtk (pre.filterMap AppsPage.Op.state?) app.state
  have hconnsOk := (ConnsPage.run_rows gtk (pre.filterMap AppsPage.Op.state? ++ [app.state])).1
  rw [← happs] at hsettled hkeys hrows
  rw [← hconns] at hconnsSettled hconnRows hconnsOk
  rw [← hstates] at hconnRows
  exact
    { last := by rw [hstates, List.getLast?_concat]
      banner := hup.banner
      subtitle := hup.subtitle
      dashboard := hup.dashboard
      settings := hup.settings
      settled := ⟨hsettled, hconnsSettled⟩
      appKeys := fun blocked key => (hkeys blocked).2 key
      appRows := fun key => by rw [hrows, lifetime_updates hupdates]
      connKeys := fun proto key => by
        rw [hconnsOk.mem_displayed, hconnRows]
        constructor
        · rintro ⟨l, hl, rfl⟩
          obtain ⟨conn, hconn, hl⟩ := Option.bind_eq_some_iff.mp hl
          obtain ⟨first, hfirst, rfl⟩ := Option.map_eq_some_iff.mp hl
          exact ⟨by rw [hconn]; rfl, first, hfirst, rfl⟩
        · rintro ⟨hsome, first, hfirst, rfl⟩
          obtain ⟨conn, hconn⟩ := Option.isSome_iff_exists.mp hsome
          exact ⟨ConnsPage.shown first conn, by rw [hconn, Option.bind_some, hfirst]; rfl, rfl⟩
      connRows := hconnRows }

theorem Current.rendered (h : app.Current gtk) :
    app.pausedFlag = app.state.paused ∧
      ((∃ seen, app.Rendered seen) ∨ app.state = .default) := by
  obtain ⟨seen, h⟩ := h
  exact ⟨h.rendered.1, h.rendered.2.imp_left fun h => ⟨seen, h⟩⟩

/-- An app of the state has a row. -/
theorem Rendered.appRow (h : app.Rendered seen) {key : String} {entry : AppEntry}
    (hentry : app.state.apps.get? key = some entry) : ∃ first,
      app.appsPage.look key =
        some (AppsPage.flipped^[seen.flips.count key] (AppsPage.shown first entry)) := by
  obtain ⟨pre, hpre⟩ := List.getLast?_eq_some_iff.mp h.last
  obtain ⟨first, hfirst⟩ := AppsPage.exists_head?_lifetime (pre.map .update) hentry
  refine ⟨first, ?_⟩
  rw [h.appRows, hentry, Option.bind_some, hpre, List.map_append, List.map_singleton, hfirst]
  rfl

/-- So has a flow. -/
theorem Rendered.connRow (h : app.Rendered seen) {key : String} {conn : ConnectionInfo}
    (hconn : app.state.conns.get? key = some conn) :
    ∃ first, app.connsPage.look key = some (ConnsPage.shown first conn) := by
  obtain ⟨pre, hpre⟩ := List.getLast?_eq_some_iff.mp h.last
  obtain ⟨first, hfirst⟩ := ConnsPage.exists_head?_lifetime pre hconn
  refine ⟨first, ?_⟩
  rw [h.connRows, hconn, Option.bind_some, hpre, hfirst]
  rfl

/-- **One state behind everything in view**: after any messages and actions of the user, the
tray's flag is the state's, and unless nothing has happened to the state yet, all that is in view
is told by it, by the entries that rows were made from, and by the switches flipped since the last
refresh. -/
theorem run_rendered (gtk : Gtk) (dark : Bool) (inputs : List Input) :
    let app := run gtk dark inputs
    app.pausedFlag = app.state.paused ∧
      (app.Rendered (App.seen gtk dark inputs) ∨ app.state = .default) :=
  (run_tracked gtk dark inputs).rendered

/-! ## What an input does -/

/-- The operation on the state that an input brings. -/
def Input.op? : Input → Option Op
  | .msg (.client (.connected S)) => some (.snapshot S)
  | .msg (.client (.event e)) => some (.event e)
  | .msg .tick => some .tick
  | _ => none

/-- An input brings an operation on the state, or the end of a session, or leaves it alone. -/
theorem perform_state (gtk : Gtk) (app : App) (input : Input) :
    (perform gtk app input).state = app.state ∨
      (∃ op, input.op? = some op ∧ (perform gtk app input).state = app.state.perform op) ∨
      (perform gtk app input).state = { app.state with connected := false } := by
  cases input with
  | msg m =>
    cases m with
    | client msg =>
      cases msg with
      | connected S => exact .inr (.inl ⟨_, rfl, rfl⟩)
      | disconnected => exact .inr (.inr rfl)
      | event e => exact .inr (.inl ⟨_, rfl, rfl⟩)
      | commandFailed message => exact .inl rfl
    | tick => exact .inr (.inl ⟨_, rfl, rfl⟩)
    | _ => exact .inl rfl
  | close =>
    unfold perform
    dsimp only
    split <;> exact .inl rfl
  | _ => exact .inl rfl

/-- The page of the apps is refreshed from the new state; or the state stays, and at most a
switch is flipped. -/
theorem perform_appsPage (gtk : Gtk) (app : App) (input : Input) :
    (perform gtk app input).appsPage =
        (AppsPage.update gtk app.appsPage (perform gtk app input).state).1 ∨
      (perform gtk app input).state = app.state ∧
        ((perform gtk app input).appsPage = app.appsPage ∨
          ∃ key, (perform gtk app input).appsPage = (AppsPage.toggle app.appsPage key).1) := by
  cases input with
  | msg m =>
    cases m with
    | client msg =>
      cases msg with
      | commandFailed message => exact .inr ⟨rfl, .inl rfl⟩
      | _ => exact .inl rfl
    | tick => exact .inl rfl
    | themeChanged => exact .inl rfl
    | _ => exact .inr ⟨rfl, .inl rfl⟩
  | flip key => exact .inr ⟨rfl, .inr ⟨key, rfl⟩⟩
  | close =>
    unfold perform
    dsimp only
    split <;> exact .inr ⟨rfl, .inl rfl⟩
  | _ => exact .inr ⟨rfl, .inl rfl⟩

/-- So it is with the page of the flows. -/
theorem perform_connsPage (gtk : Gtk) (app : App) (input : Input) :
    (perform gtk app input).connsPage =
        ConnsPage.update gtk app.connsPage (perform gtk app input).state ∨
      (perform gtk app input).state = app.state ∧
        (perform gtk app input).connsPage = app.connsPage := by
  cases input with
  | msg m =>
    cases m with
    | client msg =>
      cases msg with
      | commandFailed message => exact .inr ⟨rfl, rfl⟩
      | _ => exact .inl rfl
    | tick => exact .inl rfl
    | themeChanged => exact .inl rfl
    | _ => exact .inr ⟨rfl, rfl⟩
  | close =>
    unfold perform
    dsimp only
    split <;> exact .inr ⟨rfl, rfl⟩
  | _ => exact .inr ⟨rfl, rfl⟩

/-- What an input sends, by what is in view. -/
def command (app : App) : Input → List GuiCmd
  | .msg .retry => [.reconnect]
  | .flip key => ((app.appsPage.look key).map AppsPage.flip).getD []
  | .flipPause => [.setPaused (!app.settings.pauseSwitch)]
  | .trayPause => [.setPaused (!app.state.paused)]
  | .theme _ => [.refreshTrayIcon]
  | _ => []

theorem Current.appsPage_ok (h : app.Current gtk) : app.appsPage.Ok := by
  obtain ⟨seen, ops, hfollows, -⟩ := h
  exact hfollows.apps ▸ (AppsPage.run_rows gtk ops).1

theorem Current.connsPage_ok (h : app.Current gtk) : app.connsPage.Ok := by
  obtain ⟨seen, ops, hfollows, -⟩ := h
  exact hfollows.conns ▸ (ConnsPage.run_rows gtk _).1

theorem Current.sent (h : app.Current gtk) (input : Input) :
    (perform gtk app input).sent = app.sent ++ command app input := by
  have hok := h.appsPage_ok
  obtain ⟨seen, ops, hfollows, -⟩ := h
  cases input with
  | msg m =>
    have hquiet : ∀ app' : App, app'.sent = app.sent →
        (app'.refresh gtk).sent = app.sent ++ [] := by
      intro app' h
      rw [refresh_sent, h, List.append_nil]
    cases m with
    | client msg =>
      cases msg with
      | commandFailed message => exact (List.append_nil _).symm
      | _ => exact hquiet _ rfl
    | tick => exact hquiet _ rfl
    | themeChanged => exact hquiet _ rfl
    | retry => rfl
    | _ => exact (List.append_nil _).symm
  | flip key =>
    refine congrArg (app.sent ++ ·) ?_
    exact (AppsPage.toggle_spec hok key).2.2
  | flipPause =>
    refine congrArg (app.sent ++ ·) ?_
    rw [setActive_not]
    show (if app.settings.pauseUpdating then [] else _) = _
    rw [hfollows.guard]
    rfl
  | trayPause =>
    show app.sent ++ [.setPaused (!app.pausedFlag)] = _
    rw [hfollows.flag]
    rfl
  | theme dark => rfl
  | close =>
    show (if _ then _ else _ : App).sent = _
    split
    · exact (List.append_nil _).symm
    · exact (List.append_nil _).symm

/-- **Commands are the user's**: after any run an input sends its own command and nothing else;
in particular no message of the daemon makes the application send one. -/
theorem step_sent (gtk : Gtk) (dark : Bool) (inputs : List Input) (input : Input) :
    let app := run gtk dark inputs
    (perform gtk app input).sent = app.sent ++ command app input :=
  (run_current gtk dark inputs).sent input

end App

end TravelMode
