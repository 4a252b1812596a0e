import TravelMode.Gui.App
import TravelMode.Gui.BlockFlags

/-!
# What holds of the application between inputs

The application is in step with its own state (`App.Current`); what is in the state and in the
rows depends on the paths that the daemon's messages bring.

- `PlainPath`: absolute and UTF-8, as the paths of the daemon's messages are.
- `ClientState.Charted`: Block rules have blocked entries, each filed under its path.
- `App.Ready`: with that, the handlers of the switches hold the executables of the entries that
  their rows show (`exe_eq`). Kept by every input that brings plain paths.
- `receive`: the application folds events as its state does.
-/

namespace TravelMode

/-! ## Plain paths -/

/-- A path that is absolute, and told apart by its rendering. -/
def PlainPath (p : PathBuf) : Prop := p.isUtf8 = true ∧ p.bytes.head? = some PathBuf.slash

/-- The paths that an operation brings are plain. -/
def Op.Plain (op : Op) : Prop := ∀ p ∈ op.exes ++ op.blockPaths, PlainPath p

namespace ClientState

theorem toldApart_of_plain {blockPaths exes : List PathBuf}
    (h : ∀ p ∈ exes ++ blockPaths, PlainPath p) : ToldApart blockPaths exes :=
  .of_utf8 (fun p hp => (h p (List.mem_append_right _ hp)).2) fun p hp => (h p hp).1

/-- Block rules have blocked entries, and all paths are plain. -/
def Charted (s : ClientState) : Prop :=
  ∃ blockPaths exes, (∀ p ∈ exes ++ blockPaths, PlainPath p) ∧ Ruled blockPaths exes s

theorem charted_default : Charted default := ⟨[], [], by simp, ruled_default⟩

/-- More paths. -/
theorem Ruled.mono {blockPaths exes blockPaths' exes' : List PathBuf} {s : ClientState}
    (h : Ruled blockPaths exes s) (hblock : blockPaths ⊆ blockPaths') (hexes : exes ⊆ exes') :
    Ruled blockPaths' exes' s where
  flags := h.flags
  rules r hr haction := hblock (h.rules r hr haction)
  filed key app hget := by
    obtain ⟨hkey, hpaths⟩ := h.filed key app hget
    refine ⟨hkey, fun p hp => ?_⟩
    rcases List.mem_append.mp (hpaths p hp) with hp | hp
    · exact List.mem_append_left _ (hexes hp)
    · exact List.mem_append_right _ (hblock hp)
  present := h.present

theorem Charted.perform {s : ClientState} {op : Op} (h : Charted s) (hop : op.Plain) :
    Charted (s.perform op) := by
  obtain ⟨blockPaths, exes, hplain, hruled⟩ := h
  have hplain' : ∀ p ∈ (exes ++ op.exes) ++ (blockPaths ++ op.blockPaths), PlainPath p := by
    intro p hp
    simp only [List.mem_append] at hp
    rcases hp with (hp | hp) | hp | hp
    · exact hplain p (List.mem_append_left _ hp)
    · exact hop p (List.mem_append_left _ hp)
    · exact hplain p (List.mem_append_right _ hp)
    · exact hop p (List.mem_append_right _ hp)
  refine ⟨_, _, hplain', (hruled.mono (List.subset_append_left ..)
    (List.subset_append_left ..)).perform (toldApart_of_plain hplain') ?_ ?_⟩
  · exact fun p hp => List.mem_append_right _ hp
  · intro r hr haction
    refine List.mem_append_right _ (List.mem_map.mpr ⟨r, ?_, rfl⟩)
    exact List.mem_filter.mpr ⟨hr, decide_eq_true haction⟩

theorem Charted.disconnected {s : ClientState} (h : Charted s) :
    Charted { s with connected := false } := by
  obtain ⟨blockPaths, exes, hplain, hruled⟩ := h
  exact ⟨blockPaths, exes, hplain, ⟨hruled.flags, hruled.rules, hruled.filed, hruled.present⟩⟩

/-- An entry is filed under its executable or its name. -/
theorem Charted.filed {s : ClientState} (h : Charted s) {key : String} {app : AppEntry}
    (hget : s.apps.get? key = some app) :
    (∃ name, key = appKey app.exe name) ∧ ∀ p, app.exe = some p → PlainPath p := by
  obtain ⟨blockPaths, exes, hplain, hruled⟩ := h
  obtain ⟨hkey, hpaths⟩ := hruled.filed key app hget
  exact ⟨hkey, fun p hp => hplain p (hpaths p hp)⟩

/-- A Block rule has a blocked entry. -/
theorem Charted.ruled {s : ClientState} (h : Charted s) {r : Rule} (hr : r ∈ s.rules)
    (haction : r.action = .block) :
    ∃ app, s.apps.get? r.appKey = some app ∧ app.blocked = true := by
  obtain ⟨blockPaths, exes, hplain, hruled⟩ := h
  obtain ⟨app, happ⟩ := hruled.present r hr haction
  exact ⟨app, happ, hruled.blocked (toldApart_of_plain hplain) hr haction happ⟩

/-- Two plain executables with one key are the same; and none shares its key with a name. -/
theorem exe_of_appKey {exe exe' : Option PathBuf} {name name' : String}
    (h : ∀ p, exe = some p → PlainPath p) (h' : ∀ p, exe' = some p → PlainPath p)
    (hkey : appKey exe name = appKey exe' name') : exe = exe' := by
  cases exe with
  | none =>
    cases exe' with
    | none => rfl
    | some q => exact absurd hkey.symm (display_ne_name (h' q rfl).2 name)
  | some p =>
    cases exe' with
    | none => exact absurd hkey (display_ne_name (h p rfl).2 name')
    | some q => rw [PathBuf.eq_of_display_eq (h p rfl).1 (h' q rfl).1 hkey]

end ClientState

/-! ## What holds of the GUI -/

namespace App

/-- The handlers of the switches hold executables that belong to their keys. -/
def RowsFiled (page : Page Bool AppRow) : Prop :=
  ∀ key l, page.look key = some l →
    (∃ name, key = appKey l.face.exe name) ∧ ∀ p, l.face.exe = some p → PlainPath p

/-- A refreshed row keeps its handler; a new one is filed like its entry. -/
theorem RowsFiled.update {page : Page Bool AppRow} (h : RowsFiled page) (hok : page.Ok) (gtk : Gtk)
    {s : ClientState} (hs : s.Charted) : RowsFiled (AppsPage.update gtk page s).1 := by
  intro key l hl
  have hlook := (Page.update_spec hok gtk AppsPage.design s.apps).2 key
  change (AppsPage.update gtk page s).1.look key = _ at hlook
  rw [hl] at hlook
  obtain ⟨entry, hentry, hl⟩ := Option.map_eq_some_iff.mp hlook.symm
  cases hold : page.look key with
  | none =>
    rw [hold] at hl
    change Page.made AppsPage.design entry = l at hl
    rw [AppsPage.made_eq] at hl
    subst hl
    exact hs.filed hentry
  | some old =>
    rw [hold] at hl
    change Page.refreshed AppsPage.design old entry = l at hl
    have hexe : l.face.exe = old.face.exe := by
      rw [← hl]
      exact congrArg (fun done : AppRow × List GuiCmd => done.1.exe)
        (AppsPage.refreshRow_eq old.face entry)
    rw [hexe]
    exact h key old hold

theorem RowsFiled.toggle {page : Page Bool AppRow} (h : RowsFiled page) (hok : page.Ok)
    (key : String) : RowsFiled (AppsPage.toggle page key).1 := by
  intro j l hl
  rw [(AppsPage.toggle_spec hok key).2.1 j] at hl
  by_cases hj : j = key
  · rw [if_pos hj] at hl
    obtain ⟨old, hold, rfl⟩ := Option.map_eq_some_iff.mp hl
    have hexe : (AppsPage.flipped old).face.exe = old.face.exe := by
      unfold AppsPage.flipped
      split <;> rfl
    rw [hexe]
    exact h j old hold
  · rw [if_neg hj] at hl
    exact h j l hl

/-- What holds of the GUI after any inputs that bring plain paths. -/
structure Ready (gtk : Gtk) (app : App) : Prop where
  client : app.state.Reachable
  current : app.Current gtk
  charted : app.state.Charted
  rows : RowsFiled app.appsPage

theorem ready_init (gtk : Gtk) (dark : Bool) : Ready gtk (init dark) where
  client := .default
  current := current_init gtk dark
  charted := ClientState.charted_default
  rows _ _ h := nomatch h

variable {gtk : Gtk} {app : App}

theorem Ready.performed (h : Ready gtk app) {input : Input}
    (hplain : ∀ op, input.op? = some op → op.Plain) : Ready gtk (perform gtk app input) := by
  have hcharted : (perform gtk app input).state.Charted := by
    rcases perform_state gtk app input with hs | ⟨op, hop, hs⟩ | hs
    · exact hs ▸ h.charted
    · exact hs ▸ h.charted.perform (hplain op hop)
    · exact hs ▸ h.charted.disconnected
  refine ⟨?_, h.current.performed input, hcharted, ?_⟩
  · rcases perform_state gtk app input with hs | ⟨op, -, hs⟩ | hs
    · exact hs ▸ h.client
    · exact hs ▸ ClientState.reachable_operate h.client [op]
    · exact hs ▸ h.client.disconnected
  · have hok := h.current.appsPage_ok
    rcases perform_appsPage gtk app input with hpage | ⟨-, hpage | ⟨key, hpage⟩⟩
    · exact hpage ▸ h.rows.update hok gtk hcharted
    · exact hpage ▸ h.rows
    · exact hpage ▸ h.rows.toggle hok key

theorem Ready.step (h : Ready gtk app) {input : Input}
    (hplain : ∀ op, input.op? = some op → op.Plain) : Ready gtk (App.step gtk app input) := by
  unfold App.step
  split
  · exact h.performed hplain
  · exact h

/-- The handler of a row holds the executable of the current entry. -/
theorem Ready.exe_eq (h : Ready gtk app) {key : String} {l : Look Bool AppRow} {entry : AppEntry}
    (hl : app.appsPage.look key = some l) (hentry : app.state.apps.get? key = some entry) :
    l.face.exe = entry.exe := by
  obtain ⟨⟨name, hkey⟩, hplain⟩ := h.rows key l hl
  obtain ⟨⟨name', hkey'⟩, hplain'⟩ := h.charted.filed hentry
  exact ClientState.exe_of_appKey hplain hplain' (hkey.symm.trans hkey')

/-- Only a running application goes on running. -/
theorem running_of_step {input : Input} (h : (App.step gtk app input).running = true) :
    app.running = true ∧ App.step gtk app input = perform gtk app input := by
  unfold App.step at h ⊢
  by_cases hrunning : app.running = true
  · exact ⟨hrunning, if_pos hrunning⟩
  · rw [if_neg hrunning] at h
    exact absurd h hrunning

/-- What goes into the channel. -/
theorem Ready.drop_sent (h : Ready gtk app) (input : Input) :
    (App.step gtk app input).sent.drop app.sent.length =
      if app.running then command app input else [] := by
  unfold App.step
  split
  · rw [h.current.sent, List.drop_left]
  · exact List.drop_length

/-- An input sends one command or none. -/
theorem length_command_le (app : App) (input : Input) : (command app input).length ≤ 1 := by
  cases input with
  | flip key =>
    show (((app.appsPage.look key).map AppsPage.flip).getD []).length ≤ 1
    cases app.appsPage.look key with
    | none => exact Nat.zero_le _
    | some l => exact AppsPage.length_flip_le l
  | msg m => cases m <;> simp [command]
  | _ => simp [command]

/-- Only a flip blocks. -/
theorem block_mem_command {input : Input} {name : String} {exe : PathBuf}
    (h : .block name exe ∈ command app input) :
    ∃ key l, input = .flip key ∧ app.appsPage.look key = some l ∧
      .block name exe ∈ AppsPage.flip l := by
  cases input with
  | flip key =>
    change _ ∈ ((app.appsPage.look key).map AppsPage.flip).getD [] at h
    cases hl : app.appsPage.look key with
    | none =>
      rw [hl] at h
      cases h
    | some l =>
      rw [hl] at h
      exact ⟨key, l, rfl, hl, h⟩
  | msg m => cases m <;> simp [command] at h
  | _ => simp [command] at h

/-- The events of the daemon arrive. -/
def receive (gtk : Gtk) (app : App) (events : List Event) : App :=
  events.foldl (fun app e => App.step gtk app (.msg (.client (.event e)))) app

theorem Ready.receive (h : Ready gtk app) {events : List Event}
    (hplain : ∀ e ∈ events, Op.Plain (.event e)) : Ready gtk (app.receive gtk events) := by
  refine List.foldlRecOn events _ h fun app happ e he => happ.step fun op hop => ?_
  cases hop
  exact hplain e he

/-- A running application folds them. -/
theorem receive_of_running (hrunning : app.running = true) (events : List Event) :
    (app.receive gtk events).state = app.state.replay events ∧
      (app.receive gtk events).running = true := by
  induction events generalizing app with
  | nil => exact ⟨rfl, hrunning⟩
  | cons e es ih =>
    have hone : App.step gtk app (.msg (.client (.event e))) =
        perform gtk app (.msg (.client (.event e))) := if_pos hrunning
    show ((App.step gtk app _).receive gtk es).state = _ ∧
      ((App.step gtk app _).receive gtk es).running = true
    rw [hone]
    exact ih hrunning

theorem running_of_receive {events : List Event} (h : (app.receive gtk events).running = true) :
    app.running = true := by
  induction events generalizing app with
  | nil => exact h
  | cons e es ih => exact (running_of_step (ih h)).1

end App

end TravelMode
