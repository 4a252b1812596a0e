import TravelMode.Gui.Sections
import TravelMode.Gui.Client

/-!
# The Applications page (`gui/src/pages/applications.rs`)

One row per app with its traffic and a switch: ON means that the app may use the network.
The page is refreshed from the client's state after every change, and a refresh moves the
switch itself; the switch's handler tells that from a flip by the user by the row's `updating`
cell.

- `refreshRow`, `createRow` and `design`: the page as a `Page` with the sections Allowed
  (`false`) and Blocked (`true`).
- `toggle`: the user flips a switch.
- `run_rows`: a row is made from the entry that its key had when it last came, and otherwise
  shows the current one; `renders` for the whole page after an update.
- `apps_ranked`: the order of the rows is a function of the entries alone.
- `flip`: what a flip sends, by what the row shows. Nothing else sends a command (`run_sent`).
-/

namespace TravelMode

/-- The numbers of a row's subtitle. -/
structure Traffic where
  speedUp : Nat
  speedDown : Nat
  bytesSent : Nat
  bytesRecv : Nat
deriving DecidableEq

/-- What a row shows, and what its switch's handler holds. -/
structure AppRow where
  title : String
  /-- The name and the executable that the handler was made with. -/
  name : String
  exe : Option PathBuf
  subtitle : Traffic
  dimmed : Bool
  /-- Current Block rule id, shared with the switch handler. -/
  ruleId : Option Nat
  /-- Guards against reacting to our own `set_active` calls. -/
  updating : Bool
  active : Bool
  sensitive : Bool
deriving DecidableEq

namespace AppRow

/-- The handler of the switch. -/
def stateSet (row : AppRow) (active : Bool) : List GuiCmd :=
  if row.updating then []
  else if active then
    match row.ruleId with
    | some id => [.unblock id]
    | none => []
  else
    match row.exe with
    | some exe => [.block row.name exe]
    | none => []

/-- `set_active`: a switch that changes its position calls its handler. -/
def setActive (row : AppRow) (active : Bool) : AppRow × List GuiCmd :=
  if row.active = active then (row, []) else ({ row with active := active }, row.stateSet active)

end AppRow

namespace AppsPage

/-- `refresh_row`. -/
def refreshRow (row : AppRow) (app : AppEntry) : AppRow × List GuiCmd :=
  let row :=
    { row with
      subtitle := ⟨app.speedUp, app.speedDown, app.bytesSent, app.bytesRecv⟩
      dimmed := app.blocked
      ruleId := app.blockRuleId
      updating := true }
  let set := row.setActive (!app.blocked)
  ({ set.1 with sensitive := app.exe.isSome, updating := false }, set.2)

/-- `create_row`; a new switch is off, and sensitive. -/
def createRow (app : AppEntry) : AppRow where
  title := app.name
  name := app.name
  exe := app.exe
  subtitle := ⟨0, 0, 0, 0⟩
  dimmed := false
  ruleId := app.blockRuleId
  updating := false
  active := false
  sensitive := true

/-- The page's part of the update loop. -/
def design : Design Bool AppEntry AppRow GuiCmd where
  all := [false, true]
  home app := app.blocked
  place _ app := app.blocked
  key app := ⟨app.bytesRecv, app.bytesSent, app.name⟩
  rekey app key := { key with primary := app.bytesRecv, secondary := app.bytesSent }
  make app := refreshRow (createRow app) app
  refresh := refreshRow

/-- `AppsPage::new`: the Blocked section is hidden. -/
def new : Page Bool AppRow := .new fun blocked => !blocked

/-- `update`, with what the switches send. -/
def update (gtk : Gtk) (page : Page Bool AppRow) (s : ClientState) :
    Page Bool AppRow × List GuiCmd := page.update gtk design s.apps

/-- The user flips the switch of an app's row. -/
def toggle (page : Page Bool AppRow) (key : String) : Page Bool AppRow × List GuiCmd :=
  match page.rows.get? key with
  | none => (page, [])
  | some row =>
    if row.face.sensitive then
      let set := row.face.setActive (!row.face.active)
      (page.repaint key set.1 id, set.2)
    else (page, [])

/-! ## A refresh is quiet -/

/-- A refreshed row. -/
theorem refreshRow_eq (row : AppRow) (app : AppEntry) :
    refreshRow row app =
      ({ row with
          subtitle := ⟨app.speedUp, app.speedDown, app.bytesSent, app.bytesRecv⟩
          dimmed := app.blocked
          ruleId := app.blockRuleId
          updating := false
          active := !app.blocked
          sensitive := app.exe.isSome }, []) := by
  unfold refreshRow AppRow.setActive AppRow.stateSet
  by_cases h : row.active = !app.blocked
  · simp [h]
  · simp [h]

/-- **A refresh sends nothing**, wherever it moves the switches. -/
theorem update_silent (gtk : Gtk) (page : Page Bool AppRow) (s : ClientState) :
    (update gtk page s).2 = [] := by
  refine Page.update_silent (fun app => ?_) (fun row app => ?_) gtk page s.apps
  · exact congrArg Prod.snd (refreshRow_eq (createRow app) app)
  · exact congrArg Prod.snd (refreshRow_eq row app)

/-! ## Rows over time -/

/-- A row that was made from the entry `first` and shows the entry `last`. -/
def shown (first last : AppEntry) : Look Bool AppRow where
  home := last.blocked
  sortKey := ⟨last.bytesRecv, last.bytesSent, first.name⟩
  face :=
    { title := first.name
      name := first.name
      exe := first.exe
      subtitle := ⟨last.speedUp, last.speedDown, last.bytesSent, last.bytesRecv⟩
      dimmed := last.blocked
      ruleId := last.blockRuleId
      updating := false
      active := !last.blocked
      sensitive := last.exe.isSome }

/-- The row with its switch where the state has it. -/
def unflipped (l : Look Bool AppRow) : Look Bool AppRow :=
  { l with face := { l.face with active := !l.home } }

theorem made_eq (app : AppEntry) : Page.made design app = shown app app := by
  unfold Page.made design
  dsimp only
  rw [refreshRow_eq]
  rfl

theorem refreshed_shown (first last app : AppEntry) :
    Page.refreshed design (shown first last) app = shown first app := by
  unfold Page.refreshed design
  dsimp only
  rw [refreshRow_eq]
  rfl

/-- A refresh puts the switch back. -/
theorem refreshed_unflipped (l : Look Bool AppRow) (app : AppEntry) :
    Page.refreshed design (unflipped l) app = Page.refreshed design l app := by
  unfold Page.refreshed design unflipped
  dsimp only
  rw [refreshRow_eq, refreshRow_eq]

theorem unflipped_made (app : AppEntry) :
    unflipped (Page.made design app) = Page.made design app := by
  rw [made_eq]
  rfl

theorem unflipped_refreshed (l : Look Bool AppRow) (app : AppEntry) :
    unflipped (Page.refreshed design l app) = Page.refreshed design l app := by
  unfold Page.refreshed design unflipped
  dsimp only
  rw [refreshRow_eq]

/-- What the entries of a lifetime make of a row. -/
theorem grown_eq (apps : List AppEntry) :
    KeyedView.grown (Page.made design) (Page.refreshed design) apps =
      apps.head?.bind fun first => apps.getLast?.map fun last => shown first last :=
  KeyedView.grown_eq_shown shown made_eq refreshed_shown apps

/-! ## Runs -/

/-- What happens to the page. -/
inductive Op where
  | update (s : ClientState)
  | toggle (key : String)

/-- The states of the updates. -/
def Op.state? : Op → Option ClientState
  | .update s => some s
  | .toggle _ => none

/-- One operation; the commands go to the end of the channel. -/
def perform (gtk : Gtk) (acc : Page Bool AppRow × List GuiCmd) (op : Op) :
    Page Bool AppRow × List GuiCmd :=
  let done := match op with
    | .update s => update gtk acc.1 s
    | .toggle key => toggle acc.1 key
  (done.1, acc.2 ++ done.2)

/-- The page and the channel after some operations. -/
def run (gtk : Gtk) (ops : List Op) : Page Bool AppRow × List GuiCmd :=
  ops.foldl (perform gtk) (new, [])

/-- What the key of an app has had in the states of the updates, since it last came. -/
def lifetime (ops : List Op) (key : String) : List AppEntry :=
  KeyedView.lifetime ((ops.filterMap Op.state?).map fun s => s.apps.get? key)

theorem run_snoc (gtk : Gtk) (ops : List Op) (op : Op) :
    run gtk (ops ++ [op]) = perform gtk (run gtk ops) op := List.foldl_concat ..

/-- An update is one more moment in the life of every key. -/
theorem lifetime_update (ops : List Op) (s : ClientState) (key : String) :
    lifetime (ops ++ [.update s]) key = KeyedView.extend (lifetime ops key) (s.apps.get? key) := by
  unfold lifetime
  rw [List.filterMap_append, List.map_append]
  exact KeyedView.lifetime_concat _ _

theorem getLast?_lifetime_update (ops : List Op) (s : ClientState) (key : String) :
    (lifetime (ops ++ [.update s]) key).getLast? = s.apps.get? key := by
  unfold lifetime
  rw [List.filterMap_append, List.map_append]
  exact KeyedView.getLast?_lifetime_concat _ _

/-- The entry that an app's row was made from. -/
theorem exists_head?_lifetime (ops : List Op) {s : ClientState} {key : String} {app : AppEntry}
    (h : s.apps.get? key = some app) :
    ∃ first, (lifetime (ops ++ [.update s]) key).head? = some first := by
  rw [lifetime_update, h]
  exact KeyedView.exists_head?_extend _ app

theorem lifetime_toggle (ops : List Op) (key j : String) :
    lifetime (ops ++ [.toggle key]) j = lifetime ops j := by
  have hnone : [Op.toggle key].filterMap Op.state? = [] := rfl
  unfold lifetime
  rw [List.filterMap_append, hnone, List.append_nil]

/-- What a flip of the switch sends, by what the row shows. -/
def flip (l : Look Bool AppRow) : List GuiCmd :=
  if l.face.sensitive then l.face.stateSet (!l.face.active) else []

/-- What a flip of the switch changes. -/
def flipped (l : Look Bool AppRow) : Look Bool AppRow :=
  if l.face.sensitive then { l with face := { l.face with active := !l.face.active } } else l

theorem unflipped_flipped (l : Look Bool AppRow) : unflipped (flipped l) = unflipped l := by
  unfold flipped
  by_cases h : l.face.sensitive = true
  · rw [if_pos h]
    rfl
  · rw [if_neg h]

/-- A switch that is flipped calls its handler. -/
theorem setActive_not (row : AppRow) :
    row.setActive (!row.active) =
      ({ row with active := !row.active }, row.stateSet (!row.active)) := by
  refine if_neg ?_
  simp

theorem toggle_of_sensitive {page : Page Bool AppRow} {key : String} {row : Row Bool AppRow}
    (hrow : page.rows.get? key = some row) (h : row.face.sensitive = true) :
    toggle page key = (page.repaint key { row.face with active := !row.face.active } id,
      row.face.stateSet (!row.face.active)) := by
  unfold toggle
  rw [hrow]
  dsimp only
  rw [if_pos h, setActive_not]

theorem toggle_of_insensitive {page : Page Bool AppRow} {key : String} {row : Row Bool AppRow}
    (hrow : page.rows.get? key = some row) (h : row.face.sensitive ≠ true) :
    toggle page key = (page, []) := by
  unfold toggle
  rw [hrow]
  dsimp only
  rw [if_neg h]

/-- A flip moves one switch, and sends what its row says. -/
theorem toggle_spec {page : Page Bool AppRow} (h : page.Ok) (key : String) :
    (toggle page key).1.Ok ∧
      (∀ j, (toggle page key).1.look j =
        if j = key then (page.look j).map flipped else page.look j) ∧
      (toggle page key).2 = ((page.look key).map flip).getD [] := by
  cases hrow : page.rows.get? key with
  | none =>
    have hsame : toggle page key = (page, []) := by
      unfold toggle
      rw [hrow]
    have hlook := Page.look_of_none hrow
    rw [hsame, hlook]
    refine ⟨h, fun j => ?_, rfl⟩
    by_cases hj : j = key
    · rw [if_pos hj, hj, hlook]
      rfl
    · rw [if_neg hj]
  | some row =>
    obtain ⟨sortKey, -, hlook⟩ := h.look hrow
    by_cases hsensitive : row.face.sensitive = true
    · obtain ⟨hok, hlook'⟩ := Page.repaint_spec h hrow
        { row.face with active := !row.face.active } id
      rw [toggle_of_sensitive hrow hsensitive]
      refine ⟨hok, fun j => (hlook' j).trans ?_, ?_⟩
      · by_cases hj : j = key
        · rw [if_pos hj, if_pos hj, hj, hlook]
          exact congrArg some (if_pos hsensitive).symm
        · rw [if_neg hj, if_neg hj]
      · rw [hlook]
        exact (if_pos hsensitive).symm
    · rw [toggle_of_insensitive hrow hsensitive]
      refine ⟨h, fun j => ?_, ?_⟩
      · by_cases hj : j = key
        · rw [if_pos hj, hj, hlook]
          exact congrArg some (if_neg hsensitive).symm
        · rw [if_neg hj]
      · rw [hlook]
        exact (if_neg hsensitive).symm

/-- **Rows over time**: but for its switch, a row is what the entries of its key since it last
came make of it, whatever flips came between the updates. -/
theorem run_rows (gtk : Gtk) (ops : List Op) :
    (run gtk ops).1.Ok ∧ ∀ key, ((run gtk ops).1.look key).map unflipped =
      KeyedView.grown (Page.made design) (Page.refreshed design) (lifetime ops key) := by
  induction ops using List.reverseRecOn with
  | nil => exact ⟨Page.ok_new _, fun key => rfl⟩
  | append_singleton ops op ih =>
    obtain ⟨hok, hrows⟩ := ih
    rw [run_snoc]
    cases op with
    | update s =>
      obtain ⟨hok', hlook⟩ := Page.update_spec hok gtk design s.apps
      refine ⟨hok', fun key => ?_⟩
      show (((run gtk ops).1.update gtk design s.apps).1.look key).map unflipped = _
      rw [hlook key, lifetime_update]
      cases hitem : s.apps.get? key with
      | none => rfl
      | some app =>
        show _ = KeyedView.grown _ _ (lifetime ops key ++ [app])
        rw [KeyedView.grown_concat, ← hrows key]
        cases (run gtk ops).1.look key with
        | none =>
          exact congrArg some (unflipped_made app)
        | some l =>
          show some (unflipped (Page.refreshed design l app)) =
            some (Page.refreshed design (unflipped l) app)
          rw [unflipped_refreshed, refreshed_unflipped]
    | toggle key =>
      obtain ⟨hok', hlook, -⟩ := toggle_spec hok key
      refine ⟨hok', fun j => ?_⟩
      show ((toggle (run gtk ops).1 key).1.look j).map unflipped = _
      rw [hlook j, lifetime_toggle, ← hrows j]
      by_cases hj : j = key
      · rw [if_pos hj, Option.map_map]
        exact congrArg (fun f => Option.map f _) (funext unflipped_flipped)
      · rw [if_neg hj]

/-- The row of a key whose entries since it last came are known. -/
theorem run_look (gtk : Gtk) {ops : List Op} {key : String} {l : Look Bool AppRow}
    (h : (run gtk ops).1.look key = some l) :
    ∃ first last, (lifetime ops key).head? = some first ∧
      (lifetime ops key).getLast? = some last ∧ unflipped l = shown first last := by
  have hrow := (run_rows gtk ops).2 key
  rw [h, grown_eq] at hrow
  obtain ⟨first, hfirst, hrow⟩ := Option.bind_eq_some_iff.mp hrow.symm
  obtain ⟨last, hlast, hrow⟩ := Option.map_eq_some_iff.mp hrow
  exact ⟨first, last, hfirst, hlast, hrow.symm⟩

/-- After an update the switches are where the state has them. -/
theorem update_look (gtk : Gtk) (ops : List Op) (s : ClientState) (key : String) :
    (run gtk (ops ++ [.update s])).1.look key = (s.apps.get? key).bind fun app =>
      (lifetime (ops ++ [.update s]) key).head?.map fun first => shown first app := by
  have hlook := (Page.update_spec (run_rows gtk ops).1 gtk design s.apps).2 key
  have hrun : (run gtk (ops ++ [.update s])).1 =
      ((run gtk ops).1.update gtk design s.apps).1 := by
    rw [run_snoc]
    rfl
  cases hitem : s.apps.get? key with
  | none =>
    rw [hrun, hlook, hitem]
    rfl
  | some app =>
    have hquiet : ∃ l, (run gtk (ops ++ [.update s])).1.look key = some l ∧ unflipped l = l := by
      rw [hrun, hlook, hitem]
      cases (run gtk ops).1.look key with
      | none => exact ⟨_, rfl, unflipped_made app⟩
      | some l => exact ⟨_, rfl, unflipped_refreshed l app⟩
    obtain ⟨l, hl, hunflipped⟩ := hquiet
    obtain ⟨first, last, hfirst, hlast, hshown⟩ := run_look gtk hl
    -- the current entry is the last one
    rw [lifetime_update, hitem, KeyedView.extend, List.getLast?_concat] at hlast
    cases hlast
    rw [hl, ← hunflipped, hshown, Option.bind_some, hfirst]
    rfl

/-- However often it is flipped, a switch moves its row nowhere. -/
theorem flips_place (n : Nat) (l : Look Bool AppRow) :
    (flipped^[n] l).home = l.home ∧ (flipped^[n] l).sortKey = l.sortKey := by
  induction n generalizing l with
  | zero => exact ⟨rfl, rfl⟩
  | succ n ih =>
    obtain ⟨hhome, hsortKey⟩ := ih (flipped l)
    rw [Function.iterate_succ_apply, hhome, hsortKey, flipped]
    split <;> exact ⟨rfl, rfl⟩

/-- Flips move no row to another place. -/
theorem toggle_settled {page : Page Bool AppRow} (h : page.Ok) (hsettled : page.Settled)
    (key : String) : (toggle page key).1.Settled := by
  cases hrow : page.rows.get? key with
  | none =>
    have hsame : toggle page key = (page, []) := by
      unfold toggle
      rw [hrow]
    rw [hsame]
    exact hsettled
  | some row =>
    by_cases hsensitive : row.face.sensitive = true
    · rw [toggle_of_sensitive hrow hsensitive]
      exact h.settled_repaint hsettled hrow _
    · rw [toggle_of_insensitive hrow hsensitive]
      exact hsettled

/-- What flips after a run leave of it. -/
theorem run_flips (gtk : Gtk) (ops : List Op) (flips : List String) :
    ((run gtk ops).1.Settled → (run gtk (ops ++ flips.map .toggle)).1.Settled) ∧
      ∀ key, (run gtk (ops ++ flips.map .toggle)).1.look key =
        ((run gtk ops).1.look key).map flipped^[flips.count key] := by
  induction flips using List.reverseRecOn with
  | nil =>
    rw [List.map_nil, List.append_nil]
    exact ⟨id, fun key => Option.map_id'.symm⟩
  | append_singleton flips key ih =>
    have hok := (run_rows gtk (ops ++ flips.map .toggle)).1
    have hrun : (run gtk (ops ++ (flips ++ [key]).map .toggle)).1 =
        (toggle (run gtk (ops ++ flips.map .toggle)).1 key).1 := by
      rw [List.map_append, ← List.append_assoc, List.map_singleton, run_snoc]
      rfl
    rw [hrun]
    refine ⟨fun hsettled => toggle_settled hok (ih.1 hsettled) key, fun j => ?_⟩
    rw [(toggle_spec hok key).2.1 j, ih.2 j, List.count_append, List.count_singleton]
    by_cases hj : j = key
    · rw [if_pos hj, Option.map_map, hj, if_pos (by simp), Function.iterate_succ']
    · rw [if_neg hj, if_neg (by simpa using Ne.symm hj)]
      rfl

/-- **The page renders the state**: whatever updates and flips came before, after an update and
any flips of switches since, the rows are those of the state's apps, each in the section that
its flag says and as its entry says, but for its title and its switch's target, which are those of
the entry that the row was made from, and for the flips; and sections are sorted, visible if they
have rows, or else the label is. -/
theorem renders (gtk : Gtk) (ops : List Op) (s : ClientState) (flips : List String) :
    let page := (run gtk (ops ++ (.update s :: flips.map .toggle))).1
    page.Settled ∧
      (∀ blocked, (page.displayed blocked).Nodup ∧ ∀ key, key ∈ page.displayed blocked ↔
        ∃ app, s.apps.get? key = some app ∧ app.blocked = blocked) ∧
      ∀ key, page.look key = (s.apps.get? key).bind fun app =>
        (lifetime (ops ++ [.update s]) key).head?.map fun first =>
          flipped^[flips.count key] (shown first app) := by
  intro page
  obtain ⟨hsettled, hlook⟩ := run_flips gtk (ops ++ [.update s]) flips
  have hpage : page = (run gtk (ops ++ [.update s] ++ flips.map .toggle)).1 := by
    show (run gtk _).1 = _
    rw [List.append_assoc]
    rfl
  have hrows : ∀ key, page.look key = (s.apps.get? key).bind fun app =>
      (lifetime (ops ++ [.update s]) key).head?.map fun first =>
        flipped^[flips.count key] (shown first app) := by
    intro key
    rw [hpage, hlook, update_look, Option.map_bind]
    refine congrArg (Option.bind _) (funext fun app => ?_)
    exact Option.map_map ..
  have hok : page.Ok := (run_rows gtk _).1
  refine ⟨?_, fun blocked => ⟨hok.nodup_displayed blocked, fun key => ?_⟩, hrows⟩
  · rw [hpage]
    refine hsettled ?_
    have hrun : (run gtk (ops ++ [.update s])).1 =
        ((run gtk ops).1.update gtk design s.apps).1 := by
      rw [run_snoc]
      rfl
    rw [hrun]
    refine (run_rows gtk ops).1.update_settled gtk (fun blocked => ?_) s.apps
    cases blocked <;> decide
  · rw [hok.mem_displayed, hrows]
    constructor
    · rintro ⟨l, hl, rfl⟩
      obtain ⟨app, happ, hl⟩ := Option.bind_eq_some_iff.mp hl
      obtain ⟨first, -, rfl⟩ := Option.map_eq_some_iff.mp hl
      exact ⟨app, happ, (flips_place _ (shown first app)).1.symm⟩
    · rintro ⟨app, happ, rfl⟩
      obtain ⟨first, hfirst⟩ := exists_head?_lifetime ops happ
      refine ⟨flipped^[flips.count key] (shown first app), ?_, (flips_place _ _).1⟩
      rw [happ, Option.bind_some, hfirst]
      rfl

/-- **One order**: pages on which every app has had the same moments since it last came show
them in the same order, whatever switches were flipped, in whatever order the collections were
visited and whatever toolkit sorts. -/
theorem apps_ranked (gtk gtk' : Gtk) {ops ops' : List Op} {s s' : ClientState}
    (hsame : ∀ key, lifetime (ops ++ [.update s]) key = lifetime (ops' ++ [.update s']) key)
    (flips flips' : List String) (blocked : Bool) :
    (run gtk (ops ++ (.update s :: flips.map .toggle))).1.ranking blocked =
      (run gtk' (ops' ++ (.update s' :: flips'.map .toggle))).1.ranking blocked := by
  obtain ⟨hsettled, -, hlook⟩ := renders gtk ops s flips
  obtain ⟨hsettled', -, hlook'⟩ := renders gtk' ops' s' flips'
  have hnow : ∀ key, s.apps.get? key = s'.apps.get? key := by
    intro key
    rw [← getLast?_lifetime_update ops s, hsame key, getLast?_lifetime_update]
  refine (run_rows gtk _).1.ranking_determined (run_rows gtk' _).1 hsettled hsettled'
    (fun key => ?_) blocked
  rw [hlook, hlook', hnow, hsame, Option.map_bind, Option.map_bind]
  refine congrArg (Option.bind _) (funext fun app => ?_)
  simp only [Function.comp_apply, Option.map_map]
  refine congrArg (fun f => Option.map f _) (funext fun first => ?_)
  simp only [Function.comp_apply, flips_place]

/-- A state with the apps, inserted in this order. -/
def listing (apps : List AppEntry) : ClientState :=
  { ClientState.default with
    apps := apps.foldl (fun m app => m.insert (appKey app.exe app.name) app) .empty }

/-- The collections are not visited in the same order, and a switch was flipped on one page. -/
theorem apps_ranked_curl :
    let curl : AppEntry := { name := "curl", exe := some (.ofString "/usr/bin/curl") }
    let ssh : AppEntry := { name := "ssh", exe := some (.ofString "/usr/bin/ssh") }
    (listing [curl, ssh]).apps.keys ≠ (listing [ssh, curl]).apps.keys ∧
      ∀ blocked,
        (run .plain ([] ++ (.update (listing [curl, ssh]) ::
            [appKey curl.exe curl.name].map .toggle))).1.ranking blocked =
          (run .plain ([.update .default] ++ (.update (listing [ssh, curl]) ::
            [].map .toggle))).1.ranking blocked := by
  intro curl ssh
  have hvisited : (listing [curl, ssh]).apps.keys ≠ (listing [ssh, curl]).apps.keys := by
    decide +kernel
  refine ⟨hvisited, apps_ranked .plain .plain (fun key => ?_) [appKey curl.exe curl.name] []⟩
  have hsame : (listing [curl, ssh]).apps.get? key = (listing [ssh, curl]).apps.get? key := by
    simp only [listing, List.foldl_cons, List.foldl_nil, KeyedMap.get?_insert]
    by_cases hkey : key = appKey curl.exe curl.name
    · subst hkey
      rfl
    · simp only [if_neg hkey]
  rw [lifetime_update, lifetime_update, hsame]
  rfl

/-! ## What is sent -/

/-- What a flip can send. -/
theorem flip_cases {l : Look Bool AppRow} {first last : AppEntry}
    (hshown : unflipped l = shown first last) {cmd : GuiCmd} (h : cmd ∈ flip l) :
    last.exe.isSome = true ∧
      ((∃ exe, first.exe = some exe ∧ cmd = .block first.name exe) ∨
        ∃ id, last.blockRuleId = some id ∧ cmd = .unblock id) := by
  have hface := congrArg (fun l : Look Bool AppRow => l.face) hshown
  have hsensitive : l.face.sensitive = last.exe.isSome := congrArg AppRow.sensitive hface
  have hruleId : l.face.ruleId = last.blockRuleId := congrArg AppRow.ruleId hface
  have hexe : l.face.exe = first.exe := congrArg AppRow.exe hface
  have hname : l.face.name = first.name := congrArg AppRow.name hface
  have hupdating : l.face.updating = false := congrArg AppRow.updating hface
  unfold flip at h
  by_cases hs : l.face.sensitive = true
  · rw [if_pos hs] at h
    refine ⟨hsensitive ▸ hs, ?_⟩
    unfold AppRow.stateSet at h
    rw [hupdating, hruleId, hexe, hname] at h
    cases hactive : !l.face.active with
    | true =>
      rw [hactive] at h
      cases hid : last.blockRuleId with
      | none => simp [hid] at h
      | some id => exact .inr ⟨id, rfl, by simpa [hid] using h⟩
    | false =>
      rw [hactive] at h
      cases hexe' : first.exe with
      | none => simp [hexe'] at h
      | some exe => exact .inl ⟨exe, rfl, by simpa [hexe'] using h⟩
  · rw [if_neg hs] at h
    cases h

/-- A flip sends at most one command. -/
theorem length_flip_le (l : Look Bool AppRow) : (flip l).length ≤ 1 := by
  unfold flip AppRow.stateSet
  cases l.face.sensitive <;> cases l.face.updating <;> cases l.face.active <;>
    cases l.face.ruleId <;> cases l.face.exe <;> simp

/-- A command that a flip sent, of an app that then had an executable: it blocks the executable
that the row was made with, or removes the rule that the current entry names. -/
def SentByFlip (ops : List Op) (cmd : GuiCmd) : Prop :=
  ∃ pre key post first last, ops = pre ++ .toggle key :: post ∧
    (lifetime pre key).head? = some first ∧ (lifetime pre key).getLast? = some last ∧
    last.exe.isSome = true ∧
    ((∃ exe, first.exe = some exe ∧ cmd = .block first.name exe) ∨
      ∃ id, last.blockRuleId = some id ∧ cmd = .unblock id)

theorem SentByFlip.snoc {ops : List Op} {cmd : GuiCmd} (h : SentByFlip ops cmd) (op : Op) :
    SentByFlip (ops ++ [op]) cmd := by
  obtain ⟨pre, key, post, first, last, rfl, hrest⟩ := h
  exact ⟨pre, key, post ++ [op], first, last, by simp, hrest⟩

/-- **Nothing but flips sends commands**: whatever updates and flips happen to the page, each
command in the channel was sent by a flip, and at most one by each. -/
theorem run_sent (gtk : Gtk) (ops : List Op) :
    (run gtk ops).2.length + (ops.filterMap Op.state?).length ≤ ops.length ∧
      ∀ cmd ∈ (run gtk ops).2, SentByFlip ops cmd := by
  induction ops using List.reverseRecOn with
  | nil => exact ⟨Nat.le_refl _, fun cmd h => nomatch h⟩
  | append_singleton ops op ih =>
    obtain ⟨hcount, hsent⟩ := ih
    have hold := fun cmd hcmd => (hsent cmd hcmd).snoc op
    rw [run_snoc, List.filterMap_append, List.length_append, List.length_append]
    cases op with
    | update s =>
      have hnone : (perform gtk (run gtk ops) (.update s)).2 = (run gtk ops).2 := by
        show _ ++ (update gtk (run gtk ops).1 s).2 = _
        rw [update_silent, List.append_nil]
      rw [hnone]
      exact ⟨Nat.succ_le_succ hcount, hold⟩
    | toggle key =>
      obtain ⟨-, -, hflip⟩ := toggle_spec (run_rows gtk ops).1 key
      have hmore : (perform gtk (run gtk ops) (.toggle key)).2 =
          (run gtk ops).2 ++ (((run gtk ops).1.look key).map flip).getD [] :=
        congrArg _ hflip
      rw [hmore, List.length_append]
      cases hlook : (run gtk ops).1.look key with
      | none =>
        refine ⟨Nat.le_succ_of_le hcount, fun cmd hcmd => hold cmd ?_⟩
        simpa using hcmd
      | some l =>
        have hone := length_flip_le l
        refine ⟨?_, fun cmd hcmd => ?_⟩
        · show (run gtk ops).2.length + (flip l).length + ((ops.filterMap _).length + 0) ≤ _
          simp only [List.length_singleton]
          omega
        · rcases List.mem_append.mp hcmd with hcmd | hcmd
          · exact hold cmd hcmd
          · obtain ⟨first, last, hfirst, hlast, hshown⟩ := run_look gtk hlook
            exact ⟨ops, key, [], first, last, rfl, hfirst, hlast, flip_cases hshown hcmd⟩

end AppsPage

end TravelMode
