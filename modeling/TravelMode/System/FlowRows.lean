import TravelMode.Daemon.FlowNames
import TravelMode.System.KillScope
import TravelMode.System.LastWord
import TravelMode.System.LightSwitch

/-!
# Flows and their rows

A row of the Connections page keeps the section and the address that its flow had when its key
came, for as long as the key stays. A key stays over reconnects, and a flow may have closed and
another one opened in the meantime; but the key is made from the protocol and the addresses.

- `Reads`: the daemon's polls read tables, and sessions start with what the daemon has. Nothing
  is asked of the other clients, of the order of anything, or of what fails.
- `flows_shown`: every flow of the state is in the section of its own protocol, with its own
  address and counters, and no other flow is.
-/

namespace TravelMode

namespace FlowRows

open LightSwitch

/-! ## Named flows in the client -/

/-- The flows of the client are queued, and named after their tuples. -/
structure ClientNamed (s : ClientState) : Prop where
  queued : ClientState.Queued s.conns s.connOrder
  named : AllNamed s.conns

theorem clientNamed_default : ClientNamed .default where
  queued := ClientState.queued_empty
  named _ _ h := nomatch h

theorem ClientNamed.event {s : ClientState} (h : ClientNamed s) {e : Event} (he : e.Named) :
    ClientNamed (s.applyEvent e) where
  queued := ClientState.applyEvent_queued h.queued e
  named key c hget := by
    have hsub := LastWord.applyEvent_conns_sub h.queued hget
    rw [get?_replayConn] at hsub
    split at hsub
    · exact he c hsub
    · exact h.named key c hsub

theorem ClientNamed.load (s : ClientState) {S : Snapshot}
    (hnodup : (S.conns.map ConnectionInfo.key).Nodup) (hnamed : ∀ c ∈ S.conns, c.Named) :
    ClientNamed (s.load S) where
  queued := ClientState.load_queued hnodup
  named key c hget := by
    rw [ClientState.load_conns hnodup] at hget
    exact hnamed c (List.mem_of_find?_eq_some hget)

/-! ## Rows -/

/-- The row shows protocol and address of the tuple that its key names. -/
def RowNamed (key : String) (l : Look Protocol ConnRow) : Prop :=
  ∃ c : ConnectionInfo, c.Named ∧ c.key = key ∧ l.home = c.protocol ∧
    l.face.subtitle = ConnsPage.subtitle c

/-- Then these are those of every flow with the key. -/
theorem RowNamed.eq {key : String} {l : Look Protocol ConnRow} (h : RowNamed key l)
    {c : ConnectionInfo} (hc : c.Named) (hkey : c.key = key) :
    l.home = c.protocol ∧ l.face.subtitle = ConnsPage.subtitle c := by
  obtain ⟨c', hc', hkey', hhome, hsubtitle⟩ := h
  have htuple : c'.tuple = c.tuple := FlowKeys.key_inj (by rw [← hc'.1, ← hc.1, hkey', hkey])
  have haddr : c'.remoteAddr = c.remoteAddr := congrArg FlowTuple.remoteAddr htuple
  have hport : c'.remotePort = c.remotePort := congrArg FlowTuple.remotePort htuple
  refine ⟨hhome.trans (congrArg FlowTuple.protocol htuple), ?_⟩
  rw [hsubtitle, ConnsPage.subtitle, ConnsPage.subtitle, haddr, hport]

/-- All rows of the page do. -/
def PageNamed (page : Page Protocol ConnRow) : Prop :=
  ∀ key l, page.look key = some l → RowNamed key l

/-- A new row is made from a named flow, and a refresh leaves section and address alone. -/
theorem PageNamed.update {page : Page Protocol ConnRow} (h : PageNamed page) (hok : page.Ok)
    (gtk : Gtk) {s : ClientState} (hs : ClientNamed s) :
    PageNamed (ConnsPage.update gtk page s) := by
  intro key l hl
  have hlook := (Page.update_spec hok gtk ConnsPage.design s.conns).2 key
  change (ConnsPage.update gtk page s).look key = _ at hlook
  rw [hl] at hlook
  obtain ⟨c, hc, hl⟩ := Option.map_eq_some_iff.mp hlook.symm
  cases hold : page.look key with
  | none =>
    rw [hold] at hl
    subst hl
    exact ⟨c, hs.named key c hc, hs.queued.filed key c hc, rfl, rfl⟩
  | some old =>
    rw [hold] at hl
    subst hl
    exact h key old hold

/-! ## The loop -/

/-- Polls read tables, and a session starts with what the daemon has. -/
def Reads (w : World) : Action → Prop
  | .task t => t.FromTable
  | .connect S => ∃ env, Overlap.TakenFrom w.daemon env S
  | _ => True

/-- What every action keeps. -/
structure Inv (gtk : Gtk) (w : World) : Prop where
  daemon : w.daemon.Mapped
  current : w.app.Current gtk
  client : ClientNamed w.app.state
  page : PageNamed w.app.connsPage

variable {gtk : Gtk} {w w' : World}

theorem inv_start {d : DaemonState} (hd : d.Mapped) (dark : Bool) : Inv gtk (start d dark) where
  daemon := hd
  current := App.current_init gtk dark
  client := clientNamed_default
  page _ _ h := nomatch h

/-- An input leaves the page named if it does the state. -/
theorem pageNamed_perform {app : App} {input : App.Input} (hcurrent : app.Current gtk)
    (hpage : PageNamed app.connsPage) (hclient : ClientNamed (App.perform gtk app input).state) :
    PageNamed (App.perform gtk app input).connsPage := by
  rcases App.perform_connsPage gtk app input with hupdate | ⟨-, hsame⟩
  · rw [hupdate]
    exact hpage.update hcurrent.connsPage_ok gtk hclient
  · exact hsame ▸ hpage

/-- An input of which the client's flows stay named. -/
theorem Inv.step (h : Inv gtk w) {input : App.Input} (linked : Bool)
    (hclient : ClientNamed (App.perform gtk w.app input).state) :
    Inv gtk { w with app := App.step gtk w.app input, linked := linked } := by
  by_cases hrunning : w.app.running = true
  · have hperform : App.step gtk w.app input = App.perform gtk w.app input := if_pos hrunning
    rw [hperform]
    exact ⟨h.daemon, h.current.performed input, hclient,
      pageNamed_perform h.current h.page hclient⟩
  · have hsame : App.step gtk w.app input = w.app := if_neg hrunning
    rw [hsame]
    exact ⟨h.daemon, h.current, h.client, h.page⟩

/-- The events of a task arrive. -/
theorem Inv.receive (h : Inv gtk w) {events : List Event} (hnamed : ∀ e ∈ events, e.Named) :
    Inv gtk { w with app := w.app.receive gtk events } := by
  induction events generalizing w with
  | nil => exact h
  | cons e es ih =>
    have hone : ClientNamed (App.perform gtk w.app (.msg (.client (.event e)))).state :=
      h.client.event (hnamed e List.mem_cons_self)
    exact ih (h.step w.linked hone) fun e' he' => hnamed e' (List.mem_cons_of_mem _ he')

theorem Inv.task (h : Inv gtk w) {t : Task} (ht : t.FromTable) {d : DaemonState}
    {events : List Event} (hperform : w.daemon.perform t = some (d, events)) :
    Inv gtk ({ w with daemon := d }.publish gtk events) := by
  obtain ⟨hnamed, hevents⟩ := DaemonState.perform_named h.daemon.named ht hperform
  have hd : d.Mapped := ⟨(DaemonState.perform_view h.daemon.ok hperform).2, hnamed⟩
  have hdone : Inv gtk { w with daemon := d } := ⟨hd, h.current, h.client, h.page⟩
  unfold World.publish
  split
  · exact hdone.receive hevents
  · exact hdone

theorem inv_step {a : Action} (h : Inv gtk w) (hreads : Reads w a)
    (hstep : LightSwitch.step gtk w a = some w') : Inv gtk w' := by
  refine step_rule (fun {v input} hop hv => hv.step v.linked ?_)
    (fun {v t d events} ht hperform hv => hv.task ?_ hperform) ?_ ?_ h hstep
  · rcases App.perform_state gtk v.app input with hs | ⟨op, hinput, hs⟩ | hs
    · exact hs ▸ hv.client
    · rw [hop op hinput] at hs
      exact hs ▸ ⟨hv.client.queued, hv.client.named⟩
    · exact hs ▸ ⟨hv.client.queued, hv.client.named⟩
  · rcases ht with rfl | ⟨env, req, rfl⟩
    · exact hreads
    · trivial
  · rintro S rfl
    obtain ⟨env, hS⟩ := hreads
    refine h.step true (.load _ (h.daemon.ok.filed.nodup_keys hS.conns) fun c hc => ?_)
    obtain ⟨key, hkey⟩ := KeyedMap.mem_vals_iff.mp (hS.conns.mem_iff.mp hc)
    exact h.daemon.named key c hkey
  · exact h.step false ⟨h.client.queued, h.client.named⟩

/-- **Flows under their own protocol**: after any run, once anything was rendered, the section
of a protocol has exactly the flows of that protocol, and the row of a flow shows the flow's own
address and counters. -/
theorem flows_shown {d : DaemonState} {dark : Bool} {actions : List Action} (hd : d.Mapped)
    (hrun : Runs.run (LightSwitch.step gtk) (start d dark) actions = some w)
    (hreads : Runs.AlongRun (LightSwitch.step gtk) Reads (start d dark) actions)
    (hstate : w.app.state ≠ .default) :
    (∀ proto key, key ∈ w.app.connsPage.displayed proto ↔
        ∃ c, w.app.state.conns.get? key = some c ∧ c.protocol = proto) ∧
      ∀ key c, w.app.state.conns.get? key = some c →
        ∃ l, w.app.connsPage.look key = some l ∧ l.face.subtitle = ConnsPage.subtitle c ∧
          l.face.stats = (c.bytesSent, c.bytesRecv) := by
  have h : Inv gtk w := Runs.run_invariant_along inv_step (inv_start hd dark) hrun hreads
  obtain ⟨seen, hrendered⟩ := h.current.rendered.2.resolve_right hstate
  -- the row of a flow is named after the flow
  have hrow : ∀ key c, w.app.state.conns.get? key = some c →
      ∃ l, w.app.connsPage.look key = some l ∧ l.home = c.protocol ∧
        l.face.subtitle = ConnsPage.subtitle c ∧ l.face.stats = (c.bytesSent, c.bytesRecv) := by
    intro key c hc
    obtain ⟨first, hlook⟩ := hrendered.connRow hc
    obtain ⟨hhome, hsubtitle⟩ := (h.page key _ hlook).eq (h.client.named key c hc)
      (h.client.queued.filed key c hc)
    exact ⟨_, hlook, hhome, hsubtitle, rfl⟩
  refine ⟨fun proto key => ?_, fun key c hc => ?_⟩
  · rw [h.current.connsPage_ok.mem_displayed]
    constructor
    · rintro ⟨l, hl, rfl⟩
      obtain ⟨c, hc, -⟩ := Option.bind_eq_some_iff.mp ((hrendered.connRows key).symm.trans hl)
      obtain ⟨l', hl', hhome, -⟩ := hrow key c hc
      cases hl.symm.trans hl'
      exact ⟨c, hc, hhome.symm⟩
    · rintro ⟨c, hc, rfl⟩
      obtain ⟨l, hl, hhome, -⟩ := hrow key c hc
      exact ⟨l, hl, hhome⟩
  · obtain ⟨l, hl, -, hshown⟩ := hrow key c hc
    exact ⟨l, hl, hshown⟩

/-- A session starts, then curl's flow is found. -/
def curlActions : List Action :=
  .connect (Overlap.snapshotOf (.new .firstStart) .epoch) :: KillScope.curlTasks.map .task

theorem curlActions_read :
    Runs.AlongRun (LightSwitch.step .plain) Reads (start (.new .firstStart) false)
      curlActions := by
  refine Runs.alongRun_cons.mpr ⟨⟨.epoch, Overlap.takenFrom_snapshotOf _ .epoch⟩, fun m hm => ?_⟩
  refine Runs.alongRun_of_forall fun a ha _ => ?_
  obtain ⟨t, ht, rfl⟩ := List.mem_map.mp ha
  exact KillScope.curlTasks_fromTable t ht

/-- The flow of curl is shown as TCP. -/
theorem flows_shown_curl : ∃ w key c,
    Runs.run (LightSwitch.step .plain) (start (.new .firstStart) false) curlActions = some w ∧
      w.app.state.conns.get? key = some c ∧ c.exe = some (.ofString "/usr/bin/curl") ∧
      key ∈ w.app.connsPage.displayed .tcp := by
  have hall : (Runs.run (LightSwitch.step .plain) (start (.new .firstStart) false)
      curlActions).map (fun w => (w.app.state.connected,
        w.app.state.conns.vals.map fun c => (c.protocol, c.exe))) =
      some (true, [(.tcp, some (.ofString "/usr/bin/curl"))]) := by
    decide +kernel
  obtain ⟨w, hrun, hw⟩ := Option.map_eq_some_iff.mp hall
  obtain ⟨honline, hflows⟩ := Prod.mk.inj hw
  obtain ⟨c, hc, hflow⟩ := List.mem_map.mp (hflows ▸ List.mem_singleton_self _)
  obtain ⟨hproto, hexe⟩ := Prod.mk.inj hflow
  obtain ⟨key, hkey⟩ := KeyedMap.mem_vals_iff.mp hc
  have hstate : w.app.state ≠ .default := by
    intro hdefault
    rw [hdefault] at honline
    cases honline
  obtain ⟨hsections, -⟩ := flows_shown (DaemonState.mapped_new KillScope.inv_firstStart) hrun
    curlActions_read hstate
  exact ⟨w, key, c, hrun, hkey, hexe, (hsections .tcp key).mpr ⟨c, hkey, hproto⟩⟩

end FlowRows

end TravelMode
