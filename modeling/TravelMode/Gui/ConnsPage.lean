import TravelMode.Gui.Sections
import TravelMode.Core.IpText

/-!
# The Connections page (`gui/src/pages/connections.rs`)

One row per tracked flow, in the section of its protocol. A row's title, address and section
are set when it is made and never again; a refresh moves its counters only.

- `design`, `update` and `run`: the page as a `Page` with a section per protocol.
- `renders`: after an update, a row shows the current counters of its flow beside the title,
  the address and the section that the flow had when its key last came.
- `flows_ranked`: the order of the rows is a function of the flows alone.
-/

namespace TravelMode

/-- What a row shows. -/
structure ConnRow where
  title : String
  subtitle : String
  /-- Bytes sent and received. -/
  stats : Nat × Nat
deriving DecidableEq

/-- The lower-case name of a protocol. -/
def Protocol.lower : Protocol → String
  | .tcp => "tcp"
  | .udp => "udp"
  | .other => "other"

namespace ConnsPage

/-- The bytes of a flow, both ways. -/
def total (conn : ConnectionInfo) : Nat := conn.bytesSent + conn.bytesRecv

/-- The process a row is titled with. -/
def process (conn : ConnectionInfo) : String := conn.processName.getD "unknown"

/-- The title of a new row. -/
def title (conn : ConnectionInfo) : String := process conn ++ " · " ++ conn.protocol.lower

/-- The remote end of a new row. -/
def subtitle (conn : ConnectionInfo) : String :=
  String.ofList (conn.remoteAddr.text ++ ':' :: Nat.toDigits 10 conn.remotePort.toNat)

/-- The name a new row is sorted by. -/
def sortName (conn : ConnectionInfo) : String :=
  process conn ++ String.ofList conn.remoteAddr.text

/-- The page's part of the update loop: no row ever moves, and none sends anything. -/
def design : Design Protocol ConnectionInfo ConnRow Empty where
  all := [.tcp, .udp, .other]
  home conn := conn.protocol
  place proto _ := proto
  key conn := ⟨total conn, 0, sortName conn⟩
  rekey conn key := { key with primary := total conn }
  make conn := (⟨title conn, subtitle conn, (conn.bytesSent, conn.bytesRecv)⟩, [])
  refresh row conn := ({ row with stats := (conn.bytesSent, conn.bytesRecv) }, [])

/-- `ConnsPage::new`: only the TCP section is visible. -/
def new : Page Protocol ConnRow := .new fun proto => decide (proto = .tcp)

/-- `update`. -/
def update (gtk : Gtk) (page : Page Protocol ConnRow) (s : ClientState) : Page Protocol ConnRow :=
  (page.update gtk design s.conns).1

/-- The page after updates from some states. -/
def run (gtk : Gtk) (states : List ClientState) : Page Protocol ConnRow :=
  states.foldl (update gtk) new

/-- What the key of a flow has had in the states, since it last came. -/
def lifetime (states : List ClientState) (key : String) : List ConnectionInfo :=
  KeyedView.lifetime (states.map fun s => s.conns.get? key)

/-- A row that was made from the flow `first` and shows the flow `last`. -/
def shown (first last : ConnectionInfo) : Look Protocol ConnRow where
  home := first.protocol
  sortKey := ⟨total last, 0, sortName first⟩
  face := ⟨title first, subtitle first, (last.bytesSent, last.bytesRecv)⟩

/-- What the flows of a lifetime make of a row. -/
theorem grown_eq (conns : List ConnectionInfo) :
    KeyedView.grown (Page.made design) (Page.refreshed design) conns =
      conns.head?.bind fun first => conns.getLast?.map fun last => shown first last :=
  KeyedView.grown_eq_shown shown (fun _ => rfl) (fun _ _ _ => rfl) conns

/-- A row is what the flows of its key since it last came make of it. -/
theorem run_rows (gtk : Gtk) (states : List ClientState) :
    (run gtk states).Ok ∧ ∀ key, (run gtk states).look key =
      KeyedView.grown (Page.made design) (Page.refreshed design) (lifetime states key) := by
  have hstep : (run gtk states).Ok ∧ ∀ key, (run gtk states).look key =
      (states.map fun s => s.conns.get? key).foldl
        (KeyedView.follow (Page.made design) (Page.refreshed design)) none := by
    induction states using List.reverseRecOn with
    | nil => exact ⟨Page.ok_new _, fun key => rfl⟩
    | append_singleton states s ih =>
      obtain ⟨hok, hrows⟩ := ih
      have hrun : run gtk (states ++ [s]) = update gtk (run gtk states) s := List.foldl_concat ..
      obtain ⟨hok', hlook⟩ := Page.update_spec hok gtk design s.conns
      rw [hrun]
      refine ⟨hok', fun key => (hlook key).trans ?_⟩
      rw [hrows key, List.map_append, List.foldl_append]
      rfl
  refine ⟨hstep.1, fun key => (hstep.2 key).trans ?_⟩
  exact KeyedView.foldl_follow _ _ _

/-- An update is one more moment in the life of every key. -/
theorem lifetime_concat (states : List ClientState) (s : ClientState) (key : String) :
    lifetime (states ++ [s]) key = KeyedView.extend (lifetime states key) (s.conns.get? key) := by
  rw [lifetime, List.map_append]
  exact KeyedView.lifetime_concat _ _

/-- The flow that a flow's row was made from. -/
theorem exists_head?_lifetime (states : List ClientState) {s : ClientState} {key : String}
    {conn : ConnectionInfo} (h : s.conns.get? key = some conn) :
    ∃ first, (lifetime (states ++ [s]) key).head? = some first := by
  rw [lifetime_concat, h]
  exact KeyedView.exists_head?_extend _ conn

/-- **The page renders the state**: after an update, whatever updates came before, the rows are
those of the state's flows, with their current counters, sorted by them; title, address and
section are those that the flow had when its key last came. -/
theorem renders (gtk : Gtk) (states : List ClientState) (s : ClientState) :
    let page := run gtk (states ++ [s])
    page.Settled ∧ (∀ proto, (page.displayed proto).Nodup) ∧
      ∀ key, page.look key = (s.conns.get? key).bind fun conn =>
        (lifetime (states ++ [s]) key).head?.map fun first => shown first conn := by
  intro page
  obtain ⟨hok, hrows⟩ := run_rows gtk (states ++ [s])
  have hrun : page = update gtk (run gtk states) s := List.foldl_concat ..
  refine ⟨?_, hok.nodup_displayed, fun key => (hrows key).trans ?_⟩
  · rw [hrun]
    refine (run_rows gtk states).1.update_settled gtk (fun proto => ?_) s.conns
    cases proto <;> decide
  · have hlife : (lifetime (states ++ [s]) key).getLast? = s.conns.get? key := by
      rw [lifetime, List.map_append]
      exact KeyedView.getLast?_lifetime_concat _ _
    rw [grown_eq, hlife]
    cases s.conns.get? key with
    | none => cases (lifetime (states ++ [s]) key).head? <;> rfl
    | some conn => cases (lifetime (states ++ [s]) key).head? <;> rfl

/-- **One order**: pages on which every flow has had the same moments since it last came show
them in the same order, in whatever order the collections were visited and whatever toolkit
sorts. -/
theorem flows_ranked (gtk gtk' : Gtk) {states states' : List ClientState} {s s' : ClientState}
    (hsame : ∀ key, lifetime (states ++ [s]) key = lifetime (states' ++ [s']) key)
    (proto : Protocol) :
    (run gtk (states ++ [s])).ranking proto = (run gtk' (states' ++ [s'])).ranking proto := by
  obtain ⟨hok, hrows⟩ := run_rows gtk (states ++ [s])
  obtain ⟨hok', hrows'⟩ := run_rows gtk' (states' ++ [s'])
  have hsettled := (renders gtk states s).1
  have hsettled' := (renders gtk' states' s').1
  refine hok.ranking_determined hok' hsettled hsettled' (fun key => ?_) proto
  rw [hrows, hrows', hsame]

/-- A flow of curl. -/
def curlFlow (key : String) (sent : Nat) : ConnectionInfo where
  key := key
  protocol := .tcp
  localAddr := .v4 ⟨10, 0, 0, 2⟩
  localPort := 50000
  remoteAddr := .v4 ⟨1, 1, 1, 1⟩
  remotePort := 443
  bytesSent := sent
  bytesRecv := 0
  pid := none
  processName := some "curl"
  exe := none
  started := .epoch
  lastSeen := .epoch

/-- A state with the flows, inserted in this order. -/
def tracking (conns : List ConnectionInfo) : ClientState :=
  { ClientState.default with conns := conns.foldl (fun m c => m.insert c.key c) .empty }

/-- The collections are not visited in the same order, and the page is the same. -/
theorem flows_ranked_curl :
    let first := curlFlow "a" 10
    let second := curlFlow "b" 20
    (tracking [first, second]).conns.keys ≠ (tracking [second, first]).conns.keys ∧
      ∀ proto, (run .plain ([] ++ [tracking [first, second]])).ranking proto =
        (run .plain ([.default] ++ [tracking [second, first]])).ranking proto := by
  intro first second
  refine ⟨by decide +kernel, flows_ranked .plain .plain fun key => ?_⟩
  have hsame : (tracking [first, second]).conns.get? key =
      (tracking [second, first]).conns.get? key := by
    simp only [tracking, List.foldl_cons, List.foldl_nil, KeyedMap.get?_insert]
    by_cases hkey : key = "a"
    · subst hkey
      rfl
    · simp only [first, second, curlFlow, if_neg hkey]
  rw [lifetime_concat, lifetime_concat, hsame]
  rfl

end ConnsPage

end TravelMode
