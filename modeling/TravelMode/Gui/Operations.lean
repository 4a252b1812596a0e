import TravelMode.Gui.Snapshot

/-!
# Sequences of operations on the client's state

The client folds whatever arrives, in the order of arrival: snapshots, events and the ticks
of its clock. `operate` is a whole sequence of them.

- `operate_invariant`: what one operation preserves, a sequence preserves.
- `reachable_operate`: the results are states of the UI.
-/

namespace TravelMode

/-- The public operations on `ClientState`. -/
inductive Op where
  | snapshot (S : Snapshot)
  | event (e : Event)
  | tick

namespace ClientState

/-- One operation. -/
def perform (s : ClientState) : Op → ClientState
  | .snapshot S => s.load S
  | .event e => s.applyEvent e
  | .tick => s.tick

/-- The operations, in order. -/
def operate (s : ClientState) (ops : List Op) : ClientState := ops.foldl perform s

@[simp] theorem operate_nil (s : ClientState) : s.operate [] = s := rfl

theorem operate_append (s : ClientState) (ops more : List Op) :
    s.operate (ops ++ more) = (s.operate ops).operate more := List.foldl_append

theorem operate_snoc (s : ClientState) (ops : List Op) (op : Op) :
    s.operate (ops ++ [op]) = (s.operate ops).perform op := operate_append s ops [op]

/-- **Invariant rule**: what every operation of the sequence preserves, the sequence does. -/
theorem operate_invariant {I : ClientState → Prop} {s : ClientState} {ops : List Op} (h0 : I s)
    (hstep : ∀ op ∈ ops, ∀ s, I s → I (s.perform op)) : I (s.operate ops) :=
  List.foldlRecOn ops perform h0 fun s hs op hop => hstep op hop s hs

/-- Operations lead to states of the UI. -/
theorem reachable_operate {s : ClientState} (h : s.Reachable) (ops : List Op) :
    (s.operate ops).Reachable := by
  refine operate_invariant h fun op _ s hs => ?_
  cases op with
  | snapshot S => exact hs.snapshot S.status S.network S.top S.conns S.rules
  | event e => exact hs.event e
  | tick => exact hs.tick

/-! ## Many flows -/

/-- A flow of a daemon with many of them. -/
def flow (i : Nat) : ConnectionInfo where
  key := String.ofList (List.replicate i 'k')
  protocol := .tcp
  localAddr := .v4 ⟨192, 168, 1, 10⟩
  localPort := UInt16.ofNat (40000 + i)
  remoteAddr := .v4 ⟨93, 184, 216, 34⟩
  remotePort := 443
  bytesSent := 0
  bytesRecv := 0
  pid := none
  processName := none
  exe := none
  started := .epoch
  lastSeen := .epoch

/-- The fetch from a daemon that tracks `n` flows. -/
def crowd (n : Nat) : Snapshot where
  status := ⟨"1", 0, false, true, 0, n, 0⟩
  network := ⟨[], none, [], none, none, none⟩
  top := []
  conns := (List.range n).map flow
  rules := []

theorem flow_key_injective : Function.Injective fun i => (flow i).key := by
  intro i j h
  have hlist : List.replicate i 'k' = List.replicate j 'k' := String.ofList_injective h
  rw [← List.length_replicate (n := i), hlist, List.length_replicate]

theorem length_crowd (n : Nat) : ((crowd n).conns.map ConnectionInfo.key).length = n := by
  unfold crowd
  rw [List.length_map, List.length_map, List.length_range]

theorem crowd_nodup (n : Nat) : ((crowd n).conns.map ConnectionInfo.key).Nodup := by
  unfold crowd
  rw [List.map_map]
  exact List.nodup_range.map flow_key_injective

end ClientState

end TravelMode
