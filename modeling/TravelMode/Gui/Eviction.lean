import TravelMode.Gui.State

/-!
# The eviction queue (`gui/src/state.rs`)

The client keeps at most `MAX_CONNECTIONS` flows. `conn_order` is the queue of their keys:
the front is evicted first.

- `Queued`: the queue holds the keys of the map, each once, and flows are filed under
  their keys.
- `enforceConnCap_capped`: of a queued map, the cap keeps the last flows of the queue.
- `upsertConn_capped`, `removeConn_queued`: what an event makes of queue and map.
-/

namespace TravelMode

namespace ClientState

/-- The queue holds exactly the keys of the map, each once. -/
structure Queued (conns : KeyedMap String ConnectionInfo) (connOrder : List String) : Prop where
  nodup : connOrder.Nodup
  mem_iff : ∀ key, key ∈ connOrder ↔ (conns.get? key).isSome = true
  filed : ∀ key conn, conns.get? key = some conn → conn.key = key

variable {conns : KeyedMap String ConnectionInfo} {connOrder : List String}

theorem Queued.size (h : Queued conns connOrder) : conns.size = connOrder.length :=
  KeyedMap.size_eq_length h.nodup h.mem_iff

theorem queued_empty : Queued .empty [] where
  nodup := List.nodup_nil
  mem_iff _ := iff_of_false List.not_mem_nil Bool.false_ne_true
  filed _ _ h := nomatch h

theorem Queued.erase {oldest : String} (h : Queued conns (oldest :: connOrder)) :
    Queued (conns.erase oldest) connOrder where
  nodup := (List.nodup_cons.mp h.nodup).2
  mem_iff key := by
    rw [KeyedMap.get?_erase]
    by_cases hkey : key = oldest
    · rw [if_pos hkey, hkey]
      exact iff_of_false (List.nodup_cons.mp h.nodup).1 Bool.false_ne_true
    · rw [if_neg hkey, ← h.mem_iff key, List.mem_cons, or_iff_right hkey]
  filed key conn hget := by
    rw [KeyedMap.get?_erase] at hget
    split at hget
    · cases hget
    · exact h.filed key conn hget

/-- What the cap makes of a queued map: the front of the queue is dropped down to the cap,
and the map keeps the flows still queued. -/
structure Capped (conns : KeyedMap String ConnectionInfo) (connOrder : List String)
    (kept : KeyedMap String ConnectionInfo × List String) : Prop where
  order : kept.2 = connOrder.drop (connOrder.length - maxConnections)
  queued : Queued kept.1 kept.2
  get? : ∀ key conn, kept.1.get? key = some conn ↔ key ∈ kept.2 ∧ conns.get? key = some conn

/-- A flow in the map is queued. -/
theorem Queued.get?_iff (h : Queued conns connOrder) (key : String) (conn : ConnectionInfo) :
    conns.get? key = some conn ↔ key ∈ connOrder ∧ conns.get? key = some conn := by
  refine ⟨fun hget => ⟨?_, hget⟩, And.right⟩
  rw [h.mem_iff, hget]
  rfl

/-- **The cap**: `enforce_conn_cap` keeps the last flows of the queue. -/
theorem enforceConnCap_capped (h : Queued conns connOrder) :
    Capped conns connOrder (enforceConnCap conns connOrder) := by
  induction connOrder generalizing conns with
  | nil => exact ⟨rfl, h, h.get?_iff⟩
  | cons oldest connOrder ih =>
    have hsize := h.size
    rw [List.length_cons] at hsize
    rw [enforceConnCap]
    by_cases hover : conns.size > maxConnections
    · obtain ⟨hdrop, hqueued, hget⟩ := ih h.erase
      have hlen : (oldest :: connOrder).length - maxConnections =
          connOrder.length - maxConnections + 1 := by
        rw [List.length_cons]
        omega
      rw [if_pos hover]
      refine ⟨by rw [hdrop, hlen, List.drop_succ_cons], hqueued, fun key conn => ?_⟩
      rw [hget key conn]
      refine and_congr_right fun hkey => ?_
      -- what is still queued is not the one that was evicted
      have hne : key ≠ oldest := by
        rintro rfl
        rw [hdrop] at hkey
        exact (List.nodup_cons.mp h.nodup).1 (List.mem_of_mem_drop hkey)
      rw [KeyedMap.get?_erase_of_ne hne]
    · have hlen : (oldest :: connOrder).length - maxConnections = 0 := by
        rw [List.length_cons]
        omega
      rw [if_neg hover]
      exact ⟨by rw [hlen, List.drop_zero], h, h.get?_iff⟩

/-- The cap evicts nothing from a map within it. -/
theorem enforceConnCap_of_le {conns : KeyedMap String ConnectionInfo}
    (h : conns.size ≤ maxConnections) (connOrder : List String) :
    enforceConnCap conns connOrder = (conns, connOrder) := by
  cases connOrder with
  | nil => rfl
  | cons oldest rest =>
    rw [enforceConnCap, if_neg (Nat.not_lt.mpr h)]

/-! ## Events -/

/-- The queue after a flow is reported, before the cap is enforced. -/
def reportedOrder (s : ClientState) (conn : ConnectionInfo) : List String :=
  if (s.conns.get? conn.key).isSome then s.connOrder else s.connOrder ++ [conn.key]

theorem Queued.insert {s : ClientState} (h : Queued s.conns s.connOrder) (conn : ConnectionInfo) :
    Queued (s.conns.insert conn.key conn) (s.reportedOrder conn) where
  nodup := by
    unfold reportedOrder
    split
    · exact h.nodup
    · -- a key that is queued is one of the map, and this flow is not in it
      rename_i hnew
      rw [List.nodup_append]
      refine ⟨h.nodup, List.nodup_singleton _, fun a ha b hb hab => hnew ?_⟩
      rw [← List.mem_singleton.mp hb, ← hab]
      exact (h.mem_iff a).mp ha
  mem_iff key := by
    rw [KeyedMap.get?_insert]
    unfold reportedOrder
    by_cases hkey : key = conn.key
    · rw [if_pos hkey, hkey]
      refine iff_of_true ?_ rfl
      split
      · rename_i hold
        exact (h.mem_iff _).mpr hold
      · exact List.mem_append_right _ (List.mem_singleton.mpr rfl)
    · rw [if_neg hkey, ← h.mem_iff key]
      split
      · rfl
      · rw [List.mem_append, List.mem_singleton, or_iff_left hkey]
  filed key c hget := by
    rw [KeyedMap.get?_insert] at hget
    split at hget
    · rename_i hkey
      rw [hkey, ← Option.some.inj hget]
    · exact h.filed key c hget

/-- **A report**: the flow is queued, if it is not, and the oldest ones over the cap go. -/
theorem upsertConn_capped {s : ClientState} (h : Queued s.conns s.connOrder)
    (conn : ConnectionInfo) (isOpen : Bool) :
    Capped (s.conns.insert conn.key conn) (s.reportedOrder conn)
      ((s.upsertConn conn isOpen).conns, (s.upsertConn conn isOpen).connOrder) :=
  enforceConnCap_capped (h.insert conn)

theorem removeConn_queued {s : ClientState} (h : Queued s.conns s.connOrder) (key : String) :
    Queued (s.removeConn key).conns (s.removeConn key).connOrder := by
  cases hconn : s.conns.get? key with
  | none =>
    simp only [removeConn, hconn]
    exact h
  | some conn =>
    simp only [removeConn, hconn]
    refine ⟨h.nodup.filter _, fun k => ?_, fun k c hget => ?_⟩
    · rw [KeyedMap.get?_erase, List.mem_filter, h.mem_iff, bne_iff_ne]
      by_cases hk : k = key
      · rw [if_pos hk]
        exact iff_of_false (fun hand => hand.2 hk) Bool.false_ne_true
      · rw [if_neg hk, and_iff_left hk]
    · rw [KeyedMap.get?_erase] at hget
      split at hget
      · cases hget
      · exact h.filed k c hget

theorem applyEvent_queued {s : ClientState} (h : Queued s.conns s.connOrder) (e : Event) :
    Queued (s.applyEvent e).conns (s.applyEvent e).connOrder := by
  cases e with
  | connectionOpened conn => exact (upsertConn_capped h conn true).queued
  | connectionUpdated conn => exact (upsertConn_capped h conn false).queued
  | connectionClosed key => exact removeConn_queued h key
  | _ => exact h

/-- New flows, one after the other: the queue holds the last of them. -/
theorem replay_opened_order {opened : List ConnectionInfo}
    (hnodup : (opened.map ConnectionInfo.key).Nodup) :
    let s := default.replay (opened.map .connectionOpened)
    Queued s.conns s.connOrder ∧
      s.connOrder = (opened.map ConnectionInfo.key).drop (opened.length - maxConnections) := by
  induction opened using List.reverseRecOn with
  | nil => exact ⟨queued_empty, rfl⟩
  | append_singleton opened conn ih =>
    rw [List.map_append, List.map_singleton, List.nodup_append] at hnodup
    obtain ⟨hnodup, -, hnew⟩ := hnodup
    obtain ⟨hqueued, horder⟩ := ih hnodup
    have hreplay : default.replay ((opened ++ [conn]).map .connectionOpened) =
        (default.replay (opened.map .connectionOpened)).upsertConn conn true := by
      rw [replay, List.map_append, List.foldl_append]
      rfl
    have hcapped := upsertConn_capped hqueued conn true
    rw [hreplay]
    refine ⟨hcapped.queued, ?_⟩
    -- the queue holds keys of the flows before, and this key is none of them
    have hfresh : ¬((default.replay (opened.map .connectionOpened)).conns.get?
        conn.key).isSome = true := by
      rw [← hqueued.mem_iff, horder]
      intro hmem
      exact hnew _ (List.mem_of_mem_drop hmem) _ (List.mem_singleton.mpr rfl) rfl
    have hkeep : opened.length - maxConnections ≤ (opened.map ConnectionInfo.key).length := by
      rw [List.length_map]
      exact Nat.sub_le _ _
    have hcount : opened.length - maxConnections +
        (opened.length + 1 - (opened.length - maxConnections) - maxConnections) =
          opened.length + 1 - maxConnections := by omega
    refine hcapped.order.trans ?_
    rw [reportedOrder, if_neg hfresh, horder, List.map_append, List.map_singleton,
      ← List.drop_append_of_le_length hkeep, List.drop_drop, List.length_drop, List.length_append,
      List.length_append, List.length_map, List.length_singleton, List.length_singleton, hcount]

end ClientState

end TravelMode
