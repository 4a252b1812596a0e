import Mathlib.Data.List.Dedup
import TravelMode.Gui.Operations

/-!
# Eviction is by age

`conn_order` is maintained by every operation on flows, apart from the map. What it is meant
to be is said of the operations alone: `insertions` lists the keys inserted since the last
snapshot, and a key that was removed and came back counts from when it came back.

- `Aged`: the queue has the keys of the map, each once, in the order of their insertion.
- `aged_operate`: it does after any operations, when the flows of a snapshot have distinct
  keys.
- `evicts_oldest`: so a report evicts the keys that were inserted first, down to the cap,
  and never the one it inserts.
-/

namespace TravelMode

namespace ClientState

/-! ## Insertions -/

/-- A report inserts the key of a flow that is not stored. -/
def logReport (s : ClientState) (log : List String) (conn : ConnectionInfo) : List String :=
  if (s.conns.get? conn.key).isSome then log else log ++ [conn.key]

/-- The keys inserted since the last snapshot, when `op` is next in state `s`. -/
def logInsertion (s : ClientState) (log : List String) : Op → List String
  | .snapshot S => S.conns.map ConnectionInfo.key
  | .event (.connectionOpened conn) => s.logReport log conn
  | .event (.connectionUpdated conn) => s.logReport log conn
  | _ => log

/-- The keys inserted since the last snapshot of a sequence, in order. -/
def insertions (ops : List Op) : List String :=
  (ops.foldl (fun (run : ClientState × List String) op =>
    (run.1.perform op, run.1.logInsertion run.2 op)) (default, [])).2

theorem insertions_snoc (ops : List Op) (op : Op) :
    insertions (ops ++ [op]) = (default.operate ops).logInsertion (insertions ops) op := by
  have hstate : ∀ ops : List Op, (ops.foldl (fun (run : ClientState × List String) op =>
      (run.1.perform op, run.1.logInsertion run.2 op)) (default, [])).1 = default.operate ops := by
    intro ops
    induction ops using List.reverseRecOn with
    | nil => rfl
    | append_singleton ops op ih => rw [List.foldl_append, operate_snoc, ← ih]; rfl
  rw [insertions, List.foldl_append, ← hstate]
  rfl

/-- `dedup` keeps the last occurrence of a key, so the log without repetitions has every key
where it was inserted last. -/
theorem dedup_snoc (log : List String) (key : String) :
    (log ++ [key]).dedup = (log.dedup.filter fun k => k ≠ key) ++ [key] := by
  induction log with
  | nil => rfl
  | cons k log ih =>
    rw [List.cons_append, List.dedup_cons, List.dedup_cons, ih]
    by_cases hin : k ∈ log
    · rw [if_pos (List.mem_append_left _ hin), if_pos hin]
    · by_cases hk : k = key
      · rw [if_pos (List.mem_append_right _ (List.mem_singleton.mpr hk)), if_neg hin, hk,
          List.filter_cons_of_neg (by simp)]
      · simp [hin, hk]

/-! ## The queue -/

/-- The queue has exactly the keys of the map, in the order in which they were inserted. -/
structure Aged (log : List String) (s : ClientState) : Prop where
  queued : Queued s.conns s.connOrder
  order : s.connOrder.Sublist log.dedup

theorem aged_default : Aged [] default := ⟨queued_empty, List.Sublist.refl _⟩

/-- A report queues its flow as the youngest, if it is new. -/
theorem Aged.reportedOrder {log : List String} {s : ClientState} (h : Aged log s)
    (conn : ConnectionInfo) :
    (s.reportedOrder conn).Sublist (s.logReport log conn).dedup := by
  unfold ClientState.reportedOrder logReport
  by_cases hold : (s.conns.get? conn.key).isSome = true
  · rw [if_pos hold, if_pos hold]
    exact h.order
  · have hnew : conn.key ∉ s.connOrder := fun hmem => hold ((h.queued.mem_iff _).mp hmem)
    have hkeep : s.connOrder.filter (fun k => k ≠ conn.key) = s.connOrder :=
      List.filter_eq_self.mpr fun k hk => decide_eq_true fun heq => hnew (heq ▸ hk)
    rw [if_neg hold, if_neg hold, dedup_snoc]
    refine List.Sublist.append ?_ (List.Sublist.refl _)
    rw [← hkeep]
    exact h.order.filter _

theorem Aged.upsertConn {log : List String} {s : ClientState} (h : Aged log s)
    (conn : ConnectionInfo) (isOpen : Bool) :
    Aged (s.logReport log conn) (s.upsertConn conn isOpen) := by
  have hcapped := upsertConn_capped h.queued conn isOpen
  refine ⟨hcapped.queued, ?_⟩
  have horder : (s.upsertConn conn isOpen).connOrder =
      (s.reportedOrder conn).drop ((s.reportedOrder conn).length - maxConnections) :=
    hcapped.order
  rw [horder]
  exact (List.drop_sublist _ _).trans (h.reportedOrder conn)

theorem Aged.removeConn {log : List String} {s : ClientState} (h : Aged log s) (key : String) :
    Aged log (s.removeConn key) := by
  refine ⟨removeConn_queued h.queued key, List.Sublist.trans ?_ h.order⟩
  cases hconn : s.conns.get? key with
  | none =>
    simp only [ClientState.removeConn, hconn]
    exact List.Sublist.refl _
  | some conn =>
    simp only [ClientState.removeConn, hconn]
    exact List.filter_sublist

/-- What an operation leaves of the queue is in order, younger keys behind older ones. -/
theorem Aged.perform {log : List String} {s : ClientState} {op : Op} (h : Aged log s)
    (hdistinct : ∀ S, op = .snapshot S → (S.conns.map ConnectionInfo.key).Nodup) :
    Aged (s.logInsertion log op) (s.perform op) := by
  cases op with
  | snapshot S =>
    have hnodup := hdistinct S rfl
    refine ⟨load_queued hnodup, ?_⟩
    show (s.load S).connOrder.Sublist (S.conns.map ConnectionInfo.key).dedup
    rw [load_connOrder, hnodup.dedup]
  | tick => exact ⟨h.queued, h.order⟩
  | event e =>
    cases e with
    | connectionOpened conn => exact h.upsertConn conn true
    | connectionUpdated conn => exact h.upsertConn conn false
    | connectionClosed key => exact h.removeConn key
    | _ => exact ⟨h.queued, h.order⟩

/-- **Every sequence** keeps the queue: the keys of the map, each once, by age. -/
theorem aged_operate {ops : List Op}
    (hdistinct : ∀ S, .snapshot S ∈ ops → (S.conns.map ConnectionInfo.key).Nodup) :
    Aged (insertions ops) (default.operate ops) := by
  induction ops using List.reverseRecOn with
  | nil => exact aged_default
  | append_singleton ops op ih =>
    rw [insertions_snoc, operate_snoc]
    refine (ih fun S hS => hdistinct S (List.mem_append_left _ hS)).perform fun S hS => ?_
    exact hdistinct S (List.mem_append_right _ (List.mem_singleton.mpr hS.symm))

/-! ## What a report evicts -/

/-- Of a queue without repetitions, the front is what is not behind it. -/
theorem mem_take_iff {connOrder : List String} (h : connOrder.Nodup) (n : Nat) (key : String) :
    key ∈ connOrder.take n ↔ key ∈ connOrder ∧ key ∉ connOrder.drop n := by
  have hsplit := h
  rw [← List.take_append_drop n connOrder, List.nodup_append] at hsplit
  constructor
  · intro hmem
    exact ⟨List.mem_of_mem_take hmem, fun hdrop => hsplit.2.2 key hmem key hdrop rfl⟩
  · rintro ⟨hmem, hdrop⟩
    rw [← List.take_append_drop n connOrder, List.mem_append] at hmem
    exact hmem.resolve_right hdrop

/-- The newest key of a queue is kept. -/
theorem Capped.getLast_kept {conns : KeyedMap String ConnectionInfo} {connOrder : List String}
    {kept : KeyedMap String ConnectionInfo × List String} {key : String}
    (h : Capped conns (connOrder ++ [key]) kept) : key ∈ kept.2 := by
  have hpos : 0 < maxConnections := by decide
  have hlen : (connOrder ++ [key]).length - maxConnections ≤ connOrder.length := by
    rw [List.length_append, List.length_singleton]
    omega
  rw [h.order, List.drop_append_of_le_length hlen]
  exact List.mem_append_right _ (List.mem_singleton.mpr rfl)

/-- What is left after a report: of the flows stored and the one reported, those with the
youngest keys, `MAX_CONNECTIONS` at most. -/
structure EvictsOldest (log : List String) (s : ClientState) (conn : ConnectionInfo)
    (s' : ClientState) : Prop where
  /-- The flows stored and the one reported, by age. -/
  byAge : (s.reportedOrder conn).Sublist log.dedup
  mem_iff : ∀ key, key ∈ s.reportedOrder conn ↔
    ((s.conns.insert conn.key conn).get? key).isSome = true
  /-- The evicted ones are the first of them, as many as there are too many. -/
  evicted : ∀ key, key ∈ (s.reportedOrder conn).take
      ((s.reportedOrder conn).length - maxConnections) ↔
    key ∈ s.reportedOrder conn ∧ s'.conns.get? key = none
  /-- The others are stored as they were, or as reported. -/
  kept : ∀ key c, s'.conns.get? key = some c → (s.conns.insert conn.key conn).get? key = some c
  size : s'.conns.size ≤ maxConnections
  /-- The flow that the report inserts is not evicted by it. -/
  inserted : s.conns.get? conn.key = none → s'.conns.get? conn.key = some conn

theorem Aged.evictsOldest {log : List String} {s : ClientState} (h : Aged log s)
    (conn : ConnectionInfo) (isOpen : Bool) :
    EvictsOldest (s.logReport log conn) s conn (s.upsertConn conn isOpen) := by
  have hbefore := h.queued.insert conn
  have hcapped := upsertConn_capped h.queued conn isOpen
  have hkeeps : ∀ key c, (s.upsertConn conn isOpen).conns.get? key = some c ↔
      key ∈ (s.upsertConn conn isOpen).connOrder ∧
        (s.conns.insert conn.key conn).get? key = some c := hcapped.get?
  have horder : (s.upsertConn conn isOpen).connOrder =
      (s.reportedOrder conn).drop ((s.reportedOrder conn).length - maxConnections) :=
    hcapped.order
  refine ⟨h.reportedOrder conn, hbefore.mem_iff, fun key => ?_,
    fun key c hget => ((hkeeps key c).mp hget).2, ?_, fun hnew => ?_⟩
  · rw [mem_take_iff hbefore.nodup, ← horder]
    refine and_congr_right fun hmem => ?_
    obtain ⟨c, hc⟩ := Option.isSome_iff_exists.mp ((hbefore.mem_iff key).mp hmem)
    rw [Option.eq_none_iff_forall_ne_some]
    constructor
    · intro hgone c' hc'
      exact hgone ((hkeeps key c').mp hc').1
    · intro hnone hkept
      exact hnone c ((hkeeps key c).mpr ⟨hkept, hc⟩)
  · have hsize : (s.upsertConn conn isOpen).conns.size =
        (s.upsertConn conn isOpen).connOrder.length := hcapped.queued.size
    rw [hsize, horder, List.length_drop]
    omega
  · refine (hkeeps conn.key conn).mpr ⟨?_, KeyedMap.get?_insert_self ..⟩
    have hlast : s.reportedOrder conn = s.connOrder ++ [conn.key] := by
      rw [ClientState.reportedOrder, hnew]
      rfl
    rw [hlast] at hcapped
    exact hcapped.getLast_kept

/-- **Eviction by age**: after any sequence in which the flows of a snapshot have distinct
keys, the queue has exactly the stored keys, each once, every flow is stored under its own
key, and a report evicts the keys inserted first. -/
theorem evicts_oldest {ops : List Op}
    (hdistinct : ∀ S, .snapshot S ∈ ops → (S.conns.map ConnectionInfo.key).Nodup) :
    let s := default.operate ops
    s.connOrder.Nodup ∧ (∀ key, key ∈ s.connOrder ↔ (s.conns.get? key).isSome = true) ∧
      (∀ key conn, s.conns.get? key = some conn → conn.key = key) ∧
      ∀ conn,
        EvictsOldest (insertions (ops ++ [.event (.connectionOpened conn)])) s conn
            (s.applyEvent (.connectionOpened conn)) ∧
          EvictsOldest (insertions (ops ++ [.event (.connectionUpdated conn)])) s conn
            (s.applyEvent (.connectionUpdated conn)) := by
  intro s
  have haged : Aged (insertions ops) s := aged_operate hdistinct
  refine ⟨haged.queued.nodup, haged.queued.mem_iff, haged.queued.filed, fun conn => ?_⟩
  rw [insertions_snoc, insertions_snoc]
  exact ⟨haged.evictsOldest conn true, haged.evictsOldest conn false⟩

/-- A flow that ends and comes back is the youngest. -/
theorem evicts_oldest_reopened :
    let ops : List Op := [.snapshot (crowd 3), .event (.connectionClosed (flow 0).key),
      .event (.connectionOpened (flow 0))]
    (default.operate ops).connOrder.Nodup ∧
      (default.operate ops).connOrder = [(flow 1).key, (flow 2).key, (flow 0).key] := by
  refine ⟨(evicts_oldest fun S hS => ?_).1, by decide⟩
  -- the one snapshot has flows of different lengths of key
  simp only [List.mem_cons, Op.snapshot.injEq, reduceCtorEq, List.not_mem_nil, or_false] at hS
  exact hS ▸ crowd_nodup 3

end ClientState

end TravelMode
