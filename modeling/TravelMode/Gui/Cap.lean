import Mathlib.Data.List.Dedup
import TravelMode.Gui.Operations

/-!
# Where the connection cap holds

`MAX_CONNECTIONS` is the "maximum number of live connections kept", and every report of a
flow ends in `enforce_conn_cap`. `apply_snapshot` fills the same map without it.

- `Covered`: the queue has every flow that is stored. It needs no distinct keys, and is
  enough for the eviction loop to reach the cap.
- `load_size`: a snapshot stores as many flows as it has keys.
- `cap_iff`: the cap holds throughout exactly when no snapshot brings more keys.
- `crowd_exceeds`: a snapshot of one flow more.
-/

namespace TravelMode

namespace ClientState

/-! ## The eviction loop -/

/-- Every stored flow is queued. -/
def Covered (conns : KeyedMap String ConnectionInfo) (connOrder : List String) : Prop :=
  ∀ key, (conns.get? key).isSome = true → key ∈ connOrder

/-- A map that an empty queue covers is empty. -/
theorem Covered.size_nil {conns : KeyedMap String ConnectionInfo} (h : Covered conns []) :
    conns.size = 0 := by
  refine KeyedMap.size_eq_length List.nodup_nil fun key => ?_
  exact iff_of_false List.not_mem_nil fun hsome => List.not_mem_nil (h key hsome)

/-- **The loop**: of a covered map, at most `MAX_CONNECTIONS` flows are left, covered by
what is left of the queue. -/
theorem enforceConnCap_covered {conns : KeyedMap String ConnectionInfo} {connOrder : List String}
    (h : Covered conns connOrder) :
    (enforceConnCap conns connOrder).1.size ≤ maxConnections ∧
      Covered (enforceConnCap conns connOrder).1 (enforceConnCap conns connOrder).2 := by
  induction connOrder generalizing conns with
  | nil =>
    refine ⟨?_, h⟩
    show conns.size ≤ maxConnections
    rw [h.size_nil]
    exact Nat.zero_le _
  | cons oldest connOrder ih =>
    rw [enforceConnCap]
    by_cases hover : conns.size > maxConnections
    · rw [if_pos hover]
      refine ih fun key hsome => ?_
      -- what is stored after the eviction is not the one evicted, so it is queued behind it
      rw [KeyedMap.get?_erase] at hsome
      by_cases hkey : key = oldest
      · rw [if_pos hkey] at hsome
        cases hsome
      · rw [if_neg hkey] at hsome
        exact (List.mem_cons.mp (h key hsome)).resolve_left hkey
    · rw [if_neg hover]
      exact ⟨Nat.le_of_not_lt hover, h⟩

/-- A report leaves the map within the cap. -/
theorem upsertConn_covered {s : ClientState} (h : Covered s.conns s.connOrder)
    (conn : ConnectionInfo) (isOpen : Bool) :
    (s.upsertConn conn isOpen).conns.size ≤ maxConnections ∧
      Covered (s.upsertConn conn isOpen).conns (s.upsertConn conn isOpen).connOrder := by
  refine enforceConnCap_covered fun key hsome => ?_
  rw [KeyedMap.get?_insert] at hsome
  by_cases hold : (s.conns.get? conn.key).isSome = true
  · rw [if_pos hold]
    by_cases hkey : key = conn.key
    · exact h key (hkey ▸ hold)
    · rw [if_neg hkey] at hsome
      exact h key hsome
  · rw [if_neg hold]
    by_cases hkey : key = conn.key
    · exact List.mem_append_right _ (List.mem_singleton.mpr hkey)
    · rw [if_neg hkey] at hsome
      exact List.mem_append_left _ (h key hsome)

theorem removeConn_covered {s : ClientState} (h : Covered s.conns s.connOrder) (key : String) :
    Covered (s.removeConn key).conns (s.removeConn key).connOrder := by
  cases hconn : s.conns.get? key with
  | none =>
    simp only [removeConn, hconn]
    exact h
  | some conn =>
    simp only [removeConn, hconn]
    intro k hsome
    rw [KeyedMap.get?_erase] at hsome
    by_cases hk : k = key
    · rw [if_pos hk] at hsome
      cases hsome
    · rw [if_neg hk] at hsome
      exact List.mem_filter.mpr ⟨h k hsome, bne_iff_ne.mpr hk⟩

theorem size_erase_le (m : KeyedMap String ConnectionInfo) (key : String) :
    (m.erase key).size ≤ m.size := by
  cases hget : m.get? key with
  | none => rw [KeyedMap.erase_of_none hget]
  | some conn =>
    have hsize := KeyedMap.size_erase_of_some hget
    omega

/-- An event keeps the cap. -/
theorem applyEvent_covered {s : ClientState} (hsize : s.conns.size ≤ maxConnections)
    (h : Covered s.conns s.connOrder) (e : Event) :
    (s.applyEvent e).conns.size ≤ maxConnections ∧
      Covered (s.applyEvent e).conns (s.applyEvent e).connOrder := by
  cases e with
  | connectionOpened conn => exact upsertConn_covered h conn true
  | connectionUpdated conn => exact upsertConn_covered h conn false
  | connectionClosed key =>
    refine ⟨?_, removeConn_covered h key⟩
    show (s.removeConn key).conns.size ≤ maxConnections
    rw [removeConn_conns]
    exact (size_erase_le s.conns key).trans hsize
  | _ => exact ⟨hsize, h⟩

/-! ## Snapshots -/

/-- The snapshot brings no more flows than the client keeps: flows with one key are one. -/
def Fits (S : Snapshot) : Prop := (S.conns.map ConnectionInfo.key).dedup.length ≤ maxConnections

/-- A snapshot stores one flow for each of its keys. -/
theorem load_size (s : ClientState) (S : Snapshot) :
    (s.load S).conns.size = (S.conns.map ConnectionInfo.key).dedup.length := by
  refine KeyedMap.size_eq_length (List.nodup_dedup _) fun key => ?_
  rw [List.mem_dedup, load_isSome]

theorem load_covered (s : ClientState) (S : Snapshot) :
    Covered (s.load S).conns (s.load S).connOrder := by
  intro key hsome
  rw [load_connOrder]
  exact load_isSome.mp hsome

/-! ## Every operation -/

/-- What the cap says of a state, with the invariant of the queue. -/
structure WithinCap (s : ClientState) : Prop where
  size : s.conns.size ≤ maxConnections
  covered : Covered s.conns s.connOrder

theorem withinCap_default : WithinCap default := ⟨Nat.zero_le _, fun _ h => (nomatch h)⟩

/-- Every operation keeps the cap, a snapshot only if it fits. -/
theorem WithinCap.perform {s : ClientState} {op : Op} (h : WithinCap s)
    (hfits : ∀ S, op = .snapshot S → Fits S) : WithinCap (s.perform op) := by
  cases op with
  | snapshot S =>
    refine ⟨?_, load_covered s S⟩
    show (s.load S).conns.size ≤ maxConnections
    exact (load_size s S).trans_le (hfits S rfl)
  | event e =>
    obtain ⟨hsize, hcovered⟩ := applyEvent_covered h.size h.covered e
    exact ⟨hsize, hcovered⟩
  | tick => exact ⟨h.size, h.covered⟩

/-- **Where the cap holds**: after every operation of a sequence there are at most
`MAX_CONNECTIONS` flows, if and only if no snapshot of it brings more. -/
theorem cap_iff (ops : List Op) :
    (∀ pre, pre <+: ops → (default.operate pre).conns.size ≤ maxConnections) ↔
      ∀ S, .snapshot S ∈ ops → Fits S := by
  constructor
  · intro h S hS
    -- right after this snapshot, its flows are what is stored
    obtain ⟨before, rest, rfl⟩ := List.append_of_mem hS
    have hafter := h (before ++ [.snapshot S]) ⟨rest, by simp⟩
    rw [operate_snoc] at hafter
    exact (load_size (default.operate before) S).symm.trans_le hafter
  · intro hfits pre hpre
    have hwithin : WithinCap (default.operate pre) :=
      operate_invariant withinCap_default fun op hop s hs =>
        hs.perform fun S hS => hfits S (hpre.subset (hS ▸ hop))
    exact hwithin.size

/-- **One flow too many**: of a daemon that tracks 501 flows, the client keeps them all. -/
theorem crowd_exceeds :
    (default.operate [.snapshot (crowd 501)]).conns.size = 501 ∧
      ¬(default.operate [.snapshot (crowd 501)]).conns.size ≤ maxConnections := by
  have hsize : (default.operate [.snapshot (crowd 501)]).conns.size = 501 := by
    refine (load_size default (crowd 501)).trans ?_
    rw [(crowd_nodup 501).dedup, length_crowd]
  rw [hsize]
  exact ⟨rfl, by decide⟩

end ClientState

end TravelMode
