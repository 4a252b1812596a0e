import Mathlib.Data.List.Basic
import Mathlib.Data.List.Perm.Subperm

/-!
# A broadcast channel of bounded capacity

The channel keeps the last `cap` values sent. A subscriber is a position in the
sequence of all values ever sent: it joins at the end, and receives the value at its
position; where that one has been overwritten, it is told so and moves up to the
oldest value kept. What it can never receive any more is `Gone`: `recv_value` and
`recv_lagged` say how receiving changes that, `Gone.append` that sending never
brings a value back.
-/

namespace Broadcast

universe u

variable {α : Type u}

/-- A subscriber: where it joined, and the position of the value it receives next. -/
structure Subscriber where
  joined : Nat
  next : Nat
  le : joined ≤ next
deriving DecidableEq

/-- What receiving comes to. -/
inductive Received (α : Type u) where
  | value (a : α)
  /-- Values were overwritten before they were received. -/
  | lagged (skipped : Nat)
  | empty

namespace Subscriber

/-- Join a channel on which `sent` was sent. -/
def join (sent : List α) : Subscriber := ⟨sent.length, sent.length, Nat.le_refl _⟩

/-- Receive once. -/
def recv (cap : Nat) (sent : List α) (r : Subscriber) : Received α × Subscriber :=
  if h : r.next + cap < sent.length then
    (.lagged (sent.length - cap - r.next),
      { r with next := sent.length - cap, le := by have := r.le; omega })
  else
    match sent[r.next]? with
    | some a => (.value a, { r with next := r.next + 1, le := by have := r.le; omega })
    | none => (.empty, r)

/-- The value at this position is not to be received any more: it was passed, or it is
overwritten. -/
def Gone (cap : Nat) (sent : List α) (r : Subscriber) (p : Nat) : Prop :=
  p < r.next ∨ p + cap < sent.length

theorem Gone.append {cap : Nat} {sent : List α} {r : Subscriber} {p : Nat}
    (h : r.Gone cap sent p) (more : List α) : r.Gone cap (sent ++ more) p := by
  rcases h with h | h
  · exact .inl h
  · refine .inr ?_
    rw [List.length_append]
    omega

/-- Sending one value overwrites one: the value `cap` places before the end. -/
theorem gone_concat {cap : Nat} {sent : List α} {a : α} {r : Subscriber} {p : Nat} :
    r.Gone cap (sent ++ [a]) p ↔ r.Gone cap sent p ∨ p + cap = sent.length := by
  unfold Gone
  rw [List.length_append, List.length_singleton]
  omega

/-- Who joins has passed what was sent before. -/
theorem gone_join {cap : Nat} {sent : List α} {p : Nat} (h : p < sent.length) :
    (join sent).Gone cap sent p := .inl h

/-- Receiving a value takes the one at the subscriber's position, and passes no other. -/
theorem recv_value {cap : Nat} {sent : List α} {r r' : Subscriber} {a : α}
    (h : r.recv cap sent = (.value a, r')) :
    sent[r.next]? = some a ∧ ¬r.Gone cap sent r.next ∧ r'.next ≤ sent.length ∧
      ∀ p, r'.Gone cap sent p ↔ r.Gone cap sent p ∨ p = r.next := by
  unfold recv at h
  split at h
  · cases h
  · rename_i hlag
    split at h
    · rename_i a' ha
      cases h
      obtain ⟨hlt, -⟩ := List.getElem?_eq_some_iff.mp ha
      refine ⟨ha, ?_, hlt, fun p => ?_⟩
      · rintro (hp | hp)
        · exact Nat.lt_irrefl _ hp
        · exact hlag hp
      · show p < r.next + 1 ∨ p + cap < sent.length ↔ (p < r.next ∨ p + cap < sent.length) ∨ _
        omega
    · cases h

/-- Lagging passes what is overwritten, and nothing else. -/
theorem recv_lagged {cap n : Nat} {sent : List α} {r r' : Subscriber}
    (h : r.recv cap sent = (.lagged n, r')) :
    r'.next ≤ sent.length ∧ ∀ p, r'.Gone cap sent p ↔ r.Gone cap sent p := by
  unfold recv at h
  split at h
  · rename_i hlag
    cases h
    refine ⟨Nat.sub_le _ _, fun p => ?_⟩
    show p < sent.length - cap ∨ p + cap < sent.length ↔ p < r.next ∨ p + cap < sent.length
    omega
  · split at h
    · cases h
    · cases h

/-- Receiving leaves the place of joining. -/
theorem joined_of_recv {cap : Nat} {sent : List α} {r r' : Subscriber} {got : Received α}
    (h : r.recv cap sent = (got, r')) : r'.joined = r.joined := by
  unfold recv at h
  split at h
  · cases h
    rfl
  · split at h <;> cases h <;> rfl

/-- A value is received at the subscriber's position, which is not overwritten. -/
theorem recv_value_next {cap : Nat} {sent : List α} {r r' : Subscriber} {a : α}
    (h : r.recv cap sent = (.value a, r')) :
    r'.next = r.next + 1 ∧ sent.length ≤ r.next + cap := by
  unfold recv at h
  split at h
  · cases h
  · rename_i hlag
    split at h
    · cases h
      exact ⟨rfl, Nat.not_lt.mp hlag⟩
    · cases h

/-- Lagging moves up, by a subscriber that is more than the capacity behind. -/
theorem recv_lagged_next {cap n : Nat} {sent : List α} {r r' : Subscriber}
    (h : r.recv cap sent = (.lagged n, r')) :
    r.next < r'.next ∧ r.next + cap < sent.length := by
  unfold recv at h
  split at h
  · rename_i hlag
    cases h
    refine ⟨?_, hlag⟩
    show r.next < sent.length - cap
    omega
  · split at h <;> cases h

/-- What is kept is received. -/
theorem recv_of_kept {cap : Nat} {sent : List α} {r : Subscriber} {a : α}
    (hkept : sent.length ≤ r.next + cap) (ha : sent[r.next]? = some a) :
    ∃ r', r.recv cap sent = (.value a, r') := by
  unfold recv
  rw [dif_neg (Nat.not_lt.mpr hkept), ha]
  exact ⟨_, rfl⟩

/-- What is overwritten is skipped. -/
theorem recv_of_overwritten {cap : Nat} {sent : List α} {r : Subscriber}
    (h : r.next + cap < sent.length) :
    ∃ n r', r.recv cap sent = (.lagged n, r') ∧ r'.next = sent.length - cap := by
  unfold recv
  rw [dif_pos h]
  exact ⟨_, _, rfl, rfl⟩

/-- A subscriber never goes back. -/
theorem next_le_of_recv {cap : Nat} {sent : List α} {r r' : Subscriber} {got : Received α}
    (h : r.recv cap sent = (got, r')) : r.next ≤ r'.next := by
  unfold recv at h
  split at h
  · cases h
    show r.next ≤ sent.length - cap
    omega
  · split at h
    · cases h
      exact Nat.le_succ _
    · cases h
      exact Nat.le_refl _

end Subscriber

/-- Increasing positions, as many as there are from a first one to a last, are all of them. -/
theorem eq_range'_of_increasing {positions : List Nat} {start : Nat}
    (hsorted : positions.Pairwise (· < ·))
    (hrange : ∀ p ∈ positions, start ≤ p ∧ p < start + positions.length) :
    positions = List.range' start positions.length := by
  have hall : List.Pairwise (· < ·) (List.range' start positions.length) :=
    List.pairwise_lt_range'
  have hsub : positions.Subperm (List.range' start positions.length) := by
    have hnodup : positions.Nodup := hsorted.imp Nat.ne_of_lt
    exact hnodup.subperm fun p hp => List.mem_range'_1.mpr (hrange p hp)
  have hperm := hsub.perm_of_length_le (Nat.le_of_eq List.length_range')
  exact hperm.eq_of_pairwise (fun p q _ _ hpq hqp => absurd hpq (Nat.lt_asymm hqp)) hsorted hall

end Broadcast
