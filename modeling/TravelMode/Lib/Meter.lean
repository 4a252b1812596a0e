import Mathlib.Algebra.BigOperators.Group.List.Basic
import Mathlib.Algebra.GroupWithZero.Nat

/-!
# Counters sampled by ticks

A meter counts a total; a tick reports what has been counted since the last one. That
nothing is reported twice or not at all is a sum over the ticks: the reported speeds, and
what no tick has seen yet, make up the growth of the total.

- `sample`: a tick, whose subtraction saturates.
- `Grows`: what may happen between ticks.
- `Balanced`: the account, kept by both (`Balanced.grows`, `Balanced.sample`).
- `even_step`: two counts of the same things, where both grow alike.
-/

/-- A counter, its value at the last tick, and the speed that this tick reported. -/
structure Meter where
  total : Nat
  prev : Nat
  speed : Nat

namespace Meter

/-- A tick. -/
def sample (m : Meter) : Meter := ⟨m.total, m.total, m.total - m.prev⟩

/-- Between ticks, the counter may grow. -/
structure Grows (m m' : Meter) : Prop where
  prev : m'.prev = m.prev
  total : m.total ≤ m'.total

theorem Grows.refl (m : Meter) : m.Grows m := ⟨rfl, Nat.le_refl _⟩

/-- What was counted since the last tick. -/
def pending (m : Meter) : Nat := m.total - m.prev

/-- The speeds reported since the counter was `base`, and what is pending, are its growth. -/
structure Balanced (base : Nat) (speeds : List Nat) (m : Meter) : Prop where
  le : m.prev ≤ m.total
  sum : base + speeds.sum + m.pending = m.total

variable {base : Nat} {speeds : List Nat} {m m' : Meter}

/-- Nothing is pending in a counter that starts from its value. -/
theorem balanced_start (h : m.prev = m.total) : Balanced m.total [] m where
  le := Nat.le_of_eq h
  sum := by
    rw [pending, h, List.sum_nil, Nat.sub_self]
    rfl

/-- In a new counter, everything is. -/
theorem balanced_new (h : m.prev = 0) : Balanced 0 [] m where
  le := h ▸ Nat.zero_le _
  sum := by
    rw [pending, h, List.sum_nil, Nat.sub_zero]
    exact Nat.zero_add _

theorem Balanced.grows (h : Balanced base speeds m) (hgrows : m.Grows m') :
    Balanced base speeds m' where
  le := hgrows.prev.trans_le (Nat.le_trans h.le hgrows.total)
  sum := by
    have hsum := h.sum
    have hle := h.le
    have hprev := hgrows.prev
    have htotal := hgrows.total
    unfold pending at hsum ⊢
    omega

/-- A tick moves what is pending to the reported speeds. -/
theorem Balanced.sample (h : Balanced base speeds m) :
    Balanced base (speeds ++ [m.sample.speed]) m.sample where
  le := Nat.le_refl _
  sum := by
    have hsum := h.sum
    rw [List.sum_append, List.sum_singleton, pending, Meter.sample, Nat.sub_self, Nat.add_zero,
      ← Nat.add_assoc]
    exact hsum

/-- The account in terms of the growth. -/
theorem Balanced.growth (h : Balanced base speeds m) :
    base ≤ m.total ∧ speeds.sum + m.pending = m.total - base := by
  have hsum := h.sum
  omega

/-! ## Two counts of the same things -/

/-- Where both counts grow alike, the one that was not below the other one is not below it
afterwards, and they agree if they did. -/
theorem even_step {ι : Type*} {told told' counted counted' : ι → Nat}
    (heven : ∀ i, counted' i + told i = counted i + told' i) (hle : ∀ i, told i ≤ counted i) :
    (∀ i, told' i ≤ counted' i) ∧
      ((∀ i, counted' i = told' i) ↔ ∀ i, counted i = told i) := by
  refine ⟨fun i => ?_, forall_congr' fun i => ?_⟩
  · have hi := heven i
    have hlei := hle i
    omega
  · have hi := heven i
    omega

end Meter
