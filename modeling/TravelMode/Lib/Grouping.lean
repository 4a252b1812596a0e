import Mathlib.Algebra.BigOperators.Group.List.Basic
import Mathlib.Data.List.Perm.Basic
import Mathlib.Data.List.Dedup

/-!
# Grouping by a key

`group key l k` are the elements of `l` with the key `k`, in their order.

- `sum_groups`: over keys that cover a list, its groups are all of it, each element once.
- `group_swap`: what exchanging the first two elements does to the groups.
-/

universe u v w

namespace Grouping

variable {α : Type u} {κ : Type v} [DecidableEq κ]

/-- The elements with the key `k`. -/
def group (key : α → κ) (l : List α) (k : κ) : List α := l.filter fun x => decide (key x = k)

theorem mem_group {key : α → κ} {l : List α} {k : κ} {x : α} :
    x ∈ group key l k ↔ x ∈ l ∧ key x = k := by
  rw [group, List.mem_filter, decide_eq_true_iff]

theorem group_cons_self (key : α → κ) (x : α) (l : List α) :
    group key (x :: l) (key x) = x :: group key l (key x) :=
  List.filter_cons_of_pos (by simp)

theorem group_cons_of_ne {key : α → κ} {x : α} {k : κ} (h : key x ≠ k) (l : List α) :
    group key (x :: l) k = group key l k :=
  List.filter_cons_of_neg (by simpa using h)

/-- Another order has the same groups, each in another order. -/
theorem group_perm (key : α → κ) {l l' : List α} (h : l.Perm l') (k : κ) :
    (group key l k).Perm (group key l' k) :=
  h.filter _

/-- Elements of one group that change places are in no other group. -/
theorem group_swap {key : α → κ} {x y : α} (h : key x = key y) (l : List α) {k : κ}
    (hk : key x ≠ k) : group key (x :: y :: l) k = group key (y :: x :: l) k := by
  rw [group_cons_of_ne hk, group_cons_of_ne (h ▸ hk), group_cons_of_ne (h ▸ hk),
    group_cons_of_ne hk]

/-- One element is in one of the groups. -/
theorem sum_single {M : Type w} [AddCommMonoid M] {keys : List κ} (hnodup : keys.Nodup)
    {k : κ} (hk : k ∈ keys) (m : M) (f : κ → M) :
    (keys.map fun j => if k = j then m + f j else f j).sum = m + (keys.map f).sum := by
  induction keys with
  | nil => cases hk
  | cons j keys ih =>
    obtain ⟨hj, hnodup⟩ := List.nodup_cons.mp hnodup
    rw [List.map_cons, List.sum_cons, List.map_cons, List.sum_cons]
    by_cases he : k = j
    · subst he
      have hrest : (keys.map fun j => if k = j then m + f j else f j) = keys.map f :=
        List.map_congr_left fun j' hj' => if_neg fun he : k = j' => hj (he ▸ hj')
      rw [if_pos rfl, hrest, add_assoc]
    · have hmem : k ∈ keys := (List.mem_cons.mp hk).resolve_left he
      rw [if_neg he, ih hnodup hmem, add_left_comm]

/-- The sums of the groups make the sum of the list. -/
theorem sum_groups {M : Type w} [AddCommMonoid M] {key : α → κ} {keys : List κ}
    (hnodup : keys.Nodup) {l : List α} (hcover : ∀ x ∈ l, key x ∈ keys) (f : α → M) :
    (keys.map fun k => ((group key l k).map f).sum).sum = (l.map f).sum := by
  induction l with
  | nil =>
    refine List.sum_eq_zero fun m hm => ?_
    obtain ⟨k, -, rfl⟩ := List.mem_map.mp hm
    rfl
  | cons x l ih =>
    have hone : (fun k => ((group key (x :: l) k).map f).sum) = fun k =>
        if key x = k then f x + ((group key l k).map f).sum else ((group key l k).map f).sum := by
      funext k
      split
      · rename_i he
        subst he
        rw [group_cons_self, List.map_cons, List.sum_cons]
      · rename_i hne
        rw [group_cons_of_ne hne]
    rw [hone, sum_single hnodup (hcover x List.mem_cons_self),
      ih fun y hy => hcover y (List.mem_cons_of_mem _ hy), List.map_cons, List.sum_cons]

end Grouping
