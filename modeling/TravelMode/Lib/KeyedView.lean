import TravelMode.Lib.KeyedMap
import Mathlib.Data.List.Infix
import Mathlib.Data.List.Sort

/-!
# Views that follow a keyed collection

A view keeps one row for each key of a collection that changes: a key that comes gets a
row made for it, a key that stays has its row refreshed, a key that goes loses its row.

- `follow`: what one update does to the row of one key; `foldl_entries` says that a loop
  over the items does it to all of them.
- `lifetime`: the items a key has had since it last came. A row is made from the first of
  them and refreshed with the others (`foldl_follow`), so a row that shows nothing else is
  told by the first and the last of them (`grown_eq_shown`).
- `Consistent`: a comparison function that is an order on the rows at hand, as it is on rows
  that are compared by a key (`consistent_of_key`). The keys of a sorted list do not depend on
  how it was sorted (`sorted_unique`).
-/

universe u v w

namespace KeyedView

variable {α : Type u} {ρ : Type v}

/-! ## Rows over time -/

/-- The row of a key after an update in which the key has this item. -/
def follow (make : α → ρ) (refresh : ρ → α → ρ) (row : Option ρ) (item : Option α) : Option ρ :=
  item.map fun a => (row.map fun r => refresh r a).getD (make a)

/-- One more moment in the life of a key. -/
def extend (items : List α) : Option α → List α
  | none => []
  | some a => items ++ [a]

/-- The items of a key since it last came. -/
def lifetime (history : List (Option α)) : List α := history.foldl extend []

/-- A row that was made from the first item and refreshed with the others. -/
def grown (make : α → ρ) (refresh : ρ → α → ρ) : List α → Option ρ
  | [] => none
  | a :: as => some (as.foldl refresh (make a))

theorem lifetime_concat (history : List (Option α)) (item : Option α) :
    lifetime (history ++ [item]) = extend (lifetime history) item := by
  rw [lifetime, List.foldl_append]
  rfl

/-- One more item is one more refresh. -/
theorem grown_concat (make : α → ρ) (refresh : ρ → α → ρ) (items : List α) (a : α) :
    grown make refresh (items ++ [a]) =
      follow make refresh (grown make refresh items) (some a) := by
  cases items with
  | nil => rfl
  | cons b bs =>
    show some ((bs ++ [a]).foldl refresh (make b)) = some (refresh (bs.foldl refresh (make b)) a)
    rw [List.foldl_append]
    rfl

/-- **Rows over time**: following a key through its history makes the row from the first
item of its lifetime and refreshes it with the rest. -/
theorem foldl_follow (make : α → ρ) (refresh : ρ → α → ρ) (history : List (Option α)) :
    history.foldl (follow make refresh) none = grown make refresh (lifetime history) := by
  induction history using List.reverseRecOn with
  | nil => rfl
  | append_singleton history item ih =>
    rw [List.foldl_append, List.foldl_cons, List.foldl_nil, ih, lifetime_concat]
    cases item with
    | none => rfl
    | some a => exact (grown_concat make refresh _ a).symm

/-- The key is there now exactly if its lifetime is not over. -/
theorem getLast?_lifetime_concat (history : List (Option α)) (item : Option α) :
    (lifetime (history ++ [item])).getLast? = item := by
  rw [lifetime_concat]
  cases item with
  | none => rfl
  | some a => exact List.getLast?_concat

/-- A row that comes at this moment or stays has an item that it was made from. -/
theorem exists_head?_extend (items : List α) (a : α) :
    ∃ first, (extend items (some a)).head? = some first := by
  cases items with
  | nil => exact ⟨a, rfl⟩
  | cons first rest => exact ⟨first, rfl⟩

/-- A row that is told by the item it was made from and the one it was last refreshed with. -/
theorem grown_eq_shown {make : α → ρ} {refresh : ρ → α → ρ} (shown : α → α → ρ)
    (hmake : ∀ a, make a = shown a a)
    (hrefresh : ∀ first last a, refresh (shown first last) a = shown first a) (items : List α) :
    grown make refresh items =
      items.head?.bind fun first => items.getLast?.map fun last => shown first last := by
  induction items using List.reverseRecOn with
  | nil => rfl
  | append_singleton items a ih =>
    rw [grown_concat, ih, List.getLast?_concat]
    cases items with
    | nil => exact congrArg some (hmake a)
    | cons first rest =>
      rw [List.getLast?_eq_some_getLast (List.cons_ne_nil first rest)]
      exact congrArg some (hrefresh first _ a)

/-! ## A loop over the items -/

section Loop

variable {κ : Type w} [DecidableEq κ] {σ : Type v} {δ : Type u}

/-- A loop whose turns each rewrite what is kept under their own key rewrites what is kept
under every key of the list, once. -/
theorem foldl_nodupKeys (I : σ → Prop) (get : σ → κ → δ) {visit : σ → (Σ _ : κ, α) → σ}
    (step : α → δ → δ) (hkeep : ∀ {s} e, I s → I (visit s e))
    (hvisit : ∀ {s} e k, I s →
      get (visit s e) k = if k = e.1 then step e.2 (get s k) else get s k)
    {entries : List (Σ _ : κ, α)} (hnodup : entries.NodupKeys) {s : σ} (h : I s) :
    I (entries.foldl visit s) ∧
      ∀ k, get (entries.foldl visit s) k =
        ((entries.dlookup k).map fun a => step a (get s k)).getD (get s k) := by
  induction entries generalizing s with
  | nil => exact ⟨h, fun k => rfl⟩
  | cons e es ih =>
    obtain ⟨hfresh, hrest⟩ := List.nodupKeys_cons.mp hnodup
    obtain ⟨hI, hget⟩ := ih hrest (hkeep e h)
    refine ⟨hI, fun k => ?_⟩
    rw [List.foldl_cons, hget, hvisit e k h]
    by_cases hk : k = e.1
    · subst hk
      rw [if_pos rfl, List.dlookup_eq_none.mpr hfresh, List.dlookup_cons_eq]
      rfl
    · rw [if_neg hk, List.dlookup_cons_ne es e hk]

/-- **A loop over a collection**: each item is visited once. -/
theorem foldl_entries (I : σ → Prop) (get : σ → κ → δ) {visit : σ → (Σ _ : κ, α) → σ}
    (step : α → δ → δ) (hkeep : ∀ {s} e, I s → I (visit s e))
    (hvisit : ∀ {s} e k, I s →
      get (visit s e) k = if k = e.1 then step e.2 (get s k) else get s k)
    (items : KeyedMap κ α) {s : σ} (h : I s) :
    I (items.entries.foldl visit s) ∧
      ∀ k, get (items.entries.foldl visit s) k =
        ((items.get? k).map fun a => step a (get s k)).getD (get s k) :=
  foldl_nodupKeys I get step hkeep hvisit items.toAList.nodupKeys h

end Loop

/-! ## Rows in order -/

/-- On these rows the comparison is an order. -/
structure Consistent (cmp : α → α → Ordering) (rows : List α) : Prop where
  swap : ∀ a ∈ rows, ∀ b ∈ rows, cmp a b = (cmp b a).swap
  trans : ∀ a ∈ rows, ∀ b ∈ rows, ∀ c ∈ rows, (cmp a b).isLE = true → (cmp b c).isLE = true →
    (cmp a c).isLE = true

/-- The rows in order, rows that compare equal as they were. -/
def arrange (cmp : α → α → Ordering) (rows : List α) : List α :=
  (rows.attach.insertionSort fun a b => (cmp a.1 b.1).isLE = true).map Subtype.val

theorem arrange_perm (cmp : α → α → Ordering) (rows : List α) : (arrange cmp rows).Perm rows := by
  have hperm := (List.perm_insertionSort
    (fun a b : { a // a ∈ rows } => (cmp a.1 b.1).isLE = true) rows.attach).map Subtype.val
  rwa [List.attach_map_subtype_val] at hperm

theorem arrange_sorted {cmp : α → α → Ordering} {rows : List α} (h : Consistent cmp rows) :
    (arrange cmp rows).Pairwise fun a b => (cmp a b).isLE = true := by
  have htotal : Std.Total fun a b : { a // a ∈ rows } => (cmp a.1 b.1).isLE = true := by
    refine ⟨fun a b => ?_⟩
    rw [h.swap a.1 a.2 b.1 b.2]
    cases cmp b.1 a.1 <;> simp
  have htrans : IsTrans { a // a ∈ rows } fun a b => (cmp a.1 b.1).isLE = true :=
    ⟨fun a b c => h.trans a.1 a.2 b.1 b.2 c.1 c.2⟩
  rw [arrange, List.pairwise_map]
  exact List.pairwise_insertionSort _ rows.attach

section Keys

variable {κ : Type w} {cmp : κ → κ → Ordering} [Std.TransCmp cmp]

/-- Rows that are compared by a key are compared consistently. -/
theorem consistent_of_key {by_ : α → α → Ordering} {rows : List α} (key : α → κ)
    (h : ∀ a ∈ rows, ∀ b ∈ rows, by_ a b = cmp (key a) (key b)) : Consistent by_ rows where
  swap a ha b hb := by
    rw [h a ha b hb, h b hb a ha]
    exact Std.OrientedCmp.eq_swap
  trans a ha b hb c hc hab hbc := by
    rw [h a ha b hb] at hab
    rw [h b hb c hc] at hbc
    rw [h a ha c hc]
    exact Std.TransCmp.isLE_trans hab hbc

/-- **The order shown is determined**: two sorted arrangements of the same keys are one. -/
theorem sorted_unique [Std.LawfulEqCmp cmp] {ks ls : List κ} (hperm : ks.Perm ls)
    (hks : ks.Pairwise fun a b => (cmp a b).isLE = true)
    (hls : ls.Pairwise fun a b => (cmp a b).isLE = true) : ks = ls := by
  refine hperm.eq_of_pairwise (fun a b _ _ hab hba => ?_) hks hls
  exact Std.LawfulEqCmp.eq_of_compare (Std.OrientedCmp.isLE_antisymm hab hba)

end Keys

end KeyedView
