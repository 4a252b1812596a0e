import Mathlib.Data.List.AList

/-!
# Finite maps with the operations of a hash map or an ordered map

`KeyedMap κ α` wraps Mathlib's `AList` at a constant value type: a list of
key–value pairs with pairwise distinct keys. The order of the pairs is *one*
iteration order; nothing here depends on it, every lemma is about `get?`, and a
program that iterates over a hash map is modelled over an arbitrary permutation
of `entries`.

- `get?`, `insert`, `erase`, `mapVals`, `retain`, with one `get?` lemma each (the
  simp set of the map);
- `vals`, `keys`, `size` and their membership and length lemmas.
-/

universe u v w

/-- A finite map from `κ` to `α`. -/
structure KeyedMap (κ : Type u) (α : Type v) where
  toAList : AList fun _ : κ => α

namespace KeyedMap

variable {κ : Type u} {α : Type v} {β : Type w}

/-- The pairs of the map, in one iteration order. -/
def entries (m : KeyedMap κ α) : List (Σ _ : κ, α) := m.toAList.entries

/-- The keys of the map, in the same order. -/
def keys (m : KeyedMap κ α) : List κ := m.toAList.keys

/-- The values of the map, in the same order. -/
def vals (m : KeyedMap κ α) : List α := m.entries.map fun e => e.2

/-- Number of entries. -/
def size (m : KeyedMap κ α) : Nat := m.entries.length

/-- The empty map. -/
def empty : KeyedMap κ α := ⟨∅⟩

instance : Inhabited (KeyedMap κ α) := ⟨empty⟩

/-- Apply `f` to every value. -/
def mapVals (f : κ → α → β) (m : KeyedMap κ α) : KeyedMap κ β where
  toAList :=
    { entries := m.entries.map fun e => ⟨e.1, f e.1 e.2⟩
      nodupKeys := List.NodupKeys.map₂ f _ m.toAList.nodupKeys }

/-- Keep the entries that satisfy `p`. -/
def retain (p : κ → α → Bool) (m : KeyedMap κ α) : KeyedMap κ α where
  toAList :=
    { entries := m.entries.filter fun e => p e.1 e.2
      nodupKeys := m.toAList.nodupKeys.sublist List.filter_sublist }

theorem keys_nodup (m : KeyedMap κ α) : m.keys.Nodup := m.toAList.keys_nodup

@[simp] theorem length_keys (m : KeyedMap κ α) : m.keys.length = m.size :=
  List.length_map ..

@[simp] theorem length_vals (m : KeyedMap κ α) : m.vals.length = m.size :=
  List.length_map ..

@[simp] theorem size_empty : (empty : KeyedMap κ α).size = 0 := rfl

variable [DecidableEq κ]

/-- The value at `k`. -/
def get? (m : KeyedMap κ α) (k : κ) : Option α := m.toAList.lookup k

/-- Insert or overwrite. -/
def insert (m : KeyedMap κ α) (k : κ) (v : α) : KeyedMap κ α := ⟨m.toAList.insert k v⟩

/-- Remove the entry at `k`, if any. -/
def erase (m : KeyedMap κ α) (k : κ) : KeyedMap κ α := ⟨m.toAList.erase k⟩

/-! ## Lookup in every construction -/

/-- An entry is what its key looks up. -/
theorem mem_entries_iff {m : KeyedMap κ α} {k : κ} {v : α} :
    (⟨k, v⟩ : Σ _ : κ, α) ∈ m.entries ↔ m.get? k = some v :=
  (@AList.mem_lookup_iff κ (fun _ => α) _ k v m.toAList).symm

theorem mem_keys_iff {m : KeyedMap κ α} {k : κ} : k ∈ m.keys ↔ ∃ v, m.get? k = some v := by
  rw [← Option.isSome_iff_exists]
  exact (AList.mem_keys.symm.trans AList.lookup_isSome.symm)

theorem get?_eq_none_iff {m : KeyedMap κ α} {k : κ} : m.get? k = none ↔ k ∉ m.keys :=
  AList.lookup_eq_none

theorem mem_vals_iff {m : KeyedMap κ α} {v : α} : v ∈ m.vals ↔ ∃ k, m.get? k = some v := by
  constructor
  · intro h
    obtain ⟨⟨k, w⟩, he, rfl⟩ := List.mem_map.mp h
    exact ⟨k, mem_entries_iff.mp he⟩
  · rintro ⟨k, hk⟩
    exact List.mem_map.mpr ⟨⟨k, v⟩, mem_entries_iff.mpr hk, rfl⟩

@[simp] theorem get?_empty (k : κ) : (empty : KeyedMap κ α).get? k = none := rfl

theorem get?_insert (m : KeyedMap κ α) (k : κ) (v : α) (j : κ) :
    (m.insert k v).get? j = if j = k then some v else m.get? j := by
  by_cases h : j = k
  · subst h
    rw [if_pos rfl]
    exact AList.lookup_insert m.toAList
  · rw [if_neg h]
    exact AList.lookup_insert_ne h

@[simp] theorem get?_insert_self (m : KeyedMap κ α) (k : κ) (v : α) :
    (m.insert k v).get? k = some v := by
  rw [get?_insert, if_pos rfl]

theorem get?_insert_of_ne {m : KeyedMap κ α} {j k : κ} {v : α} (h : j ≠ k) :
    (m.insert k v).get? j = m.get? j := by
  rw [get?_insert, if_neg h]

theorem get?_erase (m : KeyedMap κ α) (k j : κ) :
    (m.erase k).get? j = if j = k then none else m.get? j := by
  by_cases h : j = k
  · subst h
    rw [if_pos rfl]
    exact AList.lookup_erase j m.toAList
  · rw [if_neg h]
    exact AList.lookup_erase_ne h

@[simp] theorem get?_erase_self (m : KeyedMap κ α) (k : κ) : (m.erase k).get? k = none := by
  rw [get?_erase, if_pos rfl]

theorem get?_erase_of_ne {m : KeyedMap κ α} {j k : κ} (h : j ≠ k) :
    (m.erase k).get? j = m.get? j := by
  rw [get?_erase, if_neg h]

@[simp] theorem get?_mapVals (f : κ → α → β) (m : KeyedMap κ α) (k : κ) :
    (m.mapVals f).get? k = (m.get? k).map (f k) :=
  (List.dlookup_map₂ (f := f) k)

theorem get?_retain (p : κ → α → Bool) (m : KeyedMap κ α) (k : κ) :
    (m.retain p).get? k = (m.get? k).filter (p k) := by
  refine Option.ext fun v => ?_
  show (m.retain p).get? k = some v ↔ _
  rw [← mem_entries_iff, Option.filter_eq_some_iff, ← mem_entries_iff]
  exact List.mem_filter

/-! ## Sizes -/

/-- Overwriting keeps the number of entries. -/
theorem size_insert_of_some {m : KeyedMap κ α} {k : κ} {w : α} (v : α)
    (h : m.get? k = some w) : (m.insert k v).size = m.size := by
  have hk : k ∈ m.keys := mem_keys_iff.mpr ⟨w, h⟩
  have hpos : 0 < m.keys.length := List.length_pos_of_mem hk
  rw [← length_keys, ← length_keys]
  show (AList.insert k v m.toAList).keys.length = m.keys.length
  rw [AList.keys_insert, List.length_cons]
  show (m.keys.erase k).length + 1 = m.keys.length
  rw [List.length_erase_of_mem hk]
  omega

/-- Inserting a fresh key adds one entry. -/
theorem size_insert_of_none {m : KeyedMap κ α} {k : κ} (v : α) (h : m.get? k = none) :
    (m.insert k v).size = m.size + 1 := by
  have hk : k ∉ m.keys := get?_eq_none_iff.mp h
  rw [← length_keys, ← length_keys]
  show (AList.insert k v m.toAList).keys.length = m.keys.length + 1
  rw [AList.keys_insert, List.length_cons]
  show (m.keys.erase k).length + 1 = m.keys.length + 1
  rw [List.erase_of_not_mem hk]

theorem size_insert_le (m : KeyedMap κ α) (k : κ) (v : α) : (m.insert k v).size ≤ m.size + 1 := by
  cases h : m.get? k with
  | none => exact Nat.le_of_eq (size_insert_of_none v h)
  | some w =>
    rw [size_insert_of_some v h]
    exact Nat.le_succ _

/-! ## Values, whatever their order -/

/-- The values are those without the entry at `k`, and its own. -/
theorem vals_perm {m : KeyedMap κ α} {k : κ} {v : α} (h : m.get? k = some v) :
    m.vals.Perm (v :: (m.erase k).vals) := by
  have hk : k ∈ m.toAList.entries.keys := mem_keys_iff.mpr ⟨v, h⟩
  obtain ⟨w, before, after, hbefore, hentries, herase⟩ := List.exists_of_kerase hk
  have hw : w = v := by
    have hmem : (⟨k, w⟩ : Σ _ : κ, α) ∈ m.entries := by
      show _ ∈ m.toAList.entries
      rw [hentries]
      exact List.mem_append_right _ List.mem_cons_self
    exact Option.some.inj ((mem_entries_iff.mp hmem).symm.trans h)
  have hvals : m.vals = (before ++ ⟨k, w⟩ :: after).map fun e => e.2 := by
    rw [← hentries]
    rfl
  have hrest : (m.erase k).vals = (before ++ after).map fun e => e.2 := by
    rw [← herase]
    rfl
  rw [hvals, hrest, ← hw, List.map_append, List.map_cons, List.map_append]
  exact List.perm_middle

theorem vals_insert (m : KeyedMap κ α) (k : κ) (v : α) :
    (m.insert k v).vals = v :: (m.erase k).vals := by
  show (AList.insert k v m.toAList).entries.map _ = _
  rw [AList.entries_insert]
  rfl

theorem erase_of_none {m : KeyedMap κ α} {k : κ} (h : m.get? k = none) : m.erase k = m := by
  refine congrArg KeyedMap.mk (AList.ext_iff.mpr ?_)
  exact List.kerase_of_notMem_keys (get?_eq_none_iff.mp h)

/-- Overwriting needs no erasing. -/
theorem insert_erase (m : KeyedMap κ α) (k : κ) (v : α) : (m.erase k).insert k v = m.insert k v := by
  refine congrArg KeyedMap.mk (AList.ext_iff.mpr ?_)
  show (AList.insert k v (AList.erase k m.toAList)).entries = (AList.insert k v m.toAList).entries
  rw [AList.entries_insert, AList.entries_insert]
  have hgone : k ∉ (List.kerase k m.toAList.entries).keys :=
    List.notMem_keys_kerase k m.toAList.nodupKeys
  exact congrArg _ (List.kerase_of_notMem_keys hgone)

theorem vals_erase_of_none {m : KeyedMap κ α} {k : κ} (h : m.get? k = none) :
    (m.erase k).vals = m.vals := by
  rw [erase_of_none h]

/-- A fresh entry adds its value. -/
theorem vals_insert_of_none {m : KeyedMap κ α} {k : κ} (v : α) (h : m.get? k = none) :
    (m.insert k v).vals = v :: m.vals := by
  rw [vals_insert, vals_erase_of_none h]

theorem size_erase_of_some {m : KeyedMap κ α} {k : κ} {v : α} (h : m.get? k = some v) :
    (m.erase k).size + 1 = m.size := by
  rw [← length_vals, ← length_vals, (vals_perm h).length_eq, List.length_cons]

/-- Values that tell their keys tell each key once. -/
theorem vals_map_filed {m : KeyedMap κ α} {f : α → κ} (h : ∀ k v, m.get? k = some v → f v = k) :
    m.vals.map f = m.keys := by
  show (m.entries.map _).map f = m.entries.map _
  rw [List.map_map]
  exact List.map_congr_left fun entry he => h entry.1 entry.2 (mem_entries_iff.mp he)

/-- The values are what the keys look up. -/
theorem map_some_vals (m : KeyedMap κ α) : m.vals.map some = m.keys.map m.get? := by
  show (m.entries.map _).map some = (m.entries.map _).map m.get?
  rw [List.map_map, List.map_map]
  exact List.map_congr_left fun entry he => (mem_entries_iff.mp he).symm

/-- The number of entries, by any list of the keys without repetition. -/
theorem size_eq_length {m : KeyedMap κ α} {keys : List κ} (hnodup : keys.Nodup)
    (h : ∀ k, k ∈ keys ↔ (m.get? k).isSome = true) : m.size = keys.length := by
  rw [← length_keys]
  refine ((List.perm_ext_iff_of_nodup m.keys_nodup hnodup).mpr fun k => ?_).length_eq
  rw [h, mem_keys_iff, Option.isSome_iff_exists]

end KeyedMap
