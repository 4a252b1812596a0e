import TravelMode.Lib.KeyedView
import TravelMode.Gui.State
import Mathlib.Logic.Function.Basic

/-!
# Sections of live-sorted rows (`gui/src/pages/mod.rs`)

Both list pages keep a map of rows by key, and put each row's widget into one of a few
sections. A section is a GTK list box with a sort function, which knows its rows by the
*address* of their widgets and reads their sort keys through shared cells.

- `Gtk`: what the pages rely on GTK for. Addresses are distinct among living widgets only,
  so a new row may get the address of one that is gone.
- `SectionList` and `SortKey`, with `cmpRows`.
- `Page` and `Page.update`: the loop that both pages run over their collection, with the
  parts in which they differ as a `Design`.
- `Page.Ok`: sections know exactly the rows that are in them. `update_spec`: an update
  follows the collection key by key, from any page that is `Ok`; `update_settled`: it leaves
  every section sorted.
- `ranking_determined`: the order shown does not depend on how it was sorted.
-/

namespace TravelMode

/-! ## The toolkit -/

/-- What GTK does for the pages, as it documents it. -/
structure Gtk where
  /-- The address of a new widget, given those of the rows alive. -/
  address : List Nat → Nat
  /-- `invalidate_sort`: rows in the order of the sort function. -/
  sort : (Nat → Nat → Ordering) → List Nat → List Nat
  address_fresh : ∀ alive, address alive ∉ alive
  sort_perm : ∀ cmp rows, (sort cmp rows).Perm rows
  sort_sorted : ∀ cmp rows, KeyedView.Consistent cmp rows →
    (sort cmp rows).Pairwise fun a b => (cmp a b).isLE = true

/-- A toolkit that counts addresses up, and sorts by insertion. -/
def Gtk.plain : Gtk where
  address alive := alive.foldr max 0 + 1
  sort := KeyedView.arrange
  address_fresh alive hmem := by
    have hle : ∀ {n : Nat} {l : List Nat}, n ∈ l → n ≤ l.foldr max 0 := by
      intro n l hn
      induction l with
      | nil => cases hn
      | cons m l ih =>
        rcases List.mem_cons.mp hn with rfl | hn
        · exact Nat.le_max_left _ _
        · exact (ih hn).trans (Nat.le_max_right _ _)
    exact absurd (hle hmem) (Nat.not_succ_le_self _)
  sort_perm := KeyedView.arrange_perm
  sort_sorted _ _ h := KeyedView.arrange_sorted h

/-- Mutable sort key attached to a row. -/
structure SortKey where
  primary : Nat
  secondary : Nat
  name : String
deriving DecidableEq

/-- `cmp_rows`: primary key descending, secondary key descending, then name ascending. -/
def cmpRows (a b : SortKey) : Ordering :=
  ((compare b.primary a.primary).then (compare b.secondary a.secondary)).then
    (compare a.name b.name)

instance : Std.TransCmp cmpRows :=
  inferInstanceAs (Std.TransCmp (compareLex
    (compareLex (fun a b => compareOn SortKey.primary b a)
      (fun a b => compareOn SortKey.secondary b a))
    (compareOn SortKey.name)))

/-- Equal keys are one key: the order of rows with different keys is never left open. -/
instance : Std.LawfulEqCmp cmpRows where
  compare_self {a} := by simp [cmpRows]
  eq_of_compare {a b} h := by
    obtain ⟨h, hname⟩ := Ordering.then_eq_eq.mp h
    obtain ⟨hprimary, hsecondary⟩ := Ordering.then_eq_eq.mp h
    have hprimary := Std.LawfulEqOrd.eq_of_compare hprimary
    have hsecondary := Std.LawfulEqOrd.eq_of_compare hsecondary
    have hname := Std.LawfulEqOrd.eq_of_compare hname
    cases a
    cases b
    simp_all

/-- The cells that the sort keys live in; a row and its section share one. -/
abbrev Cells := KeyedMap Nat SortKey

/-- Set a cell, if it is there. -/
def Cells.modify (cells : Cells) (cell : Nat) (f : SortKey → SortKey) : Cells :=
  match cells.get? cell with
  | some key => cells.insert cell (f key)
  | none => cells

theorem Cells.get?_modify (cells : Cells) (cell : Nat) (f : SortKey → SortKey) (c : Nat) :
    (cells.modify cell f).get? c =
      if c = cell then (cells.get? c).map f else cells.get? c := by
  unfold Cells.modify
  cases h : cells.get? cell with
  | none =>
    by_cases hc : c = cell
    · rw [if_pos hc, hc, h]
      rfl
    · rw [if_neg hc]
  | some key =>
    by_cases hc : c = cell
    · subst hc
      simp [h]
    · rw [if_neg hc]
      exact KeyedMap.get?_insert_of_ne hc

/-! ## A section -/

/-- A titled section with its own list box. -/
structure SectionList where
  /-- Rows are mapped to their sort keys by widget address. -/
  keys : KeyedMap Nat Nat
  /-- The rows, as displayed. -/
  list : List Nat
  visible : Bool

namespace SectionList

/-- `SectionList::new`. -/
def new : SectionList := ⟨.empty, [], true⟩

/-- The sort function: rows that the section does not know keep their order. -/
def sortFunc (s : SectionList) (cells : Cells) (a b : Nat) : Ordering :=
  match (s.keys.get? a).bind cells.get?, (s.keys.get? b).bind cells.get? with
  | some x, some y => cmpRows x y
  | _, _ => .eq

/-- `invalidate`: re-apply the sort function. -/
def invalidate (gtk : Gtk) (cells : Cells) (s : SectionList) : SectionList :=
  { s with list := gtk.sort (s.sortFunc cells) s.list }

/-- `insert`: add a row. -/
def insert (gtk : Gtk) (cells : Cells) (row key : Nat) (s : SectionList) : SectionList :=
  invalidate gtk cells { s with keys := s.keys.insert row key, list := s.list ++ [row] }

/-- `remove`. -/
def remove (row : Nat) (s : SectionList) : SectionList :=
  { s with keys := s.keys.erase row, list := s.list.erase row }

/-- `len`. -/
def len (s : SectionList) : Nat := s.keys.size

/-- `is_empty`. -/
def isEmpty (s : SectionList) : Bool := s.len == 0

/-- The list box holds the rows of the section, each once. -/
structure Ok (s : SectionList) : Prop where
  nodup : s.list.Nodup
  mem : ∀ w, w ∈ s.list ↔ (s.keys.get? w).isSome = true

theorem Ok.invalidate {s : SectionList} (h : s.Ok) (gtk : Gtk) (cells : Cells) :
    (s.invalidate gtk cells).Ok where
  nodup := (gtk.sort_perm _ _).nodup_iff.mpr h.nodup
  mem w := (gtk.sort_perm _ _).mem_iff.trans (h.mem w)

theorem Ok.insert {s : SectionList} (h : s.Ok) (gtk : Gtk) (cells : Cells) {row : Nat}
    (hfresh : s.keys.get? row = none) (key : Nat) : (s.insert gtk cells row key).Ok := by
  have hout : row ∉ s.list := fun hin => by
    rw [h.mem, hfresh] at hin
    cases hin
  refine Ok.invalidate ⟨?_, fun w => ?_⟩ gtk cells
  · exact List.nodup_append.mpr ⟨h.nodup, List.nodup_singleton row, fun a ha b hb hab =>
      hout (List.mem_singleton.mp hb ▸ hab ▸ ha)⟩
  · show w ∈ s.list ++ [row] ↔ ((s.keys.insert row key).get? w).isSome = true
    rw [List.mem_append, List.mem_singleton, h.mem, KeyedMap.get?_insert]
    by_cases hw : w = row
    · simp [hw]
    · simp [hw]

theorem Ok.remove {s : SectionList} (h : s.Ok) (row : Nat) : (s.remove row).Ok where
  nodup := h.nodup.erase row
  mem w := by
    show w ∈ s.list.erase row ↔ ((s.keys.erase row).get? w).isSome = true
    rw [h.nodup.mem_erase_iff, h.mem, KeyedMap.get?_erase]
    by_cases hw : w = row
    · simp [hw]
    · simp [hw]

/-- A section without rows shows none. -/
theorem Ok.isEmpty_iff {s : SectionList} (h : s.Ok) : s.isEmpty = true ↔ s.list = [] := by
  have hlen : s.len = s.list.length := KeyedMap.size_eq_length h.nodup h.mem
  rw [isEmpty, hlen, beq_iff_eq, List.length_eq_zero_iff]

/-- **The sort function is an order on the rows of its section**, because the section knows
every row in its list and every cell is alive. -/
theorem Ok.consistent {s : SectionList} (h : s.Ok) {cells : Cells}
    (halive : ∀ w c, s.keys.get? w = some c → (cells.get? c).isSome = true) :
    KeyedView.Consistent (s.sortFunc cells) s.list := by
  have hknown : ∀ w ∈ s.list, ((s.keys.get? w).bind cells.get?).isSome = true := by
    intro w hw
    obtain ⟨c, hc⟩ := Option.isSome_iff_exists.mp ((h.mem w).mp hw)
    rw [hc]
    exact halive w c hc
  let keyOf := fun w => ((s.keys.get? w).bind cells.get?).getD ⟨0, 0, ""⟩
  have hcmp : ∀ a ∈ s.list, ∀ b ∈ s.list, s.sortFunc cells a b = cmpRows (keyOf a) (keyOf b) := by
    intro a ha b hb
    obtain ⟨x, hx⟩ := Option.isSome_iff_exists.mp (hknown a ha)
    obtain ⟨y, hy⟩ := Option.isSome_iff_exists.mp (hknown b hb)
    show (match (s.keys.get? a).bind cells.get?, (s.keys.get? b).bind cells.get? with
      | some x, some y => cmpRows x y
      | _, _ => Ordering.eq) = cmpRows (((s.keys.get? a).bind cells.get?).getD _)
        (((s.keys.get? b).bind cells.get?).getD _)
    rw [hx, hy]
    rfl
  exact KeyedView.consistent_of_key keyOf hcmp

end SectionList

/-! ## A page of rows -/

/-- A row: its widget, the section it lives in, its sort key's cell, and what it shows. -/
structure Row (ι ρ : Type) where
  widget : Nat
  home : ι
  sortKey : Nat
  face : ρ

/-- A page: sections, rows by key, and the label shown when there are none. -/
structure Page (ι ρ : Type) where
  sections : ι → SectionList
  rows : KeyedMap String (Row ι ρ)
  cells : Cells
  nextCell : Nat
  emptyLabel : Bool

/-- The parts in which the two pages differ: `α` is the collection's item, and `ω` what a
row that is made or refreshed sends. -/
structure Design (ι α ρ ω : Type) where
  all : List ι
  /-- The section of a new row. -/
  home : α → ι
  /-- The section that a row of a given section belongs in afterwards. -/
  place : ι → α → ι
  key : α → SortKey
  rekey : α → SortKey → SortKey
  make : α → ρ × List ω
  refresh : ρ → α → ρ × List ω

/-- What there is to see of a row. -/
structure Look (ι ρ : Type) where
  home : ι
  sortKey : SortKey
  face : ρ

namespace Page

variable {ι α ρ ω : Type} [DecidableEq ι]

/-- Work on one section. -/
def withSection (page : Page ι ρ) (i : ι) (f : SectionList → SectionList) : Page ι ρ :=
  { page with sections := Function.update page.sections i (f (page.sections i)) }

/-- Drop the row of a key, from the map and from its section. -/
def dropRow (page : Page ι ρ) (key : String) : Page ι ρ :=
  match page.rows.get? key with
  | none => page
  | some row =>
    withSection { page with rows := page.rows.erase key } row.home (·.remove row.widget)

/-- Put a row into its section and into the map. -/
def addRow (gtk : Gtk) (page : Page ι ρ) (key : String) (row : Row ι ρ) : Page ι ρ :=
  withSection { page with rows := page.rows.insert key row } row.home
    (·.insert gtk page.cells row.widget row.sortKey)

/-- Move a row's widget to another section, if that is where it belongs. -/
def moveRow (gtk : Gtk) (page : Page ι ρ) (key : String) (row : Row ι ρ) (dest : ι) :
    Page ι ρ :=
  if row.home = dest then page
  else
    (withSection { page with rows := page.rows.insert key { row with home := dest } } row.home
      (·.remove row.widget)).withSection dest
        (·.insert gtk page.cells row.widget row.sortKey)

/-- Set what a row shows, and its sort key. -/
def repaint (page : Page ι ρ) (key : String) (face : ρ) (rekey : SortKey → SortKey) :
    Page ι ρ :=
  match page.rows.get? key with
  | none => page
  | some row =>
    { page with
      rows := page.rows.insert key { row with face := face }
      cells := page.cells.modify row.sortKey rekey }

/-- A row for a new key, with a widget and a cell of its own. -/
def createRow (gtk : Gtk) (page : Page ι ρ) (key : String) (home : ι) (sortKey : SortKey)
    (face : ρ) : Page ι ρ :=
  addRow gtk
    { page with
      cells := page.cells.insert page.nextCell sortKey
      nextCell := page.nextCell + 1 }
    key
    { widget := gtk.address (page.rows.vals.map Row.widget)
      home := home
      sortKey := page.nextCell
      face := face }

/-- One turn of the loop over the collection: refresh the row of the item, or create it. -/
def visit (gtk : Gtk) (design : Design ι α ρ ω) (acc : Page ι ρ × List ω)
    (e : Σ _ : String, α) : Page ι ρ × List ω :=
  match acc.1.rows.get? e.1 with
  | some row =>
    let face := design.refresh row.face e.2
    ((acc.1.moveRow gtk e.1 row (design.place row.home e.2)).repaint e.1 face.1
      (design.rekey e.2), acc.2 ++ face.2)
  | none =>
    let face := design.make e.2
    (acc.1.createRow gtk e.1 (design.home e.2) (design.key e.2) face.1, acc.2 ++ face.2)

/-- The keys whose rows are to go. -/
def stale (page : Page ι ρ) (items : KeyedMap String α) : List String :=
  page.rows.keys.filter fun k => (items.get? k).isNone

/-- Re-sort, and hide empty sections. -/
def settle (gtk : Gtk) (all : List ι) (page : Page ι ρ) : Page ι ρ :=
  { page with
    sections := fun i =>
      let sorted := (page.sections i).invalidate gtk page.cells
      { sorted with visible := !sorted.isEmpty }
    emptyLabel := all.all fun i => (page.sections i).isEmpty }

/-- The update of a page: drop stale rows, visit every item, settle. -/
def update (gtk : Gtk) (design : Design ι α ρ ω) (page : Page ι ρ)
    (items : KeyedMap String α) : Page ι ρ × List ω :=
  let visited := items.entries.foldl (visit gtk design) ((page.stale items).foldl dropRow page, [])
  (settle gtk design.all visited.1, visited.2)

/-- What there is to see of the row of a key. -/
def look (page : Page ι ρ) (key : String) : Option (Look ι ρ) :=
  (page.rows.get? key).bind fun row =>
    (page.cells.get? row.sortKey).map fun sortKey => ⟨row.home, sortKey, row.face⟩

/-- The keys of the rows of a section, in the order they are displayed in. -/
def displayed (page : Page ι ρ) (i : ι) : List String :=
  (page.sections i).list.filterMap fun w =>
    (page.rows.entries.find? fun e => e.2.widget == w).map fun e => e.1

/-! ## Sections know their rows -/

/-- Each row has a widget and a living cell of its own, and each section knows the widgets and
the cells of the rows that are in it. -/
structure Ok (page : Page ι ρ) : Prop where
  widgets : ∀ {j k r s}, page.rows.get? j = some r → page.rows.get? k = some s →
    r.widget = s.widget → j = k
  sortKeys : ∀ {j k r s}, page.rows.get? j = some r → page.rows.get? k = some s →
    r.sortKey = s.sortKey → j = k
  alive : ∀ {k r}, page.rows.get? k = some r →
    (page.cells.get? r.sortKey).isSome = true ∧ r.sortKey < page.nextCell
  listed : ∀ i w c, (page.sections i).keys.get? w = some c ↔
    ∃ k r, page.rows.get? k = some r ∧ r.home = i ∧ r.widget = w ∧ r.sortKey = c
  sections : ∀ i, (page.sections i).Ok

/-- The page without rows. -/
def new (shown : ι → Bool) : Page ι ρ where
  sections i := { SectionList.new with visible := shown i }
  rows := .empty
  cells := .empty
  nextCell := 0
  emptyLabel := true

omit [DecidableEq ι] in
theorem ok_new (shown : ι → Bool) : (new shown : Page ι ρ).Ok where
  widgets h := nomatch h
  sortKeys h := nomatch h
  alive h := nomatch h
  listed i w c := by
    constructor
    · exact fun h => nomatch h
    · rintro ⟨k, r, h, -⟩
      cases h
  sections i := ⟨List.nodup_nil, fun w => by simp [new, SectionList.new]⟩

variable {page : Page ι ρ}

omit [DecidableEq ι] in
/-- A section that a row is not in does not know the row's widget. -/
theorem Ok.unlisted (h : page.Ok) {w : Nat}
    (hfree : ∀ k r, page.rows.get? k = some r → r.widget ≠ w) (i : ι) :
    (page.sections i).keys.get? w = none := by
  cases hw : (page.sections i).keys.get? w with
  | none => rfl
  | some c =>
    obtain ⟨k, r, hr, -, hwidget, -⟩ := (h.listed i w c).mp hw
    exact absurd hwidget (hfree k r hr)

theorem dropRow_rows (page : Page ι ρ) (key j : String) :
    (page.dropRow key).rows.get? j = if j = key then none else page.rows.get? j := by
  unfold dropRow
  cases hrow : page.rows.get? key with
  | none =>
    by_cases hj : j = key
    · rw [if_pos hj, hj, hrow]
    · rw [if_neg hj]
  | some row => exact KeyedMap.get?_erase ..

theorem dropRow_cells (page : Page ι ρ) (key : String) :
    (page.dropRow key).cells = page.cells := by
  unfold dropRow
  cases page.rows.get? key <;> rfl

theorem dropRow_nextCell (page : Page ι ρ) (key : String) :
    (page.dropRow key).nextCell = page.nextCell := by
  unfold dropRow
  cases page.rows.get? key <;> rfl

/-- A row that is still there after a drop is another one, and was there before. -/
theorem dropRow_some {key j : String} {r : Row ι ρ}
    (h : (page.dropRow key).rows.get? j = some r) : j ≠ key ∧ page.rows.get? j = some r := by
  rw [dropRow_rows] at h
  by_cases hj : j = key
  · rw [if_pos hj] at h
    cases h
  · rw [if_neg hj] at h
    exact ⟨hj, h⟩

theorem Ok.dropRow (h : page.Ok) (key : String) : (page.dropRow key).Ok := by
  cases hrow : page.rows.get? key with
  | none =>
    have hsame : page.dropRow key = page := by
      unfold Page.dropRow
      rw [hrow]
    rw [hsame]
    exact h
  | some row =>
    have hsections : (page.dropRow key).sections =
        Function.update page.sections row.home ((page.sections row.home).remove row.widget) := by
      unfold Page.dropRow
      rw [hrow]
      rfl
    have hstill : ∀ k r, (page.dropRow key).rows.get? k = some r ↔
        k ≠ key ∧ page.rows.get? k = some r := by
      intro k r
      refine ⟨dropRow_some, fun ⟨hk, hr⟩ => ?_⟩
      rw [dropRow_rows, if_neg hk, hr]
    constructor
    · exact fun hj hk => h.widgets (dropRow_some hj).2 (dropRow_some hk).2
    · exact fun hj hk => h.sortKeys (dropRow_some hj).2 (dropRow_some hk).2
    · intro k r hr
      rw [dropRow_cells, dropRow_nextCell]
      exact h.alive (dropRow_some hr).2
    · intro i w c
      rw [hsections]
      by_cases hi : i = row.home
      · subst hi
        rw [Function.update_self]
        show ((page.sections row.home).keys.erase row.widget).get? w = some c ↔ _
        rw [KeyedMap.get?_erase]
        constructor
        · intro hw
          by_cases hself : w = row.widget
          · rw [if_pos hself] at hw
            cases hw
          · rw [if_neg hself] at hw
            obtain ⟨k, r, hr, hhome, hwidget, hcell⟩ := (h.listed _ w c).mp hw
            refine ⟨k, r, (hstill k r).mpr ⟨?_, hr⟩, hhome, hwidget, hcell⟩
            rintro rfl
            rw [hrow] at hr
            cases hr
            exact hself hwidget.symm
        · rintro ⟨k, r, hr, hhome, hwidget, hcell⟩
          obtain ⟨hk, hr⟩ := dropRow_some hr
          have hother : w ≠ row.widget := fun hw => hk (h.widgets hr hrow (hwidget.trans hw))
          rw [if_neg hother]
          exact (h.listed _ w c).mpr ⟨k, r, hr, hhome, hwidget, hcell⟩
      · rw [Function.update_of_ne hi, h.listed i w c]
        refine exists_congr fun k => exists_congr fun r => ?_
        rw [hstill]
        constructor
        · rintro ⟨hr, hhome, hrest⟩
          refine ⟨⟨?_, hr⟩, hhome, hrest⟩
          rintro rfl
          rw [hrow] at hr
          cases hr
          exact hi hhome.symm
        · rintro ⟨⟨-, hr⟩, hrest⟩
          exact ⟨hr, hrest⟩
    · intro i
      rw [hsections]
      by_cases hi : i = row.home
      · subst hi
        rw [Function.update_self]
        exact (h.sections _).remove _
      · rw [Function.update_of_ne hi]
        exact h.sections i

/-- A row whose widget and cell no other row has. -/
structure Free (page : Page ι ρ) (row : Row ι ρ) : Prop where
  widget : ∀ k r, page.rows.get? k = some r → r.widget ≠ row.widget
  sortKey : ∀ k r, page.rows.get? k = some r → r.sortKey ≠ row.sortKey
  alive : (page.cells.get? row.sortKey).isSome = true ∧ row.sortKey < page.nextCell

section AddRow

variable {gtk : Gtk} {key : String} {row : Row ι ρ}

theorem addRow_rows (page : Page ι ρ) (key : String) (row : Row ι ρ) (j : String) :
    (page.addRow gtk key row).rows.get? j = if j = key then some row else page.rows.get? j :=
  KeyedMap.get?_insert ..

/-- A row is the one added, or was there before. -/
theorem addRow_some {j : String} {r : Row ι ρ}
    (h : (page.addRow gtk key row).rows.get? j = some r) :
    j = key ∧ r = row ∨ j ≠ key ∧ page.rows.get? j = some r := by
  rw [addRow_rows] at h
  by_cases hj : j = key
  · rw [if_pos hj] at h
    cases h
    exact .inl ⟨hj, rfl⟩
  · rw [if_neg hj] at h
    exact .inr ⟨hj, h⟩

/-- The other rows are those that were there before. -/
theorem addRow_others (hnone : page.rows.get? key = none) {P : Row ι ρ → Prop} (hP : ¬P row) :
    (∃ k r, page.rows.get? k = some r ∧ P r) ↔
      ∃ k r, (page.addRow gtk key row).rows.get? k = some r ∧ P r := by
  constructor
  · rintro ⟨k, r, hr, hPr⟩
    have hk : k ≠ key := by
      rintro rfl
      rw [hnone] at hr
      cases hr
    exact ⟨k, r, by rw [addRow_rows, if_neg hk, hr], hPr⟩
  · rintro ⟨k, r, hr, hPr⟩
    rcases addRow_some hr with ⟨-, hrow⟩ | ⟨-, hr⟩
    · exact absurd (hrow ▸ hPr) hP
    · exact ⟨k, r, hr, hPr⟩

/-- Two rows with the same widget or the same cell are one, also with the one added. -/
theorem addRow_injective {f : Row ι ρ → Nat}
    (hfree : ∀ k r, page.rows.get? k = some r → f r ≠ f row)
    (hinj : ∀ {j k r s}, page.rows.get? j = some r → page.rows.get? k = some s → f r = f s → j = k)
    {j k : String} {r s : Row ι ρ} (hr : (page.addRow gtk key row).rows.get? j = some r)
    (hs : (page.addRow gtk key row).rows.get? k = some s) (h : f r = f s) : j = k := by
  rcases addRow_some hr with ⟨hj, hrow⟩ | ⟨-, hr⟩ <;>
    rcases addRow_some hs with ⟨hk, hsrow⟩ | ⟨-, hs⟩
  · rw [hj, hk]
  · exact absurd (hrow ▸ h.symm) (hfree k s hs)
  · exact absurd (hsrow ▸ h) (hfree j r hr)
  · exact hinj hr hs h

theorem Ok.addRow (h : page.Ok) (gtk : Gtk) (hnone : page.rows.get? key = none)
    (hfree : page.Free row) : (page.addRow gtk key row).Ok := by
  have hsections : (page.addRow gtk key row).sections =
      Function.update page.sections row.home
        ((page.sections row.home).insert gtk page.cells row.widget row.sortKey) := rfl
  constructor
  · exact addRow_injective hfree.widget h.widgets
  · exact addRow_injective hfree.sortKey h.sortKeys
  · intro k r hr
    rcases addRow_some hr with ⟨-, rfl⟩ | ⟨-, hr⟩
    · exact hfree.alive
    · exact h.alive hr
  · intro i w c
    rw [hsections]
    by_cases hi : i = row.home
    · subst hi
      rw [Function.update_self]
      show ((page.sections row.home).keys.insert row.widget row.sortKey).get? w = some c ↔ _
      rw [KeyedMap.get?_insert]
      by_cases hw : w = row.widget
      · -- the new row's widget: no other row has it
        rw [if_pos hw]
        constructor
        · intro hc
          cases hc
          exact ⟨key, row, by rw [addRow_rows, if_pos rfl], rfl, hw.symm, rfl⟩
        · rintro ⟨k, r, hr, -, hwidget, hcell⟩
          rcases addRow_some hr with ⟨-, rfl⟩ | ⟨-, hr⟩
          · rw [hcell]
          · exact absurd (hwidget.trans hw) (hfree.widget k r hr)
      · rw [if_neg hw, h.listed]
        exact addRow_others hnone fun hP => hw hP.2.1.symm
    · rw [Function.update_of_ne hi, h.listed i w c]
      exact addRow_others hnone fun hP => hi hP.1.symm
  · intro i
    rw [hsections]
    by_cases hi : i = row.home
    · subst hi
      rw [Function.update_self]
      exact (h.sections _).insert gtk _ (h.unlisted hfree.widget _) _
    · rw [Function.update_of_ne hi]
      exact h.sections i

end AddRow

/-! ## What each operation does to the rows in view -/

omit [DecidableEq ι] in
theorem look_eq_some {key : String} {l : Look ι ρ} :
    page.look key = some l ↔ ∃ row sortKey, page.rows.get? key = some row ∧
      page.cells.get? row.sortKey = some sortKey ∧ ⟨row.home, sortKey, row.face⟩ = l := by
  simp only [look, Option.bind_eq_some_iff, Option.map_eq_some_iff]
  constructor
  · rintro ⟨row, hrow, sortKey, hkey, hl⟩
    exact ⟨row, sortKey, hrow, hkey, hl⟩
  · rintro ⟨row, sortKey, hrow, hkey, hl⟩
    exact ⟨row, hrow, sortKey, hkey, hl⟩

omit [DecidableEq ι] in
theorem look_of_none {key : String} (h : page.rows.get? key = none) : page.look key = none := by
  rw [look, h]
  rfl

omit [DecidableEq ι] in
/-- Every row is in view: its cell is alive. -/
theorem Ok.look (h : page.Ok) {key : String} {row : Row ι ρ}
    (hrow : page.rows.get? key = some row) :
    ∃ sortKey, page.cells.get? row.sortKey = some sortKey ∧
      page.look key = some ⟨row.home, sortKey, row.face⟩ := by
  obtain ⟨sortKey, hkey⟩ := Option.isSome_iff_exists.mp (h.alive hrow).1
  exact ⟨sortKey, hkey, look_eq_some.mpr ⟨row, sortKey, hrow, hkey, rfl⟩⟩

theorem look_dropRow (page : Page ι ρ) (key j : String) :
    (page.dropRow key).look j = if j = key then none else page.look j := by
  rw [look, dropRow_rows, dropRow_cells]
  by_cases hj : j = key
  · rw [if_pos hj, if_pos hj]
    rfl
  · rw [if_neg hj, if_neg hj]
    rfl

theorem look_addRow (page : Page ι ρ) (gtk : Gtk) (key : String) (row : Row ι ρ) (j : String) :
    (page.addRow gtk key row).look j =
      if j = key then (page.cells.get? row.sortKey).map fun sortKey => ⟨row.home, sortKey, row.face⟩
      else page.look j := by
  rw [look, addRow_rows]
  by_cases hj : j = key
  · rw [if_pos hj, if_pos hj]
    rfl
  · rw [if_neg hj, if_neg hj]
    rfl

/-- A move is a drop and an addition. -/
theorem moveRow_eq {gtk : Gtk} {key : String} {row : Row ι ρ} {dest : ι}
    (hrow : page.rows.get? key = some row) (hne : row.home ≠ dest) :
    page.moveRow gtk key row dest =
      (page.dropRow key).addRow gtk key { row with home := dest } := by
  unfold moveRow dropRow
  rw [if_neg hne, hrow]
  simp only [addRow, withSection, KeyedMap.insert_erase]

theorem moveRow_spec (h : page.Ok) (gtk : Gtk) {key : String} {row : Row ι ρ} (dest : ι)
    (hrow : page.rows.get? key = some row) :
    (page.moveRow gtk key row dest).Ok ∧
      (page.moveRow gtk key row dest).rows.get? key = some { row with home := dest } ∧
      ∀ j, (page.moveRow gtk key row dest).look j =
        if j = key then (page.look j).map fun l => { l with home := dest } else page.look j := by
  obtain ⟨sortKey, hkey, hlook⟩ := h.look hrow
  by_cases hhome : row.home = dest
  · have hsame : page.moveRow gtk key row dest = page := if_pos hhome
    rw [hsame]
    refine ⟨h, by rw [hrow, ← hhome], fun j => ?_⟩
    by_cases hj : j = key
    · rw [if_pos hj, hj, hlook, ← hhome]
      rfl
    · rw [if_neg hj]
  · rw [moveRow_eq hrow hhome]
    have hnone : (page.dropRow key).rows.get? key = none := by rw [dropRow_rows, if_pos rfl]
    have hfree : (page.dropRow key).Free { row with home := dest } :=
      { widget := fun k r hr heq =>
          (dropRow_some hr).1 (h.widgets (dropRow_some hr).2 hrow heq)
        sortKey := fun k r hr heq =>
          (dropRow_some hr).1 (h.sortKeys (dropRow_some hr).2 hrow heq)
        alive := by
          rw [dropRow_cells, dropRow_nextCell]
          show (page.cells.get? row.sortKey).isSome = true ∧ row.sortKey < page.nextCell
          exact h.alive hrow }
    refine ⟨(h.dropRow key).addRow gtk hnone hfree, by rw [addRow_rows, if_pos rfl], fun j => ?_⟩
    rw [look_addRow, look_dropRow, dropRow_cells]
    by_cases hj : j = key
    · rw [if_pos hj, if_pos hj, hj, hlook, hkey]
      rfl
    · rw [if_neg hj, if_neg hj, if_neg hj]

omit [DecidableEq ι] in
/-- Rows that keep their places, widgets and cells are as well listed as before. -/
theorem Ok.of_frames (h : page.Ok) {rows : KeyedMap String (Row ι ρ)} {cells : Cells}
    (hthere : ∀ {k r}, rows.get? k = some r → ∃ r₀, page.rows.get? k = some r₀ ∧
      r₀.home = r.home ∧ r₀.widget = r.widget ∧ r₀.sortKey = r.sortKey)
    (hback : ∀ {k r₀}, page.rows.get? k = some r₀ → ∃ r, rows.get? k = some r ∧
      r₀.home = r.home ∧ r₀.widget = r.widget ∧ r₀.sortKey = r.sortKey)
    (hcells : ∀ c, (page.cells.get? c).isSome = true → (cells.get? c).isSome = true) :
    Ok { page with rows := rows, cells := cells } where
  widgets := by
    intro j k r s hr hs hw
    obtain ⟨r₀, hr₀, -, hrw, -⟩ := hthere hr
    obtain ⟨s₀, hs₀, -, hsw, -⟩ := hthere hs
    exact h.widgets hr₀ hs₀ (hrw.trans (hw.trans hsw.symm))
  sortKeys := by
    intro j k r s hr hs hw
    obtain ⟨r₀, hr₀, -, -, hrk⟩ := hthere hr
    obtain ⟨s₀, hs₀, -, -, hsk⟩ := hthere hs
    exact h.sortKeys hr₀ hs₀ (hrk.trans (hw.trans hsk.symm))
  alive := by
    intro k r hr
    obtain ⟨r₀, hr₀, -, -, hcell⟩ := hthere hr
    rw [← hcell]
    exact ⟨hcells _ (h.alive hr₀).1, (h.alive hr₀).2⟩
  listed := by
    intro i w c
    rw [h.listed i w c]
    constructor
    · rintro ⟨k, r₀, hr₀, hhome, hwidget, hcell⟩
      obtain ⟨r, hr, hh, hw, hc⟩ := hback hr₀
      exact ⟨k, r, hr, hh ▸ hhome, hw ▸ hwidget, hc ▸ hcell⟩
    · rintro ⟨k, r, hr, hhome, hwidget, hcell⟩
      obtain ⟨r₀, hr₀, hh, hw, hc⟩ := hthere hr
      exact ⟨k, r₀, hr₀, hh ▸ hhome, hw ▸ hwidget, hc ▸ hcell⟩
  sections := h.sections

omit [DecidableEq ι] in
theorem repaint_spec (h : page.Ok) {key : String} {row : Row ι ρ}
    (hrow : page.rows.get? key = some row) (face : ρ) (rekey : SortKey → SortKey) :
    (page.repaint key face rekey).Ok ∧ ∀ j, (page.repaint key face rekey).look j =
      if j = key then (page.look j).map fun l => ⟨l.home, rekey l.sortKey, face⟩
      else page.look j := by
  have heq : page.repaint key face rekey =
      { page with
        rows := page.rows.insert key { row with face := face }
        cells := page.cells.modify row.sortKey rekey } := by
    unfold repaint
    rw [hrow]
  rw [heq]
  refine ⟨h.of_frames ?_ ?_ ?_, fun j => ?_⟩
  · intro k r hr
    rw [KeyedMap.get?_insert] at hr
    by_cases hk : k = key
    · rw [if_pos hk] at hr
      cases hr
      exact ⟨row, hk ▸ hrow, rfl, rfl, rfl⟩
    · rw [if_neg hk] at hr
      exact ⟨r, hr, rfl, rfl, rfl⟩
  · intro k r₀ hr
    rw [KeyedMap.get?_insert]
    by_cases hk : k = key
    · rw [hk, hrow] at hr
      cases hr
      exact ⟨{ row with face := face }, if_pos hk, rfl, rfl, rfl⟩
    · exact ⟨r₀, by rw [if_neg hk, hr], rfl, rfl, rfl⟩
  · intro c hc
    rw [Cells.get?_modify]
    by_cases hcell : c = row.sortKey
    · rw [if_pos hcell, Option.isSome_map]
      exact hc
    · rw [if_neg hcell]
      exact hc
  · by_cases hj : j = key
    · obtain ⟨sortKey, hkey, hlook⟩ := h.look hrow
      rw [if_pos hj, hj, hlook]
      refine look_eq_some.mpr
        ⟨{ row with face := face }, rekey sortKey, KeyedMap.get?_insert_self .., ?_, rfl⟩
      show (page.cells.modify row.sortKey rekey).get? row.sortKey = _
      rw [Cells.get?_modify, if_pos rfl, hkey]
      rfl
    · rw [if_neg hj]
      show ((page.rows.insert key { row with face := face }).get? j).bind _ = _
      rw [KeyedMap.get?_insert, if_neg hj, look]
      cases hr : page.rows.get? j with
      | none => rfl
      | some r =>
        -- another row has another cell
        have hother : r.sortKey ≠ row.sortKey := fun hc => hj (h.sortKeys hr hrow hc)
        show ((page.cells.modify row.sortKey rekey).get? r.sortKey).map _ =
          (page.cells.get? r.sortKey).map _
        rw [Cells.get?_modify, if_neg hother]

theorem createRow_spec (h : page.Ok) (gtk : Gtk) {key : String}
    (hnone : page.rows.get? key = none) (home : ι) (sortKey : SortKey) (face : ρ) :
    (page.createRow gtk key home sortKey face).Ok ∧
      ∀ j, (page.createRow gtk key home sortKey face).look j =
        if j = key then some ⟨home, sortKey, face⟩ else page.look j := by
  let page' : Page ι ρ :=
    { page with
      cells := page.cells.insert page.nextCell sortKey
      nextCell := page.nextCell + 1 }
  let row : Row ι ρ := ⟨gtk.address (page.rows.vals.map Row.widget), home, page.nextCell, face⟩
  have hkept : ∀ {k r}, page.rows.get? k = some r →
      (page.cells.insert page.nextCell sortKey).get? r.sortKey = page.cells.get? r.sortKey :=
    fun hr => KeyedMap.get?_insert_of_ne (Nat.ne_of_lt (h.alive hr).2)
  have h' : page'.Ok :=
    { widgets := h.widgets
      sortKeys := h.sortKeys
      alive := fun hr => by
        refine ⟨?_, Nat.lt_succ_of_lt (h.alive hr).2⟩
        show ((page.cells.insert page.nextCell sortKey).get? _).isSome = true
        rw [hkept hr]
        exact (h.alive hr).1
      listed := h.listed
      sections := h.sections }
  have hfree : page'.Free row :=
    { widget := fun k r hr heq => by
        refine gtk.address_fresh (page.rows.vals.map Row.widget) ?_
        show row.widget ∈ _
        rw [← heq]
        exact List.mem_map.mpr ⟨r, KeyedMap.mem_vals_iff.mpr ⟨k, hr⟩, rfl⟩
      sortKey := fun k r hr => Nat.ne_of_lt (h.alive hr).2
      alive := ⟨by simp [page', row], Nat.lt_succ_self _⟩ }
  have heq : page.createRow gtk key home sortKey face = page'.addRow gtk key row := rfl
  rw [heq]
  refine ⟨h'.addRow gtk hnone hfree, fun j => ?_⟩
  rw [look_addRow]
  by_cases hj : j = key
  · rw [if_pos hj, if_pos hj]
    show ((page.cells.insert page.nextCell sortKey).get? page.nextCell).map _ = _
    rw [KeyedMap.get?_insert_self]
    rfl
  · rw [if_neg hj, if_neg hj]
    show (page.rows.get? j).bind _ = (page.rows.get? j).bind _
    cases hr : page.rows.get? j with
    | none => rfl
    | some r =>
      show ((page.cells.insert page.nextCell sortKey).get? r.sortKey).map _ = _
      rw [hkept hr]
      rfl

/-! ## An update follows the collection -/

/-- What there is to see of a row that was just made. -/
def made (design : Design ι α ρ ω) (a : α) : Look ι ρ :=
  ⟨design.home a, design.key a, (design.make a).1⟩

/-- What there is to see of a row that was just refreshed. -/
def refreshed (design : Design ι α ρ ω) (l : Look ι ρ) (a : α) : Look ι ρ :=
  ⟨design.place l.home a, design.rekey a l.sortKey, (design.refresh l.face a).1⟩

theorem visit_spec {acc : Page ι ρ × List ω} (e : Σ _ : String, α) (h : acc.1.Ok) (gtk : Gtk)
    (design : Design ι α ρ ω) :
    (visit gtk design acc e).1.Ok ∧ ∀ j, (visit gtk design acc e).1.look j =
      if j = e.1 then KeyedView.follow (made design) (refreshed design) (acc.1.look j) (some e.2)
      else acc.1.look j := by
  unfold visit
  cases hrow : acc.1.rows.get? e.1 with
  | none =>
    obtain ⟨hok, hlook⟩ := createRow_spec h gtk hrow (design.home e.2) (design.key e.2)
      (design.make e.2).1
    refine ⟨hok, fun j => (hlook j).trans ?_⟩
    by_cases hj : j = e.1
    · rw [if_pos hj, if_pos hj, hj, look_of_none hrow]
      rfl
    · rw [if_neg hj, if_neg hj]
  | some row =>
    obtain ⟨hmoved, hrow', hlook⟩ := moveRow_spec h gtk (design.place row.home e.2) hrow
    obtain ⟨hok, hlook'⟩ := repaint_spec hmoved hrow' (design.refresh row.face e.2).1
      (design.rekey e.2)
    obtain ⟨sortKey, -, hbefore⟩ := h.look hrow
    refine ⟨hok, fun j => (hlook' j).trans ?_⟩
    rw [hlook j]
    by_cases hj : j = e.1
    · rw [if_pos hj, if_pos hj, if_pos hj, hj, hbefore]
      rfl
    · rw [if_neg hj, if_neg hj, if_neg hj]

theorem dropRows_spec (h : page.Ok) (keys : List String) :
    (keys.foldl dropRow page).Ok ∧
      ∀ j, (keys.foldl dropRow page).look j = if j ∈ keys then none else page.look j := by
  induction keys generalizing page with
  | nil => exact ⟨h, fun j => rfl⟩
  | cons key keys ih =>
    obtain ⟨hok, hlook⟩ := ih (h.dropRow key)
    refine ⟨hok, fun j => ?_⟩
    rw [List.foldl_cons, hlook, look_dropRow]
    by_cases hj : j ∈ keys
    · rw [if_pos hj, if_pos (List.mem_cons_of_mem _ hj)]
    · rw [if_neg hj]
      simp [hj]

/-- Dropping the stale rows keeps those of the keys that are still there. -/
theorem dropStale_spec (h : page.Ok) (items : KeyedMap String α) :
    ((page.stale items).foldl dropRow page).Ok ∧
      ∀ j, ((page.stale items).foldl dropRow page).look j =
        (items.get? j).bind fun _ => page.look j := by
  obtain ⟨hok, hlook⟩ := dropRows_spec h (page.stale items)
  refine ⟨hok, fun j => (hlook j).trans ?_⟩
  by_cases hj : j ∈ page.stale items
  · have hgone : items.get? j = none := by simpa using (List.mem_filter.mp hj).2
    rw [if_pos hj, hgone]
    rfl
  · rw [if_neg hj]
    cases hitem : items.get? j with
    | some a => rfl
    | none =>
      -- neither an item nor stale: there was no row
      refine look_of_none (KeyedMap.get?_eq_none_iff.mpr fun hkey => hj ?_)
      exact List.mem_filter.mpr ⟨hkey, by rw [hitem]; rfl⟩

omit [DecidableEq ι] in
theorem Ok.settle (h : page.Ok) (gtk : Gtk) (all : List ι) : (page.settle gtk all).Ok where
  widgets := h.widgets
  sortKeys := h.sortKeys
  alive := h.alive
  listed := h.listed
  sections i :=
    let hsorted := (h.sections i).invalidate gtk page.cells
    ⟨hsorted.nodup, hsorted.mem⟩

/-- **An update follows the collection**: each key's row is made, refreshed or dropped as its
item came, stayed or went, in whatever order the collection was visited. -/
theorem update_spec (h : page.Ok) (gtk : Gtk) (design : Design ι α ρ ω)
    (items : KeyedMap String α) :
    (page.update gtk design items).1.Ok ∧ ∀ key, (page.update gtk design items).1.look key =
      KeyedView.follow (made design) (refreshed design) (page.look key) (items.get? key) := by
  obtain ⟨hdropped, hlook⟩ := dropStale_spec h items
  have hone := fun (acc : Page ι ρ × List ω) e (hacc : acc.1.Ok) => visit_spec e hacc gtk design
  obtain ⟨hvisited, hlook'⟩ := KeyedView.foldl_entries
    (fun acc : Page ι ρ × List ω => acc.1.Ok) (fun acc key => acc.1.look key)
    (fun a l => KeyedView.follow (made design) (refreshed design) l (some a))
    (fun {acc} e hacc => (hone acc e hacc).1) (fun {acc} e key hacc => (hone acc e hacc).2 key)
    items (show ((page.stale items).foldl dropRow page, ([] : List ω)).1.Ok from hdropped)
  refine ⟨hvisited.settle gtk design.all, fun key => (hlook' key).trans ?_⟩
  rw [hlook key]
  cases items.get? key with
  | none => rfl
  | some a => rfl

/-- An update whose rows send nothing when made or refreshed sends nothing. -/
theorem update_silent {design : Design ι α ρ ω} (hmake : ∀ a, (design.make a).2 = [])
    (hrefresh : ∀ r a, (design.refresh r a).2 = []) (gtk : Gtk) (page : Page ι ρ)
    (items : KeyedMap String α) : (page.update gtk design items).2 = [] := by
  have hvisit : ∀ (acc : Page ι ρ × List ω) e, (visit gtk design acc e).2 = acc.2 := by
    intro acc e
    unfold visit
    cases acc.1.rows.get? e.1 with
    | none =>
      show acc.2 ++ (design.make e.2).2 = acc.2
      rw [hmake, List.append_nil]
    | some row =>
      show acc.2 ++ (design.refresh row.face e.2).2 = acc.2
      rw [hrefresh, List.append_nil]
  have hloop : ∀ (es : List (Σ _ : String, α)) (acc : Page ι ρ × List ω),
      (es.foldl (visit gtk design) acc).2 = acc.2 := by
    intro es
    induction es with
    | nil => exact fun acc => rfl
    | cons e es ih => exact fun acc => (ih _).trans (hvisit acc e)
  exact hloop items.entries _

/-! ## What is displayed -/

omit [DecidableEq ι] in
/-- The row behind a widget in the list of a section. -/
theorem Ok.row_of_mem (h : page.Ok) {i : ι} {w : Nat} (hw : w ∈ (page.sections i).list) :
    ∃ key row, page.rows.get? key = some row ∧ row.home = i ∧ row.widget = w ∧
      (page.sections i).keys.get? w = some row.sortKey ∧
      (page.rows.entries.find? fun e => e.2.widget == w) = some ⟨key, row⟩ := by
  obtain ⟨c, hc⟩ := Option.isSome_iff_exists.mp (((h.sections i).mem w).mp hw)
  obtain ⟨key, row, hrow, hhome, hwidget, hcell⟩ := (h.listed i w c).mp hc
  refine ⟨key, row, hrow, hhome, hwidget, hcell ▸ hc, ?_⟩
  have hfound : ((page.rows.entries.find? fun e => e.2.widget == w)).isSome = true :=
    List.find?_isSome.mpr
      ⟨⟨key, row⟩, KeyedMap.mem_entries_iff.mpr hrow, by simpa using hwidget⟩
  obtain ⟨⟨k, r⟩, hkr⟩ := Option.isSome_iff_exists.mp hfound
  have hr : page.rows.get? k = some r := KeyedMap.mem_entries_iff.mp (List.mem_of_find?_eq_some hkr)
  have hrw : r.widget = w := by simpa using List.find?_some hkr
  -- widgets tell rows apart
  have hk : k = key := h.widgets hr hrow (hrw.trans hwidget.symm)
  subst hk
  rw [hr] at hrow
  cases hrow
  exact hkr

omit [DecidableEq ι] in
/-- **A section displays its rows**: a key is in the list of a section exactly if its row is
in that section. -/
theorem Ok.mem_displayed (h : page.Ok) (i : ι) (key : String) :
    key ∈ page.displayed i ↔ ∃ l, page.look key = some l ∧ l.home = i := by
  rw [displayed, List.mem_filterMap]
  constructor
  · rintro ⟨w, hw, hkey⟩
    obtain ⟨k, row, hrow, hhome, -, -, hfind⟩ := h.row_of_mem hw
    rw [hfind] at hkey
    cases hkey
    obtain ⟨sortKey, -, hlook⟩ := h.look hrow
    exact ⟨_, hlook, hhome⟩
  · rintro ⟨l, hl, hhome⟩
    obtain ⟨row, sortKey, hrow, -, rfl⟩ := look_eq_some.mp hl
    have hlisted : (page.sections i).keys.get? row.widget = some row.sortKey :=
      (h.listed i _ _).mpr ⟨key, row, hrow, hhome, rfl, rfl⟩
    have hw : row.widget ∈ (page.sections i).list :=
      ((h.sections i).mem _).mpr (by rw [hlisted]; rfl)
    obtain ⟨k, r, hr, -, hwidget, -, hfind⟩ := h.row_of_mem hw
    exact ⟨row.widget, hw, by rw [hfind, h.widgets hr hrow hwidget]; rfl⟩

omit [DecidableEq ι] in
/-- The key found for a widget is the key of a row with that widget. -/
theorem row_of_find {w : Nat} {key : String}
    (h : ((page.rows.entries.find? fun e => e.2.widget == w).map fun e => e.1) = some key) :
    ∃ row, page.rows.get? key = some row ∧ row.widget = w := by
  obtain ⟨⟨k, row⟩, hfind, rfl⟩ := Option.map_eq_some_iff.mp h
  exact ⟨row, KeyedMap.mem_entries_iff.mp (List.mem_of_find?_eq_some hfind),
    by simpa using List.find?_some hfind⟩

omit [DecidableEq ι] in
/-- No key is displayed twice. -/
theorem Ok.nodup_displayed (h : page.Ok) (i : ι) : (page.displayed i).Nodup := by
  refine List.Nodup.filterMap (fun v w key hv hw => ?_) (h.sections i).nodup
  obtain ⟨row, hrow, rfl⟩ := row_of_find hv
  obtain ⟨row', hrow', rfl⟩ := row_of_find hw
  rw [hrow] at hrow'
  cases hrow'
  rfl

omit [DecidableEq ι] in
/-- A section is empty exactly if it displays nothing. -/
theorem Ok.isEmpty_iff (h : page.Ok) (i : ι) :
    (page.sections i).isEmpty = true ↔ page.displayed i = [] := by
  rw [(h.sections i).isEmpty_iff, List.eq_nil_iff_forall_not_mem, List.eq_nil_iff_forall_not_mem]
  constructor
  · intro hno key hkey
    obtain ⟨w, hw, -⟩ := List.mem_filterMap.mp hkey
    exact hno w hw
  · intro hno w hw
    obtain ⟨key, row, hrow, hhome, -, -, -⟩ := h.row_of_mem hw
    obtain ⟨sortKey, -, hlook⟩ := h.look hrow
    exact hno key ((h.mem_displayed i key).mpr ⟨_, hlook, hhome⟩)

omit [DecidableEq ι] in
/-- The section looks up, by the address, the sort key that the row shows. -/
theorem Ok.sortKey_of_mem (h : page.Ok) {i : ι} {w : Nat} {key : String} {l : Look ι ρ}
    (hw : w ∈ (page.sections i).list)
    (hkey : ((page.rows.entries.find? fun e => e.2.widget == w).map fun e => e.1) = some key)
    (hl : page.look key = some l) :
    ((page.sections i).keys.get? w).bind page.cells.get? = some l.sortKey := by
  obtain ⟨k, row, hrow, -, -, hcell, hfind⟩ := h.row_of_mem hw
  rw [hfind] at hkey
  cases hkey
  obtain ⟨r, sortKey, hr, hsort, rfl⟩ := look_eq_some.mp hl
  rw [hrow] at hr
  cases hr
  rw [hcell]
  exact hsort

omit [DecidableEq ι] in
/-- Repainting a row moves none. -/
theorem Ok.displayed_repaint (h : page.Ok) (key : String) (face : ρ)
    (rekey : SortKey → SortKey) (i : ι) :
    (page.repaint key face rekey).displayed i = page.displayed i := by
  cases hrow : page.rows.get? key with
  | none =>
    have hsame : page.repaint key face rekey = page := by
      unfold repaint
      rw [hrow]
    rw [hsame]
  | some row =>
    have hok := (repaint_spec h hrow face rekey).1
    have hsections : (page.repaint key face rekey).sections = page.sections := by
      unfold repaint
      rw [hrow]
    have hrows : ∀ k r, (page.repaint key face rekey).rows.get? k = some r →
        ∃ r₀, page.rows.get? k = some r₀ ∧ r₀.widget = r.widget := by
      intro k r hr
      unfold repaint at hr
      rw [hrow] at hr
      change (page.rows.insert key { row with face := face }).get? k = some r at hr
      rw [KeyedMap.get?_insert] at hr
      by_cases hk : k = key
      · rw [if_pos hk] at hr
        cases hr
        exact ⟨row, hk ▸ hrow, rfl⟩
      · rw [if_neg hk] at hr
        exact ⟨r, hr, rfl⟩
    unfold displayed
    rw [hsections]
    refine List.filterMap_congr fun w hw => ?_
    obtain ⟨k, r, hr, -, hwidget, -, hfind⟩ := h.row_of_mem hw
    obtain ⟨k', r', hr', -, hwidget', -, hfind'⟩ := hok.row_of_mem (hsections ▸ hw)
    obtain ⟨r₀, hr₀, hsame⟩ := hrows k' r' hr'
    rw [hfind, hfind']
    exact congrArg some (h.widgets hr₀ hr (hsame.trans (hwidget'.trans hwidget.symm)))

/-- What a settled page shows: its sections sorted by the rows' keys, those with rows visible,
and the label if there is no row at all. -/
structure Settled (page : Page ι ρ) : Prop where
  sorted : ∀ i, (page.displayed i).Pairwise fun j k => ∀ l m, page.look j = some l →
    page.look k = some m → (cmpRows l.sortKey m.sortKey).isLE = true
  visible : ∀ i, (page.sections i).visible = true ↔ page.displayed i ≠ []
  label : page.emptyLabel = true ↔ ∀ i, page.displayed i = []

omit [DecidableEq ι] in
/-- A page stays settled when a row is repainted that keeps its sort key. -/
theorem Ok.settled_repaint (h : page.Ok) (hsettled : page.Settled) {key : String} {row : Row ι ρ}
    (hrow : page.rows.get? key = some row) (face : ρ) : (page.repaint key face id).Settled := by
  have hdisplayed := h.displayed_repaint key face id
  have hlook : ∀ {j l}, (page.repaint key face id).look j = some l →
      ∃ l₀, page.look j = some l₀ ∧ l₀.sortKey = l.sortKey := by
    intro j l hl
    rw [(repaint_spec h hrow face id).2 j] at hl
    by_cases hj : j = key
    · rw [if_pos hj] at hl
      obtain ⟨l₀, hl₀, rfl⟩ := Option.map_eq_some_iff.mp hl
      exact ⟨l₀, hl₀, rfl⟩
    · rw [if_neg hj] at hl
      exact ⟨l, hl, rfl⟩
  have hsame : (page.repaint key face id).sections = page.sections ∧
      (page.repaint key face id).emptyLabel = page.emptyLabel := by
    unfold repaint
    rw [hrow]
    exact ⟨rfl, rfl⟩
  constructor
  · intro i
    rw [hdisplayed]
    refine (hsettled.sorted i).imp fun {j k} hjk l m hl hm => ?_
    obtain ⟨l₀, hl₀, hl⟩ := hlook hl
    obtain ⟨m₀, hm₀, hm⟩ := hlook hm
    rw [← hl, ← hm]
    exact hjk l₀ m₀ hl₀ hm₀
  · intro i
    rw [hdisplayed, hsame.1]
    exact hsettled.visible i
  · rw [hsame.2, hsettled.label]
    exact forall_congr' fun i => by rw [hdisplayed]

omit [DecidableEq ι] in
/-- **Settling sorts every section.** The sort function sees addresses only; that it compares
the right sort keys rests on the section knowing exactly its rows. -/
theorem Ok.settled (h : page.Ok) (gtk : Gtk) {all : List ι} (hall : ∀ i, i ∈ all) :
    (page.settle gtk all).Settled := by
  have h' := h.settle gtk all
  constructor
  · intro i
    rw [displayed, List.pairwise_filterMap]
    have halive : ∀ w c, (page.sections i).keys.get? w = some c →
        (page.cells.get? c).isSome = true := by
      intro w c hc
      obtain ⟨k, r, hr, -, -, rfl⟩ := (h.listed i w c).mp hc
      exact (h.alive hr).1
    have hconsistent := (h.sections i).consistent halive
    refine (gtk.sort_sorted _ _ hconsistent).imp_of_mem fun {v w} hv hw hle => ?_
    intro j hj k hk l m hl hm
    have hinv : ∀ u, u ∈ ((page.sections i).invalidate gtk page.cells).list ↔
        u ∈ (page.sections i).list := fun u => (gtk.sort_perm _ _).mem_iff
    have hcmp : (page.sections i).sortFunc page.cells v w = cmpRows l.sortKey m.sortKey := by
      rw [SectionList.sortFunc, h.sortKey_of_mem ((hinv v).mp hv) hj hl,
        h.sortKey_of_mem ((hinv w).mp hw) hk hm]
    rw [← hcmp]
    exact hle
  · intro i
    show (!((page.sections i).invalidate gtk page.cells).isEmpty) = true ↔ _
    have hempty := h'.isEmpty_iff i
    rw [ne_eq, ← hempty, Bool.not_eq_true', ← Bool.not_eq_true]
    rfl
  · show (all.all fun i => (page.sections i).isEmpty) = true ↔ _
    rw [List.all_eq_true]
    constructor
    · intro hno i
      exact (h'.isEmpty_iff i).mp (hno i (hall i))
    · intro hno i _
      exact (h'.isEmpty_iff i).mpr (hno i)

/-- An update leaves the page settled. -/
theorem Ok.update_settled (h : page.Ok) (gtk : Gtk) {design : Design ι α ρ ω}
    (hall : ∀ i, i ∈ design.all) (items : KeyedMap String α) :
    (page.update gtk design items).1.Settled := by
  have hone := fun (acc : Page ι ρ × List ω) e (hacc : acc.1.Ok) =>
    (visit_spec e hacc gtk design).1
  have hvisited : ∀ (es : List (Σ _ : String, α)) (acc : Page ι ρ × List ω), acc.1.Ok →
      (es.foldl (visit gtk design) acc).1.Ok := by
    intro es
    induction es with
    | nil => exact fun acc hacc => hacc
    | cons e es ih => exact fun acc hacc => ih _ (hone acc e hacc)
  exact (hvisited items.entries _ (dropStale_spec h items).1).settled gtk hall

/-! ## The order is determined -/

/-- The sort keys of the rows of a section, in the order they are displayed in. -/
def ranking (page : Page ι ρ) (i : ι) : List SortKey :=
  (page.displayed i).filterMap fun key => (page.look key).map Look.sortKey

omit [DecidableEq ι] in
theorem Settled.ranking_sorted (h : page.Settled) (i : ι) :
    (page.ranking i).Pairwise fun a b => (cmpRows a b).isLE = true := by
  rw [ranking, List.pairwise_filterMap]
  refine (h.sorted i).imp fun {j k} hjk a ha b hb => ?_
  obtain ⟨l, hl, rfl⟩ := Option.map_eq_some_iff.mp ha
  obtain ⟨m, hm, rfl⟩ := Option.map_eq_some_iff.mp hb
  exact hjk l m hl hm

omit [DecidableEq ι] in
/-- **The order is determined**: settled pages whose rows are in the same sections with the
same sort keys show them in the same order, whatever toolkit sorted them and in whatever order
they came. Only rows whose sort keys are equal can have changed places. -/
theorem Ok.ranking_determined {ρ' : Type} {page' : Page ι ρ'} (h : page.Ok) (h' : page'.Ok)
    (hsettled : page.Settled) (hsettled' : page'.Settled)
    (hsame : ∀ key, ((page.look key).map fun l => (l.home, l.sortKey)) =
      (page'.look key).map fun l => (l.home, l.sortKey)) (i : ι) :
    page.ranking i = page'.ranking i := by
  have hdisplayed : (page.displayed i).Perm (page'.displayed i) := by
    refine (List.perm_ext_iff_of_nodup (h.nodup_displayed i) (h'.nodup_displayed i)).mpr ?_
    intro key
    have hkey := congrArg (Option.map Prod.fst) (hsame key)
    rw [Option.map_map, Option.map_map] at hkey
    have hhome : ∀ {σ : Type} (look : Option (Look ι σ)),
        (∃ l, look = some l ∧ l.home = i) ↔ look.map Look.home = some i :=
      fun look => Option.map_eq_some_iff.symm
    rw [h.mem_displayed, h'.mem_displayed, hhome, hhome]
    exact hkey ▸ Iff.rfl
  have hkeys : (fun key => (page.look key).map Look.sortKey) =
      fun key => (page'.look key).map Look.sortKey := by
    funext key
    have hkey := congrArg (Option.map Prod.snd) (hsame key)
    rwa [Option.map_map, Option.map_map] at hkey
  have hperm : (page.ranking i).Perm (page'.ranking i) := by
    unfold ranking
    rw [hkeys]
    exact hdisplayed.filterMap _
  exact KeyedView.sorted_unique hperm (hsettled.ranking_sorted i) (hsettled'.ranking_sorted i)

end Page

end TravelMode
