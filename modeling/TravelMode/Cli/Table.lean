import TravelMode.Core.IpText
import TravelMode.Lib.TextTable

/-!
# The tables of the command line

`travelmode` prints processes, connections, usage and rules as tables, each cell padded to the
widest of its column.

- `printTable`: the lines of a table; `printRows`: of a table of items under a header. A cell
  that is too wide to be padded panics.
- `table_readable`: when a table is printed, and that its cells can be read back from the text.
-/

namespace TravelMode

namespace Cli

open TextScan TextTable

/-- A row of a table with `n` columns. -/
structure Row (n : Nat) where
  cells : List (List Char)
  size : cells.length = n

variable {n : Nat}

/-- The widths of the columns with one more row. -/
def widen (widths : List Nat) (cells : List (List Char)) : List Nat :=
  List.zipWith (fun w cell => max w cell.length) widths cells

/-- The widths of the columns, in characters. -/
def columnWidths (rows : List (Row n)) : List Nat :=
  rows.foldl (fun widths row => widen widths row.cells) (List.replicate n 0)

/-- The largest width that `format!` takes at run time, a `u16`. -/
def maxWidth : Nat := 65535

/-- `format!("{cell:<width$}")`; `none` is its panic on a larger width. -/
def formatCell (width : Nat) (cell : List Char) : Option (List Char) :=
  if width ≤ maxWidth then some (padRight width cell) else none

/-- The cells of a line from number `i` on; there is no padding on the last column. -/
def tableLine (n i : Nat) : List Nat → List (List Char) → Option (List Char)
  | width :: widths, cell :: cells => do
    let text ← if i + 1 = n then some cell else formatCell (width + 2) cell
    let rest ← tableLine n (i + 1) widths cells
    some (text ++ rest)
  | _, _ => some []

/-- The line below the header. -/
def separator (widths : List Nat) : List Char := widths.flatMap fun w => List.replicate (w + 2) '-'

/-- `print_table`: its lines. All have the same widths, so that one which panics is the
first, and nothing was printed. -/
def printTable (rows : List (Row n)) : Option (List (List Char)) :=
  let widths := columnWidths rows
  (rows.zipIdx.mapM fun ((row, k) : Row n × Nat) =>
    (tableLine n 0 widths row.cells).map fun line =>
      trimEnd line :: if k = 0 then [trimEnd (separator widths)] else []).map List.flatten

/-- A table of items, under a header. -/
def printRows {α : Type} (header : Row n) (row : α → Row n) (items : List α) :
    Option (List (List Char)) :=
  printTable (header :: items.map row)

/-! ## What is printed -/

/-- `format!("{:?}", p).to_lowercase()`. -/
def protocolText : Protocol → List Char
  | .tcp => "tcp".toList
  | .udp => "udp".toList
  | .other => "other".toList

def yesNo (b : Bool) : List Char := if b then "yes".toList else "no".toList

/-- `format!("{addr}:{port}")`. -/
def endpointText (addr : IpAddr) (port : UInt16) : List Char :=
  addr.text ++ ':' :: Nat.toDigits 10 port.toNat

def processHeader : Row 4 := ⟨["PID".toList, "NAME".toList, "USER".toList, "EXE".toList], rfl⟩

def processRow (p : ProcessInfo) : Row 4 where
  cells := [Nat.toDigits 10 p.pid, p.name.toList, (p.user.getD "-").toList,
    ((p.exe.map PathBuf.display).getD "-").toList]
  size := rfl

/-- `print_processes`. -/
def printProcesses : List ProcessInfo → Option (List (List Char)) :=
  printRows processHeader processRow

def connectionHeader : Row 6 where
  cells := ["PROCESS".toList, "PROTO".toList, "LOCAL".toList, "REMOTE".toList, "SENT".toList,
    "RECV".toList]
  size := rfl

def connectionRow (humanBytes : Nat → List Char) (c : ConnectionInfo) : Row 6 where
  cells := [(c.processName.getD "?").toList, protocolText c.protocol,
    endpointText c.localAddr c.localPort, endpointText c.remoteAddr c.remotePort,
    humanBytes c.bytesSent, humanBytes c.bytesRecv]
  size := rfl

/-- `print_connections`; `humanBytes` is the text of a number of bytes. -/
def printConnections (humanBytes : Nat → List Char) :
    List ConnectionInfo → Option (List (List Char)) :=
  printRows connectionHeader (connectionRow humanBytes)

def appHeader : Row 5 where
  cells := ["APP".toList, "SENT".toList, "RECV".toList, "CONNS".toList, "STATE".toList]
  size := rfl

def appRow (humanBytes : Nat → List Char) (a : AppUsage) : Row 5 where
  cells := [a.name.toList, humanBytes a.bytesSent, humanBytes a.bytesRecv,
    Nat.toDigits 10 a.connections, if a.blocked then "blocked".toList else "allowed".toList]
  size := rfl

/-- `print_top`. -/
def printTop (humanBytes : Nat → List Char) : List AppUsage → Option (List (List Char)) :=
  printRows appHeader (appRow humanBytes)

def ruleHeader : Row 6 where
  cells := ["ID".toList, "NAME".toList, "ACTION".toList, "EXE".toList, "PERSIST".toList,
    "EXPIRES".toList]
  size := rfl

/-- `format!("{:?}", action).to_lowercase()`. -/
def actionText : RuleAction → List Char
  | .allow => "allow".toList
  | .block => "block".toList

def ruleRow (format : DateTime → List Char) (r : Rule) : Row 6 where
  cells := [Nat.toDigits 10 r.id, r.name.toList, actionText r.action, r.exePath.display.toList,
    yesNo r.persistent, (r.expiresAt.map format).getD "-".toList]
  size := rfl

/-- `print_rules`; `format` is the text of a time. -/
def printRules (format : DateTime → List Char) : List Rule → Option (List (List Char)) :=
  printRows ruleHeader (ruleRow format)

/-! ## Widths -/

/-- What fits, fits a wider column. -/
theorem forall₂_raise {α : Type} {f : α → Nat} {widths widths' : List Nat} {xs : List α}
    (h : List.Forall₂ (fun w' w => w ≤ w') widths' widths)
    (hfits : List.Forall₂ (fun w x => f x ≤ w) widths xs) :
    List.Forall₂ (fun w x => f x ≤ w) widths' xs := by
  induction h generalizing xs with
  | nil => exact hfits
  | cons hle _ ih =>
    cases hfits with
    | cons hx hrest => exact .cons (hx.trans hle) (ih hrest)

/-- One more row widens the columns so that it fits. -/
theorem widen_fits {widths : List Nat} {cells : List (List Char)}
    (h : cells.length = widths.length) :
    List.Forall₂ (fun w' w => w ≤ w') (widen widths cells) widths ∧
      List.Forall₂ (fun w cell => cell.length ≤ w) (widen widths cells) cells := by
  induction widths generalizing cells with
  | nil =>
    obtain rfl := List.eq_nil_of_length_eq_zero h
    exact ⟨.nil, .nil⟩
  | cons w ws ih =>
    cases cells with
    | nil => cases h
    | cons cell cells =>
      obtain ⟨hwider, hfits⟩ := ih (Nat.succ.inj h)
      exact ⟨.cons (Nat.le_max_left _ _) hwider, .cons (Nat.le_max_right _ _) hfits⟩

/-- After all rows, every one fits. -/
theorem foldl_widen_fits (rows : List (Row n)) {widths : List Nat} (hlen : widths.length = n) :
    let widths' := rows.foldl (fun ws row => widen ws row.cells) widths
    List.Forall₂ (fun w' w => w ≤ w') widths' widths ∧
      ∀ row ∈ rows, List.Forall₂ (fun w cell => cell.length ≤ w) widths' row.cells := by
  induction rows generalizing widths with
  | nil => exact ⟨List.forall₂_same.mpr fun _ _ => le_rfl, List.forall_mem_nil _⟩
  | cons row rows ih =>
    obtain ⟨hwider, hfits⟩ := widen_fits (row.size.trans hlen.symm)
    obtain ⟨hwider', hrest⟩ := ih (hwider.length_eq.trans hlen)
    refine ⟨forall₂_raise (f := id) hwider' hwider, fun r hr => ?_⟩
    rcases List.mem_cons.mp hr with rfl | hr
    · exact forall₂_raise hwider' hfits
    · exact hrest r hr

/-- Every row fits its columns. -/
theorem columnWidths_fits {rows : List (Row n)} {row : Row n} (h : row ∈ rows) :
    List.Forall₂ (fun w cell => cell.length ≤ w) (columnWidths rows) row.cells :=
  (foldl_widen_fits rows List.length_replicate).2 row h

/-- With room for the two blanks between columns. -/
theorem forall₂_spaced {widths : List Nat} {cells : List (List Char)}
    (h : List.Forall₂ (fun w cell => cell.length ≤ w) widths cells) :
    List.Forall₂ (fun w cell => cell.length < w) (widths.map (· + 2)) cells := by
  rw [List.forall₂_map_left_iff]
  exact h.imp fun w cell hle => by omega

/-- All columns but the last can be padded. -/
def Printable (n : Nat) (widths : List Nat) : Prop := ∀ w ∈ widths.take (n - 1), w + 2 ≤ maxWidth

instance (n : Nat) (widths : List Nat) : Decidable (Printable n widths) :=
  inferInstanceAs (Decidable (∀ w ∈ _, _))

theorem printable_of_one {widths : List Nat} (h : n - 1 = 0) : Printable n widths := by
  unfold Printable
  rw [h, List.take_zero]
  exact List.forall_mem_nil _

/-- One more row. -/
theorem widen_printable {widths : List Nat} {cells : List (List Char)}
    (h : Printable n widths) (hcells : ∀ cell ∈ cells.take (n - 1), cell.length + 2 ≤ maxWidth) :
    Printable n (widen widths cells) := by
  intro w hw
  rw [widen, List.take_zipWith] at hw
  obtain ⟨i, hi, rfl⟩ := List.mem_iff_getElem.mp hw
  rw [List.getElem_zipWith]
  have hwidth := h _ (List.getElem_mem (Nat.lt_of_lt_of_le hi
    (List.length_zipWith ▸ Nat.min_le_left _ _)))
  have hcell := hcells _ (List.getElem_mem (Nat.lt_of_lt_of_le hi
    (List.length_zipWith ▸ Nat.min_le_right _ _)))
  omega

/-- The columns can be padded exactly if all their cells can. -/
theorem printable_iff {rows : List (Row n)} :
    Printable n (columnWidths rows) ↔
      ∀ row ∈ rows, ∀ cell ∈ row.cells.take (n - 1), cell.length + 2 ≤ maxWidth := by
  constructor
  · intro h row hrow cell hcell
    obtain ⟨hlen, hfits⟩ :=
      List.forall₂_iff_get.mp (List.forall₂_take (n - 1) (columnWidths_fits hrow))
    obtain ⟨i, hi, rfl⟩ := List.mem_iff_getElem.mp hcell
    have hle := hfits i (hlen ▸ hi) hi
    have hwidth := h _ (List.get_mem _ ⟨i, hlen ▸ hi⟩)
    exact (Nat.add_le_add_right hle 2).trans hwidth
  · intro h
    have hfold : ∀ (rest : List (Row n)) (widths : List Nat), (∀ row ∈ rest, row ∈ rows) →
        Printable n widths →
          Printable n (rest.foldl (fun widths row => widen widths row.cells) widths) := by
      intro rest
      induction rest with
      | nil => exact fun widths _ hwidths => hwidths
      | cons row rest ih =>
        intro widths hrest hwidths
        refine ih _ (fun r hr => hrest r (List.mem_cons_of_mem _ hr)) (widen_printable hwidths ?_)
        exact h row (hrest row List.mem_cons_self)
    refine hfold rows _ (fun _ hrow => hrow) fun w hw => ?_
    rw [List.eq_of_mem_replicate (List.mem_of_mem_take hw)]
    decide

/-! ## Lines -/

/-- Only the last cell of a line lacks its padding, and a wide cell before it panics. -/
theorem tableLine_trim (i : Nat) {widths : List Nat} {cells : List (List Char)}
    (hlen : cells.length = widths.length) (hn : i + cells.length = n) :
    if Printable (n - i) widths then
      ∃ line b, tableLine n i widths cells = some line ∧ IsBlank b ∧
        padded (widths.map (· + 2)) cells = line ++ b
    else tableLine n i widths cells = none := by
  induction widths generalizing i cells with
  | nil =>
    obtain rfl := List.eq_nil_of_length_eq_zero hlen
    rw [if_pos (printable_of_one (by rw [List.length_nil] at hn; omega))]
    exact ⟨[], [], rfl, List.forall_mem_nil _, rfl⟩
  | cons w ws ih =>
    cases cells with
    | nil => cases hlen
    | cons cell cells =>
      have hline : padded ((w :: ws).map (· + 2)) (cell :: cells) =
          padRight (w + 2) cell ++ padded (ws.map (· + 2)) cells := rfl
      rw [List.length_cons] at hn
      by_cases hlast : i + 1 = n
      · -- the last cell, of any width
        obtain rfl := List.eq_nil_of_length_eq_zero (by omega : cells.length = 0)
        obtain rfl := List.eq_nil_of_length_eq_zero (Nat.succ.inj hlen).symm
        rw [if_pos (printable_of_one (by omega))]
        refine ⟨cell, _, ?_, isBlank_replicate (w + 2 - cell.length), ?_⟩
        · rw [tableLine, if_pos hlast]
          exact congrArg some (List.append_nil cell)
        · simp [padded, padRight]
      · have hsplit : Printable (n - i) (w :: ws) ↔
            w + 2 ≤ maxWidth ∧ Printable (n - (i + 1)) ws := by
          have hsucc : n - i - 1 = (n - (i + 1) - 1) + 1 := by omega
          unfold Printable
          rw [hsucc, List.take_succ_cons, List.forall_mem_cons]
        have hrest := ih (i + 1) (Nat.succ.inj hlen) (by omega)
        by_cases hwidth : w + 2 ≤ maxWidth
        · by_cases hprint : Printable (n - (i + 1)) ws
          · rw [if_pos hprint] at hrest
            obtain ⟨line, b, hrest, hb, heq⟩ := hrest
            rw [if_pos (hsplit.mpr ⟨hwidth, hprint⟩)]
            refine ⟨padRight (w + 2) cell ++ line, b, ?_, hb, ?_⟩
            · rw [tableLine, if_neg hlast, formatCell, if_pos hwidth, hrest]
              rfl
            · rw [hline, heq]
              exact (List.append_assoc _ _ _).symm
          · rw [if_neg hprint] at hrest
            rw [if_neg fun h => hprint (hsplit.mp h).2, tableLine, if_neg hlast, formatCell,
              if_pos hwidth, hrest]
            rfl
        · rw [if_neg fun h => hwidth (hsplit.mp h).1, tableLine, if_neg hlast, formatCell,
            if_neg hwidth]
          rfl

theorem tableLine_none {rows : List (Row n)} {row : Row n} (h : row ∈ rows)
    (hprint : ¬Printable n (columnWidths rows)) :
    tableLine n 0 (columnWidths rows) row.cells = none := by
  have hline := tableLine_trim 0 (columnWidths_fits h).length_eq.symm
    ((Nat.zero_add _).trans row.size)
  rwa [Nat.sub_zero, if_neg hprint] at hline

/-- A line is printed as if all its cells were padded. -/
theorem trimEnd_tableLine {rows : List (Row n)} {row : Row n} (h : row ∈ rows)
    (hprint : Printable n (columnWidths rows)) :
    (tableLine n 0 (columnWidths rows) row.cells).map trimEnd =
      some (trimEnd (padded ((columnWidths rows).map (· + 2)) row.cells)) := by
  have hline := tableLine_trim 0 (columnWidths_fits h).length_eq.symm
    ((Nat.zero_add _).trans row.size)
  rw [Nat.sub_zero, if_pos hprint] at hline
  obtain ⟨line, b, hline, hb, heq⟩ := hline
  rw [hline, heq, trimEnd_append_blank hb]
  rfl

/-- There is one line below the header. -/
theorem printTable_cons {header : Row n} {body : List (Row n)}
    (hprint : Printable n (columnWidths (header :: body))) :
    let widths := columnWidths (header :: body)
    printTable (header :: body) = some (trimEnd (padded (widths.map (· + 2)) header.cells) ::
      trimEnd (separator widths) ::
        body.map fun row => trimEnd (padded (widths.map (· + 2)) row.cells)) := by
  intro widths
  have hline : ∀ row ∈ header :: body, ∀ more : List (List Char),
      (tableLine n 0 widths row.cells).map (fun line => trimEnd line :: more) =
        some (trimEnd (padded (widths.map (· + 2)) row.cells) :: more) := by
    intro row hrow more
    have htrim := congrArg (Option.map (· :: more)) (trimEnd_tableLine hrow hprint)
    rwa [Option.map_map] at htrim
  have hbody : ∀ (rows : List (Row n)) (k : Nat), 0 < k → (∀ row ∈ rows, row ∈ header :: body) →
      ((rows.zipIdx k).mapM fun ((row, k) : Row n × Nat) =>
        (tableLine n 0 widths row.cells).map fun line =>
          trimEnd line :: if k = 0 then [trimEnd (separator widths)] else []) =
        some (rows.map fun row => [trimEnd (padded (widths.map (· + 2)) row.cells)]) := by
    intro rows k hk hrows
    induction rows generalizing k with
    | nil => rfl
    | cons row rows ih =>
      rw [List.zipIdx_cons, List.mapM_cons, ih (k + 1) (Nat.succ_pos k) fun r hr =>
        hrows r (List.mem_cons_of_mem _ hr)]
      dsimp only
      rw [if_neg hk.ne', hline row (hrows row List.mem_cons_self)]
      rfl
  rw [printTable, List.zipIdx_cons, List.mapM_cons,
    hbody body _ Nat.one_pos fun row hr => List.mem_cons_of_mem _ hr]
  dsimp only
  rw [if_pos rfl, hline header List.mem_cons_self]
  show some (_ :: _ :: (body.map _).flatten) = _
  rw [← List.flatMap_def, ← List.map_eq_flatMap]

/-- A cell that is too wide panics on the first line. -/
theorem printTable_none {header : Row n} {body : List (Row n)}
    (hprint : ¬Printable n (columnWidths (header :: body))) :
    printTable (header :: body) = none := by
  rw [printTable, List.zipIdx_cons, List.mapM_cons]
  dsimp only
  rw [tableLine_none List.mem_cons_self hprint]
  rfl

/-- A table is printed exactly if all its cells but the last ones can be padded. -/
theorem printRows_isSome {α : Type} {header : Row n} {row : α → Row n} {items : List α} :
    (printRows header row items).isSome = true ↔
      ∀ r ∈ header :: items.map row, ∀ cell ∈ r.cells.take (n - 1),
        cell.length + 2 ≤ maxWidth := by
  rw [← printable_iff]
  by_cases hprint : Printable n (columnWidths (header :: items.map row))
  · rw [printRows, printTable_cons hprint]
    exact iff_of_true rfl hprint
  · rw [printRows, printTable_none hprint]
    exact iff_of_false Bool.false_ne_true hprint

/-- The text that is printed is read back. -/
theorem read_printRows {α : Type} {header : Row n} {row : α → Row n} {items : List α}
    {printed : List (List Char)} (hwords : ∀ word ∈ header.cells, IsWord word)
    (hbreaks : ∀ item ∈ items, ∀ cell ∈ (row item).cells, '\n' ∉ cell)
    (hprinted : printRows header row items = some printed) :
    TextTable.read (unlines printed) =
      header.cells :: items.map fun item => (row item).cells.map trimEnd := by
  have hprint : Printable n (columnWidths (header :: items.map row)) := by
    by_contra hwide
    rw [printRows, printTable_none hwide] at hprinted
    cases hprinted
  have htext : printed =
      trimEnd (padded ((columnWidths (header :: items.map row)).map (· + 2)) header.cells) ::
        trimEnd (separator (columnWidths (header :: items.map row))) ::
          ((items.map row).map Row.cells).map fun cells =>
            trimEnd (padded ((columnWidths (header :: items.map row)).map (· + 2)) cells) := by
    rw [printRows, printTable_cons hprint] at hprinted
    rw [← Option.some.inj hprinted]
    simp only [List.map_map, Function.comp_def]
  have hrow : ∀ {cells}, cells ∈ (items.map row).map Row.cells →
      ∃ item ∈ items, (row item).cells = cells := by
    intro cells hcells
    rw [List.map_map] at hcells
    exact List.mem_map.mp hcells
  rw [htext, TextTable.read_table (forall₂_spaced (columnWidths_fits List.mem_cons_self)) hwords]
  · rw [List.map_map, List.map_map]
    rfl
  · intro cells hcells
    obtain ⟨item, hitem, rfl⟩ := hrow hcells
    have hmem : row item ∈ header :: items.map row :=
      List.mem_cons_of_mem _ (List.mem_map_of_mem hitem)
    exact (forall₂_spaced (columnWidths_fits hmem)).imp fun _ _ h => h.le
  · intro cells hcells
    obtain ⟨item, hitem, rfl⟩ := hrow hcells
    exact hbreaks item hitem
  · intro hc
    obtain ⟨w, -, hc⟩ := List.mem_flatMap.mp hc
    cases List.eq_of_mem_replicate hc

/-- **Tables can be read**: a table is printed, without a panic, exactly if no cell before the
last column is wider than a run-time width with the two blanks. Then, whatever the items, the
text has all their cells, each where its column starts in the header, less the white space at its
end. -/
theorem table_readable {α : Type} {header : Row n} {row : α → Row n} {items : List α}
    (hwords : ∀ word ∈ header.cells, IsWord word)
    (hbreaks : ∀ item ∈ items, ∀ cell ∈ (row item).cells, '\n' ∉ cell) :
    ((printRows header row items).isSome = true ↔
      ∀ r ∈ header :: items.map row, ∀ cell ∈ r.cells.take (n - 1),
        cell.length + 2 ≤ maxWidth) ∧
      ∀ printed, printRows header row items = some printed →
        TextTable.read (unlines printed) =
          header.cells :: items.map fun item => (row item).cells.map trimEnd :=
  ⟨printRows_isSome, fun _ => read_printRows hwords hbreaks⟩

/-- Two processes, one of them without a user and an executable. -/
def twoProcesses : List ProcessInfo :=
  [⟨4242, "curl", some (.ofString "/usr/bin/curl"), some "ada", 1⟩, ⟨7, "kworker", none, none, 2⟩]

theorem table_readable_processes :
    ∃ printed, printProcesses twoProcesses = some printed ∧
      TextTable.read (unlines printed) =
        [["PID".toList, "NAME".toList, "USER".toList, "EXE".toList],
          ["4242".toList, "curl".toList, "ada".toList, "/usr/bin/curl".toList],
          ["7".toList, "kworker".toList, "-".toList, "-".toList]] := by
  obtain ⟨hprinted, hread⟩ :=
    @table_readable 4 ProcessInfo processHeader processRow twoProcesses (by decide) (by decide)
  obtain ⟨printed, hsome⟩ := Option.isSome_iff_exists.mp (hprinted.mpr (by decide))
  exact ⟨printed, hsome, (hread printed hsome).trans (by decide)⟩

end Cli

end TravelMode
