import Mathlib.Data.List.DropRight
import Mathlib.Data.List.Forall2
import TravelMode.Lib.TextScan

/-!
# Tables of padded columns

A table is printed with every cell padded to the width of its column, and without the white
space at the end of a line. The words of its first line start where the columns do, so it can be
read back without knowing the widths.

- `padded`: a line of cells, each padded to its width.
- `wordStarts`, `cellsAt`: where the words of a line start, and the cells of a line that start
  there.
- `wordStarts_padded`, `cellsAt_padded`: reading a line of words, and a line of any cells.
-/

namespace TextTable

open TextScan

/-- `str::trim_end`. -/
def trimEnd (s : List Char) : List Char := s.rdropWhile isWhitespace

/-- `format!("{s:<w$}")`. -/
def padRight (w : Nat) (s : List Char) : List Char := s ++ List.replicate (w - s.length) ' '

/-- A line of cells, each padded to the width of its column. -/
def padded (widths : List Nat) (cells : List (List Char)) : List Char :=
  (List.zipWith padRight widths cells).flatten

/-- Where the words start, in a text that has `i` characters before it; `blank` says that there
is white space or nothing right before it. -/
def starts (i : Nat) (blank : Bool) : List Char → List Nat
  | [] => []
  | c :: cs =>
    if isWhitespace c then starts (i + 1) true cs
    else if blank then i :: starts (i + 1) false cs
    else starts (i + 1) false cs

def wordStarts (s : List Char) : List Nat := starts 0 true s

/-- The cells of a line, from where one starts to where the next does. -/
def cellsAt : List Nat → List Char → List (List Char)
  | [], _ => []
  | [i], s => [trimEnd (s.drop i)]
  | i :: j :: js, s => trimEnd ((s.take j).drop i) :: cellsAt (j :: js) s

/-- The table of a text, whose second line is a rule. -/
def read (text : List Char) : List (List (List Char)) :=
  match lines text with
  | header :: _ :: body => (header :: body).map (cellsAt (wordStarts header))
  | _ => []

/-- Where columns of these widths start. -/
def offsets (i : Nat) : List Nat → List Nat
  | [] => []
  | w :: ws => i :: offsets (i + w) ws

/-! ## White space at the end -/

theorem isBlank_replicate (n : Nat) : IsBlank (List.replicate n ' ') := by
  intro c hc
  rw [List.eq_of_mem_replicate hc]
  decide

theorem isBlank_drop {b : List Char} (h : IsBlank b) (n : Nat) : IsBlank (b.drop n) :=
  fun c hc => h c (List.mem_of_mem_drop hc)

theorem isBlank_take {b : List Char} (h : IsBlank b) (n : Nat) : IsBlank (b.take n) :=
  fun c hc => h c (List.mem_of_mem_take hc)

theorem trimEnd_append_blank {b : List Char} (h : IsBlank b) (s : List Char) :
    trimEnd (s ++ b) = trimEnd s := by
  induction b using List.reverseRecOn with
  | nil => rw [List.append_nil]
  | append_singleton b c ih =>
    rw [← List.append_assoc, trimEnd, List.rdropWhile_concat_pos _ _ _
      (h c (List.mem_append_right _ (List.mem_singleton.mpr rfl)))]
    exact ih fun d hd => h d (List.mem_append_left _ hd)

/-- What is trimmed is white space. -/
theorem trimEnd_append (s : List Char) : ∃ b, IsBlank b ∧ trimEnd s ++ b = s :=
  ⟨s.rtakeWhile isWhitespace, fun _ hc => List.mem_rtakeWhile_imp hc,
    List.rdropWhile_append_rtakeWhile⟩

theorem trimEnd_subset {s : List Char} {c : Char} (h : c ∈ trimEnd s) : c ∈ s := by
  obtain ⟨b, -, hs⟩ := trimEnd_append s
  rw [← hs]
  exact List.mem_append_left b h

/-- A trimmed text does not end with white space. -/
theorem getLast?_trimEnd {s : List Char} {c : Char} (h : (trimEnd s).getLast? = some c) :
    isWhitespace c = false := by
  have hself : trimEnd (trimEnd s) = trimEnd s := List.rdropWhile_idempotent _ s
  obtain ⟨front, hfront⟩ := List.getLast?_eq_some_iff.mp h
  rw [Bool.eq_false_iff]
  intro hc
  rw [hfront, trimEnd, List.rdropWhile_concat_pos _ _ _ hc] at hself
  have hlen := (List.rdropWhile_prefix isWhitespace front).length_le
  rw [hself, List.length_append, List.length_singleton] at hlen
  omega

theorem trimEnd_padRight (w : Nat) (s : List Char) : trimEnd (padRight w s) = trimEnd s :=
  trimEnd_append_blank (isBlank_replicate _) s

theorem trimEnd_word {w : List Char} (h : IsWord w) : trimEnd w = w := by
  rw [trimEnd, List.rdropWhile_eq_self_iff]
  intro hne
  rw [h.2 _ (List.getLast_mem hne)]
  exact Bool.false_ne_true

theorem length_padRight {w : Nat} {s : List Char} (h : s.length ≤ w) :
    (padRight w s).length = w := by
  rw [padRight, List.length_append, List.length_replicate]
  omega

/-! ## Reading a line -/

theorem cellsAt_append_blank {b : List Char} (h : IsBlank b) (is : List Nat) (s : List Char) :
    cellsAt is (s ++ b) = cellsAt is s := by
  induction is with
  | nil => rfl
  | cons i is ih =>
    cases is with
    | nil =>
      rw [cellsAt, cellsAt, List.drop_append, trimEnd_append_blank (isBlank_drop h _)]
    | cons j js =>
      rw [cellsAt, cellsAt, ih, List.take_append, List.drop_append,
        trimEnd_append_blank (isBlank_drop (isBlank_take h _) _)]

theorem cellsAt_trimEnd (is : List Nat) (s : List Char) : cellsAt is (trimEnd s) = cellsAt is s := by
  obtain ⟨b, hb, hs⟩ := trimEnd_append s
  rw [← cellsAt_append_blank hb, hs]

/-- **Cells are read back**, less the white space at their end, from where their columns start. -/
theorem cellsAt_padded {widths : List Nat} {cells : List (List Char)}
    (h : List.Forall₂ (fun w cell => cell.length ≤ w) widths cells) (before : List Char) :
    cellsAt (offsets before.length widths) (before ++ padded widths cells) =
      cells.map trimEnd := by
  induction h generalizing before with
  | nil => rfl
  | @cons w cell ws cells hcell hrest ih =>
    have hnext := ih (before ++ padRight w cell)
    rw [List.length_append, length_padRight hcell, List.append_assoc] at hnext
    have hline : padded (w :: ws) (cell :: cells) = padRight w cell ++ padded ws cells := rfl
    rw [hline, List.map_cons, ← hnext]
    cases hrest with
    | nil =>
      show [trimEnd (List.drop before.length (before ++ (padRight w cell ++ [])))] = [trimEnd cell]
      rw [List.append_nil, List.drop_left, trimEnd_padRight]
    | cons _ _ =>
      have hcut : ∀ after, ((before ++ (padRight w cell ++ after)).take (before.length + w)).drop
          before.length = padRight w cell := by
        intro after
        have hlen : before.length + w = (before ++ padRight w cell).length := by
          rw [List.length_append, length_padRight hcell]
        rw [hlen, ← List.append_assoc, List.take_left, List.drop_left]
      rw [offsets, offsets, cellsAt, hcut, trimEnd_padRight]

/-- Reading over a word. -/
theorem starts_word (i : Nat) {w : List Char} (h : ∀ c ∈ w, isWhitespace c = false)
    (s : List Char) : starts i false (w ++ s) = starts (i + w.length) false s := by
  induction w generalizing i with
  | nil => rfl
  | cons c w ih =>
    rw [List.cons_append, starts, h c List.mem_cons_self, ih _ fun d hd =>
      h d (List.mem_cons_of_mem _ hd), List.length_cons]
    simp only [Bool.false_eq_true, if_false]
    congr 1
    omega

/-- Reading over white space. -/
theorem starts_blank (i : Nat) {b : List Char} (h : IsBlank b) (s : List Char) :
    starts i true (b ++ s) = starts (i + b.length) true s := by
  induction b generalizing i with
  | nil => rfl
  | cons c b ih =>
    rw [List.cons_append, starts, h c List.mem_cons_self, ih _ fun d hd =>
      h d (List.mem_cons_of_mem _ hd), List.length_cons, if_pos rfl]
    congr 1
    omega

/-- **Columns are found** from a line of words that are shorter than their columns. -/
theorem starts_padded {widths : List Nat} {words : List (List Char)}
    (h : List.Forall₂ (fun w word => word.length < w) widths words)
    (hwords : ∀ word ∈ words, IsWord word) (i : Nat) :
    starts i true (padded widths words) = offsets i widths := by
  induction h generalizing i with
  | nil => rfl
  | @cons w word ws words hword hrest ih =>
    obtain ⟨hne, hplain⟩ := hwords word List.mem_cons_self
    obtain ⟨c, cs, rfl⟩ := List.exists_cons_of_ne_nil hne
    obtain ⟨k, hk⟩ := Nat.exists_eq_add_of_lt hword
    have hline : padded (w :: ws) ((c :: cs) :: words) =
        c :: (cs ++ ' ' :: (List.replicate k ' ' ++ padded ws words)) := by
      have hpad : w - (c :: cs).length = k + 1 := by omega
      show padRight w (c :: cs) ++ padded ws words = _
      rw [padRight, hpad, List.replicate_succ]
      simp
    rw [hline, starts, hplain c List.mem_cons_self, offsets,
      ← ih fun word' hw => hwords word' (List.mem_cons_of_mem _ hw)]
    simp only [Bool.false_eq_true, if_false, if_true]
    rw [starts_word _ fun d hd => hplain d (List.mem_cons_of_mem _ hd), starts,
      if_pos (by decide), starts_blank _ (isBlank_replicate k), List.length_replicate]
    congr 2
    simp only [List.length_cons] at hk
    omega

theorem starts_append_blank {b : List Char} (h : IsBlank b) (i : Nat) (blank : Bool)
    (s : List Char) : starts i blank (s ++ b) = starts i blank s := by
  induction s generalizing i blank with
  | nil =>
    induction b generalizing i blank with
    | nil => rfl
    | cons c b ih =>
      show (if isWhitespace c then _ else _) = _
      rw [if_pos (h c List.mem_cons_self)]
      exact ih (fun d hd => h d (List.mem_cons_of_mem _ hd)) _ _
  | cons c s ih => rw [List.cons_append, starts, starts, ih, ih]

/-- White space after the last word does not matter. -/
theorem wordStarts_trimEnd (s : List Char) : wordStarts (trimEnd s) = wordStarts s := by
  obtain ⟨b, hb, hs⟩ := trimEnd_append s
  rw [wordStarts, ← starts_append_blank hb, hs]
  rfl

/-- A line without line breaks, trimmed, is one line of a text. -/
theorem isLine_trimEnd {s : List Char} (h : '\n' ∉ s) : IsLine (trimEnd s) := by
  refine ⟨fun hc => h (trimEnd_subset hc), fun hlast => ?_⟩
  exact absurd (getLast?_trimEnd hlast) (by decide)

/-- The characters of a line are those of its cells, and spaces. -/
theorem mem_padded {widths : List Nat} {cells : List (List Char)} {c : Char}
    (h : c ∈ padded widths cells) : c = ' ' ∨ ∃ cell ∈ cells, c ∈ cell := by
  obtain ⟨field, hfield, hc⟩ := List.mem_flatten.mp h
  obtain ⟨i, hi, rfl⟩ := List.mem_iff_getElem.mp hfield
  rw [List.getElem_zipWith, padRight] at hc
  rcases List.mem_append.mp hc with hc | hc
  · exact .inr ⟨_, List.getElem_mem _, hc⟩
  · exact .inl (List.eq_of_mem_replicate hc)

theorem not_mem_padded {widths : List Nat} {cells : List (List Char)}
    (h : ∀ cell ∈ cells, '\n' ∉ cell) : '\n' ∉ padded widths cells := by
  intro hc
  rcases mem_padded hc with hc | ⟨cell, hcell, hc⟩
  · cases hc
  · exact h cell hcell hc

/-- **Tables are read back**: of a table whose first line has words that fit their columns with
room to spare, all cells are found, less the white space at their end. -/
theorem read_table {widths : List Nat} {header : List (List Char)}
    {body : List (List (List Char))} {rule : List Char}
    (hheader : List.Forall₂ (fun w word => word.length < w) widths header)
    (hwords : ∀ word ∈ header, IsWord word)
    (hbody : ∀ cells ∈ body, List.Forall₂ (fun w cell => cell.length ≤ w) widths cells)
    (hbreaks : ∀ cells ∈ body, ∀ cell ∈ cells, '\n' ∉ cell) (hrule : '\n' ∉ rule) :
    read (unlines (trimEnd (padded widths header) :: trimEnd rule ::
      body.map fun cells => trimEnd (padded widths cells))) =
      header :: body.map fun cells => cells.map trimEnd := by
  have hbreak : ∀ word ∈ header, '\n' ∉ word := by
    intro word hw hc
    cases (hwords word hw).2 _ hc
  have hlines : ∀ l ∈ trimEnd (padded widths header) :: trimEnd rule ::
      body.map (fun cells => trimEnd (padded widths cells)), IsLine l := by
    intro l hl
    rcases List.mem_cons.mp hl with rfl | hl
    · exact isLine_trimEnd (not_mem_padded hbreak)
    rcases List.mem_cons.mp hl with rfl | hl
    · exact isLine_trimEnd hrule
    · obtain ⟨cells, hcells, rfl⟩ := List.mem_map.mp hl
      exact isLine_trimEnd (not_mem_padded (hbreaks cells hcells))
  have hstarts : wordStarts (trimEnd (padded widths header)) = offsets 0 widths := by
    rw [wordStarts_trimEnd]
    exact starts_padded hheader hwords 0
  have hcells : ∀ {cells : List (List Char)},
      List.Forall₂ (fun w cell => cell.length ≤ w) widths cells →
      cellsAt (offsets 0 widths) (trimEnd (padded widths cells)) = cells.map trimEnd := by
    intro cells h
    rw [cellsAt_trimEnd]
    exact cellsAt_padded h []
  rw [read, lines_unlines hlines]
  dsimp only
  rw [hstarts, List.map_cons, hcells (hheader.imp fun _ _ h => h.le), List.map_map]
  congr 1
  · exact (List.map_congr_left fun word hw => trimEnd_word (hwords word hw)).trans (List.map_id _)
  · exact List.map_congr_left fun cells h => hcells (hbody cells h)

end TextTable
