import Mathlib.Data.List.Basic
import Mathlib.Tactic.Ring

/-!
# Scanning line-oriented text

The string operations that parsers of line-oriented text are made of, on lists of
characters, each with the law that inverts a rendering:

- `lines` and `unlines` (`lines_unlines`);
- `splitWhitespace`, `spaced` and `fields` (`splitWhitespace_spaced`);
- `afterLast`, the segment after the last separator (`afterLast_append`);
- `fromStrRadix`, checked parsing of an unsigned integer, and the fixed-width and
  plain renderings it inverts (`fromStrRadix_fixedDigits`, `fromStrRadix_toDigits`).
-/

namespace TextScan

/-! ## Lines -/

/-- A line ending in CR LF loses both. -/
def stripCr (line : List Char) : List Char :=
  if line.getLast? = some '\r' then line.dropLast else line

/-- `str::lines`: only a line that a LF ends is stripped of its CR, and a final empty
line is not a line. -/
def lines (s : List Char) : List (List Char) :=
  let parts := s.splitOn '\n'
  parts.dropLast.map stripCr ++ (parts.getLast?.filter fun l => decide (l ≠ [])).toList

/-- Every line ended by a LF. -/
def unlines (ls : List (List Char)) : List Char := ls.flatMap fun l => l ++ ['\n']

/-- A line that `lines` gives back unchanged. -/
def IsLine (l : List Char) : Prop := '\n' ∉ l ∧ l.getLast? ≠ some '\r'

theorem splitOn_unlines {ls : List (List Char)} (h : ∀ l ∈ ls, '\n' ∉ l) :
    (unlines ls).splitOn '\n' = ls ++ [[]] := by
  induction ls with
  | nil => rfl
  | cons l ls ih =>
    have hl : '\n' ∉ l := h l List.mem_cons_self
    have hls := ih fun k hk => h k (List.mem_cons_of_mem _ hk)
    show ((l ++ ['\n']) ++ unlines ls).splitOn '\n' = _
    rw [List.append_assoc, List.singleton_append, List.splitOn_append_cons_self_of_not_mem hl, hls]
    rfl

/-- Lines that were ended by a LF, less their CR. -/
theorem lines_unlines_stripCr {ls : List (List Char)} (h : ∀ l ∈ ls, '\n' ∉ l) :
    lines (unlines ls) = ls.map stripCr := by
  rw [lines, splitOn_unlines h]
  simp

theorem lines_unlines {ls : List (List Char)} (h : ∀ l ∈ ls, IsLine l) :
    lines (unlines ls) = ls := by
  rw [lines_unlines_stripCr fun l hl => (h l hl).1]
  refine (List.map_congr_left fun l hl => ?_).trans (List.map_id ls)
  exact if_neg (h l hl).2

/-! ## Words -/

/-- `char::is_whitespace`: the Unicode property White_Space. -/
def isWhitespace (c : Char) : Bool :=
  let n := c.toNat
  (9 ≤ n && n ≤ 13) || n == 0x20 || n == 0x85 || n == 0xA0 || n == 0x1680 ||
    (0x2000 ≤ n && n ≤ 0x200A) || n == 0x2028 || n == 0x2029 || n == 0x202F || n == 0x205F ||
    n == 0x3000

/-- `str::split_whitespace`. -/
def splitWhitespace (s : List Char) : List (List Char) :=
  (s.splitOnP isWhitespace).filter fun w => decide (w ≠ [])

/-- A word: not empty, without whitespace. -/
def IsWord (w : List Char) : Prop := w ≠ [] ∧ ∀ c ∈ w, isWhitespace c = false

instance (w : List Char) : Decidable (IsWord w) :=
  decidable_of_iff (w ≠ [] ∧ w.all (fun c => !isWhitespace c) = true) (by simp [IsWord])

/-- White space, possibly none. -/
def IsBlank (s : List Char) : Prop := ∀ c ∈ s, isWhitespace c = true

instance (s : List Char) : Decidable (IsBlank s) :=
  decidable_of_iff (s.all isWhitespace = true) List.all_eq_true

/-- Words, each after white space of its own, and white space at the end. -/
def spaced (ws : List (List Char × List Char)) (last : List Char) : List Char :=
  ws.flatMap (fun w => w.1 ++ w.2) ++ last

/-- Words, each preceded by the given number of spaces. -/
def fields (ws : List (Nat × List Char)) : List Char :=
  ws.flatMap fun w => List.replicate w.1 ' ' ++ w.2

theorem splitWhitespace_cons {c : Char} (h : isWhitespace c = true) (s : List Char) :
    splitWhitespace (c :: s) = splitWhitespace s := by
  rw [splitWhitespace, List.splitOnP_cons_eq_if_modifyHead, if_pos h]
  rfl

theorem splitWhitespace_blank {b : List Char} (h : IsBlank b) (s : List Char) :
    splitWhitespace (b ++ s) = splitWhitespace s := by
  induction b with
  | nil => rfl
  | cons c b ih =>
    rw [List.cons_append, splitWhitespace_cons (h c List.mem_cons_self)]
    exact ih fun d hd => h d (List.mem_cons_of_mem _ hd)

theorem splitWhitespace_append_blank {b : List Char} (h : IsBlank b) (s : List Char) :
    splitWhitespace (s ++ b) = splitWhitespace s := by
  cases b with
  | nil => rw [List.append_nil]
  | cons c b =>
    have hb : splitWhitespace b = [] := by
      rw [← List.append_nil b, splitWhitespace_blank fun d hd => h d (List.mem_cons_of_mem _ hd)]
      rfl
    rw [splitWhitespace, List.splitOnP_append_cons s b (h c List.mem_cons_self),
      List.filter_append]
    show splitWhitespace s ++ splitWhitespace b = _
    rw [hb, List.append_nil]

/-- A CR at the end is no word. -/
theorem splitWhitespace_stripCr (line : List Char) :
    splitWhitespace (stripCr line) = splitWhitespace line := by
  rw [stripCr]
  split
  · rename_i hlast
    have hline : line = line.dropLast ++ ['\r'] :=
      (List.dropLast_append_getLast? _ hlast).symm
    have hblank : IsBlank ['\r'] := by decide
    rw [hline, List.dropLast_concat, splitWhitespace_append_blank hblank]
  · rfl

/-- A word, and white space or nothing after it. -/
theorem splitWhitespace_word {w s : List Char} (hw : IsWord w)
    (hs : ∀ c, s.head? = some c → isWhitespace c = true) :
    splitWhitespace (w ++ s) = w :: splitWhitespace s := by
  cases s with
  | nil =>
    rw [List.append_nil, splitWhitespace, List.splitOnP_eq_singleton hw.2]
    exact List.filter_cons_of_pos (by simpa using hw.1)
  | cons c s =>
    have hc : isWhitespace c = true := hs c rfl
    rw [splitWhitespace_cons hc, splitWhitespace,
      List.splitOnP_append_cons_of_forall_mem hw.2 c hc]
    exact List.filter_cons_of_pos (by simpa using hw.1)

/-- Words with white space between them are the words of the text. -/
theorem splitWhitespace_spaced {ws : List (List Char × List Char)} {last : List Char}
    (hw : ∀ w ∈ ws, IsWord w.2) (hblank : ∀ w ∈ ws, IsBlank w.1) (hlast : IsBlank last)
    (hsep : ∀ w ∈ ws.tail, w.1 ≠ []) : splitWhitespace (spaced ws last) = ws.map Prod.snd := by
  induction ws with
  | nil =>
    show splitWhitespace last = []
    rw [← List.append_nil last, splitWhitespace_blank hlast]
    rfl
  | cons w ws ih =>
    have hrest : ∀ c, (spaced ws last).head? = some c → isWhitespace c = true := by
      intro c hc
      cases ws with
      | nil => exact hlast c (List.mem_of_mem_head? hc)
      | cons v vs =>
        -- the next word has white space before it
        obtain ⟨b, bs, hv⟩ := List.exists_cons_of_ne_nil (hsep v List.mem_cons_self)
        have hmem : c = b := by
          rw [spaced, List.flatMap_cons, hv] at hc
          exact (Option.some.inj hc).symm
        refine hblank v (List.mem_cons_of_mem _ List.mem_cons_self) c ?_
        rw [hv, hmem]
        exact List.mem_cons_self
    have hsplit : spaced (w :: ws) last = w.1 ++ (w.2 ++ spaced ws last) := by
      simp [spaced]
    rw [hsplit, splitWhitespace_blank (hblank w List.mem_cons_self),
      splitWhitespace_word (hw w List.mem_cons_self) hrest, List.map_cons,
      ih (fun v hv => hw v (List.mem_cons_of_mem _ hv))
        (fun v hv => hblank v (List.mem_cons_of_mem _ hv))
        fun v hv => hsep v (List.mem_of_mem_tail hv)]

/-- Words separated by at least one space are the words of the text. -/
theorem splitWhitespace_fields {ws : List (Nat × List Char)} (hw : ∀ w ∈ ws, IsWord w.2)
    (hsep : ∀ w ∈ ws.tail, 0 < w.1) : splitWhitespace (fields ws) = ws.map Prod.snd := by
  have hspaced : fields ws =
      spaced (ws.map fun w => (List.replicate w.1 ' ', w.2)) [] := by
    rw [spaced, List.append_nil, List.flatMap_map]
    rfl
  rw [hspaced, splitWhitespace_spaced, List.map_map]
  · rfl
  · intro w hw'
    obtain ⟨v, hv, rfl⟩ := List.mem_map.mp hw'
    exact hw v hv
  · intro w hw' c hc
    obtain ⟨v, -, rfl⟩ := List.mem_map.mp hw'
    rw [List.eq_of_mem_replicate hc]
    decide
  · exact fun c hc => nomatch hc
  · intro w hw'
    rw [← List.map_tail] at hw'
    obtain ⟨v, hv, rfl⟩ := List.mem_map.mp hw'
    have hpos := hsep v hv
    show List.replicate v.1 ' ' ≠ []
    rw [ne_eq, List.replicate_eq_nil_iff]
    omega

/-- Words and spaces make one line. -/
theorem isLine_fields {ws : List (Nat × List Char)} (hw : ∀ w ∈ ws, IsWord w.2) :
    IsLine (fields ws) := by
  have hchar : ∀ c ∈ fields ws, c = ' ' ∨ isWhitespace c = false := by
    intro c hc
    obtain ⟨w, hw', hc⟩ := List.mem_flatMap.mp hc
    rcases List.mem_append.mp hc with hc | hc
    · exact .inl (List.eq_of_mem_replicate hc)
    · exact .inr ((hw w hw').2 c hc)
  constructor
  · intro hn
    rcases hchar _ hn with h | h
    · exact absurd h (by decide)
    · exact absurd h (by decide)
  · intro hr
    rcases hchar _ (List.mem_of_getLast? hr) with h | h
    · exact absurd h (by decide)
    · exact absurd h (by decide)

/-! ## Segments -/

/-- `s.rsplit(sep).next()`: what follows the last separator, all of `s` without one. -/
def afterLast (sep : Char) (s : List Char) : List Char := (s.splitOn sep).getLastD []

theorem afterLast_append {sep : Char} (s : List Char) {t : List Char} (h : sep ∉ t) :
    afterLast sep (s ++ sep :: t) = t := by
  rw [afterLast, List.splitOn_append_cons_self, List.splitOn_eq_singleton h]
  simp

/-- `str::split_once` at a character: what is before and after the first one. -/
def splitOnce (sep : Char) : List Char → Option (List Char × List Char)
  | [] => none
  | c :: s => if c = sep then some ([], s) else (splitOnce sep s).map fun (k, v) => (c :: k, v)

theorem splitOnce_append {sep : Char} {k : List Char} (h : sep ∉ k) (v : List Char) :
    splitOnce sep (k ++ sep :: v) = some (k, v) := by
  induction k with
  | nil => exact if_pos rfl
  | cons c k ih =>
    have hc : c ≠ sep := fun he => h (he ▸ List.mem_cons_self)
    rw [List.cons_append, splitOnce, if_neg hc, ih fun hk => h (List.mem_cons_of_mem _ hk)]
    rfl

/-- What is before and after the first separator. -/
theorem splitOnce_inj {sep : Char} {k k' v v' : List Char} (hk : sep ∉ k) (hk' : sep ∉ k')
    (h : k ++ sep :: v = k' ++ sep :: v') : k = k' ∧ v = v' := by
  have hsplit := congrArg (splitOnce sep) h
  rw [splitOnce_append hk, splitOnce_append hk'] at hsplit
  exact Prod.mk.inj (Option.some.inj hsplit)

theorem splitOnce_eq_none {sep : Char} {s : List Char} (h : sep ∉ s) : splitOnce sep s = none := by
  induction s with
  | nil => rfl
  | cons c s ih =>
    have hc : c ≠ sep := fun he => h (he ▸ List.mem_cons_self)
    rw [splitOnce, if_neg hc, ih fun hs => h (List.mem_cons_of_mem _ hs)]
    rfl

/-- What is before the first separator is the start of the text. -/
theorem splitOnce_eq_some {sep : Char} {s k v : List Char} (h : splitOnce sep s = some (k, v)) :
    s = k ++ sep :: v ∧ sep ∉ k := by
  induction s generalizing k v with
  | nil => cases h
  | cons c s ih =>
    rw [splitOnce] at h
    split at h
    · rename_i hc
      cases h
      exact ⟨by rw [hc]; rfl, List.not_mem_nil⟩
    · rename_i hc
      obtain ⟨⟨k', v'⟩, hs, he⟩ := Option.map_eq_some_iff.mp h
      cases he
      obtain ⟨rfl, hk⟩ := ih hs
      refine ⟨rfl, fun hmem => ?_⟩
      rcases List.mem_cons.mp hmem with rfl | hmem
      · exact hc rfl
      · exact hk hmem

/-! ## Unsigned integers -/

/-- `char::to_digit`. -/
def toDigit (radix : Nat) (c : Char) : Option Nat :=
  let value :=
    if c.isDigit then some (c.toNat - 48)
    else if c.isLower then some (c.toNat - 87)
    else if c.isUpper then some (c.toNat - 55)
    else none
  value.filter fun d => decide (d < radix)

/-- One digit more, unless the value reaches `bound`. -/
def pushDigit (radix bound acc : Nat) (c : Char) : Option Nat :=
  (toDigit radix c).bind fun d =>
    if acc * radix + d < bound then some (acc * radix + d) else none

/-- A leading plus sign is allowed. -/
def dropPlus : List Char → List Char
  | '+' :: s => s
  | s => s

/-- `from_str_radix` for an unsigned type whose values are those below `bound`. -/
def fromStrRadix (radix bound : Nat) (s : List Char) : Option Nat :=
  match dropPlus s with
  | [] => none
  | digits => digits.foldlM (pushDigit radix bound) 0

/-- `render` writes the digits of base `radix`. -/
def Renders (radix : Nat) (render : Nat → Char) : Prop :=
  ∀ d < radix, toDigit radix (render d) = some d

/-- The `width` low digits of `n`. -/
def fixedDigits (radix : Nat) (render : Nat → Char) : Nat → Nat → List Char
  | 0, _ => []
  | width + 1, n => fixedDigits radix render width (n / radix) ++ [render (n % radix)]

/-- An upper-case hexadecimal digit. -/
def upperHex (d : Nat) : Char := if d < 10 then Char.ofNat (48 + d) else Char.ofNat (55 + d)

theorem upperHex_renders : Renders 16 upperHex := by
  unfold Renders
  decide

theorem digitChar_renders {radix : Nat} (h : radix ≤ 16) : Renders radix Nat.digitChar := by
  have hvalue : ∀ d < 16, toDigit 16 (Nat.digitChar d) = some d := by decide
  intro d hd
  -- the filter of a smaller base lets a smaller digit through
  obtain ⟨hval, -⟩ := Option.filter_eq_some_iff.mp (hvalue d (by omega))
  exact Option.filter_eq_some_iff.mpr ⟨hval, by simpa using hd⟩

theorem pushDigit_render {radix bound acc d : Nat} {render : Nat → Char}
    (hr : Renders radix render) (hd : d < radix) (hb : acc * radix + d < bound) :
    pushDigit radix bound acc (render d) = some (acc * radix + d) := by
  rw [pushDigit, hr d hd, Option.bind_some, if_pos hb]

theorem foldlM_fixedDigits {radix bound : Nat} {render : Nat → Char} (hpos : 0 < radix)
    (hr : Renders radix render) :
    ∀ (width n acc : Nat), acc * radix ^ width + n % radix ^ width < bound →
      (fixedDigits radix render width n).foldlM (pushDigit radix bound) acc =
        some (acc * radix ^ width + n % radix ^ width)
  | 0, n, acc, _ => by simp [fixedDigits, Nat.mod_one]
  | width + 1, n, acc, hb => by
    have hval : acc * radix ^ (width + 1) + n % radix ^ (width + 1) =
        (acc * radix ^ width + n / radix % radix ^ width) * radix + n % radix := by
      rw [pow_succ', Nat.mod_mul]
      ring
    have hlt : acc * radix ^ width + n / radix % radix ^ width < bound := by
      have h1 := Nat.le_mul_of_pos_right (acc * radix ^ width + n / radix % radix ^ width) hpos
      omega
    rw [fixedDigits, List.foldlM_append, foldlM_fixedDigits hpos hr width (n / radix) acc hlt]
    show (pushDigit radix bound _ (render (n % radix))).bind _ = _
    rw [pushDigit_render hr (Nat.mod_lt n hpos) (hval ▸ hb), hval]
    rfl

theorem fixedDigits_ne_nil (radix : Nat) (render : Nat → Char) (width n : Nat) :
    fixedDigits radix render (width + 1) n ≠ [] := by
  rw [fixedDigits]
  simp

theorem length_fixedDigits (radix : Nat) (render : Nat → Char) (width n : Nat) :
    (fixedDigits radix render width n).length = width := by
  induction width generalizing n with
  | zero => rfl
  | succ width ih => rw [fixedDigits, List.length_append, ih, List.length_singleton]

theorem mem_fixedDigits {radix : Nat} {render : Nat → Char} (hpos : 0 < radix) {c : Char} :
    ∀ {width n : Nat}, c ∈ fixedDigits radix render width n → ∃ d < radix, c = render d
  | 0, _, h => nomatch h
  | width + 1, n, h => by
    rw [fixedDigits, List.mem_append] at h
    rcases h with h | h
    · exact mem_fixedDigits hpos h
    · exact ⟨n % radix, Nat.mod_lt n hpos, List.mem_singleton.mp h⟩

/-- Digits that do not start with a sign are parsed as they stand. -/
theorem fromStrRadix_eq {radix bound : Nat} {s : List Char} (hne : s ≠ [])
    (hplus : s.head? ≠ some '+') :
    fromStrRadix radix bound s = s.foldlM (pushDigit radix bound) 0 := by
  cases s with
  | nil => exact absurd rfl hne
  | cons c s =>
    have hc : c ≠ '+' := fun h => hplus (by rw [h]; rfl)
    have hdrop : dropPlus (c :: s) = c :: s := by
      unfold dropPlus
      split
      · rename_i h
        exact absurd (List.cons.inj h).1 hc
      · rfl
    rw [fromStrRadix, hdrop]

theorem upperHex_ne {d : Nat} (hd : d < 16) :
    upperHex d ≠ '+' ∧ upperHex d ≠ ':' ∧ isWhitespace (upperHex d) = false := by
  revert d
  decide

/-- Upper-case hexadecimal digits of a fixed width are read back. -/
theorem fromStrRadix_fixedDigits {bound width n : Nat} (hn : n < 16 ^ (width + 1))
    (hb : n < bound) :
    fromStrRadix 16 bound (fixedDigits 16 upperHex (width + 1) n) = some n := by
  have hplus : (fixedDigits 16 upperHex (width + 1) n).head? ≠ some '+' := by
    intro h
    obtain ⟨d, hd, hc⟩ := mem_fixedDigits (by decide) (List.mem_of_mem_head? h)
    exact (upperHex_ne hd).1 hc.symm
  have hmod : n % 16 ^ (width + 1) = n := Nat.mod_eq_of_lt hn
  rw [fromStrRadix_eq (fixedDigits_ne_nil _ _ _ _) hplus,
    foldlM_fixedDigits (by decide) upperHex_renders (width + 1) n 0 (by omega), hmod]
  simp

theorem foldlM_toDigits {radix bound n : Nat} (hbase : 1 < radix) (hradix : radix ≤ 16)
    (hb : n < bound) : (Nat.toDigits radix n).foldlM (pushDigit radix bound) 0 = some n := by
  induction n using Nat.strongRecOn with
  | ind n ih =>
    rw [Nat.toDigits_eq_if hbase]
    by_cases h : n < radix
    · rw [if_pos h]
      show (pushDigit radix bound 0 n.digitChar).bind _ = _
      rw [pushDigit_render (digitChar_renders hradix) h (by omega)]
      simp
    · have hdiv : n / radix < n := Nat.div_lt_self (by omega) hbase
      have hmod : n / radix * radix + n % radix = n := Nat.div_add_mod' n radix
      rw [if_neg h, List.foldlM_append, ih (n / radix) hdiv (by omega)]
      show (pushDigit radix bound (n / radix) (n % radix).digitChar).bind _ = _
      rw [pushDigit_render (digitChar_renders hradix) (Nat.mod_lt n (by omega)) (by omega), hmod]
      rfl

/-- A digit is neither a sign nor a separator. -/
theorem isDigit_plain {c : Char} (h : c.isDigit = true) :
    c ≠ '+' ∧ c ≠ ':' ∧ isWhitespace c = false := by
  have hrange : 48 ≤ c.toNat ∧ c.toNat ≤ 57 := by
    simp only [Char.isDigit, Bool.and_eq_true, decide_eq_true_eq, ge_iff_le] at h
    exact ⟨h.1, h.2⟩
  refine ⟨?_, ?_, ?_⟩
  · rintro rfl
    exact absurd hrange (by decide)
  · rintro rfl
    exact absurd hrange (by decide)
  · simp only [isWhitespace, Bool.or_eq_false_iff, Bool.and_eq_false_iff, beq_eq_false_iff_ne,
      decide_eq_false_iff_not]
    omega

/-- Plain decimal digits are read back. -/
theorem fromStrRadix_toDigits {bound n : Nat} (hb : n < bound) :
    fromStrRadix 10 bound (Nat.toDigits 10 n) = some n := by
  have hplus : (Nat.toDigits 10 n).head? ≠ some '+' := by
    intro h
    have hd := Nat.isDigit_of_mem_toDigits (by decide) (by decide) (List.mem_of_mem_head? h)
    exact (isDigit_plain hd).1 rfl
  rw [fromStrRadix_eq Nat.toDigits_ne_nil hplus, foldlM_toDigits (by decide) (by decide) hb]

/-- A decimal number is a word. -/
theorem isWord_toDigits (n : Nat) : IsWord (Nat.toDigits 10 n) :=
  ⟨Nat.toDigits_ne_nil, fun _ hc =>
    (isDigit_plain (Nat.isDigit_of_mem_toDigits (by decide) (by decide) hc)).2.2⟩

end TextScan
