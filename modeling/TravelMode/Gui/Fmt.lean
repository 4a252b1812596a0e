import TravelMode.Lib.TextScan

/-!
# Human-readable uptime (`gui/src/fmt.rs`)

`humanUptime` shows the two largest units of a number of seconds. `readUptime` is a reader of such
texts, by which the text says what it shows: the seconds but for those below the smaller unit
(`readUptime_humanUptime`), so texts are equal exactly if that is (`humanUptime_eq_iff`).
-/

namespace TravelMode

open TextScan

/-- A number and its unit. -/
def amount (n : Nat) (unit : Char) : List Char := Nat.toDigits 10 n ++ [unit]

/-- `human_uptime`: `2d 4h`, `3h 12m`, `45m 1s`, `12s`. -/
def humanUptime (secs : Nat) : List Char :=
  let days := secs / 86400
  let hours := secs % 86400 / 3600
  let mins := secs % 3600 / 60
  let s := secs % 60
  if 0 < days then amount days 'd' ++ ' ' :: amount hours 'h'
  else if 0 < hours then amount hours 'h' ++ ' ' :: amount mins 'm'
  else if 0 < mins then amount mins 'm' ++ ' ' :: amount s 's'
  else amount s 's'

/-- The smaller unit that is shown. -/
def grain (secs : Nat) : Nat :=
  if 86400 ≤ secs then 3600 else if 3600 ≤ secs then 60 else 1

/-- What is left of the seconds in the text. -/
def truncated (secs : Nat) : Nat := secs - secs % grain secs

/-! ## Reading it back -/

/-- The seconds in a unit. -/
def unitSecs : Char → Option Nat
  | 'd' => some 86400
  | 'h' => some 3600
  | 'm' => some 60
  | 's' => some 1
  | _ => none

/-- One word: a number and a unit. -/
def readAmount (word : List Char) : Option Nat :=
  word.getLast?.bind fun unit =>
    (unitSecs unit).bind fun secs =>
      (fromStrRadix 10 (2 ^ 64) word.dropLast).map fun n => n * secs

/-- The sum of the words. -/
def readUptime (text : List Char) : Option Nat :=
  (splitWhitespace text).foldlM (fun sum word => (readAmount word).map fun n => sum + n) 0

theorem readAmount_amount {n secs : Nat} {unit : Char} (hn : n < 2 ^ 64)
    (hunit : unitSecs unit = some secs) : readAmount (amount n unit) = some (n * secs) := by
  rw [readAmount, amount, List.getLast?_concat, Option.bind_some, hunit, Option.bind_some,
    List.dropLast_concat, fromStrRadix_toDigits hn]
  rfl

theorem isWord_amount (n : Nat) {unit : Char} (hunit : isWhitespace unit = false) :
    IsWord (amount n unit) := by
  refine ⟨List.append_ne_nil_of_right_ne_nil _ (List.cons_ne_nil _ _), fun c hc => ?_⟩
  rcases List.mem_append.mp hc with hc | hc
  · exact (isWord_toDigits n).2 c hc
  · rw [List.mem_singleton.mp hc]
    exact hunit

theorem splitWhitespace_amount (n : Nat) {unit : Char} (hunit : isWhitespace unit = false) :
    splitWhitespace (amount n unit) = [amount n unit] := by
  have hnone : ∀ c, ([] : List Char).head? = some c → isWhitespace c = true := by
    intro c hc
    cases hc
  have hsplit := splitWhitespace_word (isWord_amount n hunit) hnone
  rw [List.append_nil] at hsplit
  exact hsplit

theorem readUptime_one {n secs : Nat} {unit : Char} (hn : n < 2 ^ 64)
    (hunit : unitSecs unit = some secs) (hword : isWhitespace unit = false) :
    readUptime (amount n unit) = some (n * secs) := by
  rw [readUptime, splitWhitespace_amount n hword]
  simp [readAmount_amount hn hunit]

theorem readUptime_two {m n secs secs' : Nat} {unit unit' : Char} (hm : m < 2 ^ 64)
    (hn : n < 2 ^ 64) (hunit : unitSecs unit = some secs) (hunit' : unitSecs unit' = some secs')
    (hword : isWhitespace unit = false) (hword' : isWhitespace unit' = false) :
    readUptime (amount m unit ++ ' ' :: amount n unit') = some (m * secs + n * secs') := by
  have hspace : ∀ c, (' ' :: amount n unit').head? = some c → isWhitespace c = true := by
    intro c hc
    cases hc
    decide
  rw [readUptime, splitWhitespace_word (isWord_amount m hword) hspace,
    splitWhitespace_cons (by decide), splitWhitespace_amount n hword']
  simp [readAmount_amount hm hunit, readAmount_amount hn hunit']

/-- **The text says how long**: it reads as the seconds without those below its smaller unit. -/
theorem readUptime_humanUptime {secs : Nat} (h : secs < 2 ^ 64) :
    readUptime (humanUptime secs) = some (truncated secs) := by
  unfold humanUptime truncated grain
  dsimp only
  by_cases hdays : 86400 ≤ secs
  · have hpos : 0 < secs / 86400 := by omega
    rw [if_pos hpos, if_pos hdays,
      readUptime_two (by omega) (by omega) rfl rfl (by decide) (by decide)]
    congr 1
    omega
  · rw [if_neg (by omega : ¬0 < secs / 86400), if_neg hdays]
    by_cases hhours : 3600 ≤ secs
    · rw [if_pos (by omega : 0 < secs % 86400 / 3600), if_pos hhours,
        readUptime_two (by omega) (by omega) rfl rfl (by decide) (by decide)]
      congr 1
      omega
    · rw [if_neg (by omega : ¬0 < secs % 86400 / 3600), if_neg hhours]
      by_cases hmins : 60 ≤ secs
      · rw [if_pos (by omega : 0 < secs % 3600 / 60),
          readUptime_two (by omega) (by omega) rfl rfl (by decide) (by decide)]
        congr 1
        omega
      · rw [if_neg (by omega : ¬0 < secs % 3600 / 60),
          readUptime_one (by omega) rfl (by decide)]
        congr 1
        omega

/-- The text depends on what it shows. -/
theorem humanUptime_truncated (secs : Nat) : humanUptime (truncated secs) = humanUptime secs := by
  unfold humanUptime truncated grain
  dsimp only
  by_cases hdays : 86400 ≤ secs
  · rw [if_pos hdays]
    have hd : (secs - secs % 3600) / 86400 = secs / 86400 := by omega
    have hh : (secs - secs % 3600) % 86400 / 3600 = secs % 86400 / 3600 := by omega
    have hpos : 0 < secs / 86400 := by omega
    rw [hd, hh, if_pos hpos, if_pos hpos]
  · rw [if_neg hdays]
    by_cases hhours : 3600 ≤ secs
    · rw [if_pos hhours]
      have hd : (secs - secs % 60) / 86400 = secs / 86400 := by omega
      have hh : (secs - secs % 60) % 86400 / 3600 = secs % 86400 / 3600 := by omega
      have hm : (secs - secs % 60) % 3600 / 60 = secs % 3600 / 60 := by omega
      have hpos : 0 < secs % 86400 / 3600 := by omega
      rw [hd, hh, hm, if_pos hpos, if_pos hpos]
    · rw [if_neg hhours, Nat.mod_one, Nat.sub_zero]

/-- **Equal texts**: two uptimes look alike exactly if they are alike down to the smaller
unit. -/
theorem humanUptime_eq_iff {a b : Nat} (ha : a < 2 ^ 64) (hb : b < 2 ^ 64) :
    humanUptime a = humanUptime b ↔ truncated a = truncated b := by
  constructor
  · intro h
    have hread := congrArg readUptime h
    rw [readUptime_humanUptime ha, readUptime_humanUptime hb] at hread
    exact Option.some.inj hread
  · intro h
    rw [← humanUptime_truncated a, ← humanUptime_truncated b, h]

/-- A day and an hour, with and without minutes. -/
theorem humanUptime_eq_iff_day : humanUptime 90000 = humanUptime 90059 ∧
    (humanUptime 90000 = humanUptime 90059 ↔ truncated 90000 = truncated 90059) :=
  ⟨by decide +kernel, humanUptime_eq_iff (by decide) (by decide)⟩

end TravelMode
