import TravelMode.Core.IpText

/-!
# Addresses are read back

`FromStr` of `IpAddr` inverts `Display`, and it also reads the spelling of the kernel,
which writes an IPv6 address with all of its digits.

- `readIpv4Addr_text`, `readIpv6Addr_text`: the readers, on what `Display` writes.
- `IpAddr.spell`: both spellings; `parseIpAddr_spell`: both are read back.
-/

namespace TravelMode

open TextScan

namespace IpText

/-! ## Numbers -/

/-- The text goes on with something other than a digit. -/
def NoDigit (radix : Nat) (rest : List Char) : Prop :=
  ∀ c, rest.head? = some c → toDigit radix c = none

theorem readDigits_append {radix bound maxDigits : Nat} {ds rest : List Char} {count value n : Nat}
    (hrest : NoDigit radix rest) (hvalue : ds.foldlM (pushDigit radix bound) value = some n)
    (hcount : count + ds.length ≤ maxDigits) :
    readDigits radix bound maxDigits count value (ds ++ rest) =
      some (count + ds.length, n, rest) := by
  induction ds generalizing count value with
  | nil =>
    cases hvalue
    cases rest with
    | nil => rfl
    | cons c rest =>
      rw [List.nil_append, readDigits, hrest c rfl]
      rfl
  | cons c ds ih =>
    obtain ⟨value', hpush, hfold⟩ := Option.bind_eq_some_iff.mp hvalue
    obtain ⟨d, hd, hval⟩ := Option.bind_eq_some_iff.mp hpush
    rw [List.length_cons] at hcount
    split at hval
    · rename_i hlt
      cases hval
      rw [List.cons_append, readDigits, hd]
      dsimp only
      rw [if_pos ⟨hlt, by omega⟩, ih hfold (by omega), List.length_cons]
      congr 2
      omega
    · cases hval

/-- A number that was written is read, up to what follows it. -/
theorem readNumber_append {radix bound maxDigits : Nat} {allowZeroPrefix : Bool}
    {ds rest : List Char} {n : Nat} (hne : ds ≠ [])
    (hvalue : ds.foldlM (pushDigit radix bound) 0 = some n) (hlen : ds.length ≤ maxDigits)
    (hzero : allowZeroPrefix = true ∨ ds.head? ≠ some '0' ∨ ds.length ≤ 1)
    (hrest : NoDigit radix rest) :
    readNumber radix bound maxDigits allowZeroPrefix (ds ++ rest) = some (n, rest) := by
  have hpos : ds.length ≠ 0 := fun h => hne (List.eq_nil_of_length_eq_zero h)
  have hhead : (ds ++ rest).head? = ds.head? := by
    cases ds with
    | nil => exact absurd rfl hne
    | cons c ds => rfl
  have hok : (!allowZeroPrefix && ds.head? == some '0' && decide (1 < 0 + ds.length)) = false := by
    rcases hzero with h | h | h
    · simp [h]
    · simp [h]
    · have hle : ¬1 < ds.length := by omega
      simp [hle]
  rw [readNumber, readDigits_append hrest hvalue (by omega), Option.bind_some]
  dsimp only
  rw [if_neg (by omega), hhead, hok]
  rfl

/-- A reader of numbers leaves the end of the text. -/
theorem readDigits_suffix {radix bound maxDigits : Nat} {s rest : List Char}
    {count value count' value' : Nat}
    (h : readDigits radix bound maxDigits count value s = some (count', value', rest)) :
    rest <:+ s := by
  induction s generalizing count value with
  | nil =>
    cases h
    exact List.suffix_refl _
  | cons c s ih =>
    rw [readDigits] at h
    split at h
    · cases h
      exact List.suffix_refl _
    · split at h
      · exact (ih h).trans (List.suffix_cons c s)
      · cases h

theorem readNumber_suffix {radix bound maxDigits n : Nat} {allowZeroPrefix : Bool}
    {s rest : List Char} (h : readNumber radix bound maxDigits allowZeroPrefix s = some (n, rest)) :
    rest <:+ s := by
  obtain ⟨⟨count, value, rest'⟩, hread, h⟩ := Option.bind_eq_some_iff.mp h
  dsimp only at h
  split at h
  · cases h
  · split at h
    · cases h
    · cases h
      exact readDigits_suffix hread

/-! ## IPv4 -/

theorem noDigit_nil (radix : Nat) : NoDigit radix [] := fun _ h => nomatch h

theorem noDigit_dot (s : List Char) : NoDigit 10 ('.' :: s) := by
  intro c h
  cases h
  decide

/-- An octet has at most three digits, and no zero before others. -/
theorem octet_digits : ∀ n < 256, (Nat.toDigits 10 n).length ≤ 3 ∧
    ((Nat.toDigits 10 n).head? ≠ some '0' ∨ (Nat.toDigits 10 n).length ≤ 1) := by
  decide +kernel

theorem readOctet_text (a : UInt8) {rest : List Char} (hrest : NoDigit 10 rest) :
    readOctet (Nat.toDigits 10 a.toNat ++ rest) = some (a, rest) := by
  obtain ⟨hlen, hzero⟩ := octet_digits a.toNat a.toNat_lt
  rw [readOctet, readNumber_append Nat.toDigits_ne_nil
    (foldlM_toDigits (by decide) (by decide) a.toNat_lt) hlen (.inr hzero) hrest]
  simp

theorem readIpv4Addr_text (addr : Ipv4Addr) {rest : List Char} (hrest : NoDigit 10 rest) :
    readIpv4Addr (addr.text ++ rest) = some (addr, rest) := by
  have hdot : ∀ (a : UInt8) {s : List Char}, NoDigit 10 s →
      readSeparator '.' false readOctet ('.' :: (Nat.toDigits 10 a.toNat ++ s)) = some (a, s) := by
    intro a s hs
    exact readOctet_text a hs
  have hfirst : readSeparator '.' true readOctet (addr.text ++ rest) = some (addr.a,
      '.' :: (Nat.toDigits 10 addr.b.toNat ++ '.' :: (Nat.toDigits 10 addr.c.toNat ++
        '.' :: (Nat.toDigits 10 addr.d.toNat ++ rest)))) := by
    have htext : addr.text ++ rest = Nat.toDigits 10 addr.a.toNat ++
        '.' :: (Nat.toDigits 10 addr.b.toNat ++ '.' :: (Nat.toDigits 10 addr.c.toNat ++
          '.' :: (Nat.toDigits 10 addr.d.toNat ++ rest))) := by
      simp [Ipv4Addr.text]
    rw [htext]
    exact readOctet_text addr.a (noDigit_dot _)
  simp only [readIpv4Addr, hfirst, Option.bind_some, hdot addr.b (noDigit_dot _),
    hdot addr.c (noDigit_dot _), hdot addr.d hrest, Option.map_some]

/-- An IPv4 address starts with a digit. -/
theorem readIpv4Addr_noDigit {s : List Char} (h : NoDigit 10 s) : readIpv4Addr s = none := by
  have hoctet : readOctet s = none := by
    cases s with
    | nil => rfl
    | cons c s =>
      rw [readOctet, readNumber, readDigits, h c rfl]
      rfl
  show (readOctet s).bind _ = none
  rw [hoctet]
  rfl

/-- Without a dot there is no IPv4 address. -/
theorem readIpv4Addr_none {s : List Char} (h : '.' ∉ s) : readIpv4Addr s = none := by
  rw [readIpv4Addr]
  cases hread : readSeparator '.' true readOctet s with
  | none => rfl
  | some first =>
    obtain ⟨a, rest⟩ := first
    obtain ⟨⟨n, rest'⟩, hnumber, he⟩ := Option.map_eq_some_iff.mp hread
    cases he
    have hrest : '.' ∉ rest := fun hmem => h ((readNumber_suffix hnumber).subset hmem)
    have hsep : readSeparator '.' false readOctet rest = none := by
      cases rest with
      | nil => rfl
      | cons c rest =>
        have hc : c ≠ '.' := fun he => hrest (he ▸ List.mem_cons_self)
        show (if c = '.' then some rest else none).bind readOctet = none
        rw [if_neg hc]
        rfl
    simp only [Option.bind_some, hsep, Option.bind_none]

/-! ## Groups -/

/-- A spelling of a group. -/
structure Spells (t : List Char) (g : UInt16) : Prop where
  value : t.foldlM (pushDigit 16 65536) 0 = some g.toNat
  ne_nil : t ≠ []
  length_le : t.length ≤ 4

/-- The digits of a group, as `Display` writes them. -/
theorem spells_toDigits (g : UInt16) : Spells (Nat.toDigits 16 g.toNat) g where
  value := foldlM_toDigits (by decide) (by decide) g.toNat_lt
  ne_nil := Nat.toDigits_ne_nil
  length_le := (Nat.length_toDigits_le_iff (by decide) (by decide)).mpr g.toNat_lt

theorem pushDigit_digit {radix bound acc acc' : Nat} {c : Char}
    (h : pushDigit radix bound acc c = some acc') : ∃ d, toDigit radix c = some d := by
  obtain ⟨d, hd, -⟩ := Option.bind_eq_some_iff.mp h
  exact ⟨d, hd⟩

/-- What is read as a number consists of digits. -/
theorem digit_of_mem {radix bound acc n : Nat} {t : List Char}
    (h : t.foldlM (pushDigit radix bound) acc = some n) {c : Char} (hc : c ∈ t) :
    ∃ d, toDigit radix c = some d := by
  induction t generalizing acc with
  | nil => cases hc
  | cons c' t ih =>
    obtain ⟨acc', hpush, hfold⟩ := Option.bind_eq_some_iff.mp h
    rcases List.mem_cons.mp hc with rfl | hc
    · exact pushDigit_digit hpush
    · exact ih hfold hc

theorem Spells.not_mem {t : List Char} {g : UInt16} (h : Spells t g) (c : Char)
    (hc : toDigit 16 c = none) : c ∉ t := by
  intro hmem
  obtain ⟨d, hd⟩ := digit_of_mem h.value hmem
  rw [hc] at hd
  cases hd

theorem readGroup_append {t rest : List Char} {g : UInt16} (h : Spells t g)
    (hrest : NoDigit 16 rest) : readGroup (t ++ rest) = some (g, rest) := by
  rw [readGroup, readNumber_append h.ne_nil h.value h.length_le (.inl rfl) hrest]
  simp

/-- Spelled groups, each after a colon. -/
def colonGroups (ts : List (List Char × UInt16)) : List Char := ts.flatMap fun t => ':' :: t.1

/-- What may follow groups: nothing, or two colons. -/
def EndsGroups (rest : List Char) : Prop := rest = [] ∨ ∃ s, rest = ':' :: ':' :: s

theorem noDigit_colon {radix : Nat} (h : toDigit radix ':' = none) (s : List Char) :
    NoDigit radix (':' :: s) := by
  intro c hc
  cases hc
  exact h

theorem EndsGroups.noDigit {rest : List Char} (h : EndsGroups rest) : NoDigit 16 rest := by
  rcases h with rfl | ⟨s, rfl⟩
  · exact noDigit_nil 16
  · exact noDigit_colon (by decide) _

theorem noDigit_colonGroups {ts : List (List Char × UInt16)} {rest : List Char}
    (h : EndsGroups rest) : NoDigit 16 (colonGroups ts ++ rest) := by
  cases ts with
  | nil => exact h.noDigit
  | cons t ts => exact noDigit_colon (by decide) _

theorem not_mem_colonGroups {ts : List (List Char × UInt16)} (h : ∀ t ∈ ts, Spells t.1 t.2) :
    '.' ∉ colonGroups ts := by
  intro hmem
  obtain ⟨t, ht, hmem⟩ := List.mem_flatMap.mp hmem
  rcases List.mem_cons.mp hmem with hdot | hmem
  · cases hdot
  · exact (h t ht).not_mem '.' (by decide) hmem

theorem readGroup_none {c : Char} (h : toDigit 16 c = none) (s : List Char) :
    readGroup (c :: s) = none := by
  rw [readGroup, readNumber, readDigits, h]
  rfl

/-- Where the groups end, the reader stops. -/
theorem readGroups_end {left : Nat} {first : Bool} {rest : List Char} (h : EndsGroups rest) :
    readGroups left first rest = ⟨[], false, rest⟩ := by
  cases left with
  | zero => rfl
  | succ left =>
    have hgroup : readSeparator ':' first readGroup rest = none := by
      rcases h with rfl | ⟨s, rfl⟩
      · cases first <;> rfl
      · cases first with
        | true => exact @readGroup_none ':' (by decide) (':' :: s)
        | false => exact @readGroup_none ':' (by decide) s
    have hv4 : readSeparator ':' first readIpv4Addr rest = none := by
      rcases h with rfl | ⟨s, rfl⟩
      · cases first <;> rfl
      · cases first with
        | true => exact readIpv4Addr_noDigit (noDigit_colon (by decide) (':' :: s))
        | false => exact readIpv4Addr_noDigit (noDigit_colon (by decide) s)
    rw [readGroups, hv4, ite_self, hgroup]

/-- One group more. -/
theorem readGroups_cons {left : Nat} {first : Bool} {s t rest : List Char} {g : UInt16}
    (h : Spells t g) (hs : s = if first then t ++ rest else ':' :: (t ++ rest))
    (hrest : NoDigit 16 rest) (hdot : '.' ∉ rest) :
    readGroups (left + 1) first s = { readGroups left false rest with
      groups := g :: (readGroups left false rest).groups } := by
  have hdots : '.' ∉ t ++ rest := by
    intro hmem
    rcases List.mem_append.mp hmem with hmem | hmem
    · exact h.not_mem '.' (by decide) hmem
    · exact hdot hmem
  have hv4 : readSeparator ':' first readIpv4Addr s = none := by
    rw [hs]
    cases first with
    | true => exact readIpv4Addr_none hdots
    | false => exact readIpv4Addr_none hdots
  have hgroup : readSeparator ':' first readGroup s = some (g, rest) := by
    rw [hs]
    cases first with
    | true => exact readGroup_append h hrest
    | false => exact readGroup_append h hrest
  rw [readGroups, hv4, ite_self, hgroup]

theorem readGroups_colonGroups {ts : List (List Char × UInt16)} {left : Nat} {rest : List Char}
    (hts : ∀ t ∈ ts, Spells t.1 t.2) (hleft : ts.length ≤ left) (hrest : EndsGroups rest)
    (hdot : '.' ∉ rest) : readGroups left false (colonGroups ts ++ rest) =
      ⟨ts.map Prod.snd, false, rest⟩ := by
  induction ts generalizing left with
  | nil => exact readGroups_end hrest
  | cons t ts ih =>
    obtain ⟨left, rfl⟩ := Nat.exists_eq_succ_of_ne_zero (show left ≠ 0 by
      rw [List.length_cons] at hleft
      omega)
    have hts' : ∀ u ∈ ts, Spells u.1 u.2 := fun u hu => hts u (List.mem_cons_of_mem _ hu)
    have hdots : '.' ∉ colonGroups ts ++ rest := by
      intro hmem
      rcases List.mem_append.mp hmem with hmem | hmem
      · exact not_mem_colonGroups hts' hmem
      · exact hdot hmem
    have htext : colonGroups (t :: ts) ++ rest = ':' :: (t.1 ++ (colonGroups ts ++ rest)) := by
      simp [colonGroups]
    rw [readGroups_cons (hts t List.mem_cons_self) htext (noDigit_colonGroups hrest) hdots,
      ih hts' (Nat.le_of_succ_le_succ hleft)]
    rfl

/-- Groups with colons between them. -/
def joined : List (List Char × UInt16) → List Char
  | [] => []
  | t :: ts => t.1 ++ colonGroups ts

/-- Groups that were written are read. -/
theorem readGroups_joined {ts : List (List Char × UInt16)} {left : Nat} {rest : List Char}
    (hts : ∀ t ∈ ts, Spells t.1 t.2) (hleft : ts.length ≤ left) (hrest : EndsGroups rest)
    (hdot : '.' ∉ rest) : readGroups left true (joined ts ++ rest) =
      ⟨ts.map Prod.snd, false, rest⟩ := by
  cases ts with
  | nil => exact readGroups_end hrest
  | cons t ts =>
    obtain ⟨left, rfl⟩ := Nat.exists_eq_succ_of_ne_zero (show left ≠ 0 by
      rw [List.length_cons] at hleft
      omega)
    have hts' : ∀ u ∈ ts, Spells u.1 u.2 := fun u hu => hts u (List.mem_cons_of_mem _ hu)
    have hdots : '.' ∉ colonGroups ts ++ rest := by
      intro hmem
      rcases List.mem_append.mp hmem with hmem | hmem
      · exact not_mem_colonGroups hts' hmem
      · exact hdot hmem
    have htext : joined (t :: ts) ++ rest = t.1 ++ (colonGroups ts ++ rest) :=
      List.append_assoc _ _ _
    rw [readGroups_cons (hts t List.mem_cons_self) htext (noDigit_colonGroups hrest) hdots,
      readGroups_colonGroups hts' (Nat.le_of_succ_le_succ hleft) hrest hdot]
    rfl

/-- `readIpv6Addr`, when there are eight groups. -/
theorem readIpv6Addr_eight {s rest : List Char} {gs : List UInt16}
    (h : readGroups 8 true s = ⟨gs, false, rest⟩) (hlen : gs.length = 8) :
    readIpv6Addr s = some (.ofGroups gs hlen, rest) := by
  simp only [readIpv6Addr, h]
  exact dif_pos hlen

/-- `readIpv6Addr`, with `::` between groups. -/
theorem readIpv6Addr_zeros {s s' rest : List Char} {head tail : List UInt16} {isV4 : Bool}
    (hhead : readGroups 8 true s = ⟨head, false, ':' :: ':' :: s'⟩) (hlen : head.length < 8)
    (htail : readGroups (8 - (head.length + 1)) true s' = ⟨tail, isV4, rest⟩)
    (hjoin : (joinGroups head tail).length = 8) :
    readIpv6Addr s = some (.ofGroups (joinGroups head tail) hjoin, rest) := by
  have hne : head.length ≠ 8 := by omega
  simp only [readIpv6Addr, hhead, dif_neg hne, readGivenChar, if_true, Option.bind_some, htail]
  rfl

end IpText

/-! ## The octets of the groups -/

namespace Ipv6Addr

theorem groupOctets_group (hi lo : UInt8) : groupOctets (group hi lo) = [hi, lo] := by
  have hhi := hi.toNat_lt
  have hlo := lo.toNat_lt
  have hgroup : (group hi lo).toNat = hi.toNat * 256 + lo.toNat := by
    rw [group, UInt16.toNat_ofNat', Nat.mod_eq_of_lt (by omega)]
  have hdiv : (hi.toNat * 256 + lo.toNat) / 256 = hi.toNat := by omega
  have hmod : UInt8.ofNat (hi.toNat * 256 + lo.toNat) = lo := by
    rw [← UInt8.toNat_inj, UInt8.toNat_ofNat']
    omega
  rw [groupOctets, hgroup, hdiv, hmod, UInt8.ofNat_toNat]

/-- Octets come in pairs. -/
theorem flatMap_groupsOf : ∀ {octets : List UInt8}, octets.length % 2 = 0 →
    (groupsOf octets).flatMap groupOctets = octets
  | [], _ => rfl
  | [_], h => nomatch h
  | hi :: lo :: octets, h => by
    have hrest : octets.length % 2 = 0 := by
      simp only [List.length_cons] at h
      omega
    rw [groupsOf, List.flatMap_cons, groupOctets_group, flatMap_groupsOf hrest]
    rfl

theorem length_segments (addr : Ipv6Addr) : addr.segments.length = 8 := by
  have hoctets : addr.segments.flatMap groupOctets = addr.octets :=
    flatMap_groupsOf (by rw [addr.size])
  have hlen := length_flatMap_groupOctets addr.segments
  rw [hoctets, addr.size] at hlen
  omega

/-- An address is made of its segments. -/
theorem ofGroups_segments (addr : Ipv6Addr) {gs : List UInt16} (h : gs = addr.segments)
    (hlen : gs.length = 8) : ofGroups gs hlen = addr := by
  subst h
  have hoctets : addr.segments.flatMap groupOctets = addr.octets :=
    flatMap_groupsOf (by rw [addr.size])
  cases addr
  simpa [ofGroups] using hoctets

end Ipv6Addr

open IpText

/-! ## Runs of zeros -/

/-- A run of zero groups of `gs`. -/
def Span.Zeros (span : Span) (gs : List UInt16) : Prop :=
  ∃ pre post, gs = pre ++ List.replicate span.len 0 ++ post ∧ (span.len ≠ 0 → pre.length = span.start)

theorem Span.Zeros.append {span : Span} {gs : List UInt16} (h : span.Zeros gs) (more : List UInt16) :
    span.Zeros (gs ++ more) := by
  obtain ⟨pre, post, rfl, hstart⟩ := h
  exact ⟨pre, post ++ more, by simp, hstart⟩

/-- The invariant of the search, after the groups `gs`. -/
structure SpanSearch.Wf (search : SpanSearch) (gs : List UInt16) : Prop where
  i_eq : search.i = gs.length
  current : ∃ pre, gs = pre ++ List.replicate search.current.len 0 ∧
    (search.current.len ≠ 0 → pre.length = search.current.start)
  longest : search.longest.Zeros gs

theorem SpanSearch.Wf.visit {search : SpanSearch} {gs : List UInt16} (h : search.Wf gs)
    (g : UInt16) : (search.visit g).Wf (gs ++ [g]) := by
  obtain ⟨pre, hpre, hstart⟩ := h.current
  by_cases hg : g = 0
  · -- the current run takes the group
    have hcurrent : ∃ start, (search.visit g).current = ⟨start, search.current.len + 1⟩ ∧
        pre.length = start := by
      by_cases hlen : search.current.len = 0
      · refine ⟨search.i, by simp [SpanSearch.visit, hg, hlen], ?_⟩
        rw [h.i_eq, hpre, hlen]
        simp
      · exact ⟨search.current.start, by simp [SpanSearch.visit, hg, hlen], hstart hlen⟩
    obtain ⟨start, hvisit, hlength⟩ := hcurrent
    have hsplit : gs ++ [g] = pre ++ List.replicate (search.current.len + 1) 0 := by
      rw [List.replicate_succ', ← List.append_assoc, ← hpre, hg]
    refine ⟨?_, ⟨pre, ?_, ?_⟩, ?_⟩
    · simp [SpanSearch.visit, hg, h.i_eq]
    · rw [hvisit, hsplit]
    · rw [hvisit]
      exact fun _ => hlength
    · have hlongest : (search.visit g).longest = (search.visit g).current ∨
          (search.visit g).longest = search.longest := by
        simp only [SpanSearch.visit, hg, if_true]
        split
        · exact .inl rfl
        · exact .inr rfl
      rcases hlongest with hl | hl
      · rw [hl, hvisit]
        exact ⟨pre, [], by rw [hsplit, List.append_nil], fun _ => hlength⟩
      · rw [hl]
        exact h.longest.append [g]
  · have hvisit : search.visit g = ⟨search.i + 1, ⟨0, 0⟩, search.longest⟩ := if_neg hg
    rw [hvisit]
    refine ⟨by simp [h.i_eq], ⟨gs ++ [g], by simp, fun hne => absurd rfl hne⟩, ?_⟩
    exact h.longest.append [g]

theorem SpanSearch.Wf.foldl {search : SpanSearch} {gs : List UInt16} (h : search.Wf gs)
    (more : List UInt16) : (more.foldl SpanSearch.visit search).Wf (gs ++ more) := by
  induction more generalizing search gs with
  | nil => simpa using h
  | cons g more ih =>
    have hstep := ih (h.visit g)
    rwa [List.append_assoc] at hstep

/-- What is written as `::` are zeros. -/
theorem longestZeros_zeros (gs : List UInt16) : (longestZeros gs).Zeros gs := by
  have hstart : SpanSearch.Wf ⟨0, ⟨0, 0⟩, ⟨0, 0⟩⟩ [] :=
    ⟨rfl, ⟨[], rfl, fun hne => absurd rfl hne⟩, [], [], rfl, fun hne => absurd rfl hne⟩
  exact (hstart.foldl gs).longest

/-! ## What Display writes is read -/

/-- The digits of groups, as `Display` writes them. -/
def displayGroups (gs : List UInt16) : List (List Char × UInt16) :=
  gs.map fun g => (Nat.toDigits 16 g.toNat, g)

theorem groupsText_eq (gs : List UInt16) : groupsText gs = joined (displayGroups gs) := by
  cases gs with
  | nil => rfl
  | cons g gs =>
    induction gs generalizing g with
    | nil => simp [groupsText, displayGroups, joined, colonGroups]
    | cons g' gs ih =>
      rw [groupsText, ih g']
      · rfl
      · exact fun he => nomatch he

theorem map_snd_displayGroups (gs : List UInt16) : (displayGroups gs).map Prod.snd = gs := by
  rw [displayGroups, List.map_map]
  exact List.map_id gs

theorem spells_displayGroups {gs : List UInt16} :
    ∀ t ∈ displayGroups gs, Spells t.1 t.2 := by
  intro t ht
  obtain ⟨g, -, rfl⟩ := List.mem_map.mp ht
  exact spells_toDigits g

theorem not_mem_joined {ts : List (List Char × UInt16)} (h : ∀ t ∈ ts, Spells t.1 t.2) :
    '.' ∉ joined ts := by
  cases ts with
  | nil => exact List.not_mem_nil
  | cons t ts =>
    intro hmem
    rcases List.mem_append.mp hmem with hmem | hmem
    · exact (h t List.mem_cons_self).not_mem '.' (by decide) hmem
    · exact not_mem_colonGroups (fun u hu => h u (List.mem_cons_of_mem _ hu)) hmem

/-- Eight spelled groups are an address. -/
theorem readIpv6Addr_joined {ts : List (List Char × UInt16)} (h : ∀ t ∈ ts, Spells t.1 t.2)
    {addr : Ipv6Addr} (haddr : ts.map Prod.snd = addr.segments) :
    readIpv6Addr (joined ts) = some (addr, []) := by
  have hlen : ts.length = 8 := by
    rw [← List.length_map (f := Prod.snd), haddr, addr.length_segments]
  have hread := readGroups_joined h (Nat.le_of_eq hlen) (.inl rfl) List.not_mem_nil
  rw [List.append_nil] at hread
  rw [readIpv6Addr_eight hread (by rw [List.length_map, hlen]), addr.ofGroups_segments haddr]

/-- Groups around `::`. -/
theorem readIpv6Addr_span {ts us : List (List Char × UInt16)} (hts : ∀ t ∈ ts, Spells t.1 t.2)
    (hus : ∀ u ∈ us, Spells u.1 u.2) {len : Nat} (hlen : 0 < len) {addr : Ipv6Addr}
    (haddr : ts.map Prod.snd ++ List.replicate len 0 ++ us.map Prod.snd = addr.segments) :
    readIpv6Addr (joined ts ++ ':' :: ':' :: joined us) = some (addr, []) := by
  have hcount : ts.length + len + us.length = 8 := by
    rw [← addr.length_segments, ← haddr]
    simp only [List.length_append, List.length_map, List.length_replicate]
  have hdots : '.' ∉ ':' :: ':' :: joined us := by
    simpa using not_mem_joined hus
  -- the head ends at the double colon, the tail at the end of the text
  have hhead : readGroups 8 true (joined ts ++ ':' :: ':' :: joined us) =
      ⟨ts.map Prod.snd, false, ':' :: ':' :: joined us⟩ :=
    readGroups_joined hts (by omega) (.inr ⟨_, rfl⟩) hdots
  have htail : readGroups (8 - ((ts.map Prod.snd).length + 1)) true (joined us) =
      ⟨us.map Prod.snd, false, []⟩ := by
    have hread := @readGroups_joined us (8 - ((ts.map Prod.snd).length + 1)) [] hus
      (by rw [List.length_map]; omega) (.inl rfl) List.not_mem_nil
    rwa [List.append_nil] at hread
  have hjoin : joinGroups (ts.map Prod.snd) (us.map Prod.snd) = addr.segments := by
    have hzeros : 8 - (ts.map Prod.snd).length - (us.map Prod.snd).length = len := by
      simp only [List.length_map]
      omega
    rw [joinGroups, hzeros, haddr]
  rw [readIpv6Addr_zeros hhead (by rw [List.length_map]; omega) htail
    (by rw [hjoin, addr.length_segments]), addr.ofGroups_segments hjoin]

theorem spells_ffff : Spells ['f', 'f', 'f', 'f'] 0xffff := ⟨by decide, by decide, by decide⟩

/-- An IPv4-mapped address ends in an IPv4 address. -/
theorem readIpv6Addr_mapped {addr : Ipv6Addr} {v4 : Ipv4Addr} (h : addr.toIpv4Mapped = some v4) :
    readIpv6Addr ([':', ':', 'f', 'f', 'f', 'f', ':'] ++ v4.text) = some (addr, []) := by
  have hhead : readGroups 8 true ([':', ':', 'f', 'f', 'f', 'f', ':'] ++ v4.text) =
      ⟨[], false, ':' :: ':' :: (['f', 'f', 'f', 'f'] ++ ':' :: v4.text)⟩ :=
    readGroups_end (.inr ⟨_, rfl⟩)
  -- after `ffff` the next part is read as an IPv4 address
  have hlast : readGroups 6 false (':' :: v4.text) =
      ⟨[Ipv6Addr.group v4.a v4.b, Ipv6Addr.group v4.c v4.d], true, []⟩ := by
    have hv4 : readSeparator ':' false readIpv4Addr (':' :: v4.text) = some (v4, []) := by
      have hread := readIpv4Addr_text v4 (noDigit_nil 10)
      rwa [List.append_nil] at hread
    rw [readGroups, if_pos (by decide), hv4]
  have htail : readGroups (8 - (([] : List UInt16).length + 1)) true
      (['f', 'f', 'f', 'f'] ++ ':' :: v4.text) =
      ⟨[0xffff, Ipv6Addr.group v4.a v4.b, Ipv6Addr.group v4.c v4.d], true, []⟩ := by
    have hv4 : readSeparator ':' true readIpv4Addr (['f', 'f', 'f', 'f'] ++ ':' :: v4.text) =
        none := by
      show readIpv4Addr (['f', 'f', 'f', 'f'] ++ ':' :: v4.text) = none
      refine readIpv4Addr_noDigit fun c hc => ?_
      cases hc
      decide
    have hgroup : readSeparator ':' true readGroup (['f', 'f', 'f', 'f'] ++ ':' :: v4.text) =
        some (0xffff, ':' :: v4.text) :=
      readGroup_append spells_ffff (noDigit_colon (by decide) _)
    show readGroups (6 + 1) true _ = _
    rw [readGroups, hv4, ite_self, hgroup]
    dsimp only
    rw [hlast]
  have hsegments : joinGroups [] [0xffff, Ipv6Addr.group v4.a v4.b, Ipv6Addr.group v4.c v4.d] =
      addr.segments := by
    unfold Ipv6Addr.toIpv4Mapped at h
    split at h
    · rename_i hoctets
      cases h
      rw [Ipv6Addr.segments, hoctets]
      rfl
    · cases h
  rw [readIpv6Addr_zeros hhead (by decide) htail (by rw [hsegments, addr.length_segments]),
    addr.ofGroups_segments hsegments]

/-- What `Display` writes of an IPv6 address is read. -/
theorem readIpv6Addr_text (addr : Ipv6Addr) : readIpv6Addr addr.text = some (addr, []) := by
  rw [Ipv6Addr.text]
  cases hmapped : addr.toIpv4Mapped with
  | some v4 => exact readIpv6Addr_mapped hmapped
  | none =>
    dsimp only
    split
    · rename_i hlen
      -- a run of zeros is compressed
      have hzeros := longestZeros_zeros addr.segments
      generalize longestZeros addr.segments = zeros at hlen hzeros ⊢
      obtain ⟨pre, post, hgs, hstart⟩ := hzeros
      have hpre := hstart (by omega)
      have htake : addr.segments.take zeros.start = pre := by
        rw [← hpre, hgs, List.append_assoc, List.take_left]
      have hdrop : addr.segments.drop (zeros.start + zeros.len) = post := by
        have hlength : zeros.start + zeros.len =
            (pre ++ List.replicate zeros.len (0 : UInt16)).length := by
          rw [List.length_append, List.length_replicate, hpre]
        rw [hlength, hgs, List.drop_left]
      rw [htake, hdrop, groupsText_eq, groupsText_eq]
      refine readIpv6Addr_span spells_displayGroups spells_displayGroups
        (Nat.zero_lt_of_lt hlen) ?_
      rw [map_snd_displayGroups, map_snd_displayGroups, ← hgs]
    · rw [groupsText_eq]
      exact readIpv6Addr_joined spells_displayGroups (map_snd_displayGroups _)

/-! ## Spellings -/

/-- How an address is spelled: as `Display` writes it, or as the kernel does, with all the
digits of every group. -/
inductive Spelling where
  | display
  | full

/-- Four digits a group. -/
def fullGroups (gs : List UInt16) : List (List Char × UInt16) :=
  gs.map fun g => (fixedDigits 16 Nat.digitChar 4 g.toNat, g)

/-- The text of an address in a spelling. IPv4 has one. -/
def IpAddr.spell : Spelling → IpAddr → List Char
  | _, v4 addr => addr.text
  | .display, v6 addr => addr.text
  | .full, v6 addr => joined (fullGroups addr.segments)

theorem spells_fullGroups {gs : List UInt16} : ∀ t ∈ fullGroups gs, Spells t.1 t.2 := by
  intro t ht
  obtain ⟨g, -, rfl⟩ := List.mem_map.mp ht
  have hlt : g.toNat < 65536 := g.toNat_lt
  have hmod : g.toNat % 16 ^ 4 = g.toNat := Nat.mod_eq_of_lt hlt
  have hvalue := @foldlM_fixedDigits 16 65536 Nat.digitChar (by decide)
    (digitChar_renders (Nat.le_refl 16)) 4 g.toNat 0 (by omega)
  rw [hmod, Nat.zero_mul, Nat.zero_add] at hvalue
  exact ⟨hvalue, fixedDigits_ne_nil _ _ _ _, Nat.le_of_eq (length_fixedDigits ..)⟩

theorem map_snd_fullGroups (gs : List UInt16) : (fullGroups gs).map Prod.snd = gs := by
  rw [fullGroups, List.map_map]
  exact List.map_id gs

/-- An IPv6 address is not read as an IPv4 one. -/
theorem parseIpAddr_v6 {s : List Char} {addr : Ipv6Addr} (hv4 : readIpv4Addr s = none)
    (hv6 : readIpv6Addr s = some (addr, [])) : parseIpAddr s = some (.v6 addr) := by
  simp [parseIpAddr, hv4, hv6]

theorem parseIpAddr_text (addr : IpAddr) : parseIpAddr addr.text = some addr := by
  cases addr with
  | v4 addr =>
    have hread := readIpv4Addr_text addr (noDigit_nil 10)
    rw [List.append_nil] at hread
    simp [parseIpAddr, IpAddr.text, hread]
  | v6 addr =>
    refine parseIpAddr_v6 ?_ (readIpv6Addr_text addr)
    show readIpv4Addr addr.text = none
    rw [Ipv6Addr.text]
    split
    · exact readIpv4Addr_noDigit (noDigit_colon (by decide) _)
    · dsimp only
      split
      · refine readIpv4Addr_none ?_
        rw [groupsText_eq, groupsText_eq]
        simpa using ⟨not_mem_joined spells_displayGroups, not_mem_joined spells_displayGroups⟩
      · rw [groupsText_eq]
        exact readIpv4Addr_none (not_mem_joined spells_displayGroups)

/-- An address is read back from every spelling. -/
theorem parseIpAddr_spell (spelling : Spelling) (addr : IpAddr) :
    parseIpAddr (addr.spell spelling) = some addr := by
  cases addr with
  | v4 addr => exact parseIpAddr_text (.v4 addr)
  | v6 addr =>
    cases spelling with
    | display => exact parseIpAddr_text (.v6 addr)
    | full =>
      exact parseIpAddr_v6 (readIpv4Addr_none (not_mem_joined spells_fullGroups))
        (readIpv6Addr_joined spells_fullGroups (map_snd_fullGroups _))

/-! ## The characters of a spelling -/

/-- A character of an address. -/
def IpChar (c : Char) : Prop := (∃ d, toDigit 16 c = some d) ∨ c = ':' ∨ c = '.'

theorem ipChar_toDigits {radix n : Nat} (hbase : 1 < radix) (hradix : radix ≤ 16) :
    ∀ c ∈ Nat.toDigits radix n, IpChar c := by
  intro c hc
  obtain ⟨d, hd⟩ := digit_of_mem (foldlM_toDigits hbase hradix (Nat.lt_succ_self n)) hc
  refine .inl ⟨d, ?_⟩
  -- a digit of a smaller base is one of base 16
  obtain ⟨hvalue, hlt⟩ := Option.filter_eq_some_iff.mp hd
  have hlt : d < radix := by simpa using hlt
  exact Option.filter_eq_some_iff.mpr ⟨hvalue, by simpa using Nat.lt_of_lt_of_le hlt hradix⟩

theorem ipChar_v4 (addr : Ipv4Addr) : ∀ c ∈ addr.text, IpChar c := by
  have hdigits : ∀ n : Nat, ∀ c ∈ Nat.toDigits 10 n, IpChar c := fun n =>
    ipChar_toDigits (by decide) (by decide)
  intro c hc
  simp only [Ipv4Addr.text, List.mem_append, List.mem_cons] at hc
  rcases hc with ((h | h | h) | h | h) | h | h
  all_goals first | exact hdigits _ c h | exact .inr (.inr h)

theorem ipChar_joined {ts : List (List Char × UInt16)} (h : ∀ t ∈ ts, Spells t.1 t.2) :
    ∀ c ∈ joined ts, IpChar c := by
  have hgroup : ∀ t ∈ ts, ∀ c ∈ t.1, IpChar c := fun t ht c hc =>
    .inl (digit_of_mem (h t ht).value hc)
  intro c hc
  cases ts with
  | nil => cases hc
  | cons t ts =>
    rcases List.mem_append.mp hc with hc | hc
    · exact hgroup t List.mem_cons_self c hc
    · obtain ⟨u, hu, hc⟩ := List.mem_flatMap.mp hc
      rcases List.mem_cons.mp hc with rfl | hc
      · exact .inr (.inl rfl)
      · exact hgroup u (List.mem_cons_of_mem _ hu) c hc

theorem ipChar_v6 (addr : Ipv6Addr) : ∀ c ∈ addr.text, IpChar c := by
  intro c hc
  rw [Ipv6Addr.text] at hc
  split at hc
  · rcases List.mem_append.mp hc with hc | hc
    · have hf : ∀ c ∈ [':', ':', 'f', 'f', 'f', 'f', ':'], c = 'f' ∨ c = ':' := by simp
      rcases hf c hc with rfl | rfl
      · exact .inl ⟨15, by decide⟩
      · exact .inr (.inl rfl)
    · exact ipChar_v4 _ c hc
  · dsimp only at hc
    split at hc
    · rw [groupsText_eq, groupsText_eq] at hc
      rcases List.mem_append.mp hc with hc | hc
      · exact ipChar_joined spells_displayGroups c hc
      · rcases List.mem_cons.mp hc with rfl | hc
        · exact .inr (.inl rfl)
        · rcases List.mem_cons.mp hc with rfl | hc
          · exact .inr (.inl rfl)
          · exact ipChar_joined spells_displayGroups c hc
    · rw [groupsText_eq] at hc
      exact ipChar_joined spells_displayGroups c hc

theorem ipChar_text (addr : IpAddr) : ∀ c ∈ addr.text, IpChar c := by
  cases addr with
  | v4 addr => exact ipChar_v4 addr
  | v6 addr => exact ipChar_v6 addr

/-- A spelling has the characters of addresses only. -/
theorem ipChar_spell (spelling : Spelling) (addr : IpAddr) :
    ∀ c ∈ addr.spell spelling, IpChar c := by
  cases addr with
  | v4 addr => exact ipChar_v4 addr
  | v6 addr =>
    cases spelling with
    | display => exact ipChar_v6 addr
    | full => exact ipChar_joined spells_fullGroups

/-- A separator that an address has not. -/
theorem not_ipChar {c : Char} (hdigit : toDigit 16 c = none) (hcolon : c ≠ ':') (hdot : c ≠ '.') :
    ¬IpChar c := by
  rintro (⟨d, hd⟩ | h | h)
  · exact absurd (hdigit.symm.trans hd) (Option.some_ne_none d).symm
  · exact hcolon h
  · exact hdot h

/-- No character of an address ends a word. -/
theorem IpChar.not_whitespace {c : Char} (h : IpChar c) : isWhitespace c = false := by
  rcases h with ⟨d, hd⟩ | rfl | rfl
  · obtain ⟨hvalue, -⟩ := Option.filter_eq_some_iff.mp hd
    -- digits and letters lie between the blanks of ASCII and the others
    have hrange : 48 ≤ c.toNat ∧ c.toNat ≤ 122 := by
      split at hvalue
      · rename_i hc
        simp only [Char.isDigit, Bool.and_eq_true, decide_eq_true_eq, ge_iff_le] at hc
        exact ⟨hc.1, Nat.le_trans hc.2 (by decide)⟩
      · split at hvalue
        · rename_i hc
          obtain ⟨hlow, hhigh⟩ := Bool.and_eq_true_iff.mp hc
          exact ⟨Nat.le_trans (by decide) (of_decide_eq_true hlow), of_decide_eq_true hhigh⟩
        · split at hvalue
          · rename_i hc
            have hbounds : c.val ≥ 'A'.val ∧ c.val ≤ 'Z'.val := of_decide_eq_true hc
            obtain ⟨hlow, hhigh⟩ := hbounds
            exact ⟨Nat.le_trans (by decide) hlow, Nat.le_trans hhigh (by decide)⟩
          · cases hvalue
    simp only [isWhitespace, Bool.or_eq_false_iff, Bool.and_eq_false_iff, beq_eq_false_iff_ne,
      decide_eq_false_iff_not]
    omega
  · decide
  · decide

end TravelMode
