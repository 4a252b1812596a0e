import TravelMode.Core.IpReading
import TravelMode.Daemon.NetInfo

/-!
# Nameservers

The lines of `/etc/resolv.conf` that name a nameserver are read, whatever stands around the
address, and the others are passed over.

- `Line`: the lines of the file; `nameserver_text`: one line.
- `snapshot_dnsServers`: the nameservers of a snapshot, whatever else it could find out.
-/

namespace TravelMode

namespace Nameservers

open TextScan

/-! ## Lines -/

/-- A comment starts here. -/
def StartsComment (c : Char) : Prop := c = '#' ∨ c = ';'

/-- A line that names no nameserver: a blank line, a comment, another option, or a keyword
without an address. -/
structure IsOther (line : List Char) : Prop where
  noBreak : '\n' ∉ line
  option : ∀ word rest, splitWhitespace (uncommented line) = "nameserver".toList :: word :: rest →
    parseIpAddr word = none

/-- A nameserver in a line: white space before it and before its address, and after the
address nothing, white space or a comment. -/
structure Server where
  before : List Char
  between : List Char
  addr : IpAddr
  after : List Char
  before_blank : IsBlank before
  between_blank : IsBlank between
  between_ne : between ≠ []
  after_start : ∀ c ∈ after.head?, isWhitespace c = true ∨ StartsComment c
  noBreak : '\n' ∉ before ++ between ++ after

/-- A line of the file. -/
inductive Line where
  | server (s : Server)
  | other (line : List Char) (isOther : IsOther line)

def Server.text (s : Server) : List Char :=
  s.before ++ ("nameserver".toList ++ (s.between ++ (s.addr.text ++ s.after)))

namespace Line

def text : Line → List Char
  | server s => s.text
  | other line _ => line

/-- The nameserver of a line. -/
def addr? : Line → Option IpAddr
  | server s => some s.addr
  | other _ _ => none

end Line

/-! ## What is read of a line -/

theorem splitWhitespace_trim (s : List Char) : splitWhitespace (trim s) = splitWhitespace s := by
  have hstart : IsBlank (s.takeWhile isWhitespace) := fun c hc => List.mem_takeWhile_imp hc
  have hend : ∀ t : List Char, IsBlank (t.rtakeWhile isWhitespace) := fun t c hc =>
    List.mem_rtakeWhile_imp hc
  rw [trim, ← splitWhitespace_append_blank (hend (s.dropWhile isWhitespace)),
    List.rdropWhile_append_rtakeWhile, ← splitWhitespace_blank hstart,
    List.takeWhile_append_dropWhile]

/-- A text without the start of a comment is kept. -/
theorem uncommented_append {s : List Char} (h : ∀ c ∈ s, ¬StartsComment c) (rest : List Char) :
    uncommented (s ++ rest) = s ++ uncommented rest := by
  refine List.takeWhile_append_of_pos fun c hc => ?_
  have hc := h c hc
  simpa [StartsComment] using hc

theorem startsComment_blank {s : List Char} (h : IsBlank s) : ∀ c ∈ s, ¬StartsComment c := by
  intro c hc hstart
  have hblank := h c hc
  rcases hstart with rfl | rfl <;> exact absurd hblank (by decide)

theorem startsComment_text (addr : IpAddr) : ∀ c ∈ addr.text, ¬StartsComment c := by
  rintro c hc (rfl | rfl)
  · exact not_ipChar (by decide) (by decide) (by decide) (ipChar_text addr _ hc)
  · exact not_ipChar (by decide) (by decide) (by decide) (ipChar_text addr _ hc)

theorem isWord_text (addr : IpAddr) : IsWord addr.text := by
  constructor
  · intro hnil
    have hread := parseIpAddr_text addr
    rw [hnil] at hread
    exact absurd hread (Option.some_ne_none addr).symm
  · exact fun c hc => (ipChar_text addr c hc).not_whitespace

/-- A line is read the same with a CR at its end. -/
theorem nameserver_stripCr (line : List Char) : nameserver (stripCr line) = nameserver line := by
  have hwords : splitWhitespace (uncommented (stripCr line)) =
      splitWhitespace (uncommented line) := by
    rw [stripCr]
    split
    · rename_i hlast
      have hline : line = line.dropLast ++ ['\r'] :=
        (List.dropLast_append_getLast? _ hlast).symm
      have hblank : IsBlank ['\r'] := by decide
      generalize line.dropLast = l at hline
      rw [hline, uncommented, uncommented, List.takeWhile_append]
      split
      · rename_i hlen
        -- no comment: the CR is white space at the end
        have hall : l.takeWhile _ = l := (List.takeWhile_prefix _).eq_of_length hlen
        rw [hall]
        exact (splitWhitespace_append_blank hblank l).symm
      · rfl
    · rfl
  unfold nameserver
  rw [splitWhitespace_trim, splitWhitespace_trim, hwords]

/-- A nameserver is read. -/
theorem nameserver_text (s : Server) : nameserver s.text = some s.addr := by
  have hkeyword : ∀ c ∈ "nameserver".toList, ¬StartsComment c := by
    simp [StartsComment]
  have huncommented : uncommented s.text = s.before ++ ("nameserver".toList ++
      (s.between ++ (s.addr.text ++ uncommented s.after))) := by
    rw [Server.text, uncommented_append (startsComment_blank s.before_blank),
      uncommented_append hkeyword, uncommented_append (startsComment_blank s.between_blank),
      uncommented_append (startsComment_text s.addr)]
  have hbetween : ∀ c ∈ (s.between ++ (s.addr.text ++ uncommented s.after)).head?,
      isWhitespace c = true := by
    obtain ⟨b, bs, hb⟩ := List.exists_cons_of_ne_nil s.between_ne
    rw [hb]
    rintro c ⟨⟩
    exact s.between_blank b (hb ▸ List.mem_cons_self)
  have hafter : ∀ c ∈ (uncommented s.after).head?, isWhitespace c = true := by
    have hstart := s.after_start
    generalize s.after = after at hstart ⊢
    unfold uncommented
    cases after with
    | nil => exact fun _ hc => nomatch hc
    | cons a after =>
      rw [List.takeWhile_cons]
      split
      · rename_i hplain
        rintro c ⟨⟩
        refine (hstart a rfl).resolve_right fun hcomment => ?_
        rcases hcomment with rfl | rfl <;> exact absurd hplain (by decide)
      · exact fun _ hc => nomatch hc
  have hword : IsWord "nameserver".toList := by decide
  rw [nameserver, splitWhitespace_trim, huncommented, splitWhitespace_blank s.before_blank,
    splitWhitespace_word hword hbetween, splitWhitespace_blank s.between_blank,
    splitWhitespace_word (isWord_text s.addr) hafter]
  dsimp only
  rw [if_pos rfl, parseIpAddr_text]

/-- Another line is passed over. -/
theorem nameserver_other {line : List Char} (h : IsOther line) : nameserver line = none := by
  rw [nameserver, splitWhitespace_trim]
  split
  · rename_i word addr rest hwords
    split
    · rename_i hkeyword
      exact h.option addr rest (hkeyword ▸ hwords)
    · rfl
  · rfl

theorem noBreak_text (line : Line) : '\n' ∉ line.text := by
  cases line with
  | server s =>
    have hplain : ∀ addr : IpAddr, '\n' ∉ addr.text := fun addr hmem =>
      absurd ((isWord_text addr).2 _ hmem) (by decide)
    have hnone := s.noBreak
    simp only [List.mem_append, not_or] at hnone
    have hkeyword : '\n' ∉ "nameserver".toList := by decide
    simp only [Line.text, Server.text, List.mem_append, not_or]
    exact ⟨hnone.1.1, hkeyword, hnone.1.2, hplain s.addr, hnone.2⟩
  | other line isOther => exact isOther.noBreak

/-! ## The file -/

/-- The nameservers of a file are those of its lines. -/
theorem parseResolvConf_unlines (conf : List Line) :
    parseResolvConf (unlines (conf.map Line.text)) = conf.filterMap Line.addr? := by
  have hbreak : ∀ l ∈ conf.map Line.text, '\n' ∉ l := by
    intro l hl
    obtain ⟨line, -, rfl⟩ := List.mem_map.mp hl
    exact noBreak_text line
  rw [parseResolvConf, lines_unlines_stripCr hbreak, List.map_map, List.filterMap_map]
  refine List.filterMap_congr fun line _ => ?_
  show nameserver (stripCr line.text) = line.addr?
  rw [nameserver_stripCr]
  cases line with
  | server s => exact nameserver_text s
  | other line isOther => exact nameserver_other isOther

/-- A word that is no address names no nameserver. -/
example : IsOther "nameserver not-an-ip".toList where
  noBreak := by decide
  option := by
    rintro word rest ⟨⟩
    decide +kernel

/-- A snapshot has the nameservers of the file, whatever netlink and NetworkManager say. -/
theorem snapshot_dnsServers (wireless : String → Bool) (connection : Except String Netlink)
    (conf : List Line) (nm : Option String × Option Bool) :
    (snapshot wireless connection (some (unlines (conf.map Line.text))) nm).dnsServers =
      conf.filterMap Line.addr? :=
  parseResolvConf_unlines conf

end Nameservers

end TravelMode
