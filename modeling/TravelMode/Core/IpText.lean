import TravelMode.Core.Types
import TravelMode.Lib.TextScan

/-!
# Addresses as text (`std::net`)

`Display` and `FromStr` of `IpAddr`, as the standard library documents them, on lists of
characters.

- A reader takes the text and gives back a value with the rest of the text; one that
  fails has read nothing.
- `parseIpAddr` reads an address that is the whole text; `IpAddr.text` writes one, an IPv6
  address with its longest run of zero groups as `::`.
-/

namespace TravelMode

open TextScan

/-! ## Groups of an IPv6 address -/

namespace Ipv6Addr

/-- Two octets, most significant first. -/
def group (hi lo : UInt8) : UInt16 := UInt16.ofNat (hi.toNat * 256 + lo.toNat)

/-- The octets of a group. -/
def groupOctets (g : UInt16) : List UInt8 := [UInt8.ofNat (g.toNat / 256), UInt8.ofNat g.toNat]

/-- The groups that octets make. -/
def groupsOf : List UInt8 → List UInt16
  | hi :: lo :: octets => group hi lo :: groupsOf octets
  | _ => []

/-- `segments` -/
def segments (addr : Ipv6Addr) : List UInt16 := groupsOf addr.octets

theorem length_flatMap_groupOctets (gs : List UInt16) :
    (gs.flatMap groupOctets).length = 2 * gs.length := by
  induction gs with
  | nil => rfl
  | cons g gs ih =>
    rw [List.flatMap_cons, List.length_append, ih, List.length_cons]
    show 2 + 2 * gs.length = 2 * (gs.length + 1)
    omega

/-- The address of eight groups. -/
def ofGroups (gs : List UInt16) (h : gs.length = 8) : Ipv6Addr where
  octets := gs.flatMap groupOctets
  size := by rw [length_flatMap_groupOctets, h]

end Ipv6Addr

/-! ## Readers -/

namespace IpText

/-- Take digits while there are any: how many there were, and their value; `none` when a
digit is one too many, or the value reaches `bound`. -/
def readDigits (radix bound maxDigits : Nat) :
    Nat → Nat → List Char → Option (Nat × Nat × List Char)
  | count, value, [] => some (count, value, [])
  | count, value, c :: s =>
    match toDigit radix c with
    | none => some (count, value, c :: s)
    | some d =>
      if value * radix + d < bound ∧ count + 1 ≤ maxDigits then
        readDigits radix bound maxDigits (count + 1) (value * radix + d) s
      else none

/-- `read_number`. -/
def readNumber (radix bound maxDigits : Nat) (allowZeroPrefix : Bool) (s : List Char) :
    Option (Nat × List Char) :=
  (readDigits radix bound maxDigits 0 0 s).bind fun (count, value, rest) =>
    if count = 0 then none
    else if !allowZeroPrefix && s.head? == some '0' && decide (1 < count) then none
    else some (value, rest)

/-- `read_given_char`. -/
def readGivenChar (c : Char) : List Char → Option (List Char)
  | [] => none
  | d :: s => if d = c then some s else none

/-- `read_separator`: only what comes first has no separator before it. -/
def readSeparator {α : Type} (sep : Char) (first : Bool)
    (read : List Char → Option (α × List Char)) (s : List Char) : Option (α × List Char) :=
  if first then read s else (readGivenChar sep s).bind read

/-- An octet: up to three decimal digits, without a leading zero. -/
def readOctet (s : List Char) : Option (UInt8 × List Char) :=
  (readNumber 10 256 3 false s).map fun (n, rest) => (UInt8.ofNat n, rest)

/-- `read_ipv4_addr`. -/
def readIpv4Addr (s : List Char) : Option (Ipv4Addr × List Char) :=
  (readSeparator '.' true readOctet s).bind fun (a, s) =>
  (readSeparator '.' false readOctet s).bind fun (b, s) =>
  (readSeparator '.' false readOctet s).bind fun (c, s) =>
  (readSeparator '.' false readOctet s).map fun (d, s) => (⟨a, b, c, d⟩, s)

/-- A group: up to four hexadecimal digits. -/
def readGroup (s : List Char) : Option (UInt16 × List Char) :=
  (readNumber 16 65536 4 true s).map fun (n, rest) => (UInt16.ofNat n, rest)

/-- What `read_groups` gives back: the groups, whether they end in an IPv4 address, and the
rest of the text. -/
structure GroupsRead where
  groups : List UInt16
  isV4 : Bool
  rest : List Char

/-- `read_groups`: at most the given number of them. -/
def readGroups : Nat → Bool → List Char → GroupsRead
  | 0, _, s => ⟨[], false, s⟩
  | left + 1, first, s =>
    -- an embedded IPv4 address takes two groups
    match if 0 < left then readSeparator ':' first readIpv4Addr s else none with
    | some (v4, rest) => ⟨[Ipv6Addr.group v4.a v4.b, Ipv6Addr.group v4.c v4.d], true, rest⟩
    | none =>
      match readSeparator ':' first readGroup s with
      | some (g, rest) =>
        let read := readGroups left false rest
        { read with groups := g :: read.groups }
      | none => ⟨[], false, s⟩

theorem readGroups_length (left : Nat) (first : Bool) (s : List Char) :
    (readGroups left first s).groups.length ≤ left := by
  induction left generalizing first s with
  | zero => exact Nat.le_refl 0
  | succ left ih =>
    rw [readGroups]
    split
    · rename_i v4 rest h
      have hleft : 0 < left := by
        by_contra hleft
        rw [if_neg hleft] at h
        cases h
      show 2 ≤ left + 1
      omega
    · split
      · rename_i g rest h
        exact Nat.succ_le_succ (ih false rest)
      · exact Nat.zero_le _

/-- The groups before and after `::`, with zeros between. -/
def joinGroups (head tail : List UInt16) : List UInt16 :=
  head ++ List.replicate (8 - head.length - tail.length) 0 ++ tail

theorem joinGroups_length {head tail : List UInt16} (hhead : head.length < 8)
    (htail : tail.length ≤ 8 - (head.length + 1)) : (joinGroups head tail).length = 8 := by
  rw [joinGroups, List.length_append, List.length_append, List.length_replicate]
  omega

/-- `read_ipv6_addr`. -/
def readIpv6Addr (s : List Char) : Option (Ipv6Addr × List Char) :=
  let head := readGroups 8 true s
  if h : head.groups.length = 8 then some (.ofGroups head.groups h, head.rest)
  else if head.isV4 then none
  else
    (readGivenChar ':' head.rest).bind fun s =>
    (readGivenChar ':' s).bind fun s =>
      let tail := readGroups (8 - (head.groups.length + 1)) true s
      some (.ofGroups (joinGroups head.groups tail.groups)
        (joinGroups_length (Nat.lt_of_le_of_ne (readGroups_length ..) h) (readGroups_length ..)),
        tail.rest)

end IpText

open IpText

/-- `IpAddr::from_str`: an address, and nothing after it. -/
def parseIpAddr (s : List Char) : Option IpAddr :=
  let read := ((readIpv4Addr s).map fun (addr, rest) => (IpAddr.v4 addr, rest)).or
    ((readIpv6Addr s).map fun (addr, rest) => (IpAddr.v6 addr, rest))
  read.bind fun (addr, rest) => if rest = [] then some addr else none

/-! ## Display -/

/-- `Display` of `Ipv4Addr`. -/
def Ipv4Addr.text (addr : Ipv4Addr) : List Char :=
  Nat.toDigits 10 addr.a.toNat ++ '.' :: Nat.toDigits 10 addr.b.toNat ++
    '.' :: Nat.toDigits 10 addr.c.toNat ++ '.' :: Nat.toDigits 10 addr.d.toNat

/-- A run of zero groups. -/
structure Span where
  start : Nat
  len : Nat

/-- What the search for the longest run of zeros knows before group `i`. -/
structure SpanSearch where
  i : Nat
  current : Span
  longest : Span

/-- One group more. -/
def SpanSearch.visit (search : SpanSearch) (group : UInt16) : SpanSearch :=
  if group = 0 then
    let start := if search.current.len = 0 then search.i else search.current.start
    let current : Span := ⟨start, search.current.len + 1⟩
    ⟨search.i + 1, current, if current.len > search.longest.len then current else search.longest⟩
  else ⟨search.i + 1, ⟨0, 0⟩, search.longest⟩

/-- The first of the longest runs of zero groups. -/
def longestZeros (gs : List UInt16) : Span :=
  (gs.foldl SpanSearch.visit ⟨0, ⟨0, 0⟩, ⟨0, 0⟩⟩).longest

/-- `fmt_subslice`: groups in lower-case hexadecimal, with colons between. -/
def groupsText : List UInt16 → List Char
  | [] => []
  | [g] => Nat.toDigits 16 g.toNat
  | g :: gs => Nat.toDigits 16 g.toNat ++ ':' :: groupsText gs

/-- `to_ipv4_mapped`: the IPv4 address in `::ffff:0:0/96`. -/
def Ipv6Addr.toIpv4Mapped (addr : Ipv6Addr) : Option Ipv4Addr :=
  match addr.octets with
  | [0, 0, 0, 0, 0, 0, 0, 0, 0, 0, 0xff, 0xff, a, b, c, d] => some ⟨a, b, c, d⟩
  | _ => none

/-- `Display` of `Ipv6Addr`. -/
def Ipv6Addr.text (addr : Ipv6Addr) : List Char :=
  match addr.toIpv4Mapped with
  | some v4 => [':', ':', 'f', 'f', 'f', 'f', ':'] ++ v4.text
  | none =>
    let gs := addr.segments
    let zeros := longestZeros gs
    -- one zero group is written as it is
    if zeros.len > 1 then
      groupsText (gs.take zeros.start) ++ ':' :: ':' :: groupsText (gs.drop (zeros.start + zeros.len))
    else groupsText gs

/-- `Display` of `IpAddr`. -/
def IpAddr.text : IpAddr → List Char
  | v4 addr => addr.text
  | v6 addr => addr.text

example : (parseIpAddr "2001:db8::ff:0:0:1".toList).map IpAddr.text =
    some "2001:db8::ff:0:0:1".toList := by decide +kernel

end TravelMode
