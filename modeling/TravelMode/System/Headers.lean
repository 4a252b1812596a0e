import TravelMode.Lib.IpPacket
import TravelMode.System.Policy

/-!
# What the packet parser makes of a packet's headers

The parser looks at fixed offsets. Whatever the bytes, it stays inside them
(`parsePacket_ok`), and on plain headers it is exact (`parse_plain`). It knows nothing of
IPv6 extension headers and of fragments.

- `parsePacket_v4`, `parsePacket_v6`: its answer on every TCP or UDP packet, next to what
  the packet says.
- `agrees_iff`: the packets on which the two agree.
- `extended_packet_accepted`: a blocked program gets through with one extension header.
-/

namespace TravelMode

namespace Headers

open IpPacket (Transport Address Ports Ipv4 Ipv6 be16 portsIn firstNumber encodeChain)

/-! ## Packets as the verdict sees them -/

def protocolOf : Transport → Protocol
  | .tcp => .tcp
  | .udp => .udp

def ipAddrOf : Address → IpAddr
  | .v4 a b c d => .v4 ⟨a, b, c, d⟩
  | .v6 octets size => .v6 ⟨octets, size⟩

/-- Outbound hook: the source port is the local port. -/
def packetOf (ports : Ports) : Packet :=
  ⟨protocolOf ports.transport, ports.srcPort, ipAddrOf ports.dst, ports.dstPort⟩

theorem transportOf_eq (number : UInt8) :
    transportOf number = (Transport.ofNumber number).map protocolOf := by
  unfold transportOf Transport.ofNumber
  split
  · rfl
  · split <;> rfl

theorem byteAt_of_get? {payload : List UInt8} {i : Nat} {b : UInt8} (h : payload[i]? = some b) :
    byteAt payload i = .ok b := by
  rw [byteAt, h]

/-- Past a header, the transport header is read from its own start. -/
theorem parseTransport_append (header body : List UInt8) (number : UInt8) (dst : Address) :
    parseTransport (header ++ body) number header.length (ipAddrOf dst) =
      .ok ((Transport.ofNumber number).bind fun transport =>
        (portsIn transport dst body).map packetOf) := by
  have hbyte : ∀ {i : Nat} {b : UInt8}, body[i]? = some b →
      byteAt (header ++ body) (header.length + i) = .ok b := by
    intro i b h
    refine byteAt_of_get? ?_
    rw [List.getElem?_append_right (Nat.le_add_right _ _), Nat.add_sub_cancel_left]
    exact h
  rw [parseTransport, transportOf_eq]
  cases Transport.ofNumber number with
  | none => rfl
  | some transport =>
    have hlen : (header ++ body).length < header.length + 4 ↔ body.length < 4 := by
      rw [List.length_append]
      omega
    simp only [Option.map_some, Option.bind_some, hlen]
    match body with
    | [] | [_] | [_, _] | [_, _, _] => rfl
    | s₁ :: s₀ :: d₁ :: d₀ :: rest =>
      rw [if_neg (by simp), u16At, u16At, hbyte (i := 1) rfl, hbyte (i := 2) rfl,
        hbyte (i := 3) rfl, ← Nat.add_zero header.length, hbyte (i := 0) rfl]
      rfl

/-- On an IPv4 packet the parser takes what follows the header for the transport header,
also in a later fragment. -/
theorem parsePacket_v4 (p : Ipv4) :
    parsePacket p.encode = .ok ((portsIn p.transport p.address p.body).map packetOf) := by
  obtain ⟨hfirst, hoptions, hle, hlt⟩ := p.firstByte
  obtain ⟨fixed, hfixed, hencode⟩ : ∃ fixed : List UInt8, fixed.length = 20 ∧
      p.encode = fixed ++ p.options ++ p.body := by
    refine ⟨p.encode.take 20, rfl, ?_⟩
    rw [List.append_assoc]
    rfl
  have hheader : p.ihl * 4 = (fixed ++ p.options).length := by
    rw [List.length_append]
    omega
  have hlength : p.encode.length = p.ihl * 4 + p.body.length := by
    rw [hencode, List.length_append, hheader]
  -- the nibble gives the length of the header
  have hihl : (UInt8.ofNat (4 * 16 + p.ihl)).toNat % 16 * 4 = p.ihl * 4 := by
    rw [hfirst]
    omega
  have hparse : parsePacket p.encode = parseIpv4 p.encode (UInt8.ofNat (4 * 16 + p.ihl)) := by
    have hversion : (UInt8.ofNat (4 * 16 + p.ihl)).toNat / 16 = 4 := by
      rw [hfirst]
      omega
    rw [parsePacket, show p.encode.head? = some (UInt8.ofNat (4 * 16 + p.ihl)) from rfl]
    simp only [hversion]
  rw [hparse, parseIpv4, hihl]
  by_cases hshort : p.body.length < 4
  · have hnone : portsIn p.transport p.address p.body = none := by
      rw [← Option.not_isSome_iff_eq_none, IpPacket.portsIn_isSome]
      omega
    rw [if_pos (by omega), hnone]
    rfl
  · have hnumber : byteAt p.encode 9 = .ok p.transport.number := byteAt_of_get? rfl
    have hdst : ipv4At p.encode 16 = .ok ⟨p.dst.1, p.dst.2.1, p.dst.2.2.1, p.dst.2.2.2⟩ := rfl
    have hsrc : ipv4At p.encode 12 = .ok ⟨p.src.1, p.src.2.1, p.src.2.2.1, p.src.2.2.2⟩ := rfl
    have htransport := parseTransport_append (fixed ++ p.options) p.body p.transport.number p.address
    rw [← hencode, ← hheader, Transport.ofNumber_number, Option.bind_some] at htransport
    rw [if_neg (by omega), hnumber, hsrc, hdst]
    exact htransport

/-- On an IPv6 packet the parser takes the first header for the transport header. -/
theorem parsePacket_v6 (p : Ipv6) :
    parsePacket p.encode = .ok ((Transport.ofNumber (firstNumber p.headers p.upperNumber)).bind
      fun transport => (portsIn transport p.address
        (encodeChain p.upperNumber p.headers ++ p.upper.encode)).map packetOf) := by
  obtain ⟨b₀, b₁, b₂, b₃, b₄, b₅, b₇, hversion, hencode⟩ := p.encode_header
  have hparse : parsePacket p.encode = parseIpv6 p.encode := by
    rw [parsePacket, hencode]
    simp only [List.head?_cons, hversion]
  have hnumber : byteAt p.encode 6 = .ok (firstNumber p.headers p.upperNumber) := by
    rw [hencode]
    exact byteAt_of_get? rfl
  have hdst : ipv6At p.encode 24 = .ok ⟨p.dst, p.dstSize⟩ := by
    rw [ipv6At]
    simp only [p.dst_encode]
    rw [dif_pos p.dstSize]
  -- the transport header is taken to be at offset 40
  have hheader : (p.encode.take 40).length = 40 :=
    List.length_take_of_le p.length_encode
  have hlength : p.encode.length = 40 + (p.encode.drop 40).length := by
    have hle := p.length_encode
    rw [List.length_drop]
    omega
  rw [hparse, parseIpv6, ← p.drop_encode]
  by_cases hshort : (p.encode.drop 40).length < 4
  · have hnone : ∀ transport, portsIn transport p.address (p.encode.drop 40) = none := by
      intro transport
      rw [← Option.not_isSome_iff_eq_none, IpPacket.portsIn_isSome]
      omega
    rw [if_pos (by omega)]
    simp only [hnone]
    cases Transport.ofNumber (firstNumber p.headers p.upperNumber) with
    | none => rfl
    | some transport => rfl
  · obtain ⟨src, hsrc⟩ := ipv6At_ok p.encode 8 (by omega)
    have htransport := parseTransport_append (p.encode.take 40) (p.encode.drop 40)
      (firstNumber p.headers p.upperNumber) p.address
    rw [List.take_append_drop, hheader] at htransport
    rw [if_neg (by omega), hnumber, hsrc, hdst]
    exact htransport

/-! ## Plain headers -/

/-- The version is 4 or 6, the header as long as it has to be, the protocol byte that of TCP
or UDP, and both ports are there. -/
def Plain (payload : List UInt8) : Prop :=
  ∃ first, payload.head? = some first ∧
    ((first.toNat / 16 = 4 ∧ 5 ≤ first.toNat % 16 ∧ first.toNat % 16 * 4 + 4 ≤ payload.length ∧
        (payload[9]? = some 6 ∨ payload[9]? = some 17)) ∨
      (first.toNat / 16 = 6 ∧ 44 ≤ payload.length ∧
        (payload[6]? = some 6 ∨ payload[6]? = some 17)))

theorem parseTransport_none_iff {payload : List UInt8} {number : UInt8} {offset : Nat}
    {dst : IpAddr} : parseTransport payload number offset dst = .ok none ↔
      ¬(offset + 4 ≤ payload.length ∧ (number = 6 ∨ number = 17)) := by
  unfold parseTransport
  cases hnumber : transportOf number with
  | none =>
    have hother : ¬(number = 6 ∨ number = 17) := by
      rintro (rfl | rfl)
      · cases hnumber
      · cases hnumber
    simp [hother]
  | some proto =>
    have htcp : number = 6 ∨ number = 17 := by
      unfold transportOf at hnumber
      split at hnumber
      · exact .inl ‹_›
      · split at hnumber
        · exact .inr ‹_›
        · cases hnumber
    dsimp only
    by_cases hlen : payload.length < offset + 4
    · rw [if_pos hlen]
      simp only [true_iff]
      omega
    · obtain ⟨p, hp⟩ := u16At_ok payload offset (by omega)
      obtain ⟨q, hq⟩ := u16At_ok payload (offset + 2) (by omega)
      rw [if_neg hlen, hp, hq]
      simp only [not_and, htcp, not_true_eq_false, imp_false, Nat.not_le]
      exact ⟨fun h => (nomatch h), fun h => absurd h hlen⟩

/-- The parser answers `none` to everything else, and only to that. -/
theorem parsePacket_none_iff (payload : List UInt8) :
    parsePacket payload = .ok none ↔ ¬Plain payload := by
  unfold Plain parsePacket
  cases payload.head? with
  | none => simp
  | some first =>
    simp only [Option.some.injEq, exists_eq_left']
    split
    · rename_i hversion
      rw [parseIpv4]
      by_cases hlen : payload.length < first.toNat % 16 * 4 + 4 ∨ first.toNat % 16 * 4 < 20
      · rw [if_pos hlen]
        simp only [true_iff]
        omega
      · obtain ⟨src, hsrc⟩ := ipv4At_ok payload 12 (by omega)
        obtain ⟨dst, hdst⟩ := ipv4At_ok payload 16 (by omega)
        have hget : payload[9]? = some payload[9] := List.getElem?_eq_getElem (by omega)
        rw [if_neg hlen, byteAt_ok (by omega), hsrc, hdst]
        refine parseTransport_none_iff.trans (not_congr ?_)
        have hihl : 5 ≤ first.toNat % 16 := by omega
        simp only [hget, hversion, hihl, Option.some.injEq, true_and]
        simp
    · rename_i hversion
      rw [parseIpv6]
      by_cases hlen : payload.length < 40 + 4
      · rw [if_pos hlen]
        simp only [true_iff]
        omega
      · obtain ⟨src, hsrc⟩ := ipv6At_ok payload 8 (by omega)
        obtain ⟨dst, hdst⟩ := ipv6At_ok payload 24 (by omega)
        have hget : payload[6]? = some payload[6] := List.getElem?_eq_getElem (by omega)
        rw [if_neg hlen, byteAt_ok (by omega), hsrc, hdst]
        refine parseTransport_none_iff.trans (not_congr ?_)
        simp only [hget, hversion, Option.some.injEq]
        simp
    · rename_i h4 h6
      simp only [true_iff]
      rintro (⟨h, -⟩ | ⟨h, -⟩)
      · exact h4 h
      · exact h6 h

/-- **Plain headers**: whatever the bytes, no access is out of range. On an IPv4 packet with
any options and on an IPv6 packet without extension headers, whatever the other fields, the
answer is what was encoded; and it is `none` on everything else. -/
theorem parse_plain :
    (∀ payload, ∃ r, parsePacket payload = .ok r) ∧
    (∀ (p : Ipv4) (srcPort dstPort : UInt16) (rest : List UInt8),
      parsePacket { p with body := be16 srcPort ++ be16 dstPort ++ rest }.encode =
        .ok (some ⟨protocolOf p.transport, srcPort, ipAddrOf p.address, dstPort⟩)) ∧
    (∀ (p : Ipv6) (srcPort dstPort : UInt16) (rest : List UInt8),
      parsePacket { p with
          headers := [], upper := .transport (be16 srcPort ++ be16 dstPort ++ rest) }.encode =
        .ok (some ⟨protocolOf p.transport, srcPort, ipAddrOf p.address, dstPort⟩)) ∧
    ∀ payload, parsePacket payload = .ok none ↔ ¬Plain payload := by
  refine ⟨parsePacket_ok, fun p srcPort dstPort rest => ?_, fun p srcPort dstPort rest => ?_,
    parsePacket_none_iff⟩
  · rw [parsePacket_v4, IpPacket.portsIn_be16]
    rfl
  · rw [parsePacket_v6]
    show Except.ok ((Transport.ofNumber p.transport.number).bind _) = _
    rw [Transport.ofNumber_number, Option.bind_some]
    show Except.ok ((portsIn p.transport p.address (be16 srcPort ++ be16 dstPort ++ rest)).map
      packetOf) = _
    rw [IpPacket.portsIn_be16]
    rfl

/-! ## Any headers -/

/-- The packet has what the parser expects at its fixed offsets: no later part of an IPv4
packet, no extension header before ports. -/
def PlainHeaders : IpPacket.Packet → Prop
  | .v4 p => p.fragmentOffset.val = 0 ∨ p.body.length < 4
  | .v6 p =>
    match p.upper with
    | .transport body => p.headers = [] ∨ body.length < 4
    | .laterFragment .. => True

/-- The number of an extension header is not that of a transport protocol. -/
theorem ofNumber_header (h : IpPacket.ExtHeader) : Transport.ofNumber h.number = none := by
  cases h with
  | sized kind words data size =>
    cases kind with
    | hopByHop => rfl
    | routing => rfl
    | destinationOptions => rfl
  | firstFragment reserved flags identification => rfl

/-- An IPv6 packet has an answer only if the transport header comes first. -/
theorem parsePacket_v6_cases (p : Ipv6) :
    parsePacket p.encode = .ok (match p.headers, p.upper with
      | [], .transport body => (portsIn p.transport p.address body).map packetOf
      | _, _ => none) := by
  rw [parsePacket_v6]
  unfold Ipv6.upperNumber
  cases p.headers with
  | nil =>
    cases p.upper with
    | transport body =>
      simp only [firstNumber, encodeChain, IpPacket.Upper.encode, Transport.ofNumber_number,
        Option.bind_some, List.nil_append]
    | laterFragment next reserved offset later flags identification data => rfl
  | cons h hs => simp only [firstNumber, ofNumber_header, Option.bind_none]

/-- **Header structure**: for every TCP or UDP packet of either version, whatever its options,
chain of extension headers and fragment, the reference reader finds the ports exactly if
they are in the packet; and the parser agrees with it if and only if the packet has plain
headers. -/
theorem agrees_iff (p : IpPacket.Packet) :
    IpPacket.readPorts p.encode = p.ports ∧
    (parsePacket p.encode = .ok ((IpPacket.readPorts p.encode).map packetOf) ↔
      PlainHeaders p) := by
  refine ⟨IpPacket.readPorts_encode p, ?_⟩
  rw [IpPacket.readPorts_encode]
  have hports : ∀ {transport : Transport} {dst : Address} {body : List UInt8},
      (portsIn transport dst body).map packetOf = none ↔ body.length < 4 := by
    intro transport dst body
    rw [Option.map_eq_none_iff, ← Option.not_isSome_iff_eq_none, IpPacket.portsIn_isSome]
    omega
  cases p with
  | v4 p =>
    show parsePacket p.encode = .ok (p.ports.map packetOf) ↔ _ ∨ _
    rw [parsePacket_v4, Except.ok.injEq, Ipv4.ports]
    by_cases hoffset : p.fragmentOffset.val = 0
    · simp [hoffset]
    · -- a later fragment has no ports; the parser sees some if the fragment is long enough
      rw [if_neg hoffset, Option.map_none, hports]
      simp [hoffset]
  | v6 p =>
    show parsePacket p.encode = .ok (p.ports.map packetOf) ↔ _
    rw [parsePacket_v6_cases, Except.ok.injEq, Ipv6.ports, PlainHeaders]
    cases p.upper with
    | transport body =>
      cases p.headers with
      | nil => simp
      | cons h hs =>
        dsimp only
        rw [eq_comm, hports]
        simp
    | laterFragment next reserved offset later flags identification data =>
      cases p.headers with
      | nil => simp
      | cons h hs => simp

/-- With plain headers the verdict is about the process that holds the port in the packet. -/
theorem decide_of_ports {p : IpPacket.Packet} {ports : Ports} {st : DaemonState} {fs : ProcFs}
    {clock : DaemonState.Clock} {pid : Nat} {exe : PathBuf} (hplain : PlainHeaders p)
    (hports : p.ports = some ports) (hpaused : st.paused = false)
    (hpid : (st.attributeFlow fs (protocolOf ports.transport) ports.srcPort).1.pid = some pid)
    (hexe : (st.attributeFlow fs (protocolOf ports.transport) ports.srcPort).1.exe = some exe) :
    ∃ st', st.decide fs clock p.encode =
      .ok (if st.rules.isBlocked exe clock.now then .drop else .accept, st') := by
  have hparse : parsePacket p.encode = .ok (some (packetOf ports)) := by
    rw [(agrees_iff p).2.mpr hplain, IpPacket.readPorts_encode, hports]
    rfl
  exact DaemonState.decide_attributed hpaused hparse hpid hexe

/-! ### Packets with other headers -/

/-- The first packet of process 4242 to port 443 of 2001:db8::1, from port 51234. -/
def plainSyn : Ipv6 where
  trafficClass := 0
  flowLabel := 0
  payloadLength := 20
  hopLimit := 64
  src := [0xfe, 0x80, 0, 0, 0, 0, 0, 0, 0, 0, 0, 0, 0, 0, 0, 10]
  srcSize := rfl
  dst := [0x20, 0x01, 0x0d, 0xb8, 0, 0, 0, 0, 0, 0, 0, 0, 0, 0, 0, 1]
  dstSize := rfl
  headers := []
  transport := .tcp
  upper := .transport (be16 51234 ++ be16 443 ++ [0, 0, 0, 0, 0, 0, 0, 0, 80, 2, 0, 0, 0, 0, 0, 0])

/-- The same with destination options, which are padding. -/
def extendedSyn : Ipv6 :=
  { plainSyn with
    payloadLength := 28
    headers := [.sized .destinationOptions 0 [1, 4, 0, 0, 0, 0] rfl] }

/-- The second fragment of a datagram, from its eighth octet on. -/
def secondFragment : Ipv4 where
  tos := 0
  totalLength := 28
  identification := 7
  flags := ⟨0, by decide⟩
  fragmentOffset := ⟨1, by decide⟩
  ttl := 64
  transport := .udp
  checksum := 0
  src := (192, 168, 1, 10)
  dst := (93, 184, 216, 34)
  options := []
  aligned := rfl
  fits := by decide
  body := [200, 34, 1, 187, 1, 2, 3, 4]

/-- The verdict of a daemon that blocks `/usr/bin/curl`, which process 4242 runs. -/
def verdictOf (payload : List UInt8) : Option Verdict :=
  (Policy.blocking.decide DaemonState.curlProcFs ⟨.epoch, 0⟩ payload).toOption.map Prod.fst

/-- One extension header lets a blocked program through; and the payload of a later fragment
is read as ports. -/
theorem extended_packet_accepted :
    (verdictOf plainSyn.encode = some .drop ∧ verdictOf extendedSyn.encode = some .accept ∧
      parsePacket extendedSyn.encode = .ok none ∧
      IpPacket.readPorts extendedSyn.encode = some ⟨.tcp, 51234, extendedSyn.address, 443⟩) ∧
    (parsePacket secondFragment.encode =
        .ok (some ⟨.udp, 51234, .v4 ⟨93, 184, 216, 34⟩, 443⟩) ∧
      IpPacket.readPorts secondFragment.encode = none) ∧
    ¬∀ p : IpPacket.Packet,
      parsePacket p.encode = .ok ((IpPacket.readPorts p.encode).map packetOf) := by
  refine ⟨⟨by decide +kernel, by decide +kernel, by decide +kernel, ?_⟩, ⟨by decide +kernel, ?_⟩, ?_⟩
  · rw [IpPacket.Ipv6.readPorts_encode]
    rfl
  · rw [IpPacket.Ipv4.readPorts_encode]
    rfl
  · intro h
    have hext : parsePacket extendedSyn.encode = .ok none := by decide +kernel
    have hports := h (.v6 extendedSyn)
    rw [IpPacket.readPorts_encode] at hports
    cases hext.symm.trans hports

end Headers

end TravelMode
