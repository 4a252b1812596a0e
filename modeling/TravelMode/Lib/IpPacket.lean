import TravelMode.Lib.Frames

/-!
# IP packets and their ports

TCP and UDP packets of both IP versions as data, the bytes they are, and a reader that
finds the ports in the bytes: past the options of IPv4, past any chain of extension
headers of IPv6, and in no fragment but the first.

- `Packet`: header lengths and fragment offsets are part of the data, so a packet cannot
  contradict itself. Length fields and checksums are free.
- `Packet.ports`: what the packet says, if it has its ports in it.
- `readPorts`: the reader; `walk` follows the chain.

`readPorts_encode`: on every packet, the reader finds what the packet says.
-/

namespace IpPacket

/-! ## Ports -/

/-- The transport protocols whose header starts with two ports. -/
inductive Transport where
  | tcp
  | udp
deriving DecidableEq

/-- The protocol numbers. -/
def Transport.number : Transport → UInt8
  | .tcp => 6
  | .udp => 17

def Transport.ofNumber (n : UInt8) : Option Transport :=
  if n = 6 then some .tcp else if n = 17 then some .udp else none

@[simp] theorem Transport.ofNumber_number (t : Transport) : ofNumber t.number = some t := by
  cases t <;> rfl

inductive Address where
  | v4 (a b c d : UInt8)
  | v6 (octets : List UInt8) (size : octets.length = 16)

/-- What a packet says of its two ends. -/
structure Ports where
  transport : Transport
  srcPort : UInt16
  dst : Address
  dstPort : UInt16

/-- A number's 16 bits in big-endian order. -/
def be16 (n : UInt16) : List UInt8 := [UInt8.ofNat (n.toNat / 256), UInt8.ofNat n.toNat]

def ofBe16 (hi lo : UInt8) : UInt16 := UInt16.ofNat (hi.toNat * 256 + lo.toNat)

theorem ofBe16_be16 (n : UInt16) :
    ofBe16 (UInt8.ofNat (n.toNat / 256)) (UInt8.ofNat n.toNat) = n := by
  have h := n.toNat_lt
  rw [← UInt16.toNat_inj, ofBe16, UInt16.toNat_ofNat', UInt8.toNat_ofNat', UInt8.toNat_ofNat']
  omega

/-- The ports at the start of a transport header. -/
def portsIn (transport : Transport) (dst : Address) : List UInt8 → Option Ports
  | s₁ :: s₀ :: d₁ :: d₀ :: _ => some ⟨transport, ofBe16 s₁ s₀, dst, ofBe16 d₁ d₀⟩
  | _ => none

/-- Ports are found where there is room for them. -/
theorem portsIn_isSome {transport : Transport} {dst : Address} {body : List UInt8} :
    (portsIn transport dst body).isSome = true ↔ 4 ≤ body.length := by
  match body with
  | [] | [_] | [_, _] | [_, _, _] => simp [portsIn]
  | _ :: _ :: _ :: _ :: _ => simp [portsIn]

/-- Ports that were written are read. -/
theorem portsIn_be16 (transport : Transport) (dst : Address) (src dstPort : UInt16)
    (rest : List UInt8) :
    portsIn transport dst (be16 src ++ be16 dstPort ++ rest) = some ⟨transport, src, dst, dstPort⟩ := by
  simp only [be16, List.cons_append, List.nil_append, portsIn, ofBe16_be16]

/-! ## Packets -/

/-- An IPv4 packet. `body` is what follows the header. -/
structure Ipv4 where
  tos : UInt8
  totalLength : UInt16
  identification : UInt16
  flags : Fin 8
  /-- In units of eight octets. -/
  fragmentOffset : Fin 8192
  ttl : UInt8
  transport : Transport
  checksum : UInt16
  src : UInt8 × UInt8 × UInt8 × UInt8
  dst : UInt8 × UInt8 × UInt8 × UInt8
  options : List UInt8
  aligned : options.length % 4 = 0
  fits : options.length ≤ 40
  body : List UInt8

/-- `IHL`: the length of the header in units of four octets. -/
def Ipv4.ihl (p : Ipv4) : Nat := 5 + p.options.length / 4

/-- Flags in the upper three bits, the offset in the others. -/
def Ipv4.fragmentWord (p : Ipv4) : UInt16 :=
  UInt16.ofNat (p.flags.val * 8192 + p.fragmentOffset.val)

def Ipv4.encode (p : Ipv4) : List UInt8 :=
  [UInt8.ofNat (4 * 16 + p.ihl), p.tos] ++ be16 p.totalLength ++ be16 p.identification ++
    be16 p.fragmentWord ++ [p.ttl, p.transport.number] ++ be16 p.checksum ++
    [p.src.1, p.src.2.1, p.src.2.2.1, p.src.2.2.2] ++
    [p.dst.1, p.dst.2.1, p.dst.2.2.1, p.dst.2.2.2] ++ (p.options ++ p.body)

/-- Where the packet goes. -/
def Ipv4.address (p : Ipv4) : Address := .v4 p.dst.1 p.dst.2.1 p.dst.2.2.1 p.dst.2.2.2

/-- Only the first fragment starts with the transport header. -/
def Ipv4.ports (p : Ipv4) : Option Ports :=
  if p.fragmentOffset.val = 0 then portsIn p.transport p.address p.body else none

/-- The extension headers that begin with the next header and their own length. -/
inductive SizedKind where
  | hopByHop
  | routing
  | destinationOptions
deriving DecidableEq

def SizedKind.number : SizedKind → UInt8
  | .hopByHop => 0
  | .routing => 43
  | .destinationOptions => 60

/-- The number of a fragment header. -/
def fragmentNumber : UInt8 := 44

/-- An extension header that another header follows. -/
inductive ExtHeader where
  /-- `words` is the length in units of eight octets, the first not counted. -/
  | sized (kind : SizedKind) (words : UInt8) (data : List UInt8)
      (size : data.length = 6 + 8 * words.toNat)
  | firstFragment (reserved : UInt8) (flags : Fin 8) (identification : UInt32)

def ExtHeader.number : ExtHeader → UInt8
  | .sized kind .. => kind.number
  | .firstFragment .. => fragmentNumber

/-- The header, given the number of the next one. -/
def ExtHeader.encode (next : UInt8) : ExtHeader → List UInt8
  | .sized _ words data _ => next :: words :: data
  | .firstFragment reserved flags identification =>
    [next, reserved] ++ be16 (UInt16.ofNat flags.val) ++ Frames.be32 identification.toNat

/-- What comes after the chain. -/
inductive Upper where
  /-- The transport header and its payload, or the first part of them. -/
  | transport (body : List UInt8)
  /-- A fragment from somewhere inside the packet; `next` is the header that the first
  fragment goes on with. -/
  | laterFragment (next reserved : UInt8) (offset : Fin 8192) (later : offset.val ≠ 0)
      (flags : Fin 8) (identification : UInt32) (data : List UInt8)

/-- An IPv6 packet. -/
structure Ipv6 where
  trafficClass : UInt8
  flowLabel : Fin 1048576
  payloadLength : UInt16
  hopLimit : UInt8
  src : List UInt8
  srcSize : src.length = 16
  dst : List UInt8
  dstSize : dst.length = 16
  headers : List ExtHeader
  transport : Transport
  upper : Upper

def Ipv6.upperNumber (p : Ipv6) : UInt8 :=
  match p.upper with
  | .transport _ => p.transport.number
  | .laterFragment .. => fragmentNumber

def Upper.encode : Upper → List UInt8
  | .transport body => body
  | .laterFragment next reserved offset _ flags identification data =>
    [next, reserved] ++ be16 (UInt16.ofNat (offset.val * 8 + flags.val)) ++
      Frames.be32 identification.toNat ++ data

/-- The number of the first of the headers, or of what follows them. -/
def firstNumber (headers : List ExtHeader) (upper : UInt8) : UInt8 :=
  match headers with
  | [] => upper
  | h :: _ => h.number

/-- Each header carries the number of the one after it. -/
def encodeChain (upper : UInt8) : List ExtHeader → List UInt8
  | [] => []
  | h :: hs => h.encode (firstNumber hs upper) ++ encodeChain upper hs

def Ipv6.encode (p : Ipv6) : List UInt8 :=
  Frames.be32 (6 * 268435456 + p.trafficClass.toNat * 1048576 + p.flowLabel.val) ++
    be16 p.payloadLength ++ [firstNumber p.headers p.upperNumber, p.hopLimit] ++
    (p.src ++ (p.dst ++ (encodeChain p.upperNumber p.headers ++ p.upper.encode)))

def Ipv6.address (p : Ipv6) : Address := .v6 p.dst p.dstSize

def Ipv6.ports (p : Ipv6) : Option Ports :=
  match p.upper with
  | .transport body => portsIn p.transport p.address body
  | .laterFragment .. => none

/-- A TCP or UDP packet. -/
inductive Packet where
  | v4 (p : Ipv4)
  | v6 (p : Ipv6)

def Packet.encode : Packet → List UInt8
  | .v4 p => p.encode
  | .v6 p => p.encode

/-- What the packet says, if its ports are in it. -/
def Packet.ports : Packet → Option Ports
  | .v4 p => p.ports
  | .v6 p => p.ports

/-! ## The reader -/

/-- Follow a chain of headers to the transport header. -/
def walk (next : UInt8) (bytes : List UInt8) : Option (Transport × List UInt8) :=
  if next = 0 ∨ next = 43 ∨ next = 60 then
    match bytes with
    | next' :: words :: rest =>
      if rest.length < 6 + 8 * words.toNat then none
      else walk next' (rest.drop (6 + 8 * words.toNat))
    | _ => none
  else if next = fragmentNumber then
    match bytes with
    | next' :: _ :: hi :: lo :: _ :: _ :: _ :: _ :: rest =>
      -- the offset is in the upper thirteen bits
      if (ofBe16 hi lo).toNat / 8 = 0 then walk next' rest else none
    | _ => none
  else (Transport.ofNumber next).map fun transport => (transport, bytes)
termination_by bytes.length
decreasing_by
  · simp only [List.length_cons, List.length_drop]
    omega
  · simp only [List.length_cons]
    omega

/-- The ports of an IPv4 packet. -/
def readIpv4 : List UInt8 → Option Ports
  | first :: _ :: _ :: _ :: _ :: _ :: f₁ :: f₀ :: _ :: number :: _ :: _ :: _ :: _ :: _ :: _ ::
      a :: b :: c :: d :: rest =>
    let optionsLength := 4 * (first.toNat % 16 - 5)
    if first.toNat % 16 < 5 ∨ rest.length < optionsLength then none
    else if (ofBe16 f₁ f₀).toNat % 8192 = 0 then
      (Transport.ofNumber number).bind fun transport =>
        portsIn transport (.v4 a b c d) (rest.drop optionsLength)
    else none
  | _ => none

/-- The ports of an IPv6 packet. -/
def readIpv6 (bytes : List UInt8) : Option Ports :=
  if size : ((bytes.drop 24).take 16).length = 16 then
    bytes[6]?.bind fun next =>
      (walk next (bytes.drop 40)).bind fun (transport, body) => portsIn transport (.v6 _ size) body
  else none

/-- The ports of a packet, by its version. -/
def readPorts (bytes : List UInt8) : Option Ports :=
  match bytes.head?.map fun first => first.toNat / 16 with
  | some 4 => readIpv4 bytes
  | some 6 => readIpv6 bytes
  | _ => none

/-! ## The reader finds what the packet says -/

theorem walk_transport (t : Transport) (bytes : List UInt8) :
    walk t.number bytes = some (t, bytes) := by
  rw [walk.eq_def]
  cases t <;> rfl

/-- One header of the chain. -/
theorem walk_header (h : ExtHeader) (next : UInt8) (bytes : List UInt8) :
    walk h.number (h.encode next ++ bytes) = walk next bytes := by
  cases h with
  | sized kind words data size =>
    have hkind : kind.number = 0 ∨ kind.number = 43 ∨ kind.number = 60 := by
      cases kind <;> decide
    have hlen : ¬(data ++ bytes).length < 6 + 8 * words.toNat := by
      rw [List.length_append]
      omega
    rw [walk.eq_def, ExtHeader.number, if_pos hkind]
    simp only [ExtHeader.encode, List.cons_append]
    rw [if_neg hlen, ← size, List.drop_left]
  | firstFragment reserved flags identification =>
    have hflags : (UInt16.ofNat flags.val).toNat / 8 = 0 := by
      rw [UInt16.toNat_ofNat']
      omega
    rw [walk.eq_def, ExtHeader.number, if_neg (by decide), if_pos rfl]
    simp only [ExtHeader.encode, be16, Frames.be32, List.cons_append, List.nil_append, ofBe16_be16]
    rw [if_pos hflags]

/-- The walk comes out at the end of the chain. -/
theorem walk_encodeChain (headers : List ExtHeader) (upper : UInt8) (bytes : List UInt8) :
    walk (firstNumber headers upper) (encodeChain upper headers ++ bytes) = walk upper bytes := by
  induction headers with
  | nil => rfl
  | cons h hs ih =>
    rw [encodeChain, List.append_assoc]
    exact (walk_header h _ _).trans ih

/-- A fragment from inside the packet has no ports. -/
theorem walk_upper (p : Ipv6) :
    walk p.upperNumber p.upper.encode =
      match p.upper with
      | .transport body => some (p.transport, body)
      | .laterFragment .. => none := by
  unfold Ipv6.upperNumber
  cases p.upper with
  | transport body => exact walk_transport p.transport body
  | laterFragment next reserved offset later flags identification data =>
    have hoffset : ¬(UInt16.ofNat (offset.val * 8 + flags.val)).toNat / 8 = 0 := by
      rw [UInt16.toNat_ofNat']
      omega
    dsimp only
    rw [walk.eq_def, if_neg (by decide), if_pos rfl]
    simp only [Upper.encode, be16, Frames.be32, List.cons_append, List.nil_append, ofBe16_be16]
    rw [if_neg hoffset]

/-- The first byte of an IPv4 packet. -/
theorem Ipv4.firstByte (p : Ipv4) :
    (UInt8.ofNat (4 * 16 + p.ihl)).toNat = 64 + p.ihl ∧ 4 * (p.ihl - 5) = p.options.length ∧
      5 ≤ p.ihl ∧ p.ihl ≤ 15 := by
  have haligned := p.aligned
  have hfits := p.fits
  unfold Ipv4.ihl
  rw [UInt8.toNat_ofNat']
  omega

theorem Ipv4.readPorts_encode (p : Ipv4) : readPorts p.encode = p.ports := by
  obtain ⟨hfirst, hlen, hle, hlt⟩ := p.firstByte
  have hversion : (64 + p.ihl) / 16 = 4 := by omega
  have hihl : (64 + p.ihl) % 16 = p.ihl := by omega
  have hroom : ¬(p.ihl < 5 ∨ (p.options ++ p.body).length < p.options.length) := by
    rw [List.length_append]
    omega
  have hoffset : p.fragmentWord.toNat % 8192 = p.fragmentOffset.val := by
    rw [Ipv4.fragmentWord, UInt16.toNat_ofNat']
    omega
  have hread : readIpv4 p.encode = p.ports := by
    simp only [Ipv4.encode, be16, List.cons_append, List.nil_append, readIpv4, hfirst, hihl, hlen,
      ofBe16_be16, hoffset, List.drop_left, Transport.ofNumber_number, Option.bind_some]
    rw [if_neg hroom, Ipv4.ports, Ipv4.address]
  rw [readPorts, show p.encode.head?.map (fun first => first.toNat / 16) = some 4 by
    simp only [Ipv4.encode, List.cons_append, List.head?_cons, Option.map_some, hfirst, hversion]]
  exact hread

/-- The fixed header of an IPv6 packet. -/
theorem Ipv6.encode_header (p : Ipv6) : ∃ b₀ b₁ b₂ b₃ b₄ b₅ b₇ : UInt8, b₀.toNat / 16 = 6 ∧
    p.encode = b₀ :: b₁ :: b₂ :: b₃ :: b₄ :: b₅ :: firstNumber p.headers p.upperNumber :: b₇ ::
      (p.src ++ (p.dst ++ (encodeChain p.upperNumber p.headers ++ p.upper.encode))) := by
  have hclass := p.trafficClass.toNat_lt
  refine ⟨_, _, _, _, _, _, _, ?_, rfl⟩
  rw [UInt8.toNat_ofNat', Nat.shiftRight_eq_div_pow]
  omega

theorem Ipv6.dst_encode (p : Ipv6) : (p.encode.drop 24).take 16 = p.dst := by
  obtain ⟨b₀, b₁, b₂, b₃, b₄, b₅, b₇, -, hencode⟩ := p.encode_header
  rw [hencode, show 24 = 8 + p.src.length by rw [p.srcSize], ← List.drop_drop]
  simp only [List.drop_succ_cons, List.drop_zero, List.drop_left]
  rw [← p.dstSize, List.take_left]

/-- After the fixed header. -/
theorem Ipv6.drop_encode (p : Ipv6) :
    p.encode.drop 40 = encodeChain p.upperNumber p.headers ++ p.upper.encode := by
  obtain ⟨b₀, b₁, b₂, b₃, b₄, b₅, b₇, -, hencode⟩ := p.encode_header
  rw [hencode, show 40 = 8 + (p.src.length + p.dst.length) by rw [p.srcSize, p.dstSize],
    ← List.drop_drop]
  simp only [List.drop_succ_cons, List.drop_zero]
  rw [← List.drop_drop, List.drop_left, List.drop_left]

theorem Ipv6.length_encode (p : Ipv6) : 40 ≤ p.encode.length := by
  obtain ⟨b₀, b₁, b₂, b₃, b₄, b₅, b₇, -, hencode⟩ := p.encode_header
  rw [hencode]
  simp only [List.length_cons, List.length_append, p.srcSize, p.dstSize]
  omega

theorem Ipv6.readPorts_encode (p : Ipv6) : readPorts p.encode = p.ports := by
  obtain ⟨b₀, b₁, b₂, b₃, b₄, b₅, b₇, hversion, hencode⟩ := p.encode_header
  have hread : readIpv6 p.encode = p.ports := by
    have hsize : ((p.encode.drop 24).take 16).length = 16 := by
      rw [p.dst_encode, p.dstSize]
    have hnext : p.encode[6]? = some (firstNumber p.headers p.upperNumber) := by
      rw [hencode]
      rfl
    have haddress : Address.v6 ((p.encode.drop 24).take 16) hsize = p.address := by
      simp only [p.dst_encode, Ipv6.address]
    rw [readIpv6, dif_pos hsize, hnext, Option.bind_some, p.drop_encode, walk_encodeChain, walk_upper,
      haddress, Ipv6.ports]
    cases p.upper with
    | transport body => rfl
    | laterFragment next reserved offset later flags identification data => rfl
  rw [readPorts, show p.encode.head?.map (fun first => first.toNat / 16) = some 6 by
    rw [hencode, List.head?_cons, Option.map_some, hversion]]
  exact hread

/-- **The reader is right** on every packet, whatever its options, its chain of headers
and its fragment. -/
theorem readPorts_encode (p : Packet) : readPorts p.encode = p.ports := by
  cases p with
  | v4 p => exact p.readPorts_encode
  | v6 p => exact p.readPorts_encode

end IpPacket
