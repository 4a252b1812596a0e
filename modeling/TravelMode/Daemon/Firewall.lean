import TravelMode.Core.Types
import TravelMode.Lib.KeyedMap

/-!
# The firewall backend (`daemon/src/firewall.rs`)

The parts that do not read the daemon's state: the nftables chain and the commands
that change it, the rate limiter of the block log, and the packet parser.

- `Nft` is what the kernel holds of our chain; `nft` runs one command line on it.
- `LogThrottle.shouldLog` is pure decision logic with an injected clock.
- `parsePacket` reads the payload byte by byte; an access outside it is a panic of
  the source, hence an `.error` (`parsePacket_ok`: there is none).
-/

namespace TravelMode

universe u

/-! ## The nftables chain -/

/-- The rules of chain `output` of table `inet travelmode`, each as its words; `none`
when the table does not exist. -/
abbrev Nft := Option (List (List String))

/-- The rule that hands new connections to the NFQUEUE worker. -/
def queueRule (queueNum : UInt16) : List String :=
  ["ct", "state", "new", "queue", "num", toString queueNum.toNat, "bypass"]

/-- Run `nft` with these arguments; `none` when it exits with an error. -/
def nft (args : List String) (k : Nft) : Option Nft :=
  match args with
  | "delete" :: "table" :: _ => k.map fun _ => none
  | "flush" :: "chain" :: _ => k.map fun _ => some []
  | "add" :: "rule" :: _ :: _ :: _ :: rule => k.map fun rules => some (rules ++ [rule])
  | _ => none

/-- Load `table_script` into a kernel without our table. -/
def loadTableScript (withQueueRule : Bool) (queueNum : UInt16) : Nft :=
  some (if withQueueRule then [queueRule queueNum] else [])

/-- nftables state handle. -/
structure Firewall where
  queueNum : UInt16
deriving DecidableEq

namespace Firewall

/-- `Firewall::setup`: whatever was there, the table is created afresh. -/
def setup (queueNum : UInt16) (paused : Bool) : Firewall × Nft :=
  (⟨queueNum⟩, loadTableScript (!paused) queueNum)

/-- `Firewall::pause`: remove the queue rule. -/
def pause (_ : Firewall) (k : Nft) : Option Nft :=
  nft ["flush", "chain", "inet", "travelmode", "output"] k

/-- `Firewall::resume`: re-add the queue rule. -/
def resume (fw : Firewall) (k : Nft) : Option Nft :=
  nft (["add", "rule", "inet", "travelmode", "output"] ++ queueRule fw.queueNum) k

/-- Pausing leaves an empty chain. -/
theorem pause_some (fw : Firewall) (rules : List (List String)) :
    fw.pause (some rules) = some (some []) := rfl

/-- Resuming appends the queue rule, whether or not it is there already. -/
theorem resume_some (fw : Firewall) (rules : List (List String)) :
    fw.resume (some rules) = some (some (rules ++ [queueRule fw.queueNum])) := rfl

end Firewall

/-! ## The log throttle -/

/-- What the rate limiter decided for one blocked packet. -/
inductive LogAction where
  /-- First block for this key: log at info. -/
  | first
  /-- Repeat within the window: counted, no log. -/
  | suppress
  /-- Window expired: a summary covering this many blocks. -/
  | summary (n : Nat)
deriving DecidableEq

/-- Blocks are deduplicated by executable and destination. Keys are compared by path
components; the destination is kept unrendered. -/
structure ThrottleKey where
  exe : List PathBuf.Component
  remoteAddr : IpAddr
  remotePort : UInt16
deriving DecidableEq

structure ThrottleEntry where
  windowStart : Nat
  suppressed : Nat
deriving DecidableEq

/-- Rate limiter for blocked-connection logging; instants are in nanoseconds. Nothing in it
depends on what the keys are. -/
structure LogThrottle (κ : Type u) where
  window : Nat
  entries : KeyedMap κ ThrottleEntry

namespace LogThrottle

variable {κ : Type u}

def new (window : Nat) : LogThrottle κ := ⟨window, .empty⟩

/-- A window of five seconds. -/
def default : LogThrottle κ := new 5000000000

/-- `should_log`, with the limiter it leaves. `duration_since` saturates at zero. -/
def shouldLog [DecidableEq κ] (t : LogThrottle κ) (key : κ) (now : Nat) :
    LogAction × LogThrottle κ :=
  match t.entries.get? key with
  | none => (.first, { t with entries := t.entries.insert key ⟨now, 0⟩ })
  | some entry =>
    if now - entry.windowStart < t.window then
      (.suppress, { t with
        entries := t.entries.insert key { entry with suppressed := entry.suppressed + 1 } })
    else
      (.summary (entry.suppressed + 1), { t with entries := t.entries.insert key ⟨now, 0⟩ })

end LogThrottle

/-! ## The packet parser -/

/-- The panic of an index outside the payload. -/
inductive OutOfRange where
  | index (i : Nat)
deriving DecidableEq

/-- What the verdict needs of a packet. -/
structure Packet where
  protocol : Protocol
  localPort : UInt16
  remoteAddr : IpAddr
  remotePort : UInt16
deriving DecidableEq

/-- `payload[i]`. -/
def byteAt (payload : List UInt8) (i : Nat) : Except OutOfRange UInt8 :=
  match payload[i]? with
  | some b => .ok b
  | none => .error (.index i)

/-- The IPv4 address at offset `i`. -/
def ipv4At (payload : List UInt8) (i : Nat) : Except OutOfRange Ipv4Addr := do
  return ⟨← byteAt payload i, ← byteAt payload (i + 1), ← byteAt payload (i + 2),
    ← byteAt payload (i + 3)⟩

/-- `payload[i..i + 16]`. -/
def ipv6At (payload : List UInt8) (i : Nat) : Except OutOfRange Ipv6Addr :=
  if h : ((payload.drop i).take 16).length = 16 then .ok ⟨(payload.drop i).take 16, h⟩
  else .error (.index (i + 16))

/-- `u16::from_be_bytes` of the two bytes at offset `i`. -/
def u16At (payload : List UInt8) (i : Nat) : Except OutOfRange UInt16 := do
  return UInt16.ofNat ((← byteAt payload i).toNat * 256 + (← byteAt payload (i + 1)).toNat)

/-- The protocols whose header starts with two ports. -/
def transportOf (protoByte : UInt8) : Option Protocol :=
  if protoByte = 6 then some .tcp else if protoByte = 17 then some .udp else none

/-- The transport header. Outbound hook: the source port is the local port. -/
def parseTransport (payload : List UInt8) (protoByte : UInt8) (l4Offset : Nat) (dst : IpAddr) :
    Except OutOfRange (Option Packet) :=
  match transportOf protoByte with
  | none => .ok none
  | some proto =>
    if payload.length < l4Offset + 4 then .ok none
    else do
      let localPort ← u16At payload l4Offset
      let remotePort ← u16At payload (l4Offset + 2)
      return some ⟨proto, localPort, dst, remotePort⟩

/-- The branch of version 4. -/
def parseIpv4 (payload : List UInt8) (first : UInt8) : Except OutOfRange (Option Packet) :=
  let ihl := first.toNat % 16 * 4
  if payload.length < ihl + 4 ∨ ihl < 20 then .ok none
  else do
    let proto ← byteAt payload 9
    let _src ← ipv4At payload 12
    let dst ← ipv4At payload 16
    parseTransport payload proto ihl (.v4 dst)

/-- The branch of version 6. -/
def parseIpv6 (payload : List UInt8) : Except OutOfRange (Option Packet) :=
  if payload.length < 40 + 4 then .ok none
  else do
    let proto ← byteAt payload 6
    let _src ← ipv6At payload 8
    let dst ← ipv6At payload 24
    parseTransport payload proto 40 (.v6 dst)

/-- `parse_packet`: `none` for anything but TCP or UDP over IPv4 or IPv6. -/
def parsePacket (payload : List UInt8) : Except OutOfRange (Option Packet) :=
  match payload.head? with
  | none => .ok none
  | some first =>
    match first.toNat / 16 with
    | 4 => parseIpv4 payload first
    | 6 => parseIpv6 payload
    | _ => .ok none

theorem byteAt_ok {payload : List UInt8} {i : Nat} (h : i < payload.length) :
    byteAt payload i = .ok payload[i] := by
  rw [byteAt, List.getElem?_eq_getElem h]

theorem ipv4At_ok (payload : List UInt8) (i : Nat) (h : i + 3 < payload.length) :
    ∃ addr, ipv4At payload i = .ok addr := by
  rw [ipv4At, byteAt_ok (by omega), byteAt_ok (by omega), byteAt_ok (by omega),
    byteAt_ok (by omega)]
  exact ⟨_, rfl⟩

theorem ipv6At_ok (payload : List UInt8) (i : Nat) (h : i + 16 ≤ payload.length) :
    ∃ addr, ipv6At payload i = .ok addr := by
  have hlen : ((payload.drop i).take 16).length = 16 := by
    rw [List.length_take, List.length_drop]
    omega
  exact ⟨_, dif_pos hlen⟩

theorem u16At_ok (payload : List UInt8) (i : Nat) (h : i + 1 < payload.length) :
    ∃ port, u16At payload i = .ok port := by
  rw [u16At, byteAt_ok (by omega), byteAt_ok (by omega)]
  exact ⟨_, rfl⟩

theorem parseTransport_ok (payload : List UInt8) (protoByte : UInt8) (l4Offset : Nat)
    (dst : IpAddr) : ∃ r, parseTransport payload protoByte l4Offset dst = .ok r := by
  unfold parseTransport
  cases transportOf protoByte with
  | none => exact ⟨none, rfl⟩
  | some proto =>
    dsimp only
    by_cases hlen : payload.length < l4Offset + 4
    · exact ⟨none, if_pos hlen⟩
    · obtain ⟨p, hp⟩ := u16At_ok payload l4Offset (by omega)
      obtain ⟨q, hq⟩ := u16At_ok payload (l4Offset + 2) (by omega)
      rw [if_neg hlen, hp, hq]
      exact ⟨_, rfl⟩

/-- What the transport header yields is a TCP or UDP packet. -/
theorem parseTransport_protocol {payload : List UInt8} {protoByte : UInt8} {l4Offset : Nat}
    {dst : IpAddr} {packet : Packet}
    (h : parseTransport payload protoByte l4Offset dst = .ok (some packet)) :
    packet.protocol ≠ .other := by
  unfold parseTransport at h
  cases hp : transportOf protoByte with
  | none =>
    rw [hp] at h
    cases h
  | some proto =>
    -- the table of protocol numbers has no entry for `other`
    have hproto : proto ≠ .other := by
      rintro rfl
      unfold transportOf at hp
      split at hp
      · cases hp
      · split at hp <;> cases hp
    rw [hp] at h
    dsimp only at h
    split at h
    · cases h
    · rename_i hlen
      obtain ⟨p, hp'⟩ := u16At_ok payload l4Offset (by omega)
      obtain ⟨q, hq⟩ := u16At_ok payload (l4Offset + 2) (by omega)
      rw [hp', hq] at h
      cases h
      exact hproto

/-- Only TCP and UDP packets parse. -/
theorem parsePacket_protocol {payload : List UInt8} {packet : Packet}
    (h : parsePacket payload = .ok (some packet)) : packet.protocol ≠ .other := by
  unfold parsePacket at h
  cases hfirst : payload.head? with
  | none =>
    rw [hfirst] at h
    cases h
  | some first =>
    rw [hfirst] at h
    dsimp only at h
    split at h
    · -- by the version nibble: both headers end in `parse_transport`
      rw [parseIpv4] at h
      split at h
      · cases h
      · rename_i hlen
        obtain ⟨src, hsrc⟩ := ipv4At_ok payload 12 (by omega)
        obtain ⟨dst, hdst⟩ := ipv4At_ok payload 16 (by omega)
        rw [byteAt_ok (by omega), hsrc, hdst] at h
        exact parseTransport_protocol h
    · rw [parseIpv6] at h
      split at h
      · cases h
      · rename_i hlen
        obtain ⟨src, hsrc⟩ := ipv6At_ok payload 8 (by omega)
        obtain ⟨dst, hdst⟩ := ipv6At_ok payload 24 (by omega)
        rw [byteAt_ok (by omega), hsrc, hdst] at h
        exact parseTransport_protocol h
    · cases h

/-- **No access outside the payload**: the parser returns on every byte string. -/
theorem parsePacket_ok (payload : List UInt8) : ∃ r, parsePacket payload = .ok r := by
  unfold parsePacket
  cases payload.head? with
  | none => exact ⟨none, rfl⟩
  | some first =>
    dsimp only
    split
    · -- version 4: the header length that was checked covers both addresses
      rw [parseIpv4]
      by_cases hlen : payload.length < first.toNat % 16 * 4 + 4 ∨ first.toNat % 16 * 4 < 20
      · exact ⟨none, if_pos hlen⟩
      · obtain ⟨src, hsrc⟩ := ipv4At_ok payload 12 (by omega)
        obtain ⟨dst, hdst⟩ := ipv4At_ok payload 16 (by omega)
        rw [if_neg hlen, byteAt_ok (by omega), hsrc, hdst]
        exact parseTransport_ok payload _ _ _
    · -- version 6
      rw [parseIpv6]
      by_cases hlen : payload.length < 40 + 4
      · exact ⟨none, if_pos hlen⟩
      · obtain ⟨src, hsrc⟩ := ipv6At_ok payload 8 (by omega)
        obtain ⟨dst, hdst⟩ := ipv6At_ok payload 24 (by omega)
        rw [if_neg hlen, byteAt_ok (by omega), hsrc, hdst]
        exact parseTransport_ok payload _ _ _
    · exact ⟨none, rfl⟩

end TravelMode
