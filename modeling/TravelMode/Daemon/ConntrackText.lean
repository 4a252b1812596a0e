import TravelMode.Core.IpText
import TravelMode.Daemon.Conntrack

/-!
# Reading the conntrack table (`daemon/src/conntrack.rs`)

`parse_line`, on the words of a line: a header, then `key=value` pairs in two groups. The
second `src` starts the reply.

- `parseTable`: the flows of the lines that can be parsed, in file order.
- `pollTable`: `poll_once` with its read of the table.
-/

namespace TravelMode

open TextScan

/-- The layer-4 header: flows of other protocols are not tracked. -/
def headerProtocol (word : List Char) : Option Protocol :=
  if word = "tcp".toList then some .tcp
  else if word = "udp".toList then some .udp
  else none

/-- A TCP line may have a connection state, which is no pair. -/
def skipState (protocol : Protocol) (tokens : List (List Char)) : List (List Char) :=
  match protocol, tokens with
  | .tcp, t :: rest => if '=' ∈ t then tokens else rest
  | _, _ => tokens

/-- What the pairs have said so far. -/
structure Pairs where
  orig : KeyedMap (List Char) (List Char)
  origBytes : Option Nat
  replyBytes : Option Nat
  inReply : Bool

/-- `v.parse::<u64>().ok()` -/
def parseBytes (v : List Char) : Option Nat := fromStrRadix 10 (2 ^ 64) v

/-- The branches of the loop: a reply has only its bytes read, and of the original
direction each key counts once. -/
def Pairs.pair (pairs : Pairs) (k v : List Char) : Pairs :=
  if pairs.inReply then
    if k = "bytes".toList ∧ pairs.replyBytes = none then
      { pairs with replyBytes := parseBytes v }
    else pairs
  else if k = "bytes".toList then
    if pairs.origBytes = none then { pairs with origBytes := parseBytes v } else pairs
  else if (pairs.orig.get? k).isSome then pairs
  else { pairs with orig := pairs.orig.insert k v }

/-- One word of the loop. -/
def Pairs.visit (pairs : Pairs) (token : List Char) : Pairs :=
  match splitOnce '=' token with
  -- [ASSURED], [UNREPLIED], etc.
  | none => pairs
  | some (k, v) =>
    let again := k = "src".toList ∧ (pairs.orig.get? "src".toList).isSome
    { pairs with inReply := pairs.inReply || decide again }.pair k v

def Pairs.empty : Pairs := ⟨.empty, none, none, false⟩

/-- `proto_name` -/
def protoName : Protocol → List Char
  | .tcp => "tcp".toList
  | .udp => "udp".toList
  -- unreachable: no header gives it
  | .other => []

/-- The key of a flow. -/
def FlowTuple.key (t : FlowTuple) : String :=
  .ofList (protoName t.protocol ++ ':' :: t.localAddr.text ++
    ':' :: Nat.toDigits 10 t.localPort.toNat ++ '-' :: t.remoteAddr.text ++
    ':' :: Nat.toDigits 10 t.remotePort.toNat)

/-- `orig.get(k)?.parse::<u16>().ok()?` -/
def Pairs.port (pairs : Pairs) (k : String) : Option UInt16 :=
  (pairs.orig.get? k.toList).bind fun v => (fromStrRadix 10 65536 v).map UInt16.ofNat

/-- `orig.get(k)?.parse::<IpAddr>().ok()?` -/
def Pairs.addr (pairs : Pairs) (k : String) : Option IpAddr :=
  (pairs.orig.get? k.toList).bind parseIpAddr

/-- The flow that the pairs of a line are about. -/
def Pairs.flow (pairs : Pairs) (protocol : Protocol) : Option ParsedFlow :=
  (pairs.addr "src").bind fun localAddr =>
  (pairs.addr "dst").bind fun remoteAddr =>
  (pairs.port "sport").bind fun localPort =>
  (pairs.port "dport").map fun remotePort =>
    { key := FlowTuple.key ⟨protocol, localAddr, localPort, remoteAddr, remotePort⟩
      protocol := protocol
      localAddr := localAddr
      localPort := localPort
      remoteAddr := remoteAddr
      remotePort := remotePort
      sent := pairs.origBytes.getD 0
      recv := pairs.replyBytes.getD 0 }

/-- `parse_line`: `none` for flows that are neither TCP nor UDP, and for malformed lines. -/
def parseLine (line : List Char) : Option ParsedFlow :=
  match splitWhitespace line with
  | _l3 :: _l3num :: proto :: _l4num :: _timeout :: tokens =>
    (headerProtocol proto).bind fun protocol =>
      ((skipState protocol tokens).foldl Pairs.visit .empty).flow protocol
  | _ => none

/-- The flows of a table. -/
def parseTable (text : List Char) : List ParsedFlow := (lines text).filterMap parseLine

/-- A flow is named after its tuple. -/
theorem parseLine_key {line : List Char} {f : ParsedFlow} (h : parseLine line = some f) :
    f.key = f.tuple.key := by
  unfold parseLine at h
  split at h
  · obtain ⟨protocol, -, h⟩ := Option.bind_eq_some_iff.mp h
    obtain ⟨localAddr, -, h⟩ := Option.bind_eq_some_iff.mp h
    obtain ⟨remoteAddr, -, h⟩ := Option.bind_eq_some_iff.mp h
    obtain ⟨localPort, -, h⟩ := Option.bind_eq_some_iff.mp h
    obtain ⟨remotePort, -, rfl⟩ := Option.map_eq_some_iff.mp h
    rfl
  · cases h

theorem toDigits_inj {m n : Nat} (h : Nat.toDigits 10 m = Nat.toDigits 10 n) : m = n := by
  rw [← Nat.ofDigitChars_toDigits (b := 10) (n := m) (by decide) (by decide), h,
    Nat.ofDigitChars_toDigits (by decide) (by decide)]

/-- Flows that differ in the local port alone have different keys. -/
theorem FlowTuple.key_localPort {t : FlowTuple} {p q : UInt16}
    (h : FlowTuple.key { t with localPort := p } = FlowTuple.key { t with localPort := q }) :
    p = q := by
  unfold FlowTuple.key at h
  simp only [String.ofList_inj, List.append_assoc, List.cons_append, List.append_cancel_left_eq,
    List.cons.injEq, true_and] at h
  have hlen : (Nat.toDigits 10 p.toNat).length = (Nat.toDigits 10 q.toNat).length := by
    have := congrArg List.length h
    simp only [List.length_append] at this
    omega
  exact UInt16.toNat_inj.mp (toDigits_inj (List.append_inj_left h hlen))

/-- A line of the table, and what is read from it. -/
example : (parseLine (["ipv4 2 tcp 6 431999 ESTABLISHED ", "src=10.0.0.2 dst=1.1.1.1 ",
    "sport=51234 dport=443 ", "packets=10 bytes=1200 ", "src=1.1.1.1 dst=10.0.0.2 ",
    "sport=443 dport=51234 ", "packets=12 bytes=5400 ", "[ASSURED] mark=0 use=1"].flatMap
      String.toList)).map (fun f => (f.key, f.sent, f.recv)) =
    some ("tcp:10.0.0.2:51234-1.1.1.1:443", 1200, 5400) := by decide +kernel

/-! ## Polls -/

/-- What one pass of the poller meets; `text` is `none` when the table cannot be read. -/
structure TablePoll where
  text : Option (List Char)
  now : DateTime
  procFs : String → ProcFs
  closedOrder : List String
  seenOrder : List ParsedFlow

/-- The poll of a table that was read. -/
def TablePoll.poll (t : TablePoll) (text : List Char) : Poll :=
  ⟨parseTable text, t.now, t.procFs, t.closedOrder, t.seenOrder⟩

/-- `poll_once`: without the table nothing happens. -/
def DaemonState.pollTable (d : DaemonState) (t : TablePoll) :
    Option (DaemonState × List Event) :=
  match t.text with
  | none => some (d, [])
  | some text => d.pollOnce (t.poll text)

end TravelMode
