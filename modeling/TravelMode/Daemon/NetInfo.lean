import Mathlib.Data.List.DropRight
import TravelMode.Core.IpText
import TravelMode.Lib.KeyedMap
import TravelMode.Lib.Loops

/-!
# Network snapshot (`daemon/src/netinfo.rs`)

Interfaces, their addresses, and the default gateway, from three dumps that the kernel
answers with streams of messages.

- `netlinkInfo`: the three loops, over the replies; `netlinkInfo_eq_ok`: what they leave, as
  folds over the messages. `netlinkInfo_map_ok`: without errors, they come to their end.
- `addAddresses` is one address message, `visitRoute` one round of the loop over the routes.
- `snapshot`: with nameservers and what NetworkManager says.
-/

namespace TravelMode

open TextScan Loops

/-! ## Messages -/

/-- The flags of a link that are read. -/
structure LinkFlags where
  up : Bool
  loopback : Bool
deriving DecidableEq

inductive LinkAttribute where
  | ifName (name : String)
  | address (bytes : List UInt8)
  | other

structure LinkMessage where
  index : UInt32
  flags : LinkFlags
  attributes : List LinkAttribute

inductive AddressAttribute where
  | localAddr (ip : IpAddr)
  | address (ip : IpAddr)
  | other

structure AddressMessage where
  index : UInt32
  attributes : List AddressAttribute

/-- `RouteAddress`; the other kinds are not looked at. -/
inductive RouteAddress where
  | inet (addr : Ipv4Addr)
  | inet6 (addr : Ipv6Addr)
  | other

inductive RouteAttribute where
  | gateway (addr : RouteAddress)
  | oif (index : UInt32)
  | other

/-- `RouteType`; the other kinds are not told apart. -/
inductive RouteType where
  | unicast
  | other
deriving DecidableEq

structure RouteMessage where
  table : UInt8
  kind : RouteType
  destinationPrefixLength : UInt8
  attributes : List RouteAttribute

/-- `RouteHeader::RT_TABLE_MAIN` -/
def rtTableMain : UInt8 := 254

/-- The replies to the three dumps. -/
structure Netlink where
  links : List (Except String LinkMessage)
  addresses : List (Except String AddressMessage)
  routes : List (Except String RouteMessage)

/-! ## Links -/

/-- `format_mac` -/
def formatMac (bytes : List UInt8) : Option String :=
  if bytes.length ≠ 6 then none
  else
    let digits := bytes.map fun b => fixedDigits 16 Nat.digitChar 2 b.toNat
    some (.ofList ([':'].intercalate digits))

/-- `classify_interface`; `wireless` says whether `/sys/class/net/<name>/wireless` exists. -/
def classifyInterface (wireless : String → Bool) (name : String) (flags : LinkFlags) :
    InterfaceKind :=
  let startsWith (s : String) := s.toList.isPrefixOf name.toList
  if flags.loopback then .loopback
  else if wireless name then .wifi
  else if startsWith "tun" || startsWith "wg" || startsWith "ppp" then .vpn
  -- eth0, enp3s0, ...
  else if startsWith "e" then .ethernet
  else .other

/-- The name that the attributes give. -/
def LinkMessage.name (msg : LinkMessage) : String :=
  msg.attributes.foldl (fun name attr =>
    match attr with
    | .ifName n => n
    | _ => name) ""

/-- The hardware address that the attributes give. -/
def LinkMessage.mac (msg : LinkMessage) : Option String :=
  msg.attributes.foldl (fun mac attr =>
    match attr with
    | .address bytes => formatMac bytes
    | _ => mac) none

/-- One round of the loop over the links. -/
def visitLink (wireless : String → Bool) (links : KeyedMap UInt32 InterfaceInfo)
    (msg : LinkMessage) : KeyedMap UInt32 InterfaceInfo :=
  if msg.name = "" then links
  else
    links.insert msg.index
      { name := msg.name
        kind := classifyInterface wireless msg.name msg.flags
        mac := msg.mac
        addrs := []
        isUp := msg.flags.up }

/-! ## Addresses -/

/-- The addresses of an interface, and the `Address` of the message that is being read. -/
structure AddrScan where
  addrs : List IpAddr
  linkLocal : Option IpAddr

def AddrScan.visit (scan : AddrScan) : AddressAttribute → AddrScan
  | .localAddr ip => { scan with addrs := scan.addrs ++ [ip] }
  | .address ip => { scan with linkLocal := some ip }
  | .other => scan

/-- What a message adds to the addresses of its interface. -/
def addAddresses (iface : InterfaceInfo) (msg : AddressMessage) : InterfaceInfo :=
  let scan := msg.attributes.foldl AddrScan.visit ⟨iface.addrs, none⟩
  -- Point-to-point links only carry Address; keep it if no Local.
  match scan.linkLocal with
  | some ip =>
    if ip ∈ scan.addrs then { iface with addrs := scan.addrs }
    else { iface with addrs := scan.addrs ++ [ip] }
  | none => { iface with addrs := scan.addrs }

/-- One round of the loop over the addresses. -/
def visitAddress (links : KeyedMap UInt32 InterfaceInfo) (msg : AddressMessage) :
    KeyedMap UInt32 InterfaceInfo :=
  match links.get? msg.index with
  | none => links
  | some iface => links.insert msg.index (addAddresses iface msg)

/-! ## Routes -/

/-- Gateway and primary interface. -/
structure DefaultRoute where
  gateway : Option IpAddr
  primaryInterface : Option String
deriving DecidableEq

/-- A unicast default route of the main table. -/
def RouteMessage.isDefault (msg : RouteMessage) : Bool :=
  decide (msg.table = rtTableMain ∧ msg.kind = .unicast ∧ msg.destinationPrefixLength = 0)

/-- The gateway that the attributes give. -/
def RouteMessage.gw (msg : RouteMessage) : Option IpAddr :=
  msg.attributes.foldl (fun gw attr =>
    match attr with
    | .gateway (.inet v4) => some (.v4 v4)
    | .gateway (.inet6 v6) => some (.v6 v6)
    | _ => gw) none

/-- The interface index that the attributes give. -/
def RouteMessage.oif (msg : RouteMessage) : Option UInt32 :=
  msg.attributes.foldl (fun oif attr =>
    match attr with
    | .oif index => some index
    | _ => oif) none

/-- The gateway of a route and the name of its interface. -/
def RouteMessage.route (links : KeyedMap UInt32 InterfaceInfo) (msg : RouteMessage) :
    DefaultRoute where
  gateway := msg.gw
  primaryInterface := (msg.oif.bind links.get?).map InterfaceInfo.name

/-- `matches!(gw, Some(IpAddr::V4(_)))` -/
def isV4 : Option IpAddr → Bool
  | some (.v4 _) => true
  | _ => false

/-- One round of the loop over the routes. -/
def visitRoute (links : KeyedMap UInt32 InterfaceInfo) (current : DefaultRoute)
    (msg : RouteMessage) : ForInStep DefaultRoute :=
  if !msg.isDefault then .yield current
  else
    -- Prefer the IPv4 default route; take whatever appears first.
    let current := if current.gateway = none then msg.route links else current
    if isV4 msg.gw then .done (msg.route links) else .yield current

/-! ## The snapshot -/

/-- `NetlinkInfo` -/
structure NetlinkInfo where
  interfaces : List InterfaceInfo
  route : DefaultRoute
deriving DecidableEq

/-- `netlink_info`; `connection` is what `rtnetlink::new_connection` gives. -/
def netlinkInfo (wireless : String → Bool) (connection : Except String Netlink) :
    Except String NetlinkInfo := do
  let netlink ← connection
  let links ← drain (fun links msg => .yield (visitLink wireless links msg)) .empty netlink.links
  let links ← drain (fun links msg => .yield (visitAddress links msg)) links netlink.addresses
  let route ← drain (visitRoute links) ⟨none, none⟩ netlink.routes
  return ⟨links.vals, route⟩

/-- `str::trim` -/
def trim (s : List Char) : List Char := (s.dropWhile isWhitespace).rdropWhile isWhitespace

/-- A line up to its comment. -/
def uncommented (line : List Char) : List Char := line.takeWhile fun c => !(c == '#' || c == ';')

/-- The address in a `nameserver` line. -/
def nameserver (line : List Char) : Option IpAddr :=
  match splitWhitespace (trim (uncommented line)) with
  | word :: addr :: _ => if word = "nameserver".toList then parseIpAddr addr else none
  | _ => none

/-- `parse_resolv_conf` -/
def parseResolvConf (text : List Char) : List IpAddr := (lines text).filterMap nameserver

/-- `read_dns_servers`, of a file that may not be readable. -/
def readDnsServers (file : Option (List Char)) : List IpAddr :=
  match file with
  | some text => parseResolvConf text
  | none => []

/-- `snapshot`; `nm` is what `nm_info` gives, SSID and metered flag. -/
def snapshot (wireless : String → Bool) (connection : Except String Netlink)
    (resolvConf : Option (List Char)) (nm : Option String × Option Bool) : NetworkInfo :=
  let info :=
    match netlinkInfo wireless connection with
    | .ok info => info
    | .error _ => ⟨[], ⟨none, none⟩⟩
  { interfaces := info.interfaces
    gateway := info.route.gateway
    dnsServers := readDnsServers resolvConf
    ssid := nm.1
    metered := nm.2
    primaryInterface := info.route.primaryInterface }

/-! ## The loops as folds -/

/-- The interfaces that messages make. -/
def interfaceTable (wireless : String → Bool) (links : List LinkMessage)
    (addresses : List AddressMessage) : KeyedMap UInt32 InterfaceInfo :=
  addresses.foldl visitAddress (links.foldl (visitLink wireless) .empty)

/-- The interfaces listed, and the default route. -/
theorem netlinkInfo_eq_ok {wireless : String → Bool} {netlink : Netlink} {info : NetlinkInfo}
    (h : netlinkInfo wireless (.ok netlink) = .ok info) :
    let table := interfaceTable wireless (received netlink.links) (received netlink.addresses)
    info.interfaces = table.vals ∧
      info.route = loop (visitRoute table) ⟨none, none⟩ (received netlink.routes) := by
  obtain ⟨_, hconnection, h⟩ := bind_eq_ok.mp h
  cases hconnection
  obtain ⟨links, hlinks, h⟩ := bind_eq_ok.mp h
  obtain ⟨table, htable, h⟩ := bind_eq_ok.mp h
  obtain ⟨route, hroute, h⟩ := bind_eq_ok.mp h
  cases h
  have hlinks := (drain_eq_ok hlinks).trans (loop_yield _ _ _)
  have htable := (drain_eq_ok htable).trans (loop_yield _ _ _)
  rw [hlinks] at htable
  rw [interfaceTable, ← htable]
  exact ⟨rfl, drain_eq_ok hroute⟩

/-- Replies without errors are read to their end. -/
theorem netlinkInfo_map_ok (wireless : String → Bool) (links : List LinkMessage)
    (addresses : List AddressMessage) (routes : List RouteMessage) :
    let table := interfaceTable wireless links addresses
    netlinkInfo wireless (.ok ⟨links.map .ok, addresses.map .ok, routes.map .ok⟩) =
      .ok ⟨table.vals, loop (visitRoute table) ⟨none, none⟩ routes⟩ := by
  simp only [netlinkInfo, bind, Except.bind, pure, Except.pure, drain_map_ok, loop_yield]
  rfl

end TravelMode
