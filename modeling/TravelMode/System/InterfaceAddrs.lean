import TravelMode.Daemon.NetInfo
import TravelMode.Lib.Grouping

/-!
# The addresses of an interface

An address message has the interface's own address as `Local`, and as `Address` the one at the
other end of a point-to-point link; where it has no `Local`, `Address` is the own one. The loop
tells the two apart by whether the address has been listed already.

- `localsOf`, `addressOf`: what a message carries, whatever the order of its attributes.
- `mem_interfaceTable`: what the loop collects, over all messages.
- `ownAddrs_iff`: that is the interface's own addresses exactly if no message carries a peer.
-/

namespace TravelMode

namespace InterfaceAddrs

open Loops Grouping

/-! ## What messages say -/

/-- The `Local` addresses of a message. -/
def localsOf (msg : AddressMessage) : List IpAddr :=
  msg.attributes.filterMap fun attr =>
    match attr with
    | .localAddr ip => some ip
    | _ => none

/-- The `Address` of a message; of several, the last one counts. -/
def addressOf (msg : AddressMessage) : Option IpAddr :=
  (msg.attributes.filterMap fun attr =>
    match attr with
    | .address ip => some ip
    | _ => none).getLast?

/-- The message says that the interface has this address: as a `Local`, or as the `Address`
of a message without one. -/
def SaysOwn (msg : AddressMessage) (ip : IpAddr) : Prop :=
  ip ∈ localsOf msg ∨ (localsOf msg = [] ∧ addressOf msg = some ip)

/-- The message carries a `Local`, and this other address as the one of the peer. -/
def SaysPeer (msg : AddressMessage) (ip : IpAddr) : Prop :=
  localsOf msg ≠ [] ∧ addressOf msg = some ip ∧ ip ∉ localsOf msg

/-- The interface is listed: one of its link messages has a name. -/
def Listed (links : List LinkMessage) (index : UInt32) : Prop :=
  ∃ msg ∈ links, msg.index = index ∧ msg.name ≠ ""

/-- Every interface has the addresses that its messages say it has, and no peer's. -/
def OwnAddrs (table : KeyedMap UInt32 InterfaceInfo) (addresses : List AddressMessage) : Prop :=
  ∀ index iface, table.get? index = some iface →
    (∀ ip, ip ∈ iface.addrs ↔ ∃ msg ∈ addresses, msg.index = index ∧ SaysOwn msg ip) ∧
    ∀ msg ∈ addresses, msg.index = index → ∀ ip, SaysPeer msg ip → ip ∉ iface.addrs

/-! ## One message -/

/-- The scan of a message, whatever the order of its attributes. -/
theorem foldl_visit (msg : AddressMessage) (scan : AddrScan) :
    msg.attributes.foldl AddrScan.visit scan =
      ⟨scan.addrs ++ localsOf msg, (addressOf msg).or scan.linkLocal⟩ := by
  obtain ⟨index, attributes⟩ := msg
  induction attributes generalizing scan with
  | nil => exact congrArg (AddrScan.mk · _) (List.append_nil _).symm
  | cons attr attributes ih =>
    refine (ih _).trans ?_
    cases attr with
    | localAddr ip => exact congrArg (AddrScan.mk · _) (List.append_assoc ..)
    | address ip =>
      refine congrArg (AddrScan.mk _ ·) ?_
      show (addressOf _).or (some ip) = (List.getLast? (ip :: _)).or scan.linkLocal
      rw [List.getLast?_cons]
      unfold addressOf
      cases (attributes.filterMap _).getLast? <;> rfl
    | other => rfl

/-- A message adds its `Local` addresses and its `Address`. -/
theorem mem_addAddresses {iface : InterfaceInfo} {msg : AddressMessage} {ip : IpAddr} :
    ip ∈ (addAddresses iface msg).addrs ↔
      ip ∈ iface.addrs ∨ ip ∈ localsOf msg ∨ addressOf msg = some ip := by
  rw [addAddresses, foldl_visit, Option.or_none]
  cases addressOf msg with
  | none => simp
  | some a =>
    dsimp only
    split
    · rename_i hlisted
      -- the address was there, as one of the message's own or an earlier one's
      rw [List.mem_append]
      refine ⟨fun h => h.imp_right .inl, ?_⟩
      rintro (h | h | h)
      · exact .inl h
      · exact .inr h
      · cases h
        exact List.mem_append.mp hlisted
    · rw [List.mem_append, List.mem_append, List.mem_singleton, or_assoc, Option.some_inj, eq_comm]

/-! ## All messages -/

/-- The messages of an interface are added one after the other. -/
theorem get?_foldl_visitAddress (addresses : List AddressMessage)
    (links : KeyedMap UInt32 InterfaceInfo) (index : UInt32) :
    (addresses.foldl visitAddress links).get? index = (links.get? index).map fun iface =>
      (group AddressMessage.index addresses index).foldl addAddresses iface := by
  induction addresses generalizing links with
  | nil => exact Option.map_id'.symm
  | cons msg addresses ih =>
    rw [List.foldl_cons, ih]
    by_cases hindex : msg.index = index
    · subst hindex
      rw [group_cons_self, visitAddress]
      cases hget : links.get? msg.index with
      | none =>
        rw [hget]
        rfl
      | some iface =>
        rw [KeyedMap.get?_insert_self]
        rfl
    · rw [group_cons_of_ne hindex, visitAddress]
      cases links.get? msg.index with
      | none => rfl
      | some iface => rw [KeyedMap.get?_insert_of_ne (Ne.symm hindex)]

theorem mem_foldl_addAddresses {addresses : List AddressMessage} {iface : InterfaceInfo}
    {ip : IpAddr} : ip ∈ (addresses.foldl addAddresses iface).addrs ↔
      ip ∈ iface.addrs ∨ ∃ msg ∈ addresses, ip ∈ localsOf msg ∨ addressOf msg = some ip := by
  induction addresses generalizing iface with
  | nil => simp
  | cons msg addresses ih => rw [List.foldl_cons, ih, mem_addAddresses, List.exists_mem_cons_iff,
      or_assoc]

/-- Links have no addresses yet, and those with a name are in the table. -/
theorem get?_foldl_visitLink (wireless : String → Bool) (links : List LinkMessage)
    (index : UInt32) :
    ((∃ iface, (links.foldl (visitLink wireless) .empty).get? index = some iface) ↔
      Listed links index) ∧
    ∀ iface, (links.foldl (visitLink wireless) .empty).get? index = some iface →
      iface.addrs = [] := by
  induction links using List.reverseRecOn with
  | nil => simp [Listed]
  | append_singleton links msg ih =>
    rw [List.foldl_append, List.foldl_cons, List.foldl_nil, visitLink]
    have hlisted : Listed (links ++ [msg]) index ↔
        Listed links index ∨ (msg.index = index ∧ msg.name ≠ "") := by
      simp only [Listed, List.mem_append, List.mem_singleton, or_and_right, exists_or,
        exists_eq_left]
    rw [hlisted]
    by_cases hname : msg.name = ""
    · rw [if_pos hname]
      refine ⟨ih.1.trans (or_iff_left fun h => h.2 hname).symm, ih.2⟩
    · rw [if_neg hname]
      by_cases hindex : index = msg.index
      · subst hindex
        rw [KeyedMap.get?_insert_self]
        refine ⟨iff_of_true ⟨_, rfl⟩ (.inr ⟨rfl, hname⟩), ?_⟩
        rintro iface ⟨⟩
        rfl
      · rw [KeyedMap.get?_insert_of_ne hindex]
        exact ⟨ih.1.trans (or_iff_left fun h => hindex h.1.symm).symm, ih.2⟩

variable {wireless : String → Bool} {links : List LinkMessage} {addresses : List AddressMessage}
  {index : UInt32} {iface : InterfaceInfo}

theorem get?_interfaceTable :
    (∃ iface, (interfaceTable wireless links addresses).get? index = some iface) ↔
      Listed links index := by
  rw [← (get?_foldl_visitLink wireless links index).1, interfaceTable, get?_foldl_visitAddress,
    ← Option.isSome_iff_exists, ← Option.isSome_iff_exists, Option.isSome_map]

/-- An interface has every `Local` and every `Address` of its messages. -/
theorem mem_interfaceTable (h : (interfaceTable wireless links addresses).get? index = some iface)
    {ip : IpAddr} : ip ∈ iface.addrs ↔
      ∃ msg ∈ addresses, msg.index = index ∧ (ip ∈ localsOf msg ∨ addressOf msg = some ip) := by
  rw [interfaceTable, get?_foldl_visitAddress] at h
  obtain ⟨link, hlink, rfl⟩ := Option.map_eq_some_iff.mp h
  rw [mem_foldl_addAddresses, (get?_foldl_visitLink wireless links index).2 link hlink]
  simp only [List.not_mem_nil, false_or, mem_group, and_assoc]

/-- **Own addresses**: the interfaces of a snapshot have their own addresses, all of them and
no peer's, exactly if no message of a listed interface carries a peer's address. -/
theorem ownAddrs_iff {netlink : Netlink} {info : NetlinkInfo}
    (h : netlinkInfo wireless (.ok netlink) = .ok info) :
    let table := interfaceTable wireless (received netlink.links) (received netlink.addresses)
    info.interfaces = table.vals ∧
    (OwnAddrs table (received netlink.addresses) ↔
      ∀ msg ∈ received netlink.addresses, Listed (received netlink.links) msg.index →
        ∀ ip, ¬SaysPeer msg ip) := by
  refine ⟨(netlinkInfo_eq_ok h).1, ?_, ?_⟩
  · intro hown msg hmsg hlisted ip hpeer
    obtain ⟨iface, hiface⟩ := get?_interfaceTable.mpr hlisted
    refine (hown msg.index iface hiface).2 msg hmsg rfl ip hpeer ?_
    exact (mem_interfaceTable hiface).mpr ⟨msg, hmsg, rfl, .inr hpeer.2.1⟩
  · intro hnone index iface hiface
    have hlisted := get?_interfaceTable.mp ⟨iface, hiface⟩
    constructor
    · intro ip
      rw [mem_interfaceTable hiface]
      refine exists_congr fun msg => and_congr_right fun hmsg => and_congr_right fun hindex => ?_
      constructor
      · rintro (hlocal | haddress)
        · exact .inl hlocal
        · -- an address next to a `Local` is one of them
          by_cases hlocals : localsOf msg = []
          · exact .inr ⟨hlocals, haddress⟩
          · by_contra hother
            refine hnone msg hmsg (hindex ▸ hlisted) ip ⟨hlocals, haddress, fun hmem => ?_⟩
            exact hother (.inl hmem)
      · rintro (hlocal | ⟨-, haddress⟩)
        · exact .inl hlocal
        · exact .inr haddress
    · intro msg hmsg hindex ip hpeer
      exact absurd hpeer (hnone msg hmsg (hindex ▸ hlisted) ip)

/-! ### A tunnel and a network card -/

/-- The interface `tun0`, with one address message. -/
def tunnel (attributes : List AddressAttribute) : Netlink where
  links := [.ok ⟨3, ⟨true, false⟩, [.ifName "tun0"]⟩]
  addresses := [.ok ⟨3, attributes⟩]
  routes := []

/-- The own end of the tunnel. -/
def ownEnd : IpAddr := .v4 ⟨10, 8, 0, 2⟩

/-- The other end. -/
def peerEnd : IpAddr := .v4 ⟨10, 8, 0, 1⟩

/-- What a snapshot says of `tun0`. -/
def tunnelInfo (addrs : List IpAddr) : NetlinkInfo :=
  ⟨[⟨"tun0", .vpn, none, addrs, true⟩], ⟨none, none⟩⟩

/-- The other end of a tunnel is listed as an address of this one. -/
theorem peer_listed :
    let netlink := tunnel [.address peerEnd, .localAddr ownEnd]
    netlinkInfo (fun _ => false) (.ok netlink) = .ok (tunnelInfo [ownEnd, peerEnd]) ∧
    ¬OwnAddrs (interfaceTable (fun _ => false) (received netlink.links)
      (received netlink.addresses)) (received netlink.addresses) := by
  refine ⟨rfl, fun hown => ?_⟩
  obtain ⟨-, hpeer⟩ := hown 3 ⟨"tun0", .vpn, none, [ownEnd, peerEnd], true⟩ rfl
  refine hpeer _ List.mem_cons_self rfl peerEnd ⟨?_, rfl, ?_⟩ ?_
  · exact List.cons_ne_nil _ _
  · decide
  · decide

/-- Where the two ends are one address, it is listed. -/
theorem ownAddrs_iff_same :
    let netlink := tunnel [.address ownEnd, .localAddr ownEnd]
    netlinkInfo (fun _ => false) (.ok netlink) = .ok (tunnelInfo [ownEnd]) ∧
    OwnAddrs (interfaceTable (fun _ => false) (received netlink.links)
      (received netlink.addresses)) (received netlink.addresses) := by
  have hok : netlinkInfo (fun _ => false) (.ok (tunnel [.address ownEnd, .localAddr ownEnd])) =
      .ok (tunnelInfo [ownEnd]) := rfl
  refine ⟨hok, (ownAddrs_iff hok).2.mpr ?_⟩
  rintro msg hmsg - ip ⟨-, haddress, hother⟩
  cases List.mem_singleton.mp hmsg
  cases haddress
  exact hother List.mem_cons_self

end InterfaceAddrs

end TravelMode
