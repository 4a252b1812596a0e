import TravelMode.Daemon.NetInfo

/-!
# Which default route is taken

The gateway and the primary interface of a snapshot should be those of the first default route
with an IPv4 gateway, and without one those of the first default route. The loop over the
routes goes on as long as it has no gateway, and overwrites a route that has none.

- `loop_visitRoute`: what the loop takes, whatever comes in whatever order.
- `route_of_one`: gateway and interface are those of one route.
- `route_eq_chosen_iff`: the routes for which it is the right one.
-/

namespace TravelMode

namespace RouteChoice

open Loops

/-- The unicast default routes of the main table, in their order. -/
def defaults (routes : List RouteMessage) : List RouteMessage :=
  routes.filter RouteMessage.isDefault

/-- The route has an IPv4 gateway. -/
def hasV4 (msg : RouteMessage) : Bool := isV4 msg.gw

/-- The route has a gateway. -/
def hasGateway (msg : RouteMessage) : Bool := msg.gw.isSome

/-- The first default route with an IPv4 gateway if there is one, and otherwise the first
default route. -/
def preferred (routes : List RouteMessage) : Option RouteMessage :=
  ((defaults routes).find? hasV4).or (defaults routes).head?

/-- Gateway and interface of the preferred route, if there is any route. -/
def chosen (table : KeyedMap UInt32 InterfaceInfo) (routes : List RouteMessage) : DefaultRoute :=
  ((preferred routes).map (RouteMessage.route table)).getD ⟨none, none⟩

/-- A default route with an IPv4 gateway; or no default route; or a first one that is not
overwritten, or only by one that says the same. -/
def FirstStands (table : KeyedMap UInt32 InterfaceInfo) (routes : List RouteMessage) : Prop :=
  (∃ msg ∈ defaults routes, hasV4 msg = true) ∨
    ∀ first ∈ (defaults routes).head?, ∀ last ∈ (defaults routes).getLast?,
      hasGateway first = true ∨
        ((∀ msg ∈ defaults routes, hasGateway msg = false) ∧
          (last.route table).primaryInterface = (first.route table).primaryInterface)

/-! ## The loop -/

/-- Without an IPv4 gateway: the first route with a gateway, or else the last route. -/
def settled (routes : List RouteMessage) : Option RouteMessage :=
  (routes.find? hasGateway).or routes.getLast?

theorem route_gateway_none {table : KeyedMap UInt32 InterfaceInfo} {msg : RouteMessage} :
    (msg.route table).gateway = none ↔ hasGateway msg = false := by
  show msg.gw = none ↔ msg.gw.isSome = false
  rw [Option.isSome_eq_false_iff, Option.isNone_iff_eq_none]

theorem defaults_cons_of_pos {msg : RouteMessage} (h : msg.isDefault = true)
    (routes : List RouteMessage) : defaults (msg :: routes) = msg :: defaults routes :=
  List.filter_cons_of_pos h

theorem defaults_cons_of_neg {msg : RouteMessage} (h : ¬msg.isDefault = true)
    (routes : List RouteMessage) : defaults (msg :: routes) = defaults routes :=
  List.filter_cons_of_neg h

theorem visitRoute_of_neg {table : KeyedMap UInt32 InterfaceInfo} {current : DefaultRoute}
    {msg : RouteMessage} (h : ¬msg.isDefault = true) :
    visitRoute table current msg = .yield current := by
  rw [visitRoute, Bool.eq_false_iff.mpr h]
  rfl

/-- A default route ends the loop if it has an IPv4 gateway, and else is taken for as long as
there is no gateway. -/
theorem visitRoute_of_pos {table : KeyedMap UInt32 InterfaceInfo} {current : DefaultRoute}
    {msg : RouteMessage} (h : msg.isDefault = true) :
    visitRoute table current msg =
      if hasV4 msg then .done (msg.route table)
      else .yield (if current.gateway = none then msg.route table else current) := by
  rw [visitRoute, h]
  rfl

/-- A route with a gateway stays; one without stays if nothing follows it. -/
theorem settled_cons (table : KeyedMap UInt32 InterfaceInfo) (msg : RouteMessage)
    (routes : List RouteMessage) (current : DefaultRoute) :
    ((settled (msg :: routes)).map (RouteMessage.route table)).getD current =
      if hasGateway msg then msg.route table
      else ((settled routes).map (RouteMessage.route table)).getD (msg.route table) := by
  rw [settled, settled, List.find?_cons, List.getLast?_cons]
  cases hasGateway msg with
  | true => rfl
  | false =>
    cases routes.find? hasGateway with
    | some other => rfl
    | none => cases routes.getLast? <;> rfl

/-- What the loop takes. -/
theorem loop_visitRoute (table : KeyedMap UInt32 InterfaceInfo) (routes : List RouteMessage)
    (current : DefaultRoute) :
    loop (visitRoute table) current routes =
      (((defaults routes).find? hasV4).map (RouteMessage.route table)).getD
        (if current.gateway = none then
          ((settled (defaults routes)).map (RouteMessage.route table)).getD current
        else current) := by
  induction routes generalizing current with
  | nil => exact (ite_self current).symm
  | cons msg routes ih =>
    rw [loop]
    by_cases hdefault : msg.isDefault = true
    · rw [visitRoute_of_pos hdefault, defaults_cons_of_pos hdefault, List.find?_cons]
      cases hasV4 msg with
      | true => rfl
      | false =>
        rw [if_neg Bool.false_ne_true]
        dsimp only
        rw [ih]
        refine congrArg _ ?_
        by_cases hnone : current.gateway = none
        · -- the route is taken, and is as open to being overwritten as it has no gateway
          rw [if_pos hnone, if_pos hnone, settled_cons]
          cases hhas : hasGateway msg with
          | true =>
            have hsome : ¬(msg.route table).gateway = none := fun h =>
              Bool.false_ne_true ((route_gateway_none.mp h).symm.trans hhas)
            rw [if_neg hsome]
            rfl
          | false =>
            rw [if_pos (route_gateway_none.mpr hhas)]
            rfl
        · rw [if_neg hnone, if_neg hnone, if_neg hnone]
    · rw [visitRoute_of_neg hdefault, defaults_cons_of_neg hdefault]
      exact ih current

/-- The route whose gateway and interface the loop ends with. -/
def taken (routes : List RouteMessage) : Option RouteMessage :=
  ((defaults routes).find? hasV4).or (settled (defaults routes))

theorem loop_eq_taken (table : KeyedMap UInt32 InterfaceInfo) (routes : List RouteMessage) :
    loop (visitRoute table) ⟨none, none⟩ routes =
      ((taken routes).map (RouteMessage.route table)).getD ⟨none, none⟩ := by
  rw [loop_visitRoute, if_pos rfl, taken]
  cases (defaults routes).find? hasV4 <;> rfl

theorem mem_of_settled {routes : List RouteMessage} {msg : RouteMessage}
    (h : settled routes = some msg) : msg ∈ routes := by
  rcases Option.or_eq_some_iff.mp h with h | ⟨-, h⟩
  · exact List.mem_of_find?_eq_some h
  · exact List.mem_of_getLast? h

theorem mem_of_taken {routes : List RouteMessage} {msg : RouteMessage}
    (h : taken routes = some msg) : msg ∈ defaults routes := by
  rcases Option.or_eq_some_iff.mp h with h | ⟨-, h⟩
  · exact List.mem_of_find?_eq_some h
  · exact mem_of_settled h

/-- Routes without a gateway say the same if their interfaces do. -/
theorem route_eq_iff {table : KeyedMap UInt32 InterfaceInfo} {first last : RouteMessage}
    (hfirst : hasGateway first = false) (hlast : hasGateway last = false) :
    last.route table = first.route table ↔
      (last.route table).primaryInterface = (first.route table).primaryInterface := by
  refine ⟨congrArg DefaultRoute.primaryInterface, fun h => ?_⟩
  have hgateway : (last.route table).gateway = (first.route table).gateway :=
    (route_gateway_none.mpr hlast).trans (route_gateway_none.mpr hfirst).symm
  exact congrArg₂ DefaultRoute.mk hgateway h

/-- Without an IPv4 gateway, the first route stands if nothing overwrites it, or only routes
of which the last says the same. -/
theorem settled_eq_first_iff {table : KeyedMap UInt32 InterfaceInfo} {first last : RouteMessage}
    {routes : List RouteMessage} (hlast : (first :: routes).getLast? = some last) :
    (settled (first :: routes)).map (RouteMessage.route table) = some (first.route table) ↔
      hasGateway first = true ∨ ((∀ msg ∈ first :: routes, hasGateway msg = false) ∧
        (last.route table).primaryInterface = (first.route table).primaryInterface) := by
  rw [settled, hlast]
  cases hfind : (first :: routes).find? hasGateway with
  | none =>
    have hnone : ∀ msg ∈ first :: routes, hasGateway msg = false := fun msg hmsg =>
      Bool.eq_false_iff.mpr (List.find?_eq_none.mp hfind msg hmsg)
    have hfirst := hnone first List.mem_cons_self
    rw [Option.none_or, Option.map_some, Option.some_inj,
      route_eq_iff hfirst (hnone last (List.mem_of_getLast? hlast)), hfirst]
    exact ⟨fun h => .inr ⟨hnone, h⟩, fun h => (h.resolve_left Bool.false_ne_true).2⟩
  | some other =>
    have hother : hasGateway other = true := List.find?_some hfind
    rw [Option.some_or, Option.map_some, Option.some_inj]
    constructor
    · intro h
      refine .inl (Bool.of_not_eq_false fun hfirst => ?_)
      -- a route without a gateway does not say what one with a gateway says
      have hgateway : (first.route table).gateway = none := route_gateway_none.mpr hfirst
      rw [← h, route_gateway_none, hother] at hgateway
      cases hgateway
    · rintro (hfirst | ⟨hnone, -⟩)
      · rw [List.find?_cons_of_pos hfirst] at hfind
        cases hfind
        rfl
      · have hmem := hnone other (List.mem_of_find?_eq_some hfind)
        rw [hother] at hmem
        cases hmem

/-! ## The snapshot's route -/

section

variable {wireless : String → Bool} {netlink : Netlink} {info : NetlinkInfo}

/-- Gateway and primary interface are those of one default route. -/
theorem route_of_one (h : netlinkInfo wireless (.ok netlink) = .ok info) :
    (defaults (received netlink.routes) = [] ∧ info.route = ⟨none, none⟩) ∨
      ∃ msg ∈ defaults (received netlink.routes), info.route = msg.route
        (interfaceTable wireless (received netlink.links) (received netlink.addresses)) := by
  have hroute := (netlinkInfo_eq_ok h).2.trans (loop_eq_taken _ _)
  cases htaken : taken (received netlink.routes) with
  | some msg =>
    rw [htaken] at hroute
    exact .inr ⟨msg, mem_of_taken htaken, hroute⟩
  | none =>
    rw [htaken] at hroute
    refine .inl ⟨?_, hroute⟩
    obtain ⟨-, hsettled⟩ := Option.or_eq_none_iff.mp htaken
    exact List.getLast?_eq_none_iff.mp (Option.or_eq_none_iff.mp hsettled).2

/-- **Default route**: gateway and primary interface are those of the first default route with
an IPv4 gateway, or else of the first default route, exactly if there is one with an IPv4
gateway or the first route stands. -/
theorem route_eq_chosen_iff (h : netlinkInfo wireless (.ok netlink) = .ok info) :
    let table := interfaceTable wireless (received netlink.links) (received netlink.addresses)
    info.route = chosen table (received netlink.routes) ↔
      FirstStands table (received netlink.routes) := by
  intro table
  rw [(netlinkInfo_eq_ok h).2, loop_eq_taken, chosen, taken, preferred, FirstStands]
  cases hv4 : (defaults (received netlink.routes)).find? hasV4 with
  | some msg =>
    refine iff_of_true rfl (.inl ⟨msg, List.mem_of_find?_eq_some hv4, List.find?_some hv4⟩)
  | none =>
    have hnone : ¬∃ msg ∈ defaults (received netlink.routes), hasV4 msg = true := by
      rintro ⟨msg, hmsg, hhas⟩
      exact List.find?_eq_none.mp hv4 msg hmsg hhas
    rw [Option.none_or, Option.none_or, or_iff_right hnone]
    cases hroutes : defaults (received netlink.routes) with
    | nil => exact iff_of_true rfl fun _ hfirst => nomatch hfirst
    | cons first routes =>
      obtain ⟨last, hlast⟩ : ∃ last, (first :: routes).getLast? = some last :=
        ⟨_, List.getLast?_cons⟩
      have hsome : ∃ msg, settled (first :: routes) = some msg := by
        rw [settled, hlast]
        cases (first :: routes).find? hasGateway <;> exact ⟨_, rfl⟩
      obtain ⟨msg, hmsg⟩ := hsome
      have hiff := @settled_eq_first_iff table _ _ _ hlast
      rw [hmsg, Option.map_some, Option.some_inj] at hiff
      rw [hmsg, hlast]
      simpa using hiff

end

/-! ### Two interfaces -/

/-- A default route of the main table. -/
def defaultRoute (attributes : List RouteAttribute) : RouteMessage :=
  ⟨rtTableMain, .unicast, 0, attributes⟩

/-- The interfaces `tun0` and `ppp0`, with two default routes. -/
def twoRoutes (first second : List RouteAttribute) : Netlink where
  links := [.ok ⟨3, ⟨true, false⟩, [.ifName "tun0"]⟩, .ok ⟨4, ⟨true, false⟩, [.ifName "ppp0"]⟩]
  addresses := []
  routes := [.ok (defaultRoute first), .ok (defaultRoute second)]

/-- Of two default routes without gateways, the second is taken. -/
theorem second_route_taken :
    let netlink := twoRoutes [.oif 3] [.oif 4]
    let table := interfaceTable (fun _ => false) (received netlink.links)
      (received netlink.addresses)
    netlinkInfo (fun _ => false) (.ok netlink) = .ok ⟨table.vals, none, some "ppp0"⟩ ∧
    chosen table (received netlink.routes) = ⟨none, some "tun0"⟩ :=
  ⟨rfl, rfl⟩

/-- An IPv4 gateway counts, wherever its route stands. -/
theorem route_eq_chosen_iff_v4 :
    let gateway : Ipv4Addr := ⟨192, 168, 1, 1⟩
    let netlink := twoRoutes [.oif 3] [.gateway (.inet gateway), .oif 4]
    let table := interfaceTable (fun _ => false) (received netlink.links)
      (received netlink.addresses)
    netlinkInfo (fun _ => false) (.ok netlink) =
      .ok ⟨table.vals, some (.v4 gateway), some "ppp0"⟩ ∧
    ⟨some (.v4 gateway), some "ppp0"⟩ = chosen table (received netlink.routes) := by
  intro gateway netlink table
  have hok : netlinkInfo (fun _ => false) (.ok netlink) =
      .ok ⟨table.vals, some (.v4 gateway), some "ppp0"⟩ := rfl
  refine ⟨hok, (route_eq_chosen_iff hok).mpr (.inl ?_)⟩
  exact ⟨_, List.mem_cons_of_mem _ List.mem_cons_self, rfl⟩

end RouteChoice

end TravelMode
