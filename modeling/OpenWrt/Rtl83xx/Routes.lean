/-
# The routes that the switch forwards by itself

The driver keeps a route for each entry of the routing table of the kernel that it is told
of. Routes are found by their gateway, which several may share. Each has a number, from one
of two bitmaps: routes to a host have numbers behind those of the others. When the address of
the gateway is known, the route gets an entry in a table of the switch: at its number, or for
a host at a place in a hash table.

Only the chips that have a setup are told of routes: the RTL839x, whose entries are the
addresses of gateways, and the RTL930x. Routes are IPv4 unicast routes. The rules of the packet
inspection and the entries of the forwarding database that a route also gets are other tables.
-/

import Mathlib.Algebra.Group.Int.Defs
import Mathlib.Algebra.Group.Nat.Defs
import OpenWrt.Lib.Run
import OpenWrt.Rtl83xx.PortMask

namespace OpenWrt.Rtl83xx.L3

open OpenWrt.Lib

/-! ## Data -/

/-- `MAX_ROUTES` -/
def maxRoutes : ℕ := 512

/-- `MAX_HOST_ROUTES` -/
def maxHostRoutes : ℕ := 1536

/-- `MAX_ROUTER_MACS` -/
def maxRouterMacs : ℕ := 64

/-- `L3_EGRESS_DMACS` -/
def l3EgressDmacs : ℕ := 2048

/-- `MAX_SMACS` -/
def maxSmacs : ℕ := 64

/-- The chips with a setup. -/
inductive Soc where
  | rtl839x
  | rtl930x
deriving DecidableEq

/-- What is done with a packet. -/
inductive RouteAct where
  | forward
  | trap2cpu
deriving DecidableEq

/-- `struct otto_l3_route`, with `nh.id`, `nh.gw`, `attr.valid` and `attr.action`. -/
structure Route where
  gwIp : U32
  dstIp : U32
  prefixLen : ℕ
  isHostRoute : Bool
  id : ℕ
  nhId : ℕ
  gw : U64
  valid : Bool
  action : RouteAct
deriving DecidableEq

/-- A valid entry of a table: a route, or on the RTL839x the address of a gateway. -/
inductive Entry where
  | route (dstIp : U32) (prefixLen : ℕ) (action : RouteAct) (nhId : ℕ)
  | gateway (gw : U64)
deriving DecidableEq

/-- `struct otto_l3_ctrl`, with the tables of the switch. An entry that is not valid is none, and
so is an address of the router; a free address of an interface is zero. -/
structure Ctrl where
  /-- The hash table, with the newest route first. -/
  routes : List Route
  routeUseBm : ℕ → Bool
  hostRouteUseBm : ℕ → Bool
  prefixTable : ℕ → Option Entry
  hostTable : ℕ → Option Entry
  routerMacs : ℕ → Option U64
  egressMacs : ℕ → U64
  /-- The lock is held, though nothing runs. -/
  locked : Bool

/-- The lookup that the switch does, of an address in the table of routes. -/
structure Hw where
  routeLookup : (ℕ → Option Entry) → U32 → Option (Fin 512)

/-! ## Tables -/

/-- The bits of an index that `rtl_table_exec` writes to the register. -/
def Soc.indexBits : Soc → ℕ
  | .rtl839x => 12
  | .rtl930x => 13

/-- The index of an access: an index that is negative or too large loses its upper bits. -/
def Soc.tableIndex (soc : Soc) (idx : ℤ) : ℕ := (idx % 2 ^ soc.indexBits).toNat

/-- `otto_l3_839x_route_read` and `otto_l3_930x_route_read`: an entry that is not valid leaves the
other fields. -/
def routeRead (soc : Soc) (ctrl : Ctrl) (idx : ℤ) (rt : Route) : Route :=
  match soc, ctrl.prefixTable (soc.tableIndex idx) with
  | .rtl839x, some (.gateway gw) => { rt with gw }
  | .rtl839x, _ => { rt with gw := 0 }
  | .rtl930x, some (.route dstIp prefixLen action nhId) =>
    { rt with valid := true, dstIp, prefixLen, action, nhId }
  | .rtl930x, _ => { rt with valid := false }

/-- `otto_l3_839x_route_write` and `otto_l3_930x_route_write` -/
def routeWrite (soc : Soc) (ctrl : Ctrl) (idx : ℤ) (rt : Route) : Ctrl :=
  let entry : Option Entry :=
    match soc with
    | .rtl839x => some (.gateway rt.gw)
    | .rtl930x => if rt.valid then some (.route rt.dstIp rt.prefixLen rt.action rt.nhId) else none
  { ctrl with prefixTable := Function.update ctrl.prefixTable (soc.tableIndex idx) entry }

/-- The row of the host table for a slot: a row of eight has six slots. -/
def hostRow (idx : ℤ) : ℕ := Soc.rtl930x.tableIndex (idx.tdiv 6 * 8 + idx.tmod 6)

/-- `otto_l3_930x_host_route_write`: the entry is valid in any case. -/
def hostRouteWrite (ctrl : Ctrl) (idx : ℤ) (rt : Route) : Ctrl :=
  { ctrl with
    hostTable := Function.update ctrl.hostTable (hostRow idx)
      (some (.route rt.dstIp 32 rt.action rt.nhId)) }

/-- `HASH_PICK` -/
def hashPick (val : U32) (lsb len : ℕ) : U32 :=
  (val &&& ((((1 : U32) <<< len) - 1) <<< lsb)) >>> lsb

/-- `otto_l3_930x_hash4` -/
def hash4 (ip : U32) (algorithm moveDip : Bool) : U32 :=
  let row₀ := hashPick ip 27 5
  let row₁ := hashPick ip 18 9
  let row₂ := hashPick ip 9 9
  let row₃ := if moveDip then 0 else hashPick ip 0 9
  if algorithm then
    let s₀ := row₀ + row₁ + row₂
    let s₁ := (s₀ &&& 0x1ff) + ((s₀ &&& (0x1ff <<< 9)) >>> 9)
    let pH := (s₁ &&& 0x1ff) + ((s₁ &&& (0x1ff <<< 9)) >>> 9)
    pH ^^^ row₃
  else row₀ ^^^ row₁ ^^^ row₂ ^^^ row₃

/-- The slot of an address in one of two blocks. Block 0 has algorithm 0 since the setup, block 1
algorithm 1. -/
def slotAt (dstIp : U32) (t s : ℕ) : ℤ :=
  let hash := hash4 dstIp (t = 1) false
  let addr := (t <<< 12) ||| ((hash &&& 0x1ff).toNat <<< 3) ||| s
  addr / 8 * 6 + addr % 8

/-- `otto_l3_930x_find_slot`. No caller asks for a slot that must exist. A slot is taken when
the route that is to be written is valid, whatever the slot has. -/
def findSlot (rt : Route) : ℤ :=
  (((List.range 2).flatMap fun t => (List.range 6).map fun s => slotAt rt.dstIp t s).find?
    fun _ => rt.valid).getD (-1)

/-- `inet_make_mask` -/
def inetMakeMask (logmask : ℕ) : U32 :=
  if logmask = 0 then 0 else ~~~(((1 : U32) <<< (32 - logmask)) - 1)

/-- `otto_l3_930x_route_lookup_hw` -/
def routeLookupHw (hw : Hw) (ctrl : Ctrl) (rt : Route) : ℤ :=
  match hw.routeLookup ctrl.prefixTable (rt.dstIp &&& inetMakeMask rt.prefixLen) with
  | some idx => (idx : ℕ)
  | none => -1

/-! ## Addresses -/

/-- The loop of `otto_l3_alloc_router_mac`, with the free place so far. -/
def routerMacFrom (routerMacs : ℕ → Option U64) (mac : U64) : List ℕ → Option ℕ → Option ℕ
  | [], free => free
  | i :: is, free =>
    match routerMacs i with
    | none => routerMacFrom routerMacs mac is (free.orElse fun _ => some i)
    | some m => if m = mac then some i else routerMacFrom routerMacs mac is free

/-- `otto_l3_alloc_router_mac`: nothing where there is no place. -/
def allocRouterMac (ctrl : Ctrl) (mac : U64) : Option Ctrl :=
  (routerMacFrom ctrl.routerMacs mac (List.range maxRouterMacs) none).map fun i =>
    { ctrl with routerMacs := Function.update ctrl.routerMacs i (some mac) }

/-- What the loop of `otto_l3_alloc_egress_intf` ends with. -/
inductive SmacSearch where
  | found (i : ℕ)
  | free (i : ℕ)
  | full

/-- The loop of `otto_l3_alloc_egress_intf`, with the free place so far. -/
def smacFrom (egressMacs : ℕ → U64) (mac : U64) : List ℕ → Option ℕ → SmacSearch
  | [], some i => .free i
  | [], none => .full
  | i :: is, free =>
    let m := egressMacs (l3EgressDmacs + i)
    if free.isNone ∧ m = 0 then smacFrom egressMacs mac is (some i)
    else if m = mac then .found i
    else smacFrom egressMacs mac is free

/-- `otto_l3_alloc_egress_intf`: whether there is an interface. Where there is none it returns with
the lock. -/
def allocEgressIntf (ctrl : Ctrl) (mac : U64) : Bool × Ctrl :=
  match smacFrom ctrl.egressMacs mac (List.range maxSmacs) none with
  | .found _ => (true, ctrl)
  | .free i =>
    (true, { ctrl with egressMacs := Function.update ctrl.egressMacs (l3EgressDmacs + i) mac })
  | .full => (false, { ctrl with locked := true })

/-! ## Next hops -/

/-- The fields of a route when the address of its gateway is known. -/
def Route.resolved (rt : Route) (mac : U64) : Route :=
  { rt with gw := mac, nhId := rt.id, valid := true, action := .forward }

/-- The body of the loop of `otto_l3_nexthop_update`: the route is changed in its place. -/
def updateRoute (soc : Soc) (mac : U64) (ctrl : Ctrl) (r : Route) : Ctrl :=
  let rt := (routeRead soc ctrl r.id r).resolved mac
  let ctrl := { ctrl with routes := ctrl.routes.map fun x => if x = r then rt else x }
  let ctrl :=
    match soc with
    | .rtl839x => ctrl
    | .rtl930x => { ctrl with egressMacs := Function.update ctrl.egressMacs r.id mac }
  if rt.isHostRoute then hostRouteWrite ctrl (findSlot rt) rt else routeWrite soc ctrl rt.id rt

/-- `otto_l3_nexthop_update` -/
def nexthopUpdate (soc : Soc) (ctrl : Ctrl) (ipAddr : U32) (mac : U64) : Ctrl :=
  (ctrl.routes.filter fun r => r.gwIp = ipAddr).foldl (updateRoute soc mac) ctrl

/-! ## Routes -/

/-- What the kernel tells of a route. -/
structure FibInfo where
  dst : U32
  dstLen : ℕ
  /-- `fib_nh_gw4`, 0 for none. -/
  gw : U32
  isBroadcast : Bool
  /-- The address of the device. -/
  mac : U64
deriving DecidableEq

/-- What an event finds: a port under the device, memory for the route, memory in the hash table, and
the address of the gateway if it is known. -/
structure Env where
  port : Bool
  kzalloc : Bool
  insert : Bool
  neighbour : Option U64

/-- `find_first_zero_bit` -/
def findFirstZeroBit (bm : ℕ → Bool) (size : ℕ) : ℕ := ((List.range size).find? fun i => !bm i).getD size

/-- `otto_l3_host_route_alloc` -/
def hostRouteAlloc (env : Env) (ctrl : Ctrl) (ip : U32) : Option (Route × Ctrl) :=
  let idx := findFirstZeroBit ctrl.hostRouteUseBm maxHostRoutes
  if ¬ env.kzalloc then none
  else if ¬ env.insert then none
  else
    some (⟨ip, 0, 0, true, idx + maxRoutes, 0, 0, false, .forward⟩,
      { ctrl with hostRouteUseBm := Function.update ctrl.hostRouteUseBm idx true })

/-- `otto_l3_route_alloc` -/
def routeAlloc (env : Env) (ctrl : Ctrl) (ip : U32) : Option (Route × Ctrl) :=
  let idx := findFirstZeroBit ctrl.routeUseBm maxRoutes
  if ¬ env.kzalloc then none
  else if ¬ env.insert then none
  else
    some (⟨ip, 0, 0, false, idx, 0, 0, false, .forward⟩,
      { ctrl with routeUseBm := Function.update ctrl.routeUseBm idx true })

/-- `otto_l3_fib_check_v4`: whether the route is one to skip. -/
def fibCheckV4 (info : FibInfo) : Bool :=
  info.isBroadcast || decide (info.dst >>> 24 = 127) || decide (info.dst = 0)

/-- The part of `otto_l3_fib_add_v4` for the addresses of the router, with a route that is in the
hash table: whether it goes on. -/
def addRouterMacs (info : FibInfo) (ctrl : Ctrl) (route : Route) : Bool × Ctrl :=
  match allocRouterMac ctrl info.mac with
  | none => (false, { ctrl with routes := route :: ctrl.routes })
  | some ctrl =>
    match allocEgressIntf ctrl info.mac with
    | (false, ctrl) => (false, { ctrl with routes := route :: ctrl.routes })
    | (true, ctrl) =>
      if info.gw = 0 then
        let route := { route with valid := true, action := .trap2cpu }
        (true, hostRouteWrite { ctrl with routes := route :: ctrl.routes } (findSlot route) route)
      else (true, { ctrl with routes := route :: ctrl.routes })

/-- `otto_l3_port_ipv4_resolve` -/
def portIpv4Resolve (soc : Soc) (env : Env) (ctrl : Ctrl) (ipAddr : U32) : Ctrl :=
  match env.neighbour with
  | some mac => nexthopUpdate soc ctrl ipAddr mac
  | none => ctrl

/-- The part of `otto_l3_fib_add_v4` that puts the addresses of the router in place. -/
def addMacs (soc : Soc) (info : FibInfo) (ctrl : Ctrl) (route : Route) : Bool × Ctrl :=
  match soc with
  | .rtl839x => (true, { ctrl with routes := route :: ctrl.routes })
  | .rtl930x => addRouterMacs info ctrl route

/-- The part of `otto_l3_fib_add_v4` that looks up the gateway. -/
def addGateway (soc : Soc) (env : Env) (info : FibInfo) : Bool × Ctrl → Bool × Ctrl
  | (false, ctrl) => (false, ctrl)
  | (true, ctrl) => (true, if info.gw ≠ 0 then portIpv4Resolve soc env ctrl info.gw else ctrl)

/-- `otto_l3_fib_add_v4`: whether the route is offloaded. -/
def fibAddV4 (soc : Soc) (ctrl : Ctrl) (info : FibInfo) (env : Env) : Bool × Ctrl :=
  if fibCheckV4 info then (false, ctrl)
  else if ¬ env.port then (false, ctrl)
  else
    match if info.dstLen = 32 ∧ soc = .rtl930x then hostRouteAlloc env ctrl info.gw
      else routeAlloc env ctrl info.gw with
    | none => (false, ctrl)
    | some (route, ctrl) =>
      addGateway soc env info
        (addMacs soc info ctrl { route with dstIp := info.dst, prefixLen := info.dstLen })

/-- `otto_l3_route_remove`, of a route that is out of the hash table. -/
def routeRemove (soc : Soc) (hw : Hw) (ctrl : Ctrl) (r : Route) : Ctrl :=
  if r.isHostRoute then
    let id := findSlot r
    let ctrl := hostRouteWrite ctrl id { r with valid := false }
    { ctrl with hostRouteUseBm := Function.update ctrl.hostRouteUseBm (r.id - maxRoutes) false }
  else
    let ctrl :=
      match soc with
      | .rtl839x => ctrl
      | .rtl930x => routeWrite soc ctrl (routeLookupHw hw ctrl r) { r with valid := false }
    { ctrl with routeUseBm := Function.update ctrl.routeUseBm r.id false }

/-- The route of an entry of the routing table. -/
def Route.isOf (info : FibInfo) (r : Route) : Bool :=
  decide (r.gwIp = info.gw ∧ r.dstIp = info.dst ∧ r.prefixLen = info.dstLen)

/-- `otto_l3_fib_del_v4`. Where no route of the gateway is the one, the loop leaves the last. -/
def fibDelV4 (soc : Soc) (hw : Hw) (ctrl : Ctrl) (info : FibInfo) : Ctrl :=
  if fibCheckV4 info then ctrl
  else
    match ctrl.routes.find? (Route.isOf info) with
    | some route => routeRemove soc hw { ctrl with routes := ctrl.routes.erase route } route
    | none =>
      match ctrl.routes.reverse.find? fun r => r.gwIp = info.gw with
      | none => ctrl
      | some route =>
        routeRemove soc hw { ctrl with routes := (ctrl.routes.reverse.erase route).reverse } route

/-! ## Events -/

/-- The work that is queued for an event. A route that is replaced or appended is added. -/
inductive Event where
  | fibAdd (info : FibInfo) (env : Env)
  | fibDel (info : FibInfo)
  | neighUpdate (gwAddr : U32) (mac : U64)

def Ctrl.apply (soc : Soc) (hw : Hw) (ctrl : Ctrl) : Event → Ctrl
  | .fibAdd info env => (fibAddV4 soc ctrl info env).2
  | .fibDel info => fibDelV4 soc hw ctrl info
  | .neighUpdate gwAddr mac => nexthopUpdate soc ctrl gwAddr mac

/-- The state after the setup. On the RTL930x number 0 is not used. -/
def setup (soc : Soc) : Ctrl where
  routes := []
  routeUseBm i := decide (soc = .rtl930x ∧ i = 0)
  hostRouteUseBm _ := false
  prefixTable _ := none
  hostTable _ := none
  routerMacs _ := none
  egressMacs _ := 0
  locked := false

end OpenWrt.Rtl83xx.L3
