/-
# The route monitor of mwan3

`mwan3rtmon` listens to the kernel's route events for one address family. Events
of the tables listed in `rt_table_lookup` are mirrored into the custom set;
events of the main table are copied into the routing tables of the interfaces.
The same tables are filled from a dump when the daemon starts.

Routes are kept with the fields the daemon reads. A destination carries its
address, its prefix length and whether it is written with a slash, so that two
destinations are equal when their texts are. The timers of the connected set and
of the route states, and the log, do not touch what is modelled here.
-/

import OpenWrt.Mwan3.Ruleset
import OpenWrt.Netfilter.IntervalSet

namespace OpenWrt.Mwan3

open OpenWrt.Netfilter

/-- The number of bits of an address. -/
def Family.width : Family → ℕ
  | .ipv4 => 32
  | .ipv6 => 128

namespace Rtmon

/-! ## Routes -/

/-- A destination, `addr/len` or a bare address. -/
structure Dst (family : Family) where
  addr : BitVec family.width
  len : ℕ
  /-- The text has a slash and a length. -/
  slash : Bool
  len_le : len ≤ family.width
  /-- Without a slash the text is one address. -/
  len_eq : slash = false → len = family.width
  deriving DecidableEq

def Dst.range {family : Family} (d : Dst family) : Set (BitVec family.width) :=
  {a | a >>> (family.width - d.len) = d.addr >>> (family.width - d.len)}

theorem Dst.addr_mem_range {family : Family} (d : Dst family) : d.addr ∈ d.range := rfl

/-- A route as the kernel reports it. -/
structure Route (family : Family) where
  table : ℕ
  dst : Option (Dst family)
  gateway : Option (BitVec family.width)
  oif : Option String
  prefsrc : Option (BitVec family.width)
  priority : Option ℕ
  scope : Option ℕ
  type : Option ℕ
  tos : Option ℕ
  metrics : Option (List (ℕ × ℕ))
  src : Option (Dst family)
  deriving DecidableEq

/-- `RT_TABLE_MAIN`. -/
def mainTable : ℕ := 254

/-- `RTM_NEWROUTE` and `RTM_DELROUTE`. -/
inductive Cmd
  | new | del
  deriving DecidableEq

/-- A message of the kernel to the listener. -/
structure Event (family : Family) where
  cmd : Cmd
  route : Route family
  deriving DecidableEq

variable {family : Family}

/-- `is_default_route`. -/
def isDefaultRoute (r : Route family) : Bool :=
  r.dst.all fun d => d.slash && d.addr == 0 && d.len == 0

/-- `is_default_equivalent`: at most two bits of an IPv4 prefix, three of an IPv6 one. -/
def isDefaultEquivalent (r : Route family) : Bool :=
  r.dst.all fun d => d.slash && decide (d.len ≤ if family = .ipv6 then 3 else 2)

/-- The text of the destination starts with `fe80::/` or with `169.254.`. -/
def Dst.isLinklocal : {family : Family} → Dst family → Bool
  | .ipv4, d => d.addr.toNat >>> 16 == 169 * 256 + 254
  | .ipv6, d => d.slash && d.addr.toNat == 0xfe80 <<< 112

/-- `is_linklocal_route`. -/
def isLinklocalRoute (r : Route family) : Bool :=
  r.dst.any Dst.isLinklocal

/-! ## Configuration and what the daemon reads -/

/-- An interface section, as `iface_list` keeps it; its table is its position. -/
structure IfaceEntry where
  name : String
  family : Family
  enabled : Bool
  hasTracking : Bool

/-- The files of an interface's tracker. -/
structure TrackFiles where
  /-- The text of `PID`, empty when there is none. -/
  pid : String
  /-- A process of that number is there. -/
  running : Bool
  /-- The text of `STARTED`, empty when there is none. -/
  started : String

inductive TrackStatus
  | disabled | down | active | paused
  deriving DecidableEq

/-- The configuration with the interface dump and the chains that are there. -/
structure Env (family : Family) where
  sourceRouting : Bool
  /-- `extra_table_set`. -/
  extraTables : List ℕ
  ifaces : List IfaceEntry
  /-- The interfaces of the ubus dump with their layer-3 devices. -/
  dump : List (String × Option String)
  /-- The chains of the table `inet mwan3`. -/
  chains : List String

namespace Env

variable (env : Env family)

/-- `iface_list`, with the table numbers `load_config` gives. -/
def ifaceList : List (ℕ × IfaceEntry) :=
  env.ifaces.mapIdx fun i iface => (i + 1, iface)

/-- `name_tid`. -/
def nameTid (name : String) : Option ℕ :=
  (env.ifaceList.reverse.find? fun entry =>
    entry.2.enabled && entry.2.family = family && entry.2.name == name).map Prod.fst

/-- `build_dev_table_map`: the table of a device; a later interface on the device wins. -/
def devTable (dev : String) : Option ℕ :=
  env.dump.reverse.findSome? fun intf =>
    if intf.2 = some dev then env.nameTid intf.1 else none

/-- `get_active_tids`: the interfaces of the family whose chain is there. -/
def activeTids : List (ℕ × String) :=
  (env.ifaceList.filter fun entry =>
    entry.2.family = family && env.chains.contains ("mwan3_iface_in_" ++ entry.2.name)).map
      fun entry => (entry.1, entry.2.name)

/-- `get_track_status`. -/
def trackStatus (files : String → TrackFiles) (ifname : String) : TrackStatus :=
  match env.ifaces.find? fun iface => iface.name == ifname with
  | none => .disabled
  | some iface =>
    if !iface.hasTracking then .disabled
    else if (files ifname).pid = "" then .down
    else if !(files ifname).running then .down
    else if (files ifname).started = "1" then .active
    else if (files ifname).started = "0" then .paused
    else .down

/-- `target_tid` of a route. -/
def targetTid (r : Route family) : Option ℕ :=
  r.oif.bind env.devTable

/-- `build_route_for_table`: the fields of `ROUTE_FIELDS`, no zero `tos`, and the source
prefix with source routing only. -/
def buildRouteForTable (r : Route family) (tid : ℕ) : Route family :=
  { r with
    table := tid
    tos := if r.tos = some 0 then none else r.tos
    src := if env.sourceRouting then r.src else none }

def isSource (r : Route family) : Bool :=
  r.table == mainTable || env.extraTables.contains r.table

end Env

/-! ## The kernel's tables -/

/-- What tells the routes of one table apart. -/
structure RouteKey (family : Family) where
  dst : Option (Dst family)
  tos : ℕ
  priority : ℕ
  src : Option (Dst family)
  deriving DecidableEq

def Route.key (r : Route family) : RouteKey family :=
  ⟨r.dst, r.tos.getD 0, r.priority.getD 0, r.src⟩

/-- Which routes of its table a delete request names. The kernel compares the fields
that the request gives, and so finds the route that is written as the request is. -/
structure Selection (family : Family) where
  selects : Route family → Route family → Bool
  selects_self : ∀ r, selects r r = true

/-- `NLM_F_CREATE | NLM_F_REPLACE`: the route takes the place of the one with its key. -/
def replaceRoute (r : Route family) : List (Route family) → List (Route family)
  | [] => [r]
  | old :: rest =>
    if old.table = r.table ∧ old.key = r.key then r :: rest else old :: replaceRoute r rest

/-- `RTM_DELROUTE`: the first route of the table that the request names goes. -/
def Selection.deleteRoute (fib : Selection family) (r : Route family)
    (routes : List (Route family)) : List (Route family) :=
  routes.eraseP fun old => decide (old.table = r.table) && fib.selects r old

/-- A change someone makes to the kernel's tables. -/
inductive Change (family : Family)
  | add (r : Route family)
  | replace (r : Route family)
  | delete (r : Route family)

namespace Change

def route : Change family → Route family
  | .add r | .replace r | .delete r => r

def Allowed (routes : List (Route family)) : Change family → Prop
  | .add _ | .replace _ => True
  | .delete r => r ∈ routes

instance (routes : List (Route family)) : DecidablePred (Allowed routes)
  | .add _ | .replace _ => inferInstanceAs (Decidable True)
  | .delete r => inferInstanceAs (Decidable (r ∈ routes))

def apply (routes : List (Route family)) : Change family → List (Route family)
  | .add r => routes ++ [r]
  | .replace r => replaceRoute r routes
  | .delete r => routes.erase r

/-- What the listener is told. -/
def event : Change family → Event family
  | .add r | .replace r => ⟨.new, r⟩
  | .delete r => ⟨.del, r⟩

end Change

/-! ## The daemon -/

/-- The kernel's routes, the custom set, the trackers' files and the events that wait
for the listener. -/
structure World (family : Family) (nft : IntervalSet (BitVec family.width)) where
  routes : List (Route family)
  custom : nft.State
  files : String → TrackFiles
  events : List (Event family)

/-- A route whose destination the custom set leaves out. -/
def isUnmirrored (r : Route family) : Bool :=
  r.dst.isNone || isDefaultEquivalent r || isLinklocalRoute r

/-- The destinations of the lookup tables, each once. -/
def customElements (env : Env family) (routes : List (Route family)) : List (Set (BitVec family.width)) :=
  ((routes.filter fun r => env.extraTables.contains r.table && !isUnmirrored r).filterMap
    Route.dst).eraseDups.map Dst.range

variable {nft : IntervalSet (BitVec family.width)}

/-- `repopulate_custom_sets`. -/
def repopulateCustomSets (env : Env family) (routes : List (Route family)) (custom : nft.State) :
    nft.State :=
  if env.extraTables = [] then nft.flush custom
  else nft.refill (customElements env routes) custom

/-- `handle_custom_set_event`. -/
def handleCustomSetEvent (r : Route family) (isNew : Bool) (custom : nft.State) : nft.State :=
  if isUnmirrored r then custom
  else
    match r.dst with
    | none => custom
    | some dst => if isNew then nft.add dst.range custom else nft.delete dst.range custom

/-- The requests `populate_iface_routes` makes for one route. -/
def copies (env : Env family) (r : Route family) : List (Route family) :=
  match env.targetTid r with
  | some tid =>
    if (env.activeTids.lookup tid).isSome then [env.buildRouteForTable r tid] else []
  | none =>
    if !isDefaultRoute r && !isLinklocalRoute r then
      env.activeTids.map fun active => env.buildRouteForTable r active.1
    else []

/-- `populate_iface_routes`. -/
def populateIfaceRoutes (env : Env family) (routes : List (Route family)) : List (Route family) :=
  ((routes.filter env.isSource).flatMap (copies env)).foldl
    (fun routes r => replaceRoute r routes) routes

/-- The comparison of `route_still_exists`. -/
def sameRoute (r route : Route family) : Bool :=
  r.dst = route.dst && r.oif = route.oif && r.gateway = route.gateway &&
    r.priority = route.priority

/-- `route_still_exists`. -/
def routeStillExists (routes : List (Route family)) (route : Route family) : Bool :=
  routes.any fun r => r.table == mainTable && sameRoute r route

/-- `apply_route_to_table`. -/
def applyRouteToTable (env : Env family) (fib : Selection family) (route : Route family) (tid : ℕ)
    (isNew : Bool) (routes : List (Route family)) : List (Route family) :=
  if isNew then replaceRoute (env.buildRouteForTable route tid) routes
  else fib.deleteRoute (env.buildRouteForTable route tid) routes

/-- The tracker of an interface lets a broadcast route through. -/
def takesBroadcast (env : Env family) (files : String → TrackFiles) (ifname : String) : Bool :=
  env.trackStatus files ifname = .active || env.trackStatus files ifname = .disabled

/-- The part of `handle_route_event` that follows the lookup tables' own events: the
copies of a main-table route in the interface tables. -/
def handleMainEvent (env : Env family) (fib : Selection family) (files : String → TrackFiles)
    (event : Event family) (routes : List (Route family)) : List (Route family) :=
  let route := event.route
  let isNew := event.cmd = .new
  if !isNew && routeStillExists routes route then routes
  else
    match env.targetTid route with
    | some tid =>
      if (env.activeTids.lookup tid).isNone then routes
      else applyRouteToTable env fib route tid isNew routes
    | none =>
      if !isDefaultRoute route && !isLinklocalRoute route then
        env.activeTids.foldl (fun routes active =>
          if takesBroadcast env files active.2 then
            applyRouteToTable env fib route active.1 isNew routes
          else routes) routes
      else routes

/-- `handle_route_event`. -/
def handleRouteEvent (env : Env family) (fib : Selection family) (event : Event family)
    (x : World family nft) : World family nft :=
  if env.extraTables.contains event.route.table then
    { x with custom := handleCustomSetEvent event.route (event.cmd = .new) x.custom }
  else if event.route.table ≠ mainTable then x
  else { x with routes := handleMainEvent env fib x.files event x.routes }

end Rtmon

end OpenWrt.Mwan3
