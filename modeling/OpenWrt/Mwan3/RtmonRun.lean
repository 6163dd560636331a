/-
# Agreement of an interface table with the dump of the main table

The run of the monitor: the kernel's tables change and each change queues an event,
the daemon handles the events one by one at any later time, trackers change state,
and the dump is copied anew. The table of one interface then agrees with the copy
that a dump of the main table would make, whenever no event waits, as long as every
step meets the condition under which the daemon's way of naming a route is exact.
-/

import OpenWrt.Mwan3.RtmonAgree

namespace OpenWrt.Mwan3.Rtmon

open OpenWrt.Lib OpenWrt.Netfilter

variable {family : Family} {nft : IntervalSet (BitVec family.width)}

/-! ## The run -/

/-- What can happen next. -/
inductive Label (family : Family)
  | change (change : Change family)
  | handle
  | track (ifname : String) (files : TrackFiles)
  | resync

/-- One step; the listener has nothing to handle while no event waits. -/
def World.next (env : Env family) (fib : Selection family) (x : World family nft) :
    Label family → Option (World family nft)
  | .change change =>
    if change.Allowed x.routes then
      some { x with routes := change.apply x.routes, events := x.events ++ [change.event] }
    else none
  | .handle =>
    match x.events with
    | [] => none
    | event :: events => some (handleRouteEvent env fib event { x with events := events })
  | .track ifname files => some { x with files := Function.update x.files ifname files }
  | .resync => some { x with routes := populateIfaceRoutes env x.routes }

/-- The daemon starts with an empty interface table and copies a dump into it, where the
main table has no two routes for one place of the table and no lookup table has a route
for it. -/
def World.IsStart (env : Env family) (t : ℕ) (x : World family nft) : Prop :=
  x.events = [] ∧ ∃ routes : List (Route family), tableOf t routes = [] ∧
    Keyed (env.wanted t routes) ∧ LookupsSilent env t routes ∧
    x.routes = populateIfaceRoutes env routes

/-- The runs of the daemon. -/
def monitor (env : Env family) (fib : Selection family) (t : ℕ) :
    System (World family nft) (Label family) :=
  System.ofFn (World.IsStart env t) (World.next env fib)

/-- The condition on the change of a table: it is none of the interface's own, and a route
that comes takes a place in the interface's table that is free or its predecessor's. -/
def ChangeMeets (env : Env family) (t : ℕ) (routes : List (Route family)) :
    Change family → Prop
  | .add r => r.table ≠ t ∧
      (r.table = mainTable → env.goes t r = true → Fresh env t r routes)
  | .replace r => r.table ≠ t ∧ (r.table = mainTable → Succeeds env t r routes)
  | .delete r => r.table ≠ t

/-- The condition on handling an event whose route goes to the table: the interface's
tracker lets a broadcast through; for a route that went, the routes of the main table that
look the same are for the same place, and so are the routes that the request names. -/
def HandleMeets (env : Env family) (fib : Selection family) (t : ℕ) (x : World family nft)
    (event : Event family) : Prop :=
  (env.targetTid event.route = none →
    ∀ name, (t, name) ∈ env.activeTids → takesBroadcast env x.files name = true) ∧
  (event.cmd = .del →
    (∀ m ∈ x.routes, m.table = mainTable → sameRoute m event.route = true →
      (env.buildRouteForTable m t).key = (env.buildRouteForTable event.route t).key) ∧
    ∀ old ∈ x.routes, old.table = t →
      fib.selects (env.buildRouteForTable event.route t) old = true →
        old.key = (env.buildRouteForTable event.route t).key)

/-- The condition on one step for the table of one interface. -/
def World.Meets (env : Env family) (fib : Selection family) (t : ℕ) (x : World family nft) :
    Label family → Prop
  | .change change => ChangeMeets env t x.routes change
  | .handle => ∀ event ∈ x.events.head?, event.route.table = mainTable →
      env.goes t event.route = true → HandleMeets env fib t x event
  | .track _ _ => True
  | .resync => LookupsSilent env t x.routes

/-! ## The invariant -/

/-- What waits for one place, handled in turn, will leave the wanted route there. -/
def Settles (env : Env family) (t : ℕ) (want : Option (Route family)) :
    List (Event family) → Option (Route family) → Prop
  | [], held => held = want
  | ⟨.new, r⟩ :: rest, _ => Settles env t want rest (some (env.buildRouteForTable r t))
  | ⟨.del, r⟩ :: rest, held =>
    (rest = [] → want = none ∧ (held = none ∨ held = some (env.buildRouteForTable r t))) ∧
    (rest ≠ [] → ∀ held', Settles env t want rest held')

/-- The event is about the given place of the table. -/
abbrev Concerns (env : Env family) (t : ℕ) (key : RouteKey family) (event : Event family) : Prop :=
  (event.route.table = mainTable ∧ env.goes t event.route = true) ∧
    (env.buildRouteForTable event.route t).key = key

/-- The events that wait for one place of the table. -/
def waiting (env : Env family) (t : ℕ) (key : RouteKey family) (events : List (Event family)) :
    List (Event family) :=
  events.filter fun event => Concerns env t key event

/-- The table and the main table hold one route a place, and what waits settles each place. -/
structure World.Inv (env : Env family) (t : ℕ) (x : World family nft) : Prop where
  keyed : Keyed (tableOf t x.routes)
  keyed_wanted : Keyed (env.wanted t x.routes)
  settles : ∀ key, Settles env t (slot key (env.wanted t x.routes)) (waiting env t key x.events)
    (slot key (tableOf t x.routes))

variable {env : Env family} {fib : Selection family} {t : ℕ}

theorem settles_append_new (r : Route family) (events : List (Event family))
    (held : Option (Route family)) :
    Settles env t (some (env.buildRouteForTable r t)) (events ++ [⟨.new, r⟩]) held := by
  induction events generalizing held with
  | nil => exact rfl
  | cons event events ih =>
    obtain ⟨cmd, route⟩ := event
    cases cmd with
    | new => exact ih _
    | del => exact ⟨fun hnil => absurd hnil (by simp), fun _ held' => ih held'⟩

/-- Where the route that goes last would have been, nothing will be. -/
theorem settles_append_del {r : Route family} {events : List (Event family)}
    {held : Option (Route family)}
    (h : Settles env t (some (env.buildRouteForTable r t)) events held) :
    Settles env t none (events ++ [⟨.del, r⟩]) held := by
  induction events generalizing held with
  | nil => exact ⟨fun _ => ⟨rfl, Or.inr h⟩, fun hnil => absurd rfl hnil⟩
  | cons event events ih =>
    obtain ⟨cmd, route⟩ := event
    cases cmd with
    | new => exact ih h
    | del =>
      refine ⟨fun hnil => absurd hnil (by simp), fun _ held' => ih ?_⟩
      by_cases hrest : events = []
      · exact absurd (h.1 hrest).1 (by simp)
      · exact h.2 hrest held'

/-- Putting the wanted route there early does no harm. -/
theorem settles_of_want {want : Option (Route family)} {events : List (Event family)}
    {held : Option (Route family)} (h : Settles env t want events held) :
    Settles env t want events (want.or held) := by
  cases want with
  | none => simpa using h
  | some w =>
    cases events with
    | nil => rfl
    | cons event events =>
      obtain ⟨cmd, route⟩ := event
      cases cmd with
      | new => exact h
      | del => exact ⟨fun hrest => absurd (h.1 hrest).1 (by simp), h.2⟩

theorem waiting_append (key : RouteKey family) (events : List (Event family))
    (event : Event family) :
    waiting env t key (events ++ [event]) =
      waiting env t key events ++ if Concerns env t key event then [event] else [] := by
  unfold waiting
  rw [List.filter_append]
  congr 1
  split
  case isTrue h => simp [h]
  case isFalse h => simp [h]

theorem waiting_cons_of_not {key : RouteKey family} {event : Event family}
    (h : ¬ Concerns env t key event) (events : List (Event family)) :
    waiting env t key (event :: events) = waiting env t key events := by
  simp [waiting, h]

theorem waiting_cons_of_concerns {key : RouteKey family} {event : Event family}
    (h : Concerns env t key event) (events : List (Event family)) :
    waiting env t key (event :: events) = event :: waiting env t key events := by
  simp [waiting, h]

namespace World

variable {x : World family nft}

/-! ## One step -/

theorem inv_of_isStart (hwf : env.Numbered) (ht : t ∈ env.activeTids.map Prod.fst)
    (h : x.IsStart env t) : x.Inv env t := by
  obtain ⟨hevents, routes, hempty, hkeyed, hsilent, hroutes⟩ := h
  have hmain : env.wanted t x.routes = env.wanted t routes :=
    wanted_eq_of_ne (hroutes ▸ tableOf_populate_of_notMem hwf.notMem_activeTids routes)
  obtain ⟨htable, hslot⟩ := keyed_foldl_nil hkeyed fun _ => table_of_mem_wanted
  have hpopulate : tableOf t x.routes =
      (env.wanted t routes).foldl (fun table r => replaceRoute r table) [] := by
    rw [hroutes, tableOf_populate ht hsilent, hempty]
  refine ⟨hpopulate ▸ htable, hmain ▸ hkeyed, fun key => ?_⟩
  rw [hevents, hpopulate, hslot, hmain]
  exact rfl

/-- A change of the kernel's tables leaves the interface table; the event that it queues
will settle the place of its route. -/
theorem inv_change (h : x.Inv env t) {change : Change family}
    (hallowed : change.Allowed x.routes) (hmeets : ChangeMeets env t x.routes change) :
    ({ x with routes := change.apply x.routes, events := x.events ++ [change.event] } :
      World family nft).Inv env t := by
  cases change with
  | add r =>
    have htable : tableOf t (x.routes ++ [r]) = tableOf t x.routes := by
      simp [tableOf, hmeets.1]
    obtain ⟨hkeyed, hslot⟩ := keyed_wanted_add h.keyed_wanted hmeets.2
    refine ⟨htable ▸ h.keyed, hkeyed, fun key => ?_⟩
    simp only [Change.apply, Change.event, htable, hslot, waiting_append, Concerns]
    by_cases hto : (r.table = mainTable ∧ env.goes t r = true) ∧
        (env.buildRouteForTable r t).key = key
    · rw [if_pos hto, if_pos hto]
      exact settles_append_new r _ _
    · rw [if_neg hto, if_neg hto, List.append_nil]
      exact h.settles key
  | replace r =>
    have htable : tableOf t (replaceRoute r x.routes) = tableOf t x.routes := by
      rw [tableOf_replaceRoute, if_neg hmeets.1]
    obtain ⟨hkeyed, hslot⟩ := keyed_wanted_replace h.keyed_wanted hmeets.2
    refine ⟨htable ▸ h.keyed, hkeyed, fun key => ?_⟩
    simp only [Change.apply, Change.event, htable, hslot, waiting_append, Concerns]
    by_cases hto : (r.table = mainTable ∧ env.goes t r = true) ∧
        (env.buildRouteForTable r t).key = key
    · rw [if_pos hto, if_pos hto]
      exact settles_append_new r _ _
    · rw [if_neg hto, if_neg hto, List.append_nil]
      exact h.settles key
  | delete r =>
    have htable : tableOf t (x.routes.erase r) = tableOf t x.routes := by
      unfold tableOf
      rw [← List.erase_filter, List.erase_of_not_mem]
      intro hmem
      exact hmeets (mem_tableOf.mp hmem).2
    obtain ⟨hkeyed, hslot⟩ := keyed_wanted_delete h.keyed_wanted hallowed
    refine ⟨htable ▸ h.keyed, hkeyed, fun key => ?_⟩
    simp only [Change.apply, Change.event, htable, hslot, waiting_append, Concerns]
    by_cases hto : (r.table = mainTable ∧ env.goes t r = true) ∧
        (env.buildRouteForTable r t).key = key
    · rw [if_pos hto, if_pos hto]
      refine settles_append_del ?_
      have hwas : slot key (env.wanted t x.routes) = some (env.buildRouteForTable r t) :=
        h.keyed_wanted.slot_eq_some_iff.mpr
          ⟨mem_wanted.mpr ⟨r, hallowed, hto.1.1, hto.1.2, rfl⟩, hto.2⟩
      exact hwas ▸ h.settles key
    · rw [if_neg hto, if_neg hto, List.append_nil]
      exact h.settles key

/-- An event that does not concern the table leaves it and the main table. -/
theorem inv_of_unconcerned (h : x.Inv env t) {event : Event family}
    {events : List (Event family)} (hevents : x.events = event :: events)
    {y : World family nft} (hwaits : y.events = events)
    (hmain : tableOf mainTable y.routes = tableOf mainTable x.routes)
    (htable : tableOf t y.routes = tableOf t x.routes)
    (hnot : ¬ (event.route.table = mainTable ∧ env.goes t event.route = true)) :
    y.Inv env t := by
  have hwanted : env.wanted t y.routes = env.wanted t x.routes := wanted_eq_of_ne hmain
  refine ⟨htable ▸ h.keyed, hwanted ▸ h.keyed_wanted, fun key => ?_⟩
  have hsettles := h.settles key
  rw [hevents, waiting_cons_of_not fun hc => hnot hc.1] at hsettles
  rwa [hwanted, htable, hwaits]

/-- Handling an event whose route goes to the table settles the place of the route. -/
theorem inv_handleMain (hwf : env.Numbered) {name : String}
    (hactive : (t, name) ∈ env.activeTids) (h : x.Inv env t) {event : Event family}
    {events : List (Event family)} (hevents : x.events = event :: events)
    (hmain : event.route.table = mainTable) (hgoes : env.goes t event.route = true)
    (hmeets : HandleMeets env fib t x event) :
    ({ x with
        routes := handleMainEvent env fib x.files event x.routes, events := events } :
      World family nft).Inv env t := by
  have hrest : tableOf mainTable (handleMainEvent env fib x.files event x.routes) =
      tableOf mainTable x.routes :=
    tableOf_handleMainEvent_of_not (Or.inl hwf.notMem_activeTids) x.routes
  have hwanted : env.wanted t (handleMainEvent env fib x.files event x.routes) =
      env.wanted t x.routes := wanted_eq_of_ne hrest
  have htakes : env.targetTid event.route = none → takesBroadcast env x.files name = true :=
    fun htarget => hmeets.1 htarget name hactive
  have hat : ∀ old ∈ tableOf t x.routes, old.table = (env.buildRouteForTable event.route t).table :=
    fun old hold => (mem_tableOf.mp hold).2
  obtain ⟨cmd, r⟩ := event
  cases cmd with
  | new =>
    have hput : tableOf t (handleMainEvent env fib x.files ⟨.new, r⟩ x.routes) =
        replaceRoute (env.buildRouteForTable r t) (tableOf t x.routes) :=
      tableOf_handleMainEvent hactive hgoes htakes fun hcmd => absurd hcmd (by simp)
    refine ⟨hput ▸ h.keyed.replaceRoute hat, hwanted ▸ h.keyed_wanted, fun key => ?_⟩
    have hsettles := h.settles key
    simp only [hwanted, hput, slot_replaceRoute hat]
    rw [hevents] at hsettles
    split
    case isTrue hkey =>
      rw [waiting_cons_of_concerns ⟨⟨hmain, hgoes⟩, hkey⟩] at hsettles
      exact hsettles
    case isFalse hkey =>
      rwa [waiting_cons_of_not fun hc => hkey hc.2] at hsettles
  | del =>
    obtain ⟨hsame, hnamed⟩ := hmeets.2 rfl
    have hnamed' : ∀ old ∈ tableOf t x.routes,
        fib.selects (env.buildRouteForTable r t) old = true →
          old.key = (env.buildRouteForTable r t).key := fun old hold =>
      hnamed old (mem_tableOf.mp hold).1 (mem_tableOf.mp hold).2
    cases hexists : routeStillExists x.routes r with
    | true =>
      have hskip : handleMainEvent env fib x.files ⟨.del, r⟩ x.routes = x.routes := by
        simp [handleMainEvent, hexists]
      rw [hskip]
      refine ⟨h.keyed, h.keyed_wanted, fun key => ?_⟩
      have hsettles := h.settles key
      rw [hevents] at hsettles
      by_cases hkey : (env.buildRouteForTable r t).key = key
      case neg => rwa [waiting_cons_of_not fun hc => hkey hc.2] at hsettles
      case pos =>
        rw [waiting_cons_of_concerns ⟨⟨hmain, hgoes⟩, hkey⟩] at hsettles
        refine hsettles.2 (fun hnil => ?_) _
        -- The route that looks the same is wanted at this place.
        obtain ⟨m, hm, hmsame⟩ := List.any_eq_true.mp hexists
        simp only [Bool.and_eq_true, beq_iff_eq] at hmsame
        have hmgoes : env.goes t m = true := by
          have hfields := hmsame.2
          simp only [sameRoute, Bool.and_eq_true, decide_eq_true_eq] at hfields
          exact (Env.goes_congr hfields.1.1.1 hfields.1.1.2).trans hgoes
        exact slot_eq_none_iff.mp (hsettles.1 hnil).1 (env.buildRouteForTable m t)
          (mem_wanted.mpr ⟨m, hm, hmsame.1, hmgoes, rfl⟩)
          ((hsame m hm hmsame.1 hmsame.2).trans hkey)
    | false =>
      have hput : tableOf t (handleMainEvent env fib x.files ⟨.del, r⟩ x.routes) =
          fib.deleteRoute (env.buildRouteForTable r t) (tableOf t x.routes) :=
        tableOf_handleMainEvent hactive hgoes htakes fun _ => hexists
      refine ⟨hput ▸ h.keyed.deleteRoute fib _, hwanted ▸ h.keyed_wanted, fun key => ?_⟩
      have hsettles := h.settles key
      rw [hevents] at hsettles
      simp only [hwanted, hput, h.keyed.slot_deleteRoute hnamed' hat]
      by_cases hkey : (env.buildRouteForTable r t).key = key
      case neg =>
        rw [waiting_cons_of_not fun hc => hkey hc.2] at hsettles
        rwa [if_neg fun hc => hkey hc.1.symm]
      case pos =>
        rw [waiting_cons_of_concerns ⟨⟨hmain, hgoes⟩, hkey⟩] at hsettles
        by_cases hnil : waiting env t key events = []
        case neg => exact hsettles.2 hnil _
        case pos =>
          obtain ⟨hwant, hheld⟩ := hsettles.1 hnil
          rw [hnil, hwant]
          rcases hheld with hheld | hheld
          · rw [hheld]
            exact if_neg (by simp)
          · rw [hheld]
            exact if_pos ⟨hkey.symm, by simpa using fib.selects_self _⟩

/-- A copy of the dump puts what is wanted into the table. -/
theorem inv_resync (hwf : env.Numbered) (ht : t ∈ env.activeTids.map Prod.fst)
    (h : x.Inv env t) (hsilent : LookupsSilent env t x.routes) :
    ({ x with routes := populateIfaceRoutes env x.routes } : World family nft).Inv env t := by
  have hwanted : env.wanted t (populateIfaceRoutes env x.routes) = env.wanted t x.routes :=
    wanted_eq_of_ne (tableOf_populate_of_notMem hwf.notMem_activeTids x.routes)
  obtain ⟨hkeyed, hslot⟩ := slot_foldl_replaceRoute h.keyed_wanted h.keyed
    (fun _ => table_of_mem_wanted) (fun _ hr => (mem_tableOf.mp hr).2)
  have htable := tableOf_populate ht hsilent
  refine ⟨htable ▸ hkeyed, hwanted ▸ h.keyed_wanted, fun key => ?_⟩
  simp only [hwanted, htable, hslot]
  exact settles_of_want (h.settles key)

/-- Every step that meets the condition keeps the invariant. -/
theorem inv_next (hwf : env.Numbered) {name : String} (hactive : (t, name) ∈ env.activeTids)
    (h : x.Inv env t) {label : Label family} (hmeets : x.Meets env fib t label)
    {y : World family nft} (hstep : x.next env fib label = some y) : y.Inv env t := by
  have ht : t ∈ env.activeTids.map Prod.fst := List.mem_map_of_mem hactive
  cases label with
  | change change =>
    have hstep : (if change.Allowed x.routes then
        some { x with routes := change.apply x.routes, events := x.events ++ [change.event] }
      else none) = some y := hstep
    split at hstep
    case isTrue hallowed =>
      cases hstep
      exact inv_change h hallowed hmeets
    case isFalse => cases hstep
  | handle =>
    unfold next at hstep
    cases hevents : x.events with
    | nil => simp [hevents] at hstep
    | cons event events =>
      simp only [hevents, Option.some.injEq] at hstep
      subst hstep
      have hmeets : event.route.table = mainTable → env.goes t event.route = true →
          HandleMeets env fib t x event := hmeets event (by rw [hevents]; rfl)
      unfold handleRouteEvent
      split
      case isTrue hextra =>
        refine inv_of_unconcerned h hevents rfl rfl rfl fun hc => ?_
        exact hwf.main_notMem (hc.1 ▸ List.contains_iff_mem.mp hextra)
      case isFalse =>
        split
        case isTrue hother =>
          exact inv_of_unconcerned h hevents rfl rfl rfl fun hc => hother hc.1
        case isFalse hmain =>
          have hmain := not_not.mp hmain
          cases hgoes : env.goes t event.route with
          | true => exact inv_handleMain hwf hactive h hevents hmain hgoes (hmeets hmain hgoes)
          | false =>
            refine inv_of_unconcerned h hevents rfl ?_ ?_ fun hc => ?_
            · exact tableOf_handleMainEvent_of_not (Or.inl hwf.notMem_activeTids) _
            · exact tableOf_handleMainEvent_of_not (Or.inr hgoes) _
            · exact absurd hc.2 (by simp [hgoes])
  | track ifname files =>
    cases hstep
    exact ⟨h.keyed, h.keyed_wanted, h.settles⟩
  | resync =>
    cases hstep
    exact inv_resync hwf ht h hmeets

/-! ## Whole runs -/

/-- The copy a dump of the main table makes into an empty table. -/
theorem slot_fresh (hwf : env.Numbered) (ht : t ∈ env.activeTids.map Prod.fst)
    {routes : List (Route family)} (hkeyed : Keyed (env.wanted t routes)) :
    Keyed (env.fresh t routes) ∧
      ∀ key, slot key (env.fresh t routes) = slot key (env.wanted t routes) := by
  have hmain : tableOf mainTable (tableOf mainTable routes) = tableOf mainTable routes := by
    simp [tableOf]
  have hwanted : env.wanted t (tableOf mainTable routes) = env.wanted t routes :=
    wanted_eq_of_ne hmain
  have hsilent : LookupsSilent env t (tableOf mainTable routes) := fun r hr hextra =>
    absurd ((mem_tableOf.mp hr).2 ▸ hextra) hwf.main_notMem
  have hempty : tableOf t (tableOf mainTable routes) = [] := by
    refine List.filter_eq_nil_iff.mpr fun r hr => ?_
    intro heq
    obtain ⟨active, hactive, hfst⟩ := List.mem_map.mp ht
    have hle := Env.le_of_mem_activeTids hactive
    have heq : r.table = t := of_decide_eq_true heq
    have := (mem_tableOf.mp hr).2
    have := hwf.few
    omega
  have hfresh : env.fresh t routes =
      (env.wanted t routes).foldl (fun table r => replaceRoute r table) [] := by
    rw [Env.fresh, tableOf_populate ht hsilent, hempty, hwanted]
  rw [hfresh]
  exact keyed_foldl_nil hkeyed fun _ => table_of_mem_wanted

/-- In every run whose steps meet the condition, whenever no event waits the interface
table holds exactly the routes that a dump of the main table would put there. -/
theorem table_agrees_of_reachable (hwf : env.Numbered) {name : String}
    (hactive : (t, name) ∈ env.activeTids)
    (hreach : ((monitor env fib t).restrict (Meets env fib t)).Reachable x)
    (hidle : x.events = []) (r : Route family) :
    r ∈ tableOf t x.routes ↔ r ∈ env.fresh t x.routes := by
  have ht : t ∈ env.activeTids.map Prod.fst := List.mem_map_of_mem hactive
  have hstart : ∀ y : World family nft, y.IsStart env t → y.Inv env t := fun y hstart =>
    inv_of_isStart hwf ht hstart
  have hstep : ∀ (y : World family nft) label z, y.Inv env t →
      y.Meets env fib t label ∧ y.next env fib label = some z → z.Inv env t :=
    fun y label z h hstep => inv_next hwf hactive h hstep.1 hstep.2
  have hinv : x.Inv env t := hreach.invariant hstart hstep
  obtain ⟨hkeyed, hslot⟩ := slot_fresh hwf ht hinv.keyed_wanted
  refine mem_iff_of_slot hinv.keyed hkeyed (fun key => ?_) r
  have hsettles := hinv.settles key
  rw [hidle] at hsettles
  rw [hslot]
  exact hsettles

end World

/-! ## One interface and the local network -/

/-- The comparison of the fields that a delete request gives. -/
def Selection.given (family : Family) : Selection family where
  selects r old :=
    r.dst = old.dst && r.tos.getD 0 = old.tos.getD 0 && r.src = old.src &&
      r.priority.all (some · = old.priority) && r.gateway.all (some · = old.gateway) &&
      r.oif.all (some · = old.oif) && r.prefsrc.all (some · = old.prefsrc) &&
      r.scope.all (some · = old.scope) && r.type.all (some · = old.type) &&
      r.metrics.all (some · = old.metrics)
  selects_self r := by
    have hself : ∀ {α : Type} [DecidableEq α] (o : Option α),
        o.all (fun a => decide (some a = o)) = true := fun o => by cases o <;> simp
    simp [hself]

/-- The tracked interface `wan` on `eth1`, whose chain is there. -/
def wanEnv : Env .ipv4 where
  sourceRouting := false
  extraTables := []
  ifaces := [⟨"wan", .ipv4, true, true⟩]
  dump := [("wan", some "eth1"), ("lan", some "br-lan")]
  chains := ["mwan3_iface_in_wan"]

/-- The tracker of `wan` runs, with the given text in `STARTED`. -/
def wanFiles (started : String) (_ : String) : TrackFiles := ⟨"4242", true, started⟩

/-- `192.168.1.0/24 dev br-lan scope link`, in the given table. -/
def lanRoute (table : ℕ) : Route .ipv4 where
  table := table
  dst := some ⟨0xc0a80100#32, 24, true, by decide, by decide⟩
  gateway := none
  oif := some "br-lan"
  prefsrc := none
  priority := none
  scope := some 253
  type := none
  tos := none
  metrics := none
  src := none

/-- A state of the daemon; the custom set is empty throughout. -/
def wanWorld (started : String) (routes : List (Route .ipv4)) (events : List (Event .ipv4)) :
    World .ipv4 (IntervalSet.points (BitVec Family.ipv4.width)) where
  routes := routes
  custom := (∅ : Set (BitVec Family.ipv4.width))
  files := wanFiles started
  events := events

theorem wanWorld_isStart (started : String) : (wanWorld started [] []).IsStart wanEnv 1 :=
  ⟨rfl, [], rfl, List.nodup_nil, fun _ h => absurd h List.not_mem_nil, rfl⟩

namespace World

/-- The local network comes up while the tracker is active; its route is copied. -/
theorem table_agrees_of_active :
    lanRoute 1 ∈ tableOf 1 (wanWorld "1" [lanRoute mainTable, lanRoute 1] []).routes ↔
      lanRoute 1 ∈ wanEnv.fresh 1 (wanWorld "1" [lanRoute mainTable, lanRoute 1] []).routes := by
  have hstart : ((monitor wanEnv (Selection.given .ipv4) 1).restrict
      (Meets wanEnv (Selection.given .ipv4) 1)).Reachable (wanWorld "1" [] []) :=
    .start (wanWorld_isStart "1")
  have hchange : ((monitor wanEnv (Selection.given .ipv4) 1).restrict
      (Meets wanEnv (Selection.given .ipv4) 1)).Reachable
        (wanWorld "1" [lanRoute mainTable] [⟨.new, lanRoute mainTable⟩]) :=
    hstart.step (.change (.add (lanRoute mainTable)))
      ⟨⟨by decide, fun _ _ _ h => absurd h List.not_mem_nil⟩, rfl⟩
  have hmeets : (wanWorld "1" [lanRoute mainTable] [⟨.new, lanRoute mainTable⟩]).Meets wanEnv
      (Selection.given .ipv4) 1 .handle := by
    rintro _ ⟨⟩ _ _
    refine ⟨fun _ name hname => ?_, fun hdel => absurd hdel (by decide)⟩
    obtain ⟨rfl⟩ : name = "wan" := by simpa [Env.activeTids, Env.ifaceList, wanEnv] using hname
    decide
  have hhandle : ((monitor wanEnv (Selection.given .ipv4) 1).restrict
      (Meets wanEnv (Selection.given .ipv4) 1)).Reachable
        (wanWorld "1" [lanRoute mainTable, lanRoute 1] []) :=
    hchange.step .handle ⟨hmeets, rfl⟩
  have hactive : (1, "wan") ∈ wanEnv.activeTids := by decide
  exact table_agrees_of_reachable ⟨by decide, by decide⟩ hactive hhandle rfl _

/-- The local network comes up while the tracker is paused. Once the tracker is active
again and no event waits, the table of the interface lacks the route. -/
theorem not_table_agrees_of_paused :
    (monitor wanEnv (Selection.given .ipv4) 1).Reachable
        { wanWorld "0" [lanRoute mainTable] [] with
          files := Function.update (wanFiles "0") "wan" (wanFiles "1" "wan") } ∧
      wanEnv.trackStatus (Function.update (wanFiles "0") "wan" (wanFiles "1" "wan")) "wan" =
        .active ∧
      lanRoute 1 ∈ wanEnv.fresh 1 [lanRoute mainTable] ∧
      lanRoute 1 ∉ tableOf 1 [lanRoute mainTable] := by
  have hstart : (monitor wanEnv (Selection.given .ipv4) 1).Reachable (wanWorld "0" [] []) :=
    .start (wanWorld_isStart "0")
  have hchange : (monitor wanEnv (Selection.given .ipv4) 1).Reachable
      (wanWorld "0" [lanRoute mainTable] [⟨.new, lanRoute mainTable⟩]) :=
    hstart.step (.change (.add (lanRoute mainTable))) rfl
  have hhandle : (monitor wanEnv (Selection.given .ipv4) 1).Reachable
      (wanWorld "0" [lanRoute mainTable] []) := hchange.step .handle rfl
  exact ⟨hhandle.step (.track "wan" (wanFiles "1" "wan")) rfl, by decide, by decide, by decide⟩

end World

end OpenWrt.Mwan3.Rtmon
