/-
# The routes an interface table is to hold

A route of the main table goes to the table of one interface when its device is the
interface's, and to the tables of all active interfaces when no interface has its
device. What the daemon's requests, its dumps and the kernel's changes of the main
table do to the table and to the copies that are wanted there is stated here, place
by place.
-/

import OpenWrt.Mwan3.RtmonTables

namespace OpenWrt.Mwan3.Rtmon

open OpenWrt.Lib OpenWrt.Netfilter

variable {family : Family} {nft : IntervalSet (BitVec family.width)}

/-! ## Which routes an interface table is to hold -/

namespace Env

variable (env : Env family)

/-- The tables are numbered below the main table, which is no lookup table. -/
structure Numbered : Prop where
  few : env.ifaces.length < mainTable
  main_notMem : mainTable ∉ env.extraTables

/-- The route is copied to the table of the interface when its chain is there. -/
def goes (t : ℕ) (r : Route family) : Bool :=
  match env.targetTid r with
  | some tid => tid = t
  | none => !isDefaultRoute r && !isLinklocalRoute r

/-- The copies of the main table's routes for one table. -/
def wanted (t : ℕ) (routes : List (Route family)) : List (Route family) :=
  ((tableOf mainTable routes).filter (env.goes t)).map fun r => env.buildRouteForTable r t

/-- The table that `populate_iface_routes` makes from the main table alone. -/
def fresh (t : ℕ) (routes : List (Route family)) : List (Route family) :=
  tableOf t (populateIfaceRoutes env (tableOf mainTable routes))

variable {env}

@[simp]
theorem buildRouteForTable_table (r : Route family) (tid : ℕ) :
    (env.buildRouteForTable r tid).table = tid := rfl

/-- The place of a copy depends on the place of the route only. -/
theorem key_buildRouteForTable_congr {r other : Route family} (h : other.key = r.key)
    (tid : ℕ) : (env.buildRouteForTable other tid).key = (env.buildRouteForTable r tid).key := by
  simp only [Route.key, RouteKey.mk.injEq] at h
  obtain ⟨hdst, htos, hpriority, hsrc⟩ := h
  have hzero : ∀ tos : Option ℕ,
      (if tos = some 0 then none else tos).getD 0 = tos.getD 0 := by
    intro tos
    split
    case isTrue h => rw [h]; rfl
    case isFalse => rfl
  simp only [Route.key, buildRouteForTable, hzero, hdst, htos, hpriority, hsrc]

theorem goes_congr {t : ℕ} {r other : Route family} (hdst : other.dst = r.dst)
    (hoif : other.oif = r.oif) : env.goes t other = env.goes t r := by
  simp only [goes, targetTid, isDefaultRoute, isLinklocalRoute, hdst, hoif]

theorem mem_ifaceList {entry : ℕ × IfaceEntry} (h : entry ∈ env.ifaceList) :
    entry.1 ≤ env.ifaces.length := by
  obtain ⟨i, hi, rfl⟩ := List.mem_mapIdx.mp h
  exact hi

theorem nodup_ifaceList : (env.ifaceList.map Prod.fst).Nodup := by
  have heq : env.ifaceList.map Prod.fst = (List.range env.ifaces.length).map (· + 1) := by
    refine List.ext_getElem (by simp [ifaceList]) fun i _ _ => ?_
    simp [ifaceList]
  rw [heq]
  exact List.nodup_range.map fun _ _ h => Nat.succ.inj h

theorem nodup_activeTids : (env.activeTids.map Prod.fst).Nodup := by
  have heq : env.activeTids.map Prod.fst =
      (env.ifaceList.filter fun entry => decide (entry.2.family = family) &&
        env.chains.contains ("mwan3_iface_in_" ++ entry.2.name)).map Prod.fst := by
    simp [activeTids, Function.comp_def]
  rw [heq]
  exact nodup_ifaceList.sublist (List.filter_sublist.map _)

theorem le_of_mem_activeTids {active : ℕ × String} (h : active ∈ env.activeTids) :
    active.1 ≤ env.ifaces.length := by
  obtain ⟨entry, hentry, rfl⟩ := List.mem_map.mp h
  exact mem_ifaceList (List.mem_filter.mp hentry).1

theorem Numbered.notMem_activeTids (h : env.Numbered) :
    mainTable ∉ env.activeTids.map Prod.fst := by
  intro hmem
  obtain ⟨active, hactive, heq⟩ := List.mem_map.mp hmem
  exact absurd (heq ▸ le_of_mem_activeTids hactive) (Nat.not_le.mpr h.few)

theorem lookup_isSome_iff {t : ℕ} {active : List (ℕ × String)} :
    (active.lookup t).isSome = true ↔ t ∈ active.map Prod.fst := by
  induction active with
  | nil => simp
  | cons first active ih =>
    rw [List.lookup_cons, List.map_cons, List.mem_cons, ← ih]
    by_cases h : t = first.1 <;> simp [h, beq_false_of_ne]

end Env

/-! ## What the daemon's requests do to one table -/

variable {env : Env family} {fib : Selection family} {t : ℕ}

theorem tableOf_applyRouteToTable (route : Route family) (tid : ℕ) (isNew : Bool)
    (routes : List (Route family)) :
    tableOf t (applyRouteToTable env fib route tid isNew routes) =
      if tid = t then applyRouteToTable env fib route tid isNew (tableOf t routes)
      else tableOf t routes := by
  cases isNew with
  | true => exact tableOf_replaceRoute t (env.buildRouteForTable route tid) routes
  | false => exact tableOf_deleteRoute fib t (env.buildRouteForTable route tid) routes

variable {files : String → TrackFiles} {actives : List (ℕ × String)} {routes : List (Route family)}
  {r : Route family}

/-- A broadcast leaves the tables that are not among its targets. -/
theorem tableOf_broadcast_of_notMem {route : Route family} {isNew : Bool}
    (ht : t ∉ actives.map Prod.fst) (routes : List (Route family)) :
    tableOf t (actives.foldl (fun routes active =>
      if takesBroadcast env files active.2 then
        applyRouteToTable env fib route active.1 isNew routes
      else routes) routes) = tableOf t routes := by
  induction actives generalizing routes with
  | nil => rfl
  | cons active actives ih =>
    rw [List.map_cons, List.mem_cons, not_or] at ht
    rw [List.foldl_cons, ih ht.2]
    split
    case isTrue => rw [tableOf_applyRouteToTable, if_neg fun h => ht.1 h.symm]
    case isFalse => rfl

/-- A broadcast reaches each target whose tracker lets it through once. -/
theorem tableOf_broadcast_of_mem {route : Route family} {isNew : Bool}
    (hnodup : (actives.map Prod.fst).Nodup) {name : String} (ht : (t, name) ∈ actives)
    (htakes : takesBroadcast env files name = true) (routes : List (Route family)) :
    tableOf t (actives.foldl (fun routes active =>
      if takesBroadcast env files active.2 then
        applyRouteToTable env fib route active.1 isNew routes
      else routes) routes) = applyRouteToTable env fib route t isNew (tableOf t routes) := by
  induction actives generalizing routes with
  | nil => cases ht
  | cons active actives ih =>
    rw [List.map_cons, List.nodup_cons] at hnodup
    rw [List.foldl_cons]
    rcases List.mem_cons.mp ht with rfl | ht
    · rw [tableOf_broadcast_of_notMem hnodup.1, if_pos htakes, tableOf_applyRouteToTable,
        if_pos rfl]
    · have hne : active.1 ≠ t := fun h => hnodup.1 (h ▸ List.mem_map_of_mem ht)
      rw [ih hnodup.2 ht]
      split
      case isTrue => rw [tableOf_applyRouteToTable, if_neg hne]
      case isFalse => rfl

/-- An event leaves a table its route does not go to, and every table of no interface. -/
theorem tableOf_handleMainEvent_of_not {event : Event family}
    (h : t ∉ env.activeTids.map Prod.fst ∨ env.goes t event.route = false)
    (routes : List (Route family)) :
    tableOf t (handleMainEvent env fib files event routes) = tableOf t routes := by
  unfold handleMainEvent
  dsimp only
  split
  case isTrue => rfl
  case isFalse =>
    split
    case h_1 tid htarget =>
      split
      case isTrue => rfl
      case isFalse hactive =>
        rw [tableOf_applyRouteToTable, if_neg]
        rintro rfl
        rcases h with h | h
        · exact h (Env.lookup_isSome_iff.mp (by simpa [← Option.isSome_iff_ne_none] using hactive))
        · simp [Env.goes, htarget] at h
    case h_2 htarget =>
      split
      case isTrue hbroadcast =>
        rcases h with h | h
        · exact tableOf_broadcast_of_notMem h routes
        · simp [Env.goes, htarget] at h hbroadcast
          exact absurd (h hbroadcast.1) (by simp [hbroadcast.2])
      case isFalse => rfl

/-- An event whose route goes to the table changes it as the request does. -/
theorem tableOf_handleMainEvent {event : Event family} {name : String}
    (hactive : (t, name) ∈ env.activeTids) (hgoes : env.goes t event.route = true)
    (htakes : env.targetTid event.route = none → takesBroadcast env files name = true)
    (hgone : event.cmd = .del → routeStillExists routes event.route = false) :
    tableOf t (handleMainEvent env fib files event routes) =
      applyRouteToTable env fib event.route t (event.cmd = .new) (tableOf t routes) := by
  unfold handleMainEvent
  dsimp only
  have hact : (!decide (event.cmd = .new) && routeStillExists routes event.route) = false := by
    cases hcmd : event.cmd with
    | new => rfl
    | del => simpa using hgone hcmd
  rw [hact]
  cases htarget : env.targetTid event.route with
  | some tid =>
    have htid : tid = t := by simpa [Env.goes, htarget] using hgoes
    subst htid
    have hsome : (env.activeTids.lookup tid).isSome = true :=
      Env.lookup_isSome_iff.mpr (List.mem_map_of_mem hactive)
    have hnone : (env.activeTids.lookup tid).isNone = false := by
      simpa [← Option.isSome_iff_ne_none] using hsome
    simp only [hnone, Bool.false_eq_true, if_false]
    rw [tableOf_applyRouteToTable, if_pos rfl]
  | none =>
    have hbroadcast : (!isDefaultRoute event.route && !isLinklocalRoute event.route) = true := by
      simpa [Env.goes, htarget] using hgoes
    simp only [Bool.false_eq_true, if_false, hbroadcast, if_true]
    exact tableOf_broadcast_of_mem Env.nodup_activeTids hactive (htakes htarget) routes

/-! ## What a dump copies -/

theorem tableOf_foldl_replaceRoute (copied routes : List (Route family)) :
    tableOf t (copied.foldl (fun routes r => replaceRoute r routes) routes) =
      (tableOf t copied).foldl (fun routes r => replaceRoute r routes) (tableOf t routes) := by
  induction copied generalizing routes with
  | nil => rfl
  | cons r copied ih =>
    rw [List.foldl_cons, ih, tableOf_replaceRoute]
    by_cases ht : r.table = t
    · rw [if_pos ht, tableOf_cons_of_eq ht, List.foldl_cons]
    · rw [if_neg ht, tableOf_cons_of_ne ht]

theorem tableOf_copies_of_notMem (ht : t ∉ env.activeTids.map Prod.fst) (r : Route family) :
    tableOf t (copies env r) = [] := by
  refine List.filter_eq_nil_iff.mpr fun other hother => ?_
  unfold copies at hother
  split at hother
  case h_1 tid _ =>
    split at hother
    case isTrue hsome =>
      rw [List.mem_singleton.mp hother]
      have : tid ≠ t := fun h => ht (h ▸ Env.lookup_isSome_iff.mp hsome)
      exact fun h => this (of_decide_eq_true h)
    case isFalse => cases hother
  case h_2 =>
    split at hother
    case isTrue =>
      obtain ⟨active, hactive, rfl⟩ := List.mem_map.mp hother
      have : active.1 ≠ t := fun h => ht (h ▸ List.mem_map_of_mem hactive)
      exact fun h => this (of_decide_eq_true h)
    case isFalse => cases hother

theorem tableOf_map_copies (hnodup : (actives.map Prod.fst).Nodup) (ht : t ∈ actives.map Prod.fst)
    (r : Route family) :
    tableOf t (actives.map fun active => env.buildRouteForTable r active.1) =
      [env.buildRouteForTable r t] := by
  induction actives with
  | nil => cases ht
  | cons active actives ih =>
    rw [List.map_cons, List.nodup_cons] at hnodup
    rw [List.map_cons]
    by_cases hfirst : active.1 = t
    · rw [tableOf_cons_of_eq hfirst, hfirst]
      congr 1
      refine List.filter_eq_nil_iff.mpr fun other hother => ?_
      obtain ⟨later, hlater, rfl⟩ := List.mem_map.mp hother
      have : later.1 ≠ t := fun h =>
        hnodup.1 (hfirst.trans h.symm ▸ List.mem_map_of_mem hlater)
      exact fun h => this (of_decide_eq_true h)
    · rw [tableOf_cons_of_ne hfirst]
      rw [List.map_cons, List.mem_cons] at ht
      exact ih hnodup.2 (ht.resolve_left fun h => hfirst h.symm)

theorem tableOf_copies (ht : t ∈ env.activeTids.map Prod.fst) (r : Route family) :
    tableOf t (copies env r) =
      if env.goes t r = true then [env.buildRouteForTable r t] else [] := by
  unfold copies Env.goes
  cases htarget : env.targetTid r with
  | some tid =>
    dsimp only
    by_cases htid : tid = t
    · subst htid
      rw [if_pos (Env.lookup_isSome_iff.mpr ht), tableOf_cons_of_eq (by rfl)]
      simp [tableOf]
    · have hnil : tableOf t
          (if (env.activeTids.lookup tid).isSome = true then [env.buildRouteForTable r tid]
            else []) = [] := by
        split
        case isTrue => simpa [tableOf] using htid
        case isFalse => rfl
      rw [hnil, if_neg (by simpa using htid)]
  | none =>
    dsimp only
    split
    case isTrue => exact tableOf_map_copies Env.nodup_activeTids ht r
    case isFalse => rfl

def LookupsSilent (env : Env family) (t : ℕ) (routes : List (Route family)) : Prop :=
  ∀ r ∈ routes, r.table ∈ env.extraTables → env.goes t r = false

theorem tableOf_flatMap_copies (ht : t ∈ env.activeTids.map Prod.fst)
    (hsilent : LookupsSilent env t routes) :
    tableOf t ((routes.filter env.isSource).flatMap (copies env)) = env.wanted t routes := by
  induction routes with
  | nil => rfl
  | cons r routes ih =>
    have ih := ih fun other hother => hsilent other (List.mem_cons_of_mem _ hother)
    have happend : ∀ rest : List (Route family), tableOf t (copies env r ++ rest) =
        (if env.goes t r = true then [env.buildRouteForTable r t] else []) ++ tableOf t rest :=
      fun rest => by rw [← tableOf_copies ht r]; exact List.filter_append _ _
    by_cases hmain : r.table = mainTable
    · have hsource : env.isSource r = true := by simp [Env.isSource, hmain]
      rw [List.filter_cons_of_pos hsource, List.flatMap_cons, happend, ih]
      unfold Env.wanted
      rw [tableOf_cons_of_eq hmain]
      by_cases hgoes : env.goes t r = true
      · rw [if_pos hgoes, List.filter_cons_of_pos hgoes]
        rfl
      · rw [if_neg hgoes, List.filter_cons_of_neg hgoes]
        rfl
    · have hwanted : env.wanted t (r :: routes) = env.wanted t routes := by
        unfold Env.wanted
        rw [tableOf_cons_of_ne hmain]
      rw [hwanted, ← ih]
      by_cases hsource : env.isSource r = true
      · have hextra : r.table ∈ env.extraTables := by
          simpa [Env.isSource, hmain] using hsource
        have hgoes : env.goes t r = false := hsilent r List.mem_cons_self hextra
        rw [List.filter_cons_of_pos hsource, List.flatMap_cons, happend, hgoes]
        rfl
      · rw [List.filter_cons_of_neg hsource]

theorem tableOf_populate_of_notMem (ht : t ∉ env.activeTids.map Prod.fst)
    (routes : List (Route family)) :
    tableOf t (populateIfaceRoutes env routes) = tableOf t routes := by
  have hnil : tableOf t ((routes.filter env.isSource).flatMap (copies env)) = [] := by
    refine List.filter_eq_nil_iff.mpr fun other hother => ?_
    obtain ⟨r, -, hr⟩ := List.mem_flatMap.mp hother
    exact List.filter_eq_nil_iff.mp (tableOf_copies_of_notMem ht r) other hr
  rw [populateIfaceRoutes, tableOf_foldl_replaceRoute, hnil]
  rfl

theorem tableOf_populate (ht : t ∈ env.activeTids.map Prod.fst)
    (hsilent : LookupsSilent env t routes) :
    tableOf t (populateIfaceRoutes env routes) =
      (env.wanted t routes).foldl (fun table r => replaceRoute r table) (tableOf t routes) := by
  rw [populateIfaceRoutes, tableOf_foldl_replaceRoute, tableOf_flatMap_copies ht hsilent]

/-- Routes put one after the other into a table are what it holds at their places. -/
theorem slot_foldl_replaceRoute {copied table : List (Route family)} (hcopied : Keyed copied)
    (htable : Keyed table) (hin : ∀ r ∈ copied, r.table = t) (hat : ∀ r ∈ table, r.table = t) :
    Keyed (copied.foldl (fun table r => replaceRoute r table) table) ∧ ∀ key,
      slot key (copied.foldl (fun table r => replaceRoute r table) table) =
        (slot key copied).or (slot key table) := by
  induction copied generalizing table with
  | nil => exact ⟨htable, fun key => rfl⟩
  | cons r copied ih =>
    have hr : r.table = t := hin r List.mem_cons_self
    have hsame : ∀ old ∈ table, old.table = r.table := fun old hold =>
      (hat old hold).trans hr.symm
    have hnext : ∀ other ∈ replaceRoute r table, other.table = t := fun other hother =>
      (mem_replaceRoute hother).elim (fun h => h ▸ hr) (hat other)
    obtain ⟨hkeyed, hslot⟩ := ih (List.nodup_cons.mp hcopied).2 (htable.replaceRoute hsame)
      (fun other hother => hin other (List.mem_cons_of_mem _ hother)) hnext
    refine ⟨hkeyed, fun key => ?_⟩
    rw [List.foldl_cons, hslot, slot_replaceRoute hsame]
    by_cases hkey : r.key = key
    · have hnone : slot key copied = none := by
        rw [slot_eq_none_iff]
        intro other hother hotherkey
        refine (List.nodup_cons.mp hcopied).1 (List.mem_map.mpr ⟨other, hother, ?_⟩)
        rw [hotherkey, hkey]
      rw [hnone, if_pos hkey, slot_cons_of_eq hkey]
      rfl
    · rw [if_neg hkey, slot_cons_of_ne hkey]

theorem keyed_foldl_nil {copied : List (Route family)} (hcopied : Keyed copied)
    (hin : ∀ r ∈ copied, r.table = t) :
    Keyed (copied.foldl (fun table r => replaceRoute r table) []) ∧ ∀ key,
      slot key (copied.foldl (fun table r => replaceRoute r table) []) = slot key copied := by
  have hnil : ∀ r ∈ ([] : List (Route family)), r.table = t := fun _ h =>
    absurd h List.not_mem_nil
  have hempty : Keyed ([] : List (Route family)) := List.nodup_nil
  obtain ⟨hkeyed, hslot⟩ := slot_foldl_replaceRoute hcopied hempty hin hnil
  exact ⟨hkeyed, fun key => (hslot key).trans Option.or_none⟩

/-! ## What a change of the main table makes wanted -/

/-- The main table holds no route at the place of the new one in the table. -/
def Fresh (env : Env family) (t : ℕ) (r : Route family) (routes : List (Route family)) : Prop :=
  ∀ m ∈ routes, m.table = mainTable → env.goes t m = true →
    (env.buildRouteForTable m t).key ≠ (env.buildRouteForTable r t).key

/-- The new route goes where the one it replaces went, and no other route is at its place
in the table. -/
def Succeeds (env : Env family) (t : ℕ) (r : Route family) (routes : List (Route family)) :
    Prop :=
  ∀ m ∈ routes, m.table = mainTable →
    (m.key = r.key → env.goes t m = env.goes t r) ∧
    (env.goes t m = true → env.goes t r = true →
      (env.buildRouteForTable m t).key = (env.buildRouteForTable r t).key → m.key = r.key)

theorem wanted_eq_of_ne {routes routes' : List (Route family)}
    (h : tableOf mainTable routes' = tableOf mainTable routes) :
    env.wanted t routes' = env.wanted t routes := by
  rw [Env.wanted, h, Env.wanted]

theorem mem_wanted {w : Route family} :
    w ∈ env.wanted t routes ↔ ∃ m ∈ routes, m.table = mainTable ∧ env.goes t m = true ∧
      env.buildRouteForTable m t = w := by
  simp [Env.wanted, and_assoc]

theorem table_of_mem_wanted {w : Route family} (h : w ∈ env.wanted t routes) : w.table = t := by
  obtain ⟨m, -, -, -, rfl⟩ := mem_wanted.mp h
  rfl

theorem wanted_add (r : Route family) (routes : List (Route family)) :
    env.wanted t (routes ++ [r]) = env.wanted t routes ++
      if r.table = mainTable ∧ env.goes t r = true then [env.buildRouteForTable r t] else [] := by
  have hlast : env.wanted t [r] =
      if r.table = mainTable ∧ env.goes t r = true then [env.buildRouteForTable r t] else [] := by
    by_cases hmain : r.table = mainTable
    · by_cases hgoes : env.goes t r = true <;> simp [Env.wanted, tableOf, hmain, hgoes]
    · simp [Env.wanted, tableOf, hmain]
  rw [← hlast]
  simp [Env.wanted, tableOf]

theorem wanted_replace {main : List (Route family)} (hmain : ∀ m ∈ main, m.table = r.table)
    (hgoes : env.goes t r = true) (h : ∀ m ∈ main, (m.key = r.key → env.goes t m = env.goes t r) ∧
      (env.goes t m = true → env.goes t r = true →
        (env.buildRouteForTable m t).key = (env.buildRouteForTable r t).key → m.key = r.key)) :
    ((replaceRoute r main).filter (env.goes t)).map (fun r => env.buildRouteForTable r t) =
      replaceRoute (env.buildRouteForTable r t)
        ((main.filter (env.goes t)).map fun r => env.buildRouteForTable r t) := by
  induction main with
  | nil => simp [replaceRoute, hgoes]
  | cons old main ih =>
    have ih := ih (fun m hm => hmain m (List.mem_cons_of_mem _ hm))
      fun m hm => h m (List.mem_cons_of_mem _ hm)
    obtain ⟨hsame, hplace⟩ := h old List.mem_cons_self
    by_cases hkey : old.key = r.key
    · have hold : env.goes t old = true := (hsame hkey).trans hgoes
      rw [replaceRoute_cons_of_same (hmain old List.mem_cons_self) hkey,
        List.filter_cons_of_pos hgoes, List.filter_cons_of_pos hold, List.map_cons,
        List.map_cons, replaceRoute_cons_of_same (by rfl)
          (Env.key_buildRouteForTable_congr hkey t)]
    · rw [replaceRoute_cons_of_not fun h => hkey h.2]
      by_cases hold : env.goes t old = true
      · rw [List.filter_cons_of_pos hold, List.filter_cons_of_pos hold, List.map_cons,
          List.map_cons, ih, replaceRoute_cons_of_not]
        exact fun h => hkey (hplace hold hgoes h.2)
      · rw [List.filter_cons_of_neg hold, List.filter_cons_of_neg hold, ih]

theorem wanted_replace_of_not {main : List (Route family)} (hmain : ∀ m ∈ main, m.table = r.table)
    (hgoes : env.goes t r = false) (h : ∀ m ∈ main, m.key = r.key → env.goes t m = env.goes t r) :
    (replaceRoute r main).filter (env.goes t) = main.filter (env.goes t) := by
  induction main with
  | nil => simp [replaceRoute, hgoes]
  | cons old main ih =>
    have ih := ih (fun m hm => hmain m (List.mem_cons_of_mem _ hm))
      fun m hm => h m (List.mem_cons_of_mem _ hm)
    by_cases hkey : old.key = r.key
    · have hold : env.goes t old = false := (h old List.mem_cons_self hkey).trans hgoes
      rw [replaceRoute_cons_of_same (hmain old List.mem_cons_self) hkey,
        List.filter_cons_of_neg (by simp [hgoes]), List.filter_cons_of_neg (by simp [hold])]
    · rw [replaceRoute_cons_of_not fun h => hkey h.2]
      by_cases hold : env.goes t old = true
      · rw [List.filter_cons_of_pos hold, List.filter_cons_of_pos hold, ih]
      · rw [List.filter_cons_of_neg hold, List.filter_cons_of_neg hold, ih]

/-- The copies wanted after a route came. -/
theorem keyed_wanted_add (h : Keyed (env.wanted t routes))
    (hfresh : r.table = mainTable → env.goes t r = true → Fresh env t r routes) :
    Keyed (env.wanted t (routes ++ [r])) ∧ ∀ key, slot key (env.wanted t (routes ++ [r])) =
      if (r.table = mainTable ∧ env.goes t r = true) ∧ (env.buildRouteForTable r t).key = key then
        some (env.buildRouteForTable r t)
      else slot key (env.wanted t routes) := by
  rw [wanted_add]
  by_cases hto : r.table = mainTable ∧ env.goes t r = true
  · have hnew : ∀ w ∈ env.wanted t routes, w.key ≠ (env.buildRouteForTable r t).key := by
      intro w hw
      obtain ⟨m, hm, hmain, hgoes, rfl⟩ := mem_wanted.mp hw
      exact hfresh hto.1 hto.2 m hm hmain hgoes
    rw [if_pos hto]
    constructor
    · rw [Keyed, List.map_append, List.nodup_append]
      refine ⟨h, List.nodup_singleton _, ?_⟩
      rintro _ ha _ hb rfl
      obtain ⟨w, hw, hkey⟩ := List.mem_map.mp ha
      exact hnew w hw (hkey.trans (List.mem_singleton.mp hb))
    · intro key
      have happend : slot key (env.wanted t routes ++ [env.buildRouteForTable r t]) =
          (slot key (env.wanted t routes)).or (slot key [env.buildRouteForTable r t]) :=
        List.find?_append
      rw [happend]
      by_cases hkey : (env.buildRouteForTable r t).key = key
      · have hnone : slot key (env.wanted t routes) = none :=
          slot_eq_none_iff.mpr (hkey ▸ hnew)
        rw [hnone, slot_cons_of_eq hkey, if_pos ⟨hto, hkey⟩]
        rfl
      · rw [slot_cons_of_ne hkey, if_neg fun h => hkey h.2]
        exact Option.or_none
  · rw [if_neg hto, List.append_nil]
    exact ⟨h, fun key => (if_neg fun h => hto h.1).symm⟩

theorem keyed_wanted_replace (h : Keyed (env.wanted t routes))
    (hsucc : r.table = mainTable → Succeeds env t r routes) :
    Keyed (env.wanted t (replaceRoute r routes)) ∧
      ∀ key, slot key (env.wanted t (replaceRoute r routes)) =
        if (r.table = mainTable ∧ env.goes t r = true) ∧
            (env.buildRouteForTable r t).key = key then some (env.buildRouteForTable r t)
        else slot key (env.wanted t routes) := by
  by_cases hmain : r.table = mainTable
  case neg =>
    have hsame : env.wanted t (replaceRoute r routes) = env.wanted t routes :=
      wanted_eq_of_ne (by rw [tableOf_replaceRoute, if_neg hmain])
    rw [hsame]
    exact ⟨h, fun key => (if_neg fun h => hmain h.1.1).symm⟩
  case pos =>
    have hsucc := hsucc hmain
    have htable : ∀ m ∈ tableOf mainTable routes, m.table = r.table := fun m hm =>
      (mem_tableOf.mp hm).2.trans hmain.symm
    cases hgoes : env.goes t r with
    | false =>
      have hsame : env.wanted t (replaceRoute r routes) = env.wanted t routes := by
        unfold Env.wanted
        rw [tableOf_replaceRoute, if_pos hmain, wanted_replace_of_not htable hgoes]
        intro m hm
        exact (hsucc m (mem_tableOf.mp hm).1 (mem_tableOf.mp hm).2).1
      rw [hsame]
      exact ⟨h, fun key => (if_neg (by simp)).symm⟩
    | true =>
      have hnext : env.wanted t (replaceRoute r routes) =
          replaceRoute (env.buildRouteForTable r t) (env.wanted t routes) := by
        rw [Env.wanted, tableOf_replaceRoute, if_pos hmain, wanted_replace htable hgoes]
        · rfl
        · intro m hm
          exact hsucc m (mem_tableOf.mp hm).1 (mem_tableOf.mp hm).2
      have hin : ∀ old ∈ env.wanted t routes, old.table = (env.buildRouteForTable r t).table :=
        fun old hold => table_of_mem_wanted hold
      rw [hnext]
      refine ⟨h.replaceRoute hin, fun key => ?_⟩
      rw [slot_replaceRoute hin]
      simp [hmain]

/-- The copies wanted after a route went. -/
theorem keyed_wanted_delete (h : Keyed (env.wanted t routes)) (hr : r ∈ routes) :
    Keyed (env.wanted t (routes.erase r)) ∧ ∀ key, slot key (env.wanted t (routes.erase r)) =
      if (r.table = mainTable ∧ env.goes t r = true) ∧ (env.buildRouteForTable r t).key = key then
        none
      else slot key (env.wanted t routes) := by
  have herase : env.wanted t (routes.erase r) =
      (((tableOf mainTable routes).filter (env.goes t)).erase r).map
        fun r => env.buildRouteForTable r t := by
    unfold Env.wanted tableOf
    rw [← List.erase_filter, ← List.erase_filter]
  have hkeyed : Keyed (env.wanted t (routes.erase r)) := by
    rw [herase]
    exact h.sublist ((List.erase_sublist.map _).map _)
  refine ⟨hkeyed, fun key => ?_⟩
  have hinj : ((tableOf mainTable routes).filter (env.goes t)).Nodup :=
    (List.Nodup.of_map _ (List.Nodup.of_map _ h))
  by_cases hto : r.table = mainTable ∧ env.goes t r = true
  case neg =>
    rw [if_neg fun h => hto h.1, herase, List.erase_of_not_mem]
    · rfl
    · intro hmem
      rw [List.mem_filter, mem_tableOf] at hmem
      exact hto ⟨hmem.1.2, hmem.2⟩
  case pos =>
    have hwant : env.buildRouteForTable r t ∈ env.wanted t routes :=
      mem_wanted.mpr ⟨r, hr, hto.1, hto.2, rfl⟩
    have hmem : ∀ w, w ∈ env.wanted t (routes.erase r) ↔
        w ∈ env.wanted t routes ∧ w.key ≠ (env.buildRouteForTable r t).key := by
      intro w
      rw [herase]
      constructor
      · intro hw
        obtain ⟨m, hm, rfl⟩ := List.mem_map.mp hw
        have hm := (List.Nodup.mem_erase_iff hinj).mp hm
        have hmw : env.buildRouteForTable m t ∈ env.wanted t routes :=
          List.mem_map.mpr ⟨m, hm.2, rfl⟩
        refine ⟨hmw, fun hkey => hm.1 ?_⟩
        have hinj' : Set.InjOn (fun m => (env.buildRouteForTable m t).key)
            {m | m ∈ (tableOf mainTable routes).filter (env.goes t)} :=
          fun a ha b hb => List.inj_on_of_nodup_map (by simpa [Keyed, Env.wanted,
            Function.comp_def] using h) ha hb
        exact hinj' hm.2 (List.mem_filter.mpr ⟨mem_tableOf.mpr ⟨hr, hto.1⟩, hto.2⟩) hkey
      · rintro ⟨hw, hkey⟩
        obtain ⟨m, hm, rfl⟩ := List.mem_map.mp hw
        refine List.mem_map.mpr ⟨m, (List.Nodup.mem_erase_iff hinj).mpr ⟨?_, hm⟩, rfl⟩
        rintro rfl
        exact hkey rfl
    by_cases hkey : (env.buildRouteForTable r t).key = key
    · rw [if_pos ⟨hto, hkey⟩, slot_eq_none_iff]
      intro w hw
      exact hkey ▸ ((hmem w).mp hw).2
    · rw [if_neg fun h => hkey h.2]
      refine Option.ext fun w => ?_
      rw [hkeyed.slot_eq_some_iff, h.slot_eq_some_iff, hmem]
      constructor
      · rintro ⟨⟨hw, -⟩, hwkey⟩
        exact ⟨hw, hwkey⟩
      · rintro ⟨hw, hwkey⟩
        exact ⟨⟨hw, fun h => hkey (h.symm.trans hwkey)⟩, hwkey⟩

end OpenWrt.Mwan3.Rtmon
