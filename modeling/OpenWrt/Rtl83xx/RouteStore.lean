/-
# What the routes of the switch keep

As long as a number is free for a route, an address of the router for its device and a slot for
an entry of a host, the numbers of the routes are different and in their range, the bitmaps
mark these, and no two routes have one entry. A route is taken out with its entry when it is
not one of a host or of a local network, and the lookup of the switch finds no other entry.
-/

import Mathlib.Data.List.Nodup
import OpenWrt.Rtl83xx.Routes

namespace OpenWrt.Rtl83xx.L3

open OpenWrt.Lib

/-! ## What the store is for -/

/-- A place in one of the tables. -/
inductive Cell where
  | inPrefix (idx : ℕ)
  | inHost (row : ℕ)
deriving DecidableEq

def Ctrl.entry (ctrl : Ctrl) : Cell → Option Entry
  | .inPrefix idx => ctrl.prefixTable idx
  | .inHost row => ctrl.hostTable row

/-- The row of the host table that a destination gets. -/
def hostCell (dstIp : U32) : ℕ := hostRow (slotAt dstIp 0 0)

/-- The place of the entry of a route, from when it is valid. -/
def Route.cell (r : Route) : Option Cell :=
  if r.valid = false then none
  else if r.isHostRoute = true ∨ r.gwIp = 0 then some (.inHost (hostCell r.dstIp))
  else some (.inPrefix r.id)

/-- The number of a route is in the range for its kind. -/
def Route.IdInRange (r : Route) : Prop :=
  if r.isHostRoute = true then maxRoutes ≤ r.id ∧ r.id < maxRoutes + maxHostRoutes
  else r.id < maxRoutes

/-- The routes have different numbers, in their range, which the bitmaps mark, and different
entries. On the RTL930x number 0 is marked from the start. -/
structure Orderly (soc : Soc) (ctrl : Ctrl) : Prop where
  ids : (ctrl.routes.map Route.id).Nodup
  range : ∀ r ∈ ctrl.routes, r.IdInRange
  routeUseBm : ∀ i, ctrl.routeUseBm i = true ↔
    (soc = .rtl930x ∧ i = 0) ∨ ∃ r ∈ ctrl.routes, r.isHostRoute = false ∧ r.id = i
  hostRouteUseBm : ∀ i, ctrl.hostRouteUseBm i = true ↔
    ∃ r ∈ ctrl.routes, r.isHostRoute = true ∧ r.id = i + maxRoutes
  cells : ∀ r ∈ ctrl.routes, ∀ r' ∈ ctrl.routes, ∀ c, r.cell = some c → r'.cell = some c → r = r'
  unlocked : ctrl.locked = false

/-- The route is taken out, its entry is not valid any more, and every other entry is as it
was. -/
structure Removes (ctrl : Ctrl) (r : Route) (after : Ctrl) : Prop where
  routes : after.routes = ctrl.routes.erase r
  invalid : ∀ c, r.cell = some c → after.entry c = none
  others : ∀ c, r.cell ≠ some c → after.entry c = ctrl.entry c

def SlotsWereFree (ctrl after : Ctrl) : Prop :=
  ∀ r ∈ after.routes, ∀ row, r.cell = some (.inHost row) →
    (∀ r' ∈ ctrl.routes, r'.id = r.id → r'.cell ≠ some (.inHost row)) → ctrl.hostTable row = none

/-- A route that is not offloaded leaves nothing, a route that is deleted is taken out, and
where there is none nothing is changed. -/
def Event.Faithful (soc : Soc) (hw : Hw) (ctrl : Ctrl) (event : Event) : Prop :=
  SlotsWereFree ctrl (ctrl.apply soc hw event) ∧
    match event with
    | .fibAdd info env => (fibAddV4 soc ctrl info env).1 = false →
        (ctrl.apply soc hw event).routes = ctrl.routes ∧
        (ctrl.apply soc hw event).routeUseBm = ctrl.routeUseBm ∧
        (ctrl.apply soc hw event).hostRouteUseBm = ctrl.hostRouteUseBm ∧
        (ctrl.apply soc hw event).locked = ctrl.locked
    | .fibDel info =>
      if fibCheckV4 info = false ∧ ∃ r ∈ ctrl.routes, r.isOf info = true then
        ∃ r ∈ ctrl.routes, r.isOf info = true ∧ Removes ctrl r (ctrl.apply soc hw event)
      else ctrl.apply soc hw event = ctrl
    | .neighUpdate _ _ => True

/-! ## When it is kept -/

/-- The rows that the routes of a gateway get that have no entry. -/
def newHostRows (ip : U32) (routes : List Route) : List ℕ :=
  (routes.filter fun r => r.gwIp = ip ∧ r.isHostRoute = true ∧ r.valid = false).map fun r =>
    hostCell r.dstIp

def RowsFree (ctrl : Ctrl) (rows : List ℕ) : Prop :=
  rows.Nodup ∧ ∀ row ∈ rows, ctrl.hostTable row = none

def HasId (soc : Soc) (ctrl : Ctrl) (info : FibInfo) : Prop :=
  if info.dstLen = 32 ∧ soc = .rtl930x then
    findFirstZeroBit ctrl.hostRouteUseBm maxHostRoutes < maxHostRoutes
  else findFirstZeroBit ctrl.routeUseBm maxRoutes < maxRoutes

/-- There is a place for the address of the device in both tables, or it is there. -/
def HasMacs (ctrl : Ctrl) (mac : U64) : Prop :=
  (∃ i < maxRouterMacs, ctrl.routerMacs i = none ∨ ctrl.routerMacs i = some mac) ∧
    ∃ i < maxSmacs, ctrl.egressMacs (l3EgressDmacs + i) = 0 ∨ ctrl.egressMacs (l3EgressDmacs + i) = mac

/-- The rows that are written when a route is added: its own, and those of routes with the same
gateway when that is known. -/
def rowsOfAdd (soc : Soc) (ctrl : Ctrl) (info : FibInfo) (env : Env) : List ℕ :=
  if info.gw = 0 then if soc = .rtl930x then [hostCell info.dst] else []
  else if env.neighbour = none then []
  else if info.dstLen = 32 ∧ soc = .rtl930x then hostCell info.dst :: newHostRows info.gw ctrl.routes
  else newHostRows info.gw ctrl.routes

/-- The lookup of the switch finds the entry of a route, or none if it has none. The RTL839x does
not look for an entry. -/
def LookupOwn (soc : Soc) (hw : Hw) (ctrl : Ctrl) (r : Route) : Prop :=
  match soc with
  | .rtl839x => r.valid = false
  | .rtl930x => routeLookupHw hw ctrl r = if r.valid = true then (r.id : ℤ) else -1

/-- A route that is added has room everywhere. One that is deleted is no route of a host or of
a local network, and the lookup of the switch finds its entry, or none if it has none; one that
is not there has a gateway of its own. -/
def Event.Calm (soc : Soc) (hw : Hw) (ctrl : Ctrl) : Event → Prop
  | .fibAdd info env =>
    fibCheckV4 info = false → env.port = true → env.kzalloc = true → env.insert = true →
      HasId soc ctrl info ∧ (soc = .rtl930x → HasMacs ctrl info.mac) ∧
        RowsFree ctrl (rowsOfAdd soc ctrl info env)
  | .fibDel info =>
    fibCheckV4 info = false →
      match ctrl.routes.find? (Route.isOf info) with
      | some r =>
        r.isHostRoute = false ∧ (r.valid = true → r.gwIp ≠ 0) ∧ LookupOwn soc hw ctrl r
      | none => ∀ r ∈ ctrl.routes, r.gwIp ≠ info.gw
  | .neighUpdate gwAddr _ =>
    (∀ r ∈ ctrl.routes, r.gwIp = gwAddr → gwAddr ≠ 0) ∧ RowsFree ctrl (newHostRows gwAddr ctrl.routes)

/-- Every entry has its route, and a route of the host table its entry. -/
structure Kept (soc : Soc) (ctrl : Ctrl) : Prop extends Orderly soc ctrl where
  unreserved : soc = .rtl930x → ∀ r ∈ ctrl.routes, r.id ≠ 0
  prefixOwner : ∀ i e, ctrl.prefixTable i = some e → ∃ r ∈ ctrl.routes, r.cell = some (.inPrefix i) ∧
    (soc = .rtl930x → e = .route r.dstIp r.prefixLen r.action r.nhId)
  hostOwned : ∀ r ∈ ctrl.routes, ∀ row, r.cell = some (.inHost row) → ctrl.hostTable row ≠ none

/-! ## Routes -/

theorem cell_eq_none {r : Route} (h : r.valid = false) : r.cell = none := if_pos h

theorem cell_eq_inHost {r : Route} (h : r.valid = true) (hhost : r.isHostRoute = true ∨ r.gwIp = 0) :
    r.cell = some (.inHost (hostCell r.dstIp)) := by
  rw [Route.cell, if_neg (by rw [h]; decide), if_pos hhost]

theorem cell_eq_inPrefix {r : Route} (h : r.valid = true) (hhost : r.isHostRoute = false)
    (hgw : r.gwIp ≠ 0) : r.cell = some (.inPrefix r.id) := by
  have hnot : ¬ (r.isHostRoute = true ∨ r.gwIp = 0) := by
    rw [hhost, not_or]
    exact ⟨by decide, hgw⟩
  rw [Route.cell, if_neg (by rw [h]; decide), if_neg hnot]

/-- The three kinds of routes. -/
theorem cell_cases (r : Route) :
    (r.valid = false ∧ r.cell = none) ∨
      (r.valid = true ∧ (r.isHostRoute = true ∨ r.gwIp = 0) ∧
        r.cell = some (.inHost (hostCell r.dstIp))) ∨
      (r.valid = true ∧ r.isHostRoute = false ∧ r.gwIp ≠ 0 ∧ r.cell = some (.inPrefix r.id)) := by
  cases hvalid : r.valid with
  | false => exact .inl ⟨rfl, cell_eq_none hvalid⟩
  | true =>
    by_cases hhost : r.isHostRoute = true ∨ r.gwIp = 0
    · exact .inr (.inl ⟨rfl, hhost, cell_eq_inHost hvalid hhost⟩)
    · rw [not_or] at hhost
      have hhost' := eq_false_of_ne_true hhost.1
      exact .inr (.inr ⟨rfl, hhost', hhost.2, cell_eq_inPrefix hvalid hhost' hhost.2⟩)

theorem id_of_cell {r : Route} {i : ℕ} (h : r.cell = some (.inPrefix i)) :
    r.id = i ∧ r.isHostRoute = false := by
  obtain ⟨-, hcell⟩ | ⟨-, -, hcell⟩ | ⟨-, hhost, -, hcell⟩ := cell_cases r
  · rw [hcell] at h
    cases h
  · rw [hcell] at h
    cases h
  · rw [hcell] at h
    cases h
    exact ⟨rfl, hhost⟩

theorem findSlot_of_valid {rt : Route} (h : rt.valid = true) : findSlot rt = slotAt rt.dstIp 0 0 := by
  unfold findSlot
  rw [h]
  rfl

section Kept

variable {soc : Soc} {hw : Hw} {ctrl : Ctrl}

theorem Kept.eq_of_id (hkept : Kept soc ctrl) {r r' : Route} (hr : r ∈ ctrl.routes)
    (hr' : r' ∈ ctrl.routes) (hid : r.id = r'.id) : r = r' :=
  List.inj_on_of_nodup_map hkept.ids hr hr' hid

variable {r : Route} {info : FibInfo} {env : Env}

theorem Orderly.id_lt (horderly : Orderly soc ctrl) (hr : r ∈ ctrl.routes) : r.id < 2048 := by
  have hrange := horderly.range r hr
  unfold Route.IdInRange maxRoutes maxHostRoutes at hrange
  split at hrange
  · omega
  · omega

theorem tableIndex_natCast {i : ℕ} (h : i < 2048) : soc.tableIndex i = i := by
  unfold Soc.tableIndex
  cases soc with
  | rtl839x =>
    change ((i : ℤ) % 4096).toNat = i
    omega
  | rtl930x =>
    change ((i : ℤ) % 8192).toNat = i
    omega

/-! ## A gateway becomes known -/

/-- What is read of a route are its own fields. -/
theorem Kept.resolved_routeRead (hkept : Kept soc ctrl) (hr : r ∈ ctrl.routes) (mac : U64) :
    (routeRead soc ctrl r.id r).resolved mac = r.resolved mac := by
  unfold routeRead
  rw [tableIndex_natCast (hkept.id_lt hr)]
  cases soc with
  | rtl839x =>
    cases ctrl.prefixTable r.id with
    | none => rfl
    | some e => cases e <;> rfl
  | rtl930x =>
    cases hread : ctrl.prefixTable r.id with
    | none => rfl
    | some e =>
      obtain ⟨r', hr', hcell, hentry⟩ := hkept.prefixOwner r.id e hread
      have hsame : r' = r := hkept.eq_of_id hr' hr (id_of_cell hcell).1
      subst hsame
      rw [hentry rfl]
      rfl

/-- A route takes the place of another. -/
def replaceRoute (r rt x : Route) : Route := if x = r then rt else x

/-- The tables after a route is written: at its own place there is an entry. -/
structure Writes (soc : Soc) (ctrl : Ctrl) (r rt : Route) (after : Ctrl) : Prop where
  routes : after.routes = ctrl.routes.map (replaceRoute r rt)
  routeUseBm : after.routeUseBm = ctrl.routeUseBm
  hostRouteUseBm : after.hostRouteUseBm = ctrl.hostRouteUseBm
  locked : after.locked = ctrl.locked
  prefixTable : ∀ i, rt.cell ≠ some (.inPrefix i) → after.prefixTable i = ctrl.prefixTable i
  hostTable : ∀ row, rt.cell ≠ some (.inHost row) → after.hostTable row = ctrl.hostTable row
  inPrefix : ∀ i e, rt.cell = some (.inPrefix i) → after.prefixTable i = some e →
    soc = .rtl930x → e = .route rt.dstIp rt.prefixLen rt.action rt.nhId
  inHost : ∀ row, rt.cell = some (.inHost row) → after.hostTable row ≠ none

theorem writes_hostRouteWrite {after : Ctrl} {r rt : Route} (hvalid : rt.valid = true)
    (hhost : rt.isHostRoute = true ∨ rt.gwIp = 0)
    (hroutes : after.routes = ctrl.routes.map (replaceRoute r rt))
    (hrouteUseBm : after.routeUseBm = ctrl.routeUseBm)
    (hhostRouteUseBm : after.hostRouteUseBm = ctrl.hostRouteUseBm)
    (hlocked : after.locked = ctrl.locked) (hprefixes : after.prefixTable = ctrl.prefixTable)
    (htable : after.hostTable = ctrl.hostTable) :
    Writes soc ctrl r rt (hostRouteWrite after (findSlot rt) rt) := by
  have hcell := cell_eq_inHost hvalid hhost
  rw [findSlot_of_valid hvalid]
  refine ⟨hroutes, hrouteUseBm, hhostRouteUseBm, hlocked, fun i _ => congrFun hprefixes i, ?_, ?_, ?_⟩
  · intro row hrow
    change Function.update after.hostTable (hostCell rt.dstIp) _ row = _
    rw [Function.update_of_ne, htable]
    rintro rfl
    exact hrow hcell
  · intro i e h
    rw [hcell] at h
    cases h
  · intro row h
    rw [hcell] at h
    cases h
    change Function.update after.hostTable (hostCell rt.dstIp) _ (hostCell rt.dstIp) ≠ none
    rw [Function.update_self]
    exact Option.some_ne_none _

theorem Kept.writes_updateRoute (hkept : Kept soc ctrl) (hr : r ∈ ctrl.routes) (hgw : r.gwIp ≠ 0)
    (mac : U64) : Writes soc ctrl r (r.resolved mac) (updateRoute soc mac ctrl r) := by
  have hid : (r.resolved mac).id = r.id := rfl
  unfold updateRoute
  dsimp only
  rw [hkept.resolved_routeRead hr]
  cases hhost : (r.resolved mac).isHostRoute with
  | true =>
    rw [if_pos rfl]
    cases soc with
    | rtl839x => exact writes_hostRouteWrite rfl (.inl hhost) rfl rfl rfl rfl rfl rfl
    | rtl930x => exact writes_hostRouteWrite rfl (.inl hhost) rfl rfl rfl rfl rfl rfl
  | false =>
    have hcell : (r.resolved mac).cell = some (.inPrefix r.id) := cell_eq_inPrefix rfl hhost hgw
    rw [if_neg (by decide), hid]
    unfold routeWrite
    rw [tableIndex_natCast (hkept.id_lt hr)]
    refine ⟨?_, ?_, ?_, ?_, ?_, ?_, ?_, ?_⟩
    · cases soc <;> rfl
    · cases soc <;> rfl
    · cases soc <;> rfl
    · cases soc <;> rfl
    · intro i hi
      dsimp only
      rw [Function.update_of_ne]
      · cases soc <;> rfl
      · rintro rfl
        exact hi hcell
    · intro row _
      cases soc <;> rfl
    · intro i e hi hread hsoc
      rw [hcell] at hi
      cases hi
      subst hsoc
      dsimp only at hread
      rw [Function.update_self] at hread
      cases hread
      rfl
    · intro row hrow
      rw [hcell] at hrow
      cases hrow

theorem replaceRoute_cases {r rt x : Route} :
    (x = r ∧ replaceRoute r rt x = rt) ∨ (x ≠ r ∧ replaceRoute r rt x = x) := by
  by_cases hx : x = r
  · exact .inl ⟨hx, if_pos hx⟩
  · exact .inr ⟨hx, if_neg hx⟩

/-- A property of the number and the kind is one of the routes before. -/
theorem exists_mem_replaceRoute {r rt : Route} {routes : List Route} (hid : rt.id = r.id)
    (hhost : rt.isHostRoute = r.isHostRoute) (P : Bool → ℕ → Prop) :
    (∃ x ∈ routes.map (replaceRoute r rt), P x.isHostRoute x.id) ↔
      ∃ x ∈ routes, P x.isHostRoute x.id := by
  have hsame : ∀ x : Route, (replaceRoute r rt x).isHostRoute = x.isHostRoute ∧
      (replaceRoute r rt x).id = x.id := by
    intro x
    obtain ⟨rfl, heq⟩ | ⟨-, heq⟩ := @replaceRoute_cases r rt x
    · rw [heq]
      exact ⟨hhost, hid⟩
    · rw [heq]
      exact ⟨rfl, rfl⟩
  constructor
  · rintro ⟨x', hx', hP⟩
    obtain ⟨x, hx, rfl⟩ := List.mem_map.mp hx'
    rw [(hsame x).1, (hsame x).2] at hP
    exact ⟨x, hx, hP⟩
  · rintro ⟨x, hx, hP⟩
    refine ⟨replaceRoute r rt x, List.mem_map_of_mem hx, ?_⟩
    rw [(hsame x).1, (hsame x).2]
    exact hP

theorem Kept.eq_of_cell (hkept : Kept soc ctrl) {r rt x : Route} {c : Cell} (hr : r ∈ ctrl.routes)
    (hx : x ∈ ctrl.routes) (hid : rt.id = r.id) (hrt : rt.cell = some c) (hcell : x.cell = some c)
    (hnew : r.cell = some c ∨ ∀ row, c = .inHost row → ctrl.hostTable row = none) : x = r := by
  obtain hold | hfree := hnew
  · exact hkept.cells x hx r hr c hcell hold
  · cases c with
    | inPrefix i =>
      apply hkept.eq_of_id hx hr
      rw [(id_of_cell hcell).1, ← hid, (id_of_cell hrt).1]
    | inHost row => exact absurd (hfree row rfl) (hkept.hostOwned x hx row hcell)

/-- Writing a route keeps everything, when the slot it is new in is free. -/
theorem Kept.of_writes (hkept : Kept soc ctrl) {r rt : Route} {after : Ctrl} (hr : r ∈ ctrl.routes)
    (hid : rt.id = r.id) (hhost : rt.isHostRoute = r.isHostRoute)
    (hold : ∀ c, r.cell = some c → rt.cell = some c)
    (hnew : ∀ c, rt.cell = some c → r.cell = some c ∨
      ∀ row, c = .inHost row → ctrl.hostTable row = none)
    (hwrites : Writes soc ctrl r rt after) : Kept soc after := by
  have hmem : ∀ x' ∈ after.routes, ∃ x ∈ ctrl.routes, replaceRoute r rt x = x' := by
    intro x' hx'
    rw [hwrites.routes] at hx'
    exact List.mem_map.mp hx'
  have hrt : rt ∈ after.routes := by
    rw [hwrites.routes]
    exact List.mem_map.mpr ⟨r, hr, if_pos rfl⟩
  have hkeep : ∀ x ∈ ctrl.routes, x ≠ r → x ∈ after.routes := by
    intro x hx hne
    rw [hwrites.routes]
    exact List.mem_map.mpr ⟨x, hx, if_neg hne⟩
  refine ⟨⟨?_, ?_, ?_, ?_, ?_, ?_⟩, ?_, ?_, ?_⟩
  · have hids : (ctrl.routes.map (replaceRoute r rt)).map Route.id = ctrl.routes.map Route.id := by
      rw [List.map_map]
      apply List.map_congr_left
      intro x _
      obtain ⟨rfl, heq⟩ | ⟨-, heq⟩ := @replaceRoute_cases r rt x
      · exact (congrArg Route.id heq).trans hid
      · exact congrArg Route.id heq
    rw [hwrites.routes, hids]
    exact hkept.ids
  · intro x' hx'
    obtain ⟨x, hx, heq⟩ := hmem x' hx'
    have hrange := hkept.range x hx
    obtain ⟨rfl, heq'⟩ | ⟨-, heq'⟩ := @replaceRoute_cases r rt x
    · rw [← heq, heq', Route.IdInRange, hid, hhost]
      exact hrange
    · rw [← heq, heq']
      exact hrange
  · intro i
    rw [hwrites.routeUseBm, hkept.routeUseBm, hwrites.routes,
      exists_mem_replaceRoute hid hhost fun isHost id => isHost = false ∧ id = i]
  · intro i
    rw [hwrites.hostRouteUseBm, hkept.hostRouteUseBm, hwrites.routes,
      exists_mem_replaceRoute hid hhost fun isHost id => isHost = true ∧ id = i + maxRoutes]
  · intro x' hx' y' hy' c hxc hyc
    obtain ⟨x, hx, rfl⟩ := hmem x' hx'
    obtain ⟨y, hy, rfl⟩ := hmem y' hy'
    obtain ⟨hxr, hxeq⟩ | ⟨hxr, hxeq⟩ := @replaceRoute_cases r rt x
    · obtain ⟨hyr, hyeq⟩ | ⟨hyr, hyeq⟩ := @replaceRoute_cases r rt y
      · rw [hxeq, hyeq]
      · rw [hxeq] at hxc
        rw [hyeq] at hyc
        exact absurd (hkept.eq_of_cell hr hy hid hxc hyc (hnew c hxc)) hyr
    · obtain ⟨hyr, hyeq⟩ | ⟨hyr, hyeq⟩ := @replaceRoute_cases r rt y
      · rw [hxeq] at hxc
        rw [hyeq] at hyc
        exact absurd (hkept.eq_of_cell hr hx hid hyc hxc (hnew c hyc)) hxr
      · rw [hxeq] at hxc ⊢
        rw [hyeq] at hyc ⊢
        exact hkept.cells x hx y hy c hxc hyc
  · rw [hwrites.locked]
    exact hkept.unlocked
  · intro hsoc x' hx'
    obtain ⟨x, hx, rfl⟩ := hmem x' hx'
    have hne := hkept.unreserved hsoc x hx
    obtain ⟨rfl, heq⟩ | ⟨-, heq⟩ := @replaceRoute_cases r rt x
    · rw [heq, hid]
      exact hne
    · rw [heq]
      exact hne
  · intro i e hread
    by_cases hown : rt.cell = some (.inPrefix i)
    · exact ⟨rt, hrt, hown, hwrites.inPrefix i e hown hread⟩
    · rw [hwrites.prefixTable i hown] at hread
      obtain ⟨x, hx, hcell, hentry⟩ := hkept.prefixOwner i e hread
      have hne : x ≠ r := by
        rintro rfl
        exact hown (hold _ hcell)
      exact ⟨x, hkeep x hx hne, hcell, hentry⟩
  · intro x' hx' row hcell
    obtain ⟨x, hx, rfl⟩ := hmem x' hx'
    by_cases hown : rt.cell = some (.inHost row)
    · exact hwrites.inHost row hown
    · rw [hwrites.hostTable row hown]
      obtain ⟨hxr, hxeq⟩ | ⟨hxr, hxeq⟩ := @replaceRoute_cases r rt x
      · rw [hxeq] at hcell
        exact absurd hcell hown
      · rw [hxeq] at hcell
        exact hkept.hostOwned x hx row hcell

theorem cell_resolved (hgw : r.gwIp ≠ 0) (mac : U64) {c : Cell} (hcell : r.cell = some c) :
    (r.resolved mac).cell = some c := by
  obtain ⟨-, hnone⟩ | ⟨-, hhost, hrow⟩ | ⟨-, hhost, -, hidx⟩ := cell_cases r
  · rw [hnone] at hcell
    cases hcell
  · rw [← hcell, hrow]
    exact cell_eq_inHost rfl hhost
  · rw [← hcell, hidx]
    exact cell_eq_inPrefix rfl hhost hgw

/-- The place it gets otherwise. -/
theorem cell_of_cell_resolved (hgw : r.gwIp ≠ 0) {mac : U64} {c : Cell}
    (hcell : (r.resolved mac).cell = some c) :
    r.cell = some c ∨ r.valid = false ∧ ∀ row, c = .inHost row →
      r.isHostRoute = true ∧ hostCell r.dstIp = row := by
  cases hvalid : r.valid with
  | false =>
    refine .inr ⟨rfl, fun row hrow => ?_⟩
    subst hrow
    cases hhost : r.isHostRoute with
    | true =>
      have hrow' : (r.resolved mac).cell = some (.inHost (hostCell r.dstIp)) :=
        cell_eq_inHost rfl (.inl hhost)
      rw [hcell] at hrow'
      cases hrow'
      exact ⟨rfl, rfl⟩
    | false =>
      have hidx : (r.resolved mac).cell = some (.inPrefix r.id) := cell_eq_inPrefix rfl hhost hgw
      rw [hcell] at hidx
      cases hidx
  | true =>
    obtain ⟨hnot, -⟩ | ⟨-, hhost, hrow⟩ | ⟨-, hhost, -, hidx⟩ := cell_cases r
    · rw [hvalid] at hnot
      cases hnot
    · have hrow' : (r.resolved mac).cell = some (.inHost (hostCell r.dstIp)) := cell_eq_inHost rfl hhost
      rw [hcell] at hrow'
      exact .inl (hrow.trans hrow'.symm)
    · have hidx' : (r.resolved mac).cell = some (.inPrefix r.id) := cell_eq_inPrefix rfl hhost hgw
      rw [hcell] at hidx'
      exact .inl (hidx.trans hidx'.symm)

theorem Kept.updateRoute (hkept : Kept soc ctrl) (hr : r ∈ ctrl.routes) (hgw : r.gwIp ≠ 0)
    (hfree : r.isHostRoute = true → r.valid = false → ctrl.hostTable (hostCell r.dstIp) = none)
    (mac : U64) : Kept soc (updateRoute soc mac ctrl r) := by
  have hwrites := hkept.writes_updateRoute hr hgw mac
  refine @Kept.of_writes soc ctrl hkept r (r.resolved mac) _ hr rfl rfl
    (fun c hc => cell_resolved hgw mac hc) (fun c hc => ?_) hwrites
  obtain hold | ⟨hvalid, hnew⟩ := cell_of_cell_resolved hgw hc
  · exact .inl hold
  · refine .inr fun row hrow => ?_
    obtain ⟨hhost, rfl⟩ := hnew row hrow
    exact hfree hhost hvalid

theorem mem_newHostRows {ip : U32} {routes : List Route} {row : ℕ} :
    row ∈ newHostRows ip routes ↔ ∃ r ∈ routes,
      r.gwIp = ip ∧ r.isHostRoute = true ∧ r.valid = false ∧ hostCell r.dstIp = row := by
  unfold newHostRows
  rw [List.mem_map]
  constructor
  · rintro ⟨r, hr, hrow⟩
    rw [List.mem_filter, decide_eq_true_iff] at hr
    exact ⟨r, hr.1, hr.2.1, hr.2.2.1, hr.2.2.2, hrow⟩
  · rintro ⟨r, hr, hgw, hhost, hvalid, hrow⟩
    refine ⟨r, ?_, hrow⟩
    rw [List.mem_filter, decide_eq_true_iff]
    exact ⟨hr, hgw, hhost, hvalid⟩

theorem newHostRows_cons_of_new {routes : List Route} (hhost : r.isHostRoute = true)
    (hvalid : r.valid = false) :
    newHostRows r.gwIp (r :: routes) = hostCell r.dstIp :: newHostRows r.gwIp routes := by
  unfold newHostRows
  rw [List.filter_cons_of_pos, List.map_cons]
  rw [decide_eq_true_iff]
  exact ⟨rfl, hhost, hvalid⟩

theorem newHostRows_cons_of_not {ip : U32} {r : Route} {routes : List Route}
    (h : ¬ (r.isHostRoute = true ∧ r.valid = false)) :
    newHostRows ip (r :: routes) = newHostRows ip routes := by
  unfold newHostRows
  rw [List.filter_cons_of_neg]
  rw [decide_eq_true_iff]
  exact fun hall => h hall.2

/-- What a step of the loop leaves for the routes to come. -/
theorem RowsFree.of_cons (hkept : Kept soc ctrl) {todo : List Route} (hr : r ∈ ctrl.routes)
    (hgw : r.gwIp ≠ 0) {mac : U64} (hrows : RowsFree ctrl (newHostRows r.gwIp (r :: todo))) :
    RowsFree (updateRoute soc mac ctrl r) (newHostRows r.gwIp todo) := by
  have hwrites := hkept.writes_updateRoute hr hgw mac
  have hsub : ∀ row ∈ newHostRows r.gwIp todo, row ∈ newHostRows r.gwIp (r :: todo) := by
    intro row hrow
    obtain ⟨x, hx, hrest⟩ := mem_newHostRows.mp hrow
    exact mem_newHostRows.mpr ⟨x, List.mem_cons_of_mem _ hx, hrest⟩
  by_cases hnew : r.isHostRoute = true ∧ r.valid = false
  · rw [newHostRows_cons_of_new hnew.1 hnew.2] at hrows
    obtain ⟨hnotMem, hnodup⟩ := List.nodup_cons.mp hrows.1
    refine ⟨hnodup, fun row hrow => ?_⟩
    have hfree := hrows.2 row (List.mem_cons_of_mem _ hrow)
    have hown : (r.resolved mac).cell = some (.inHost (hostCell r.dstIp)) :=
      cell_eq_inHost rfl (.inl hnew.1)
    rw [hwrites.hostTable row, hfree]
    rw [hown]
    intro hcell
    cases hcell
    exact hnotMem hrow
  · have hsame := @newHostRows_cons_of_not r.gwIp r todo hnew
    rw [hsame] at hrows
    refine ⟨hrows.1, fun row hrow => ?_⟩
    have hfree := hrows.2 row hrow
    rw [hwrites.hostTable row, hfree]
    intro hcell
    obtain hold | ⟨hvalid, hhost⟩ := cell_of_cell_resolved hgw hcell
    · exact hkept.hostOwned r hr row hold hfree
    · exact hnew ⟨(hhost row rfl).1, hvalid⟩

/-- What a run of the loop keeps. -/
structure Updated (soc : Soc) (ctrl : Ctrl) (todo : List Route) (mac : U64) (after : Ctrl) : Prop where
  kept : Kept soc after
  routes : ∀ x ∈ after.routes, x ∈ ctrl.routes ∨ ∃ r ∈ todo, x = r.resolved mac

/-- The routes of a gateway get their entries. -/
theorem Kept.foldl_updateRoute (hkept : Kept soc ctrl) {ip : U32} (hip : ip ≠ 0) {todo : List Route}
    (hmem : ∀ r ∈ todo, r ∈ ctrl.routes ∧ r.gwIp = ip) (hnodup : todo.Nodup)
    (hrows : RowsFree ctrl (newHostRows ip todo)) (mac : U64) :
    Updated soc ctrl todo mac (todo.foldl (L3.updateRoute soc mac) ctrl) := by
  induction todo generalizing ctrl with
  | nil => exact ⟨hkept, fun x hx => .inl hx⟩
  | cons r todo ih =>
    obtain ⟨hr, rfl⟩ := hmem r List.mem_cons_self
    obtain ⟨hnotMem, hnodup⟩ := List.nodup_cons.mp hnodup
    have hfree : r.isHostRoute = true → r.valid = false →
        ctrl.hostTable (hostCell r.dstIp) = none := fun hhost hvalid =>
      hrows.2 _ (mem_newHostRows.mpr ⟨r, List.mem_cons_self, rfl, hhost, hvalid, rfl⟩)
    have hwrites := hkept.writes_updateRoute hr hip mac
    have hnext := ih (hkept.updateRoute hr hip hfree mac) ?_ hnodup (hrows.of_cons hkept hr hip)
    · refine ⟨hnext.kept, fun x hx => ?_⟩
      obtain hx | ⟨r', hr', heq⟩ := hnext.routes x hx
      · rw [hwrites.routes] at hx
        obtain ⟨y, hy, rfl⟩ := List.mem_map.mp hx
        obtain ⟨-, heq⟩ | ⟨-, heq⟩ := @replaceRoute_cases r (r.resolved mac) y
        · exact .inr ⟨r, List.mem_cons_self, heq⟩
        · rw [heq]
          exact .inl hy
      · exact .inr ⟨r', List.mem_cons_of_mem _ hr', heq⟩
    · intro x hx
      refine ⟨?_, (hmem x (List.mem_cons_of_mem _ hx)).2⟩
      have hne : x ≠ r := by
        rintro rfl
        exact hnotMem hx
      rw [hwrites.routes]
      exact List.mem_map.mpr ⟨x, (hmem x (List.mem_cons_of_mem _ hx)).1, if_neg hne⟩

theorem newHostRows_filter (ip : U32) (routes : List Route) :
    newHostRows ip (routes.filter fun r => r.gwIp = ip) = newHostRows ip routes := by
  unfold newHostRows
  rw [List.filter_filter]
  congr 1
  apply List.filter_congr
  intro r _
  by_cases hgw : r.gwIp = ip
  · rw [decide_eq_true hgw, Bool.and_true]
  · rw [decide_eq_false hgw, Bool.and_false, decide_eq_false fun h => hgw h.1]

theorem slotsWereFree_of_routes {after : Ctrl} (h : ∀ r ∈ after.routes, r ∈ ctrl.routes) :
    SlotsWereFree ctrl after :=
  fun r hr _ hcell hnew => absurd hcell (hnew r (h r hr) rfl)

/-- Every slot that a route of the gateway gets was free. -/
theorem Updated.slotsWereFree {ip : U32} (hip : ip ≠ 0) {todo : List Route} {mac : U64} {after : Ctrl}
    (hmem : ∀ r ∈ todo, r ∈ ctrl.routes ∧ r.gwIp = ip) (hrows : RowsFree ctrl (newHostRows ip todo))
    (hupdated : Updated soc ctrl todo mac after) : SlotsWereFree ctrl after := by
  intro x hx row hcell hnew
  obtain hold | ⟨r, hr, rfl⟩ := hupdated.routes x hx
  · exact absurd hcell (hnew x hold rfl)
  · obtain ⟨hr', rfl⟩ := hmem r hr
    obtain hold | ⟨hvalid, hhost⟩ := cell_of_cell_resolved hip hcell
    · exact absurd hold (hnew r hr' rfl)
    · obtain ⟨hhost, hrow⟩ := hhost row rfl
      exact hrows.2 row (mem_newHostRows.mpr ⟨r, hr, rfl, hhost, hvalid, hrow⟩)

/-- A gateway becomes known: its routes are kept, and new slots were free. -/
theorem Kept.nexthopUpdate (hkept : Kept soc ctrl) {ip : U32}
    (hip : ∀ r ∈ ctrl.routes, r.gwIp = ip → ip ≠ 0) (hrows : RowsFree ctrl (newHostRows ip ctrl.routes))
    (mac : U64) :
    Kept soc (nexthopUpdate soc ctrl ip mac) ∧ SlotsWereFree ctrl (nexthopUpdate soc ctrl ip mac) := by
  unfold L3.nexthopUpdate
  by_cases hzero : ip = 0
  · have hnone : (ctrl.routes.filter fun r => decide (r.gwIp = ip)) = [] := by
      rw [List.filter_eq_nil_iff]
      intro r hr hgw
      exact hip r hr (of_decide_eq_true hgw) hzero
    rw [hnone]
    exact ⟨hkept, slotsWereFree_of_routes fun r hr => hr⟩
  · have hmem : ∀ r ∈ ctrl.routes.filter fun r => decide (r.gwIp = ip), r ∈ ctrl.routes ∧ r.gwIp = ip := by
      intro r hr
      rw [List.mem_filter, decide_eq_true_iff] at hr
      exact hr
    have hnodup : ctrl.routes.Nodup := List.Nodup.of_map _ hkept.ids
    rw [← newHostRows_filter] at hrows
    have hupdated := hkept.foldl_updateRoute hzero hmem (hnodup.filter _) hrows mac
    exact ⟨hupdated.kept, hupdated.slotsWereFree hzero hmem hrows⟩

/-! ## A route is added -/

theorem findFirstZeroBit_free {bm : ℕ → Bool} {size : ℕ} (h : findFirstZeroBit bm size < size) :
    bm (findFirstZeroBit bm size) = false := by
  unfold findFirstZeroBit at h ⊢
  cases hfind : (List.range size).find? fun i => !bm i with
  | none =>
    rw [hfind] at h
    exact absurd h (Nat.lt_irrefl size)
  | some i =>
    have hfree := List.find?_some hfind
    rw [Bool.not_eq_true'] at hfree
    exact hfree

/-- A route with a number of its own, before it is in the hash table. -/
structure Allocated (soc : Soc) (ctrl : Ctrl) (r : Route) (after : Ctrl) : Prop where
  range : r.IdInRange
  unreserved : soc = .rtl930x → r.id ≠ 0
  fresh : ∀ x ∈ ctrl.routes, x.id ≠ r.id
  routeUseBm : ∀ i, after.routeUseBm i = true ↔
    ctrl.routeUseBm i = true ∨ (r.isHostRoute = false ∧ r.id = i)
  hostRouteUseBm : ∀ i, after.hostRouteUseBm i = true ↔
    ctrl.hostRouteUseBm i = true ∨ (r.isHostRoute = true ∧ r.id = i + maxRoutes)

theorem update_true_iff {bm : ℕ → Bool} {idx i : ℕ} :
    Function.update bm idx true i = true ↔ bm i = true ∨ idx = i := by
  by_cases h : i = idx
  · subst h
    rw [Function.update_self]
    exact iff_of_true rfl (.inr rfl)
  · rw [Function.update_of_ne h]
    exact ⟨.inl, fun hor => hor.resolve_right fun heq => h heq.symm⟩

/-- A number that is free is allocated. -/
theorem Kept.allocated_host (hkept : Kept soc ctrl)
    (hfree : findFirstZeroBit ctrl.hostRouteUseBm maxHostRoutes < maxHostRoutes)
    (hhost : r.isHostRoute = true)
    (hid : r.id = findFirstZeroBit ctrl.hostRouteUseBm maxHostRoutes + maxRoutes) :
    Allocated soc ctrl r { ctrl with
      hostRouteUseBm := Function.update ctrl.hostRouteUseBm
        (findFirstZeroBit ctrl.hostRouteUseBm maxHostRoutes) true } := by
  have hbit := findFirstZeroBit_free hfree
  refine ⟨?_, fun _ => ?_, fun x hx heq => ?_, fun i => ?_, fun i => ?_⟩
  · rw [Route.IdInRange, if_pos hhost, hid]
    omega
  · rw [hid, maxRoutes]
    omega
  · have hrange := hkept.range x hx
    unfold Route.IdInRange at hrange
    cases hxhost : x.isHostRoute with
    | true =>
      have hset := (hkept.hostRouteUseBm _).mpr ⟨x, hx, hxhost, heq.trans hid⟩
      rw [hbit] at hset
      cases hset
    | false =>
      rw [hxhost, if_neg (by decide)] at hrange
      omega
  · exact ⟨.inl, fun h => h.resolve_right fun h => by rw [hhost] at h; cases h.1⟩
  · rw [update_true_iff, hid]
    refine or_congr_right ⟨fun h => ⟨hhost, by rw [h]⟩, fun h => Nat.add_right_cancel h.2⟩

theorem Kept.allocated_prefix (hkept : Kept soc ctrl)
    (hfree : findFirstZeroBit ctrl.routeUseBm maxRoutes < maxRoutes) (hhost : r.isHostRoute = false)
    (hid : r.id = findFirstZeroBit ctrl.routeUseBm maxRoutes) :
    Allocated soc ctrl r { ctrl with
      routeUseBm := Function.update ctrl.routeUseBm (findFirstZeroBit ctrl.routeUseBm maxRoutes) true } := by
  have hbit := findFirstZeroBit_free hfree
  refine ⟨?_, fun hsoc hzero => ?_, fun x hx heq => ?_, fun i => ?_, fun i => ?_⟩
  · rw [Route.IdInRange, hhost, if_neg (by decide), hid]
    exact hfree
  · -- number 0 is marked
    have hset := (hkept.routeUseBm 0).mpr (.inl ⟨hsoc, rfl⟩)
    rw [← hid, hzero, hset] at hbit
    cases hbit
  · have hrange := hkept.range x hx
    unfold Route.IdInRange at hrange
    cases hxhost : x.isHostRoute with
    | true =>
      rw [hxhost, if_pos rfl] at hrange
      omega
    | false =>
      have hset := (hkept.routeUseBm _).mpr (.inr ⟨x, hx, hxhost, heq.trans hid⟩)
      rw [hbit] at hset
      cases hset
  · rw [update_true_iff, hid]
    exact or_congr_right ⟨fun h => ⟨hhost, h⟩, And.right⟩
  · exact ⟨.inl, fun h => h.resolve_right fun h => by rw [hhost] at h; cases h.1⟩

/-- A route with a number of its own comes into the hash table, with an entry in a free row or
without one. -/
theorem Kept.cons (hkept : Kept soc ctrl) {r : Route} {ctrl₁ after : Ctrl}
    (halloc : Allocated soc ctrl r ctrl₁) (hroutes : after.routes = r :: ctrl.routes)
    (hrouteUseBm : after.routeUseBm = ctrl₁.routeUseBm)
    (hhostRouteUseBm : after.hostRouteUseBm = ctrl₁.hostRouteUseBm)
    (hlocked : after.locked = ctrl.locked) (hprefixes : after.prefixTable = ctrl.prefixTable)
    (hcell : (r.cell = none ∧ after.hostTable = ctrl.hostTable) ∨
      ∃ row e, r.cell = some (.inHost row) ∧ ctrl.hostTable row = none ∧
        after.hostTable = Function.update ctrl.hostTable row (some e)) : Kept soc after := by
  -- no other route has the place of the new one
  have halone : ∀ x ∈ ctrl.routes, ∀ c, x.cell = some c → r.cell ≠ some c := by
    intro x hx c hxc hrc
    obtain ⟨hnone, -⟩ | ⟨row, e, hrow, hfree, -⟩ := hcell
    · rw [hnone] at hrc
      cases hrc
    · rw [hrow] at hrc
      cases hrc
      exact hkept.hostOwned x hx row hxc hfree
  refine ⟨⟨?_, ?_, ?_, ?_, ?_, ?_⟩, ?_, ?_, ?_⟩
  · rw [hroutes, List.map_cons, List.nodup_cons]
    refine ⟨fun hmem => ?_, hkept.ids⟩
    obtain ⟨x, hx, heq⟩ := List.mem_map.mp hmem
    exact halloc.fresh x hx heq
  · rw [hroutes]
    intro x hx
    obtain rfl | hx := List.mem_cons.mp hx
    · exact halloc.range
    · exact hkept.range x hx
  · intro i
    rw [hrouteUseBm, halloc.routeUseBm, hkept.routeUseBm, hroutes, List.exists_mem_cons_iff, or_assoc]
    exact or_congr_right or_comm
  · intro i
    rw [hhostRouteUseBm, halloc.hostRouteUseBm, hkept.hostRouteUseBm, hroutes, List.exists_mem_cons_iff]
    exact or_comm
  · rw [hroutes]
    intro x hx y hy c hxc hyc
    obtain rfl | hx' := List.mem_cons.mp hx
    · obtain rfl | hy' := List.mem_cons.mp hy
      · rfl
      · exact absurd hxc (halone y hy' c hyc)
    · obtain rfl | hy' := List.mem_cons.mp hy
      · exact absurd hyc (halone x hx' c hxc)
      · exact hkept.cells x hx' y hy' c hxc hyc
  · rw [hlocked]
    exact hkept.unlocked
  · rw [hroutes]
    intro hsoc x hx
    obtain rfl | hx := List.mem_cons.mp hx
    · exact halloc.unreserved hsoc
    · exact hkept.unreserved hsoc x hx
  · intro i e hread
    rw [hprefixes] at hread
    obtain ⟨x, hx, hxc, hentry⟩ := hkept.prefixOwner i e hread
    exact ⟨x, by rw [hroutes]; exact List.mem_cons_of_mem _ hx, hxc, hentry⟩
  · rw [hroutes]
    intro x hx row hxc
    obtain ⟨hnone, htable⟩ | ⟨row', e, hrow, hfree, htable⟩ := hcell
    · obtain rfl | hx := List.mem_cons.mp hx
      · rw [hnone] at hxc
        cases hxc
      · rw [htable]
        exact hkept.hostOwned x hx row hxc
    · rw [htable]
      by_cases heq : row = row'
      · subst heq
        rw [Function.update_self]
        exact Option.some_ne_none e
      · rw [Function.update_of_ne heq]
        obtain rfl | hx := List.mem_cons.mp hx
        · rw [hrow] at hxc
          cases hxc
          exact absurd rfl heq
        · exact hkept.hostOwned x hx row hxc

theorem routerMacFrom_ne_none {routerMacs : ℕ → Option U64} {mac : U64} {is : List ℕ}
    {free : Option ℕ}
    (h : free ≠ none ∨ ∃ i ∈ is, routerMacs i = none ∨ routerMacs i = some mac) :
    routerMacFrom routerMacs mac is free ≠ none := by
  induction is generalizing free with
  | nil =>
    obtain hfree | ⟨i, hi, -⟩ := h
    · exact hfree
    · cases hi
  | cons j is ih =>
    unfold routerMacFrom
    cases hread : routerMacs j with
    | none =>
      apply ih
      cases free with
      | none => exact .inl (Option.some_ne_none j)
      | some i => exact .inl (Option.some_ne_none i)
    | some m =>
      dsimp only
      split
      · exact Option.some_ne_none j
      next hne =>
        apply ih
        obtain hfree | ⟨i, hi, hplace⟩ := h
        · exact .inl hfree
        · obtain rfl | hi := List.mem_cons.mp hi
          · rw [hread] at hplace
            obtain hnone | hsome := hplace
            · cases hnone
            · cases hsome
              exact absurd rfl hne
          · exact .inr ⟨i, hi, hplace⟩

theorem smacFrom_ne_full {egressMacs : ℕ → U64} {mac : U64} {is : List ℕ} {free : Option ℕ}
    (h : free ≠ none ∨ ∃ i ∈ is, egressMacs (l3EgressDmacs + i) = 0 ∨
      egressMacs (l3EgressDmacs + i) = mac) :
    smacFrom egressMacs mac is free ≠ .full := by
  induction is generalizing free with
  | nil =>
    obtain hfree | ⟨i, hi, -⟩ := h
    · cases free with
      | none => exact absurd rfl hfree
      | some i => exact fun heq => by cases heq
    · cases hi
  | cons j is ih =>
    unfold smacFrom
    dsimp only
    split
    · exact ih (.inl (Option.some_ne_none j))
    next hused =>
      split
      · exact fun heq => by cases heq
      next hne =>
        apply ih
        cases free with
        | some i => exact .inl (Option.some_ne_none i)
        | none =>
          obtain hfree | ⟨i, hi, hplace⟩ := h
          · exact absurd rfl hfree
          · obtain rfl | hi := List.mem_cons.mp hi
            · obtain hzero | hmac := hplace
              · exact absurd ⟨rfl, hzero⟩ hused
              · exact absurd hmac hne
            · exact .inr ⟨i, hi, hplace⟩

/-- With places for the address, only the tables of addresses are changed, and a local route is
written to its slot. -/
theorem addRouterMacs_eq (hmacs : HasMacs ctrl info.mac) (route : Route) :
    ∃ routerMacs egressMacs, addRouterMacs info ctrl route =
      (true, if info.gw = 0 then
        let route := { route with valid := true, action := .trap2cpu }
        hostRouteWrite { ctrl with routes := route :: ctrl.routes, routerMacs, egressMacs }
          (findSlot route) route
      else { ctrl with routes := route :: ctrl.routes, routerMacs, egressMacs }) := by
  obtain ⟨⟨i, hi, hrouter⟩, j, hj, hegress⟩ := hmacs
  have hsome := @routerMacFrom_ne_none ctrl.routerMacs info.mac (List.range maxRouterMacs) none
    (.inr ⟨i, List.mem_range.mpr hi, hrouter⟩)
  have hnotFull := @smacFrom_ne_full ctrl.egressMacs info.mac (List.range maxSmacs) none
    (.inr ⟨j, List.mem_range.mpr hj, hegress⟩)
  unfold addRouterMacs allocRouterMac allocEgressIntf
  cases hplace : routerMacFrom ctrl.routerMacs info.mac (List.range maxRouterMacs) none with
  | none => exact absurd hplace hsome
  | some k =>
    refine ⟨Function.update ctrl.routerMacs k (some info.mac), ?_⟩
    dsimp only [Option.map_some]
    cases hsearch : smacFrom ctrl.egressMacs info.mac (List.range maxSmacs) none with
    | full => exact absurd hsearch hnotFull
    | found l =>
      refine ⟨ctrl.egressMacs, ?_⟩
      dsimp only
      split <;> rfl
    | free l =>
      refine ⟨Function.update ctrl.egressMacs (l3EgressDmacs + l) info.mac, ?_⟩
      dsimp only
      split <;> rfl

/-- With a free number and memory a route is allocated. -/
theorem Kept.exists_alloc (hkept : Kept soc ctrl) (hid : HasId soc ctrl info)
    (hkzalloc : env.kzalloc = true) (hinsert : env.insert = true) :
    ∃ r routeUseBm hostRouteUseBm,
      (if info.dstLen = 32 ∧ soc = .rtl930x then hostRouteAlloc env ctrl info.gw
        else routeAlloc env ctrl info.gw) = some (r, { ctrl with routeUseBm, hostRouteUseBm }) ∧
      r.gwIp = info.gw ∧ r.valid = false ∧
      r.isHostRoute = decide (info.dstLen = 32 ∧ soc = .rtl930x) ∧
      ∀ r' : Route, r'.id = r.id → r'.isHostRoute = r.isHostRoute →
        Allocated soc ctrl r' { ctrl with routeUseBm, hostRouteUseBm } := by
  unfold HasId at hid
  split at hid
  next hhost =>
    refine ⟨⟨info.gw, 0, 0, true,
        findFirstZeroBit ctrl.hostRouteUseBm maxHostRoutes + maxRoutes, 0, 0, false, .forward⟩,
      ctrl.routeUseBm, Function.update ctrl.hostRouteUseBm
        (findFirstZeroBit ctrl.hostRouteUseBm maxHostRoutes) true, ?_, rfl, rfl,
      (decide_eq_true hhost).symm, fun r' hid' hhost' => hkept.allocated_host hid hhost' hid'⟩
    rw [if_pos hhost, hostRouteAlloc, if_neg (not_not.mpr hkzalloc), if_neg (not_not.mpr hinsert)]
  next hhost =>
    refine ⟨⟨info.gw, 0, 0, false, findFirstZeroBit ctrl.routeUseBm maxRoutes, 0, 0, false, .forward⟩,
      Function.update ctrl.routeUseBm (findFirstZeroBit ctrl.routeUseBm maxRoutes) true,
      ctrl.hostRouteUseBm, ?_, rfl, rfl, (decide_eq_false hhost).symm, fun r' hid' hhost' => ?_⟩
    · rw [if_neg hhost, routeAlloc, if_neg (not_not.mpr hkzalloc), if_neg (not_not.mpr hinsert)]
    · dsimp only at hid'
      exact hkept.allocated_prefix hid hhost' hid'

/-- What an add that has room leaves before the gateway is looked up. -/
structure Added (soc : Soc) (ctrl : Ctrl) (info : FibInfo) (ctrl₂ : Ctrl) (route : Route) : Prop where
  kept : Kept soc ctrl₂
  routes : ctrl₂.routes = route :: ctrl.routes
  gwIp : route.gwIp = info.gw
  dstIp : route.dstIp = info.dst
  isHostRoute : route.isHostRoute = decide (info.dstLen = 32 ∧ soc = .rtl930x)
  unresolved : info.gw ≠ 0 → route.valid = false ∧ ctrl₂.hostTable = ctrl.hostTable
  slot : ∀ row, route.cell = some (.inHost row) → ctrl.hostTable row = none

/-- The route that is written for a local network. -/
def Route.toCpu (r : Route) : Route := { r with valid := true, action := .trap2cpu }

/-- The route of an entry of the routing table. -/
def Route.to (r : Route) (info : FibInfo) : Route := { r with dstIp := info.dst, prefixLen := info.dstLen }

theorem fibAddV4_of_alloc {ctrl₁ : Ctrl} (hcheck : fibCheckV4 info = false)
    (hport : env.port = true)
    (halloc : (if info.dstLen = 32 ∧ soc = .rtl930x then hostRouteAlloc env ctrl info.gw
      else routeAlloc env ctrl info.gw) = some (r, ctrl₁))
    (hmacs : soc = .rtl930x → HasMacs ctrl₁ info.mac) :
    ∃ routerMacs egressMacs, fibAddV4 soc ctrl info env =
      (true,
        let ctrl₂ : Ctrl :=
          if info.gw = 0 ∧ soc = .rtl930x then
            hostRouteWrite { ctrl₁ with routes := (r.to info).toCpu :: ctrl₁.routes, routerMacs, egressMacs }
              (findSlot (r.to info).toCpu) (r.to info).toCpu
          else { ctrl₁ with routes := r.to info :: ctrl₁.routes, routerMacs, egressMacs }
        if info.gw ≠ 0 then portIpv4Resolve soc env ctrl₂ info.gw else ctrl₂) := by
  unfold fibAddV4
  rw [if_neg (by rw [hcheck]; decide), if_neg (not_not.mpr hport), halloc]
  cases soc with
  | rtl839x =>
    have hnot : ¬ (info.gw = 0 ∧ Soc.rtl839x = .rtl930x) := fun h => by cases h.2
    refine ⟨ctrl₁.routerMacs, ctrl₁.egressMacs, ?_⟩
    rw [if_neg hnot]
    rfl
  | rtl930x =>
    obtain ⟨routerMacs, egressMacs, hadd⟩ := addRouterMacs_eq (hmacs rfl) (r.to info)
    refine ⟨routerMacs, egressMacs, ?_⟩
    change addGateway .rtl930x env info (addRouterMacs info ctrl₁ (r.to info)) = _
    rw [hadd]
    by_cases hzero : info.gw = 0
    · have hlocal : info.gw = 0 ∧ Soc.rtl930x = .rtl930x := ⟨hzero, rfl⟩
      rw [if_pos hzero, if_pos hlocal]
      rfl
    · have hnot : ¬ (info.gw = 0 ∧ Soc.rtl930x = .rtl930x) := fun h => hzero h.1
      rw [if_neg hzero, if_neg hnot]
      rfl

/-- An add that has room has a number, and for a local network an entry. -/
theorem Kept.exists_added (hkept : Kept soc ctrl) (hcheck : fibCheckV4 info = false)
    (hport : env.port = true) (hkzalloc : env.kzalloc = true) (hinsert : env.insert = true)
    (hid : HasId soc ctrl info) (hmacs : soc = .rtl930x → HasMacs ctrl info.mac)
    (hrows : RowsFree ctrl (rowsOfAdd soc ctrl info env)) :
    ∃ ctrl₂ route, Added soc ctrl info ctrl₂ route ∧ fibAddV4 soc ctrl info env =
      (true, if info.gw ≠ 0 then portIpv4Resolve soc env ctrl₂ info.gw else ctrl₂) := by
  obtain ⟨r, routeUseBm, hostRouteUseBm, halloc, hgw, hvalid, hhost, hallocated⟩ :=
    hkept.exists_alloc hid hkzalloc hinsert
  obtain ⟨routerMacs, egressMacs, heq⟩ := fibAddV4_of_alloc hcheck hport halloc hmacs
  refine ⟨_, if info.gw = 0 ∧ soc = .rtl930x then (r.to info).toCpu else r.to info, ?_, heq⟩
  by_cases hlocal : info.gw = 0 ∧ soc = .rtl930x
  · have hcell : (r.to info).toCpu.cell = some (.inHost (hostCell info.dst)) :=
      cell_eq_inHost rfl (.inr (hgw.trans hlocal.1))
    have hfree : ctrl.hostTable (hostCell info.dst) = none := by
      apply hrows.2
      rw [rowsOfAdd, if_pos hlocal.1, if_pos hlocal.2]
      exact List.mem_singleton_self _
    rw [if_pos hlocal, if_pos hlocal, findSlot_of_valid rfl]
    refine ⟨?_, rfl, hgw, rfl, hhost, fun hne => absurd hlocal.1 hne, fun row hrow => ?_⟩
    · exact hkept.cons (hallocated (r.to info).toCpu rfl rfl) rfl rfl rfl rfl rfl
        (.inr ⟨_, _, hcell, hfree, rfl⟩)
    · rw [hcell] at hrow
      cases hrow
      exact hfree
  · have hcell : (r.to info).cell = none := cell_eq_none hvalid
    rw [if_neg hlocal, if_neg hlocal]
    refine ⟨?_, rfl, hgw, rfl, hhost, fun _ => ⟨hvalid, rfl⟩, fun row hrow => ?_⟩
    · exact hkept.cons (hallocated (r.to info) rfl rfl) rfl rfl rfl rfl rfl (.inl ⟨hcell, rfl⟩)
    · rw [hcell] at hrow
      cases hrow

/-- Slots that were free before the gateway became known were free before the route was added. -/
theorem Added.slotsWereFree {ctrl₂ after : Ctrl} {route : Route}
    (hadded : Added soc ctrl info ctrl₂ route) (hgw : info.gw ≠ 0)
    (hslots : SlotsWereFree ctrl₂ after) : SlotsWereFree ctrl after := by
  obtain ⟨hvalid, htable⟩ := hadded.unresolved hgw
  intro r hr row hcell hnew
  rw [← htable]
  apply hslots r hr row hcell
  rw [hadded.routes]
  intro r' hr' hid
  obtain rfl | hr' := List.mem_cons.mp hr'
  · rw [cell_eq_none hvalid]
    exact fun h => by cases h
  · exact hnew r' hr' hid

/-- The rows that are written then are those that were found free. -/
theorem Added.rowsFree {ctrl₂ : Ctrl} {route : Route} (hadded : Added soc ctrl info ctrl₂ route)
    (hgw : info.gw ≠ 0) (hneighbour : env.neighbour ≠ none)
    (hrows : RowsFree ctrl (rowsOfAdd soc ctrl info env)) :
    RowsFree ctrl₂ (newHostRows info.gw ctrl₂.routes) := by
  obtain ⟨hvalid, htable⟩ := hadded.unresolved hgw
  have hsame : newHostRows info.gw ctrl₂.routes = rowsOfAdd soc ctrl info env := by
    rw [rowsOfAdd, if_neg hgw, if_neg hneighbour, hadded.routes, ← hadded.gwIp]
    by_cases hhost : info.dstLen = 32 ∧ soc = .rtl930x
    · rw [if_pos hhost, newHostRows_cons_of_new (hadded.isHostRoute.trans (decide_eq_true hhost)) hvalid,
        hadded.dstIp]
    · rw [if_neg hhost]
      apply newHostRows_cons_of_not
      rw [hadded.isHostRoute, decide_eq_true_iff]
      exact fun h => hhost h.1
  rw [hsame]
  exact ⟨hrows.1, fun row hrow => by rw [htable]; exact hrows.2 row hrow⟩

/-- An add that is skipped or has no memory. -/
theorem fibAddV4_eq_of_not
    (h : ¬ (fibCheckV4 info = false ∧ env.port = true ∧ env.kzalloc = true ∧ env.insert = true)) :
    fibAddV4 soc ctrl info env = (false, ctrl) := by
  unfold fibAddV4
  split
  · rfl
  next hcheck =>
    split
    · rfl
    next hport =>
      have hnone : (if info.dstLen = 32 ∧ soc = .rtl930x then hostRouteAlloc env ctrl info.gw
          else routeAlloc env ctrl info.gw) = none := by
        have hmemory : ¬ env.kzalloc = true ∨ ¬ env.insert = true := by
          rw [← not_and_or]
          exact fun hmem => h ⟨eq_false_of_ne_true hcheck, not_not.mp hport, hmem⟩
        unfold hostRouteAlloc routeAlloc
        dsimp only
        obtain hkzalloc | hinsert := hmemory
        · rw [if_pos hkzalloc, if_pos hkzalloc, ite_self]
        · rw [if_pos hinsert, if_pos hinsert]
          split_ifs <;> rfl
      rw [hnone]

/-- A calm add keeps everything, and is not given up once it has a number. -/
theorem Kept.fibAdd (hkept : Kept soc ctrl) (hcalm : (Event.fibAdd info env).Calm soc hw ctrl) :
    Kept soc (fibAddV4 soc ctrl info env).2 ∧ SlotsWereFree ctrl (fibAddV4 soc ctrl info env).2 ∧
      ((fibAddV4 soc ctrl info env).1 = false → (fibAddV4 soc ctrl info env).2 = ctrl) := by
  by_cases hall : fibCheckV4 info = false ∧ env.port = true ∧ env.kzalloc = true ∧ env.insert = true
  · obtain ⟨hcheck, hport, hkzalloc, hinsert⟩ := hall
    obtain ⟨hid, hmacs, hrows⟩ := hcalm hcheck hport hkzalloc hinsert
    obtain ⟨ctrl₂, route, hadded, heq⟩ :=
      hkept.exists_added hcheck hport hkzalloc hinsert hid hmacs hrows
    rw [heq]
    by_cases hgw : info.gw = 0
    · rw [if_neg (not_not.mpr hgw)]
      refine ⟨hadded.kept, fun r hr row hcell hnew => ?_, fun h => by cases h⟩
      rw [hadded.routes] at hr
      obtain rfl | hr := List.mem_cons.mp hr
      · exact hadded.slot row hcell
      · exact absurd hcell (hnew r hr rfl)
    · rw [if_pos hgw]
      unfold portIpv4Resolve
      cases hneighbour : env.neighbour with
      | none =>
        refine ⟨hadded.kept, ?_, fun h => by cases h⟩
        exact hadded.slotsWereFree hgw (slotsWereFree_of_routes fun r hr => hr)
      | some mac =>
        have hfree := hadded.rowsFree hgw (by rw [hneighbour]; exact Option.some_ne_none mac) hrows
        have hupdate := hadded.kept.nexthopUpdate (fun _ _ _ => hgw) hfree mac
        exact ⟨hupdate.1, hadded.slotsWereFree hgw hupdate.2, fun h => by cases h⟩
  · rw [fibAddV4_eq_of_not hall]
    exact ⟨hkept, slotsWereFree_of_routes fun r hr => hr, fun _ => rfl⟩

/-! ## A route is deleted -/

theorem tableIndex_neg_one : Soc.rtl930x.tableIndex (-1) = 8191 := by decide

/-- Taking out a route whose entry the switch finds, or that has none, takes out just its
entry. -/
theorem Kept.prefixTable_remove (hkept : Kept .rtl930x ctrl) (hr : r ∈ ctrl.routes)
    (hlookup : routeLookupHw hw ctrl r = if r.valid = true then (r.id : ℤ) else -1) (i : ℕ) :
    Function.update ctrl.prefixTable (Soc.rtl930x.tableIndex (routeLookupHw hw ctrl r)) none i =
      if r.valid = true ∧ i = r.id then none else ctrl.prefixTable i := by
  rw [hlookup]
  cases hvalid : r.valid with
  | true =>
    rw [if_pos rfl, tableIndex_natCast (hkept.id_lt hr)]
    by_cases hi : i = r.id
    · rw [if_pos ⟨rfl, hi⟩, hi, Function.update_self]
    · rw [if_neg fun h => hi h.2, Function.update_of_ne hi]
  | false =>
    have hnot : ¬ (false = true ∧ i = r.id) := fun h => by cases h.1
    rw [if_neg (by decide), if_neg hnot, tableIndex_neg_one]
    by_cases hi : i = 8191
    · subst hi
      rw [Function.update_self]
      -- no route has the number that is written
      cases hread : ctrl.prefixTable 8191 with
      | none => rfl
      | some e =>
        obtain ⟨x, hx, hcell, -⟩ := hkept.prefixOwner 8191 e hread
        have hlt := hkept.id_lt hx
        rw [(id_of_cell hcell).1] at hlt
        omega
    · rw [Function.update_of_ne hi]

theorem Kept.exists_routeRemove (hkept : Kept soc ctrl) (hr : r ∈ ctrl.routes)
    (hhost : r.isHostRoute = false) (hlookup : LookupOwn soc hw ctrl r) :
    ∃ prefixTable : ℕ → Option Entry,
      routeRemove soc hw { ctrl with routes := ctrl.routes.erase r } r =
        { ctrl with
          routes := ctrl.routes.erase r
          prefixTable
          routeUseBm := Function.update ctrl.routeUseBm r.id false } ∧
      ∀ i, prefixTable i = if r.valid = true ∧ i = r.id then none else ctrl.prefixTable i := by
  unfold routeRemove
  rw [if_neg (by rw [hhost]; decide)]
  cases soc with
  | rtl839x =>
    refine ⟨ctrl.prefixTable, rfl, fun i => ?_⟩
    have hvalid : r.valid = false := hlookup
    rw [hvalid, if_neg]
    exact fun h => by cases h.1
  | rtl930x => exact ⟨_, rfl, fun i => hkept.prefixTable_remove hr hlookup i⟩

theorem cell_eq_some_iff (hhost : r.isHostRoute = false) (hgw : r.valid = true → r.gwIp ≠ 0)
    {c : Cell} : r.cell = some c ↔ r.valid = true ∧ c = .inPrefix r.id := by
  cases hvalid : r.valid with
  | false =>
    rw [cell_eq_none hvalid]
    exact iff_of_false (fun h => by cases h) fun h => by cases h.1
  | true =>
    rw [cell_eq_inPrefix hvalid hhost (hgw hvalid), Option.some_inj]
    exact ⟨fun h => ⟨rfl, h.symm⟩, fun h => h.2.symm⟩

/-- A calm deletion takes out one route. -/
theorem Kept.removes (hkept : Kept soc ctrl) (hr : r ∈ ctrl.routes) (hhost : r.isHostRoute = false)
    (hgw : r.valid = true → r.gwIp ≠ 0) (hlookup : LookupOwn soc hw ctrl r) :
    Removes ctrl r (routeRemove soc hw { ctrl with routes := ctrl.routes.erase r } r) ∧
      Kept soc (routeRemove soc hw { ctrl with routes := ctrl.routes.erase r } r) := by
  obtain ⟨prefixTable, heq, hprefixes⟩ := hkept.exists_routeRemove hr hhost hlookup
  have hnodup : ctrl.routes.Nodup := List.Nodup.of_map _ hkept.ids
  have hmem : ∀ x, x ∈ ctrl.routes.erase r ↔ x ≠ r ∧ x ∈ ctrl.routes := fun x => hnodup.mem_erase_iff
  rw [heq]
  constructor
  · refine ⟨rfl, fun c hc => ?_, fun c hc => ?_⟩
    · obtain ⟨hvalid, rfl⟩ := (cell_eq_some_iff hhost hgw).mp hc
      change prefixTable r.id = none
      rw [hprefixes, if_pos ⟨hvalid, rfl⟩]
    · cases c with
      | inHost row => rfl
      | inPrefix i =>
        change prefixTable i = ctrl.prefixTable i
        rw [hprefixes, if_neg]
        rintro ⟨hvalid, rfl⟩
        exact hc ((cell_eq_some_iff hhost hgw).mpr ⟨hvalid, rfl⟩)
  · refine ⟨⟨?_, ?_, ?_, ?_, ?_, hkept.unlocked⟩, ?_, ?_, ?_⟩
    · exact hkept.ids.sublist (List.erase_sublist.map _)
    · exact fun x hx => hkept.range x ((hmem x).mp hx).2
    · intro i
      change Function.update ctrl.routeUseBm r.id false i = true ↔ _ ∨ ∃ x ∈ ctrl.routes.erase r, _
      by_cases hi : i = r.id
      · subst hi
        rw [Function.update_self]
        refine iff_of_false (by decide) ?_
        rintro (⟨hsoc, hzero⟩ | ⟨x, hx, -, hid⟩)
        · exact hkept.unreserved hsoc r hr hzero
        · exact ((hmem x).mp hx).1 (hkept.eq_of_id ((hmem x).mp hx).2 hr hid)
      · rw [Function.update_of_ne hi, hkept.routeUseBm]
        refine or_congr_right ⟨?_, ?_⟩
        · rintro ⟨x, hx, hxhost, rfl⟩
          refine ⟨x, (hmem x).mpr ⟨?_, hx⟩, hxhost, rfl⟩
          rintro rfl
          exact hi rfl
        · rintro ⟨x, hx, hxhost, hid⟩
          exact ⟨x, ((hmem x).mp hx).2, hxhost, hid⟩
    · intro i
      change ctrl.hostRouteUseBm i = true ↔ ∃ x ∈ ctrl.routes.erase r, _
      rw [hkept.hostRouteUseBm]
      constructor
      · rintro ⟨x, hx, hxhost, hid⟩
        refine ⟨x, (hmem x).mpr ⟨?_, hx⟩, hxhost, hid⟩
        rintro rfl
        rw [hhost] at hxhost
        cases hxhost
      · rintro ⟨x, hx, hxhost, hid⟩
        exact ⟨x, ((hmem x).mp hx).2, hxhost, hid⟩
    · exact fun x hx y hy => hkept.cells x ((hmem x).mp hx).2 y ((hmem y).mp hy).2
    · exact fun hsoc x hx => hkept.unreserved hsoc x ((hmem x).mp hx).2
    · intro i e hread
      change prefixTable i = some e at hread
      rw [hprefixes] at hread
      split at hread
      · cases hread
      next hother =>
        obtain ⟨x, hx, hcell, hentry⟩ := hkept.prefixOwner i e hread
        refine ⟨x, (hmem x).mpr ⟨?_, hx⟩, hcell, hentry⟩
        rintro rfl
        obtain ⟨hvalid, hi⟩ := (cell_eq_some_iff hhost hgw).mp hcell
        cases hi
        exact hother ⟨hvalid, rfl⟩
    · exact fun x hx => hkept.hostOwned x ((hmem x).mp hx).2

theorem slotsWereFree_of_erase {after : Ctrl} (h : after.routes = ctrl.routes.erase r) :
    SlotsWereFree ctrl after := by
  apply slotsWereFree_of_routes
  rw [h]
  exact fun x hx => List.mem_of_mem_erase hx

/-- A calm deletion keeps everything, and takes out the route if there is one. -/
theorem Kept.fibDel (hkept : Kept soc ctrl) (hcalm : (Event.fibDel info).Calm soc hw ctrl) :
    Kept soc (fibDelV4 soc hw ctrl info) ∧ (Event.fibDel info).Faithful soc hw ctrl := by
  unfold Event.Faithful
  change _ ∧ SlotsWereFree ctrl (fibDelV4 soc hw ctrl info) ∧
    if fibCheckV4 info = false ∧ ∃ r ∈ ctrl.routes, r.isOf info = true then
      ∃ r ∈ ctrl.routes, r.isOf info = true ∧ Removes ctrl r (fibDelV4 soc hw ctrl info)
    else fibDelV4 soc hw ctrl info = ctrl
  have hnothing : Kept soc ctrl ∧ SlotsWereFree ctrl ctrl ∧ ctrl = ctrl :=
    ⟨hkept, slotsWereFree_of_routes fun r hr => hr, rfl⟩
  cases hcheck : fibCheckV4 info with
  | true =>
    have hsame : fibDelV4 soc hw ctrl info = ctrl := if_pos hcheck
    rw [hsame, if_neg fun h => by cases h.1]
    exact hnothing
  | false =>
    have hcase := hcalm hcheck
    unfold fibDelV4
    rw [hcheck, if_neg (by decide)]
    cases hfind : ctrl.routes.find? (Route.isOf info) with
    | some r =>
      rw [hfind] at hcase
      obtain ⟨hhost, hgw, hlookup⟩ := hcase
      have hr := List.mem_of_find?_eq_some hfind
      have hof := List.find?_some hfind
      have hremoves := hkept.removes hr hhost hgw hlookup
      have hstored : ∃ r ∈ ctrl.routes, r.isOf info = true := ⟨r, hr, hof⟩
      rw [if_pos ⟨rfl, hstored⟩]
      exact ⟨hremoves.2, slotsWereFree_of_erase hremoves.1.routes, r, hr, hof, hremoves.1⟩
    | none =>
      rw [hfind] at hcase
      have hlast : ctrl.routes.reverse.find? (fun r => decide (r.gwIp = info.gw)) = none := by
        rw [List.find?_eq_none]
        exact fun x hx h => hcase x (List.mem_reverse.mp hx) (of_decide_eq_true h)
      have hmissing : ¬ (false = false ∧ ∃ r ∈ ctrl.routes, r.isOf info = true) := by
        rintro ⟨-, x, hx, hof⟩
        exact List.find?_eq_none.mp hfind x hx hof
      rw [hlast, if_neg hmissing]
      exact hnothing

theorem Kept.apply (hkept : Kept soc ctrl) {event : Event} (hcalm : event.Calm soc hw ctrl) :
    Kept soc (ctrl.apply soc hw event) ∧ event.Faithful soc hw ctrl := by
  cases event with
  | fibAdd info env =>
    obtain ⟨hkept', hslots, hsame⟩ := hkept.fibAdd hcalm
    refine ⟨hkept', hslots, fun hnot => ?_⟩
    change (fibAddV4 soc ctrl info env).2.routes = _ ∧ _
    rw [Ctrl.apply, hsame hnot]
    exact ⟨rfl, rfl, rfl, rfl⟩
  | fibDel info => exact hkept.fibDel hcalm
  | neighUpdate gwAddr mac =>
    obtain ⟨hkept', hslots⟩ := hkept.nexthopUpdate hcalm.1 hcalm.2 mac
    exact ⟨hkept', hslots, trivial⟩

end Kept

/-! ## Runs -/

theorem kept_setup (soc : Soc) : Kept soc (setup soc) where
  ids := List.nodup_nil
  range r hr := by cases hr
  routeUseBm i := by
    change decide (soc = .rtl930x ∧ i = 0) = true ↔ _
    rw [decide_eq_true_iff]
    exact ⟨.inl, fun h => h.resolve_right fun ⟨r, hr, _⟩ => by cases hr⟩
  hostRouteUseBm i := iff_of_false (fun h => by cases h) fun ⟨r, hr, _⟩ => by cases hr
  cells r hr := by cases hr
  unlocked := rfl
  unreserved _ r hr := by cases hr
  prefixOwner i e h := by cases h
  hostOwned r hr := by cases hr

/-- In a run whose events are calm the routes are orderly after every event, and every event is
faithful. -/
theorem routes_orderly_of_calm (soc : Soc) (hw : Hw) (events : List Event)
    (hcalm : Along (Ctrl.apply soc hw) (fun ctrl event => event.Calm soc hw ctrl) events (setup soc)) :
    ∀ n, Orderly soc ((events.take n).foldl (Ctrl.apply soc hw) (setup soc)) ∧
      ∀ event, events[n]? = some event →
        event.Faithful soc hw ((events.take n).foldl (Ctrl.apply soc hw) (setup soc)) := by
  intro n
  have hkept : Kept soc ((events.take n).foldl (Ctrl.apply soc hw) (setup soc)) :=
    invariant_take_of_along (fun _ _ _ hinv hcalm => (Kept.apply hinv hcalm).1) hcalm
      (kept_setup soc) n
  exact ⟨hkept.toOrderly, fun event hevent => (hkept.apply (hcalm.getElem? hevent)).2⟩

/-- A table whose first entry for an address is found. -/
def firstMatch : Hw where
  routeLookup table ip :=
    ((List.range 512).find? fun i =>
      match table i with
      | some (.route dstIp prefixLen _ _) =>
        dstIp &&& inetMakeMask prefixLen = ip &&& inetMakeMask prefixLen
      | _ => false).map (Fin.ofNat 512)

def office : FibInfo := ⟨0xc0a80100, 24, 0x0a000001, false, 0x020000000001⟩

/-- 192.168.2.0/24 behind the same gateway. -/
def lab : FibInfo := { office with dst := 0xc0a80200 }

/-- There is memory for a route, and the gateway is not known yet. -/
def waiting : Env := ⟨true, true, true, none⟩

/-- A route is added, its gateway becomes known, and it is deleted. -/
def addResolveDelete : List Event :=
  [.fibAdd office waiting, .neighUpdate 0x0a000001 0x020000000002, .fibDel office]

theorem routes_orderly_of_addResolveDelete :
    ((addResolveDelete.foldl (Ctrl.apply .rtl930x firstMatch) (setup .rtl930x)).routes = []) ∧
    ∀ n, Orderly .rtl930x ((addResolveDelete.take n).foldl (Ctrl.apply .rtl930x firstMatch)
        (setup .rtl930x)) ∧
      ∀ event, addResolveDelete[n]? = some event →
        event.Faithful .rtl930x firstMatch ((addResolveDelete.take n).foldl
          (Ctrl.apply .rtl930x firstMatch) (setup .rtl930x)) := by
  have hrows : ∀ ctrl, newHostRows 0x0a000001 (ctrl : Ctrl).routes = [] →
      RowsFree ctrl (newHostRows 0x0a000001 ctrl.routes) := by
    intro ctrl h
    rw [h]
    exact ⟨List.nodup_nil, fun _ h => by cases h⟩
  have hfind : ((((setup .rtl930x).apply .rtl930x firstMatch (.fibAdd office waiting)).apply .rtl930x
      firstMatch (.neighUpdate 0x0a000001 0x020000000002)).routes.find? (Route.isOf office)) =
      some ⟨0x0a000001, 0xc0a80100, 24, false, 1, 1, 0x020000000002, true, .forward⟩ := by
    decide +kernel
  refine ⟨by decide +kernel, ?_⟩
  apply routes_orderly_of_calm
  refine ⟨fun _ _ _ _ => ⟨?_, fun _ => ?_, ?_⟩, ⟨fun _ _ _ => by decide, hrows _ ?_⟩, fun _ => ?_,
    trivial⟩
  · unfold HasId
    decide +kernel
  · exact ⟨⟨0, by decide, .inl rfl⟩, 0, by decide, .inl rfl⟩
  · exact ⟨List.nodup_nil, fun _ h => by cases h⟩
  · decide +kernel
  · rw [hfind]
    refine ⟨rfl, fun _ => by decide, ?_⟩
    unfold LookupOwn
    decide +kernel

/-- Deleting a route that is not there takes out another of its gateway. -/
theorem not_routes_orderly_of_unknown :
    ¬ ∀ n, Orderly .rtl930x (([.fibAdd office waiting, .fibDel lab].take n).foldl
        (Ctrl.apply .rtl930x firstMatch) (setup .rtl930x)) ∧
      ∀ event, [Event.fibAdd office waiting, .fibDel lab][n]? = some event →
        event.Faithful .rtl930x firstMatch (([.fibAdd office waiting, .fibDel lab].take n).foldl
          (Ctrl.apply .rtl930x firstMatch) (setup .rtl930x)) := by
  intro hall
  have hdel := ((hall 1).2 (.fibDel lab) rfl).2
  have hmissing : ¬ ∃ r ∈ ((setup .rtl930x).apply .rtl930x firstMatch (.fibAdd office waiting)).routes,
      r.isOf lab = true := by
    decide +kernel
  have hnot : ¬ (fibCheckV4 lab = false ∧
      ∃ r ∈ ((setup .rtl930x).apply .rtl930x firstMatch (.fibAdd office waiting)).routes,
        r.isOf lab = true) := fun h => hmissing h.2
  have hsame := (if_neg hnot).mp hdel
  have hroutes : (((setup .rtl930x).apply .rtl930x firstMatch (.fibAdd office waiting)).apply
        .rtl930x firstMatch (.fibDel lab)).routes.length =
      ((setup .rtl930x).apply .rtl930x firstMatch (.fibAdd office waiting)).routes.length :=
    congrArg (fun ctrl : Ctrl => ctrl.routes.length) hsame
  revert hroutes
  decide +kernel

end OpenWrt.Rtl83xx.L3
