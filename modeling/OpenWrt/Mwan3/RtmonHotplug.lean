/-
# The routes that hotplug copies against the monitor's

When an interface comes up, `mwan3-create-iface-route.uc` fills its routing table from a
dump of all tables; the monitor fills the same table from the same dump with a filter of
its own. The two tell the interface of a device in different ways, and leave out different
link-local routes. A route whose place the table has already is not copied again by
hotplug, and the two are compared on the others.
-/

import OpenWrt.Mwan3.RtmonAgree

namespace OpenWrt.Mwan3.Rtmon

variable {family : Family}

/-! ## `mwan3-create-iface-route.uc` -/

/-- `match(name, /^(.+)_([46])$/)`: the name before the suffix, and its family. -/
def splitSuffix (name : String) : Option (String × Family) :=
  match name.toList.reverse with
  | '4' :: '_' :: c :: rest => some (String.ofList (c :: rest).reverse, .ipv4)
  | '6' :: '_' :: c :: rest => some (String.ofList (c :: rest).reverse, .ipv6)
  | _ => none

/-- `route.dst == "fe80::/64"`. -/
def isFe80 (r : Route family) : Bool :=
  r.dst.any fun d => decide (family = .ipv6) && d.isLinklocal && d.len == 64

namespace Env

variable (env : Env family)

/-- The table of an interface of the dump: by its own name, or by the name before `_4` or
`_6` where that is the family. -/
def hotplugTid (name : String) : Option ℕ :=
  match env.nameTid name with
  | some tid => some tid
  | none =>
    match splitSuffix name with
    | some (base, suffixFamily) => if suffixFamily = family then env.nameTid base else none
    | none => none

/-- `dev_table_map`; a later interface on the device wins. -/
def hotplugDevTable (dev : String) : Option ℕ :=
  env.dump.reverse.findSome? fun intf =>
    if intf.2 = some dev then env.hotplugTid intf.1 else none

/-- `target_tid` of a route. -/
def hotplugTarget (r : Route family) : Option ℕ :=
  r.oif.bind env.hotplugDevTable

/-- The route passes the filter for the table. -/
def hotplugSelects (t : ℕ) (r : Route family) : Bool :=
  if isDefaultRoute r || isFe80 r then decide (env.hotplugTarget r = some t)
  else env.hotplugTarget r = none || decide (env.hotplugTarget r = some t)

end Env

/-- `existing_keys`: the table has a route with the destination, device, gateway and
priority. -/
def present (t : ℕ) (routes : List (Route family)) (r : Route family) : Bool :=
  routes.any fun old => old.table == t && sameRoute old r

/-- The requests of the script for one table. -/
def createIfaceRoute (env : Env family) (t : ℕ) (routes : List (Route family)) :
    List (Route family) :=
  ((routes.filter env.isSource).filter fun r =>
    env.hotplugSelects t r && !present t routes r).map fun r => env.buildRouteForTable r t

/-- The requests of `populate_iface_routes` for one table. -/
def ifaceRequests (env : Env family) (t : ℕ) (routes : List (Route family)) :
    List (Route family) :=
  tableOf t ((routes.filter env.isSource).flatMap (copies env))

/-! ## Where the filters agree -/

/-- The maps of the two know the route's device in the same way, as far as it matters for
the table. -/
def SameTarget (env : Env family) (t : ℕ) (r : Route family) : Prop :=
  match env.targetTid r, env.hotplugTarget r with
  | some tid, hotplug => tid = t ↔ hotplug = some t
  | none, some tid => tid = t ↔ isDefaultRoute r = false ∧ isLinklocalRoute r = false
  | none, none => isLinklocalRoute r = true → isFe80 r = true

variable {env : Env family} {t : ℕ} {r : Route family}

theorem linklocal_of_isFe80 (h : isFe80 r = true) : isLinklocalRoute r = true := by
  unfold isFe80 at h
  unfold isLinklocalRoute
  rw [Option.any_eq_true] at h ⊢
  obtain ⟨d, hd, h⟩ := h
  rw [Bool.and_eq_true, Bool.and_eq_true] at h
  exact ⟨d, hd, h.1.2⟩

theorem not_default_of_linklocal (h : isLinklocalRoute r = true) : isDefaultRoute r = false := by
  unfold isLinklocalRoute at h
  rw [Option.any_eq_true] at h
  obtain ⟨d, hd, h⟩ := h
  have hne : d.addr ≠ 0 := by
    intro hzero
    cases family with
    | ipv4 =>
      simp only [Dst.isLinklocal, hzero] at h
      exact absurd h (by decide)
    | ipv6 =>
      simp only [Dst.isLinklocal, hzero, Bool.and_eq_true] at h
      exact absurd h.2 (by decide)
  unfold isDefaultRoute
  rw [hd, Option.all_some, beq_eq_false_iff_ne.mpr hne, Bool.and_false, Bool.false_and]

/-- A device that the monitor knows is known to the script. -/
theorem hotplugTarget_isSome (h : (env.targetTid r).isSome) : (env.hotplugTarget r).isSome := by
  unfold Env.targetTid at h
  unfold Env.hotplugTarget
  cases hoif : r.oif with
  | none =>
    rw [hoif] at h
    exact absurd h Bool.false_ne_true
  | some dev =>
    rw [hoif, Option.bind_some, Env.devTable, List.findSome?_isSome_iff] at h
    rw [Option.bind_some, Env.hotplugDevTable, List.findSome?_isSome_iff]
    obtain ⟨intf, hmem, hintf⟩ := h
    refine ⟨intf, hmem, ?_⟩
    by_cases hdev : intf.2 = some dev
    · rw [if_pos hdev] at hintf ⊢
      obtain ⟨tid, htid⟩ := Option.isSome_iff_exists.mp hintf
      unfold Env.hotplugTid
      rw [htid]
      rfl
    · rw [if_neg hdev] at hintf
      exact absurd hintf Bool.false_ne_true

/-- The filters agree on a route exactly if it is sent the same way. -/
theorem hotplugSelects_iff_goes_iff :
    (env.hotplugSelects t r = true ↔ env.goes t r = true) ↔ SameTarget env t r := by
  have hsome : (env.targetTid r).isSome → (env.hotplugTarget r).isSome := hotplugTarget_isSome
  have hfe80 := linklocal_of_isFe80 (r := r)
  have hdefault := not_default_of_linklocal (r := r)
  unfold SameTarget Env.hotplugSelects Env.goes
  cases htarget : env.targetTid r with
  | some tid =>
    rw [htarget] at hsome
    obtain ⟨hot, hhot⟩ := Option.isSome_iff_exists.mp (hsome rfl)
    rw [hhot]
    cases hclass : isDefaultRoute r || isFe80 r <;> simp [eq_comm, iff_comm]
  | none =>
    cases hhot : env.hotplugTarget r with
    | some hot =>
      cases hclass : isDefaultRoute r || isFe80 r <;> simp
    | none =>
      cases hd : isDefaultRoute r with
      | true =>
        have hno : isLinklocalRoute r = false := by
          by_contra hlink
          rw [hdefault (by simpa using hlink)] at hd
          exact absurd hd Bool.false_ne_true
        simp [hno]
      | false =>
        cases hf : isFe80 r with
        | true => simp [hfe80 hf]
        | false => simp

/-! ## The requests -/

theorem mem_createIfaceRoute {routes : List (Route family)} {q : Route family} :
    q ∈ createIfaceRoute env t routes ↔
      ∃ r ∈ routes, env.isSource r = true ∧ env.hotplugSelects t r = true ∧
        present t routes r = false ∧ env.buildRouteForTable r t = q := by
  unfold createIfaceRoute
  simp only [List.mem_map, List.mem_filter, Bool.and_eq_true, Bool.not_eq_true']
  constructor
  · rintro ⟨r, ⟨⟨hr, hsource⟩, hselects, hpresent⟩, rfl⟩
    exact ⟨r, hr, hsource, hselects, hpresent, rfl⟩
  · rintro ⟨r, hr, hsource, hselects, hpresent, rfl⟩
    exact ⟨r, ⟨⟨hr, hsource⟩, hselects, hpresent⟩, rfl⟩

/-- What the monitor asks for. -/
theorem mem_ifaceRequests (ht : t ∈ env.activeTids.map Prod.fst)
    {routes : List (Route family)} {q : Route family} :
    q ∈ ifaceRequests env t routes ↔
      ∃ r ∈ routes, env.isSource r = true ∧ env.goes t r = true ∧
        env.buildRouteForTable r t = q := by
  have hcopies : ∀ r : Route family, (q ∈ copies env r ∧ q.table = t) ↔
      env.goes t r = true ∧ env.buildRouteForTable r t = q := by
    intro r
    rw [← mem_tableOf, tableOf_copies ht r]
    by_cases hgoes : env.goes t r = true
    · rw [if_pos hgoes, List.mem_singleton]
      exact ⟨fun h => ⟨hgoes, h.symm⟩, fun h => h.2.symm⟩
    · rw [if_neg hgoes]
      exact iff_of_false List.not_mem_nil fun h => hgoes h.1
  unfold ifaceRequests
  rw [mem_tableOf, List.mem_flatMap]
  constructor
  · rintro ⟨⟨r, hr, hq⟩, htable⟩
    obtain ⟨hmem, hsource⟩ := List.mem_filter.mp hr
    exact ⟨r, hmem, hsource, (hcopies r).mp ⟨hq, htable⟩⟩
  · rintro ⟨r, hr, hsource, hgoes⟩
    obtain ⟨hq, htable⟩ := (hcopies r).mpr hgoes
    exact ⟨⟨r, List.mem_filter.mpr ⟨hr, hsource⟩, hq⟩, htable⟩

theorem same_of_build_eq {other : Route family}
    (h : env.buildRouteForTable other t = env.buildRouteForTable r t) :
    other.dst = r.dst ∧ other.oif = r.oif ∧ other.gateway = r.gateway ∧
      other.priority = r.priority := by
  simp only [Env.buildRouteForTable, Route.mk.injEq] at h
  exact ⟨h.2.1, h.2.2.2.1, h.2.2.1, h.2.2.2.2.2.1⟩

theorem present_build (routes : List (Route family)) :
    present t routes (env.buildRouteForTable r t) = present t routes r := rfl

theorem hotplugSelects_congr {other : Route family} (hdst : other.dst = r.dst)
    (hoif : other.oif = r.oif) : env.hotplugSelects t other = env.hotplugSelects t r := by
  unfold Env.hotplugSelects Env.hotplugTarget isDefaultRoute isFe80
  rw [hdst, hoif]

/-- What hotplug copies into the table of an interface is what the monitor selects for it,
without the routes that the table has. -/
def CopiesAgree (env : Env family) (t : ℕ) (routes : List (Route family)) : Prop :=
  ∀ q, q ∈ createIfaceRoute env t routes ↔
    q ∈ ifaceRequests env t routes ∧ present t routes q = false

/-- One IPv4 interface that is up, with its devices. -/
def sampleEnv (name : String) (dump : List (String × Option String)) : Env .ipv4 where
  sourceRouting := false
  extraTables := []
  ifaces := [⟨name, .ipv4, true, false⟩]
  dump := dump
  chains := ["mwan3_iface_in_" ++ name]

def sampleRoute (dst : Option (Dst .ipv4)) (dev : String) : Route .ipv4 :=
  ⟨mainTable, dst, none, some dev, none, none, none, none, none, none, none⟩

end OpenWrt.Mwan3.Rtmon
