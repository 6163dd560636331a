/-
# The addresses of a radio are distinct

On each way a new configuration is applied, the addresses of its BSSs are set, pairwise
distinct and free of the reserved ones, as long as no BSS is preserved with an address that
is not listed as its own. The list says so of a user-assigned address of the first BSS even
when that BSS is preserved: its index counts as free, and another BSS may keep the address.
-/

import OpenWrt.Hostapd.BssidMatch
import OpenWrt.Hostapd.ReloadSound

namespace OpenWrt.Hostapd

variable {stored : Stored} {name : String} {iface : Iface}

/-! ## Step 6 as a whole -/

section Reload

variable {env : ReloadEnv} {phy : String} {bss : List Bss} {list : MacaddrList}
  {entries entries' : List Entry} {config old : Config}

theorem Assigning.run {phydev : PhyDev} (henv : env.phydev = phydev) {length m i : ℕ}
    {state state' : MacaddrList × List Entry} {settled : ℕ → Prop}
    (h : Assigning phydev stored phy name state length i settled) (hdone : ∀ k < i, settled k)
    (hfirst : i = 0 → FirstTurn stored phy name state settled) (hlength : i + m = length)
    (hrun : (List.range' i m).foldlM (assignBssid env) state = some state') :
    ∃ settled', Assigning phydev stored phy name state' length length settled' ∧
      ∀ k < length, settled' k := by
  induction m generalizing i state settled with
  | zero =>
    cases hrun
    have hi : i = length := hlength
    subst hi
    exact ⟨settled, h, hdone⟩
  | succ m ih =>
    rw [List.range'_succ, List.foldlM_cons, Option.bind_eq_bind, Option.bind_eq_some_iff] at hrun
    obtain ⟨middle, hone, hrest⟩ := hrun
    obtain ⟨settled', hnext, hdone'⟩ :=
      h.step henv hdone (by omega) hfirst (assignStep_of_assignBssid hone)
    exact ih hnext hdone' (fun hzero => nomatch hzero) (by omega) hrest

/-- The BSSs that are listed under their own index are settled. -/
theorem Ready.settled (h : Ready stored phy name bss list entries) :
    Settled stored phy name list (entries.map Entry.bss) fun k =>
      ∃ entry, entries[k]? = some entry ∧ list.get entry.bss.bssid = some (k : ℤ) := by
  have hown : ∀ (k : ℕ) b, (∃ entry, entries[k]? = some entry ∧
      list.get entry.bss.bssid = some (k : ℤ)) → (entries.map Entry.bss)[k]? = some b →
        ∃ addr, b.bssid = some addr ∧ list addr = some (k : ℤ) := by
    rintro k b ⟨entry, hget, hlist⟩ hb
    rw [List.getElem?_map, hget] at hb
    cases hb
    cases hbssid : entry.bss.bssid with
    | none =>
      rw [hbssid] at hlist
      cases hlist
    | some addr =>
      rw [hbssid] at hlist
      exact ⟨addr, rfl, hlist⟩
  have hnot : ∀ addr (k : ℕ), list addr = some (k : ℤ) →
      ¬ (IsMldAddr stored addr ∨ IsOtherAddr stored phy name addr) := by
    intro addr k hlist hres
    rw [h.reserved addr hres] at hlist
    have hcast : (-1 : ℤ) = k := Option.some.inj hlist
    omega
  refine ⟨fun k b hk hb => ?_, fun i j b c hi hj hne hb hc heq => ?_, fun addr hres => ?_⟩
  · obtain ⟨addr, hbssid, hlist⟩ := hown k b hk hb
    exact ⟨addr, k, hbssid, hlist, Int.natCast_nonneg k,
      ⟨fun hmld => absurd (.inl hmld) (hnot addr k hlist),
        fun hother => hnot addr k hlist (.inr hother)⟩⟩
  · obtain ⟨addr, hbssid, hlist⟩ := hown i b hi hb
    obtain ⟨addr', hbssid', hlist'⟩ := hown j c hj hc
    rw [hbssid, hbssid'] at heq
    cases heq
    rw [hlist] at hlist'
    exact hne (by have hcast := Option.some.inj hlist'; omega)
  · rw [h.reserved addr hres]
    exact Option.some_ne_none _

/-- What a pass of renames keeps of an entry. -/
def Entry.kind (entry : Entry) : Bss × Bool := (entry.bss, entry.slot.isSome)

theorem PassRun.kinds {step : Iface → String → Slot → Option (Iface × Slot)} {iface iface' : Iface}
    (h : PassRun step iface entries iface' entries') :
    entries'.map Entry.kind = entries.map Entry.kind := by
  induction h with
  | nil => rfl
  | skip later ih => rw [List.map_cons, List.map_cons, ih]
  | cons first later ih =>
    rw [List.map_cons, List.map_cons, ih]
    rfl

theorem exists_of_kinds (h : entries'.map Entry.kind = entries.map Entry.kind) {k : ℕ}
    {entry' : Entry} (hget : entries'[k]? = some entry') :
    ∃ entry, entries[k]? = some entry ∧ entry.bss = entry'.bss ∧
      (entry.slot = none ↔ entry'.slot = none) := by
  have hkind : (entries.map Entry.kind)[k]? = some entry'.kind := by
    rw [← h, List.getElem?_map, hget]
    rfl
  rw [List.getElem?_map, Option.map_eq_some_iff] at hkind
  obtain ⟨entry, hentry, heq⟩ := hkind
  refine ⟨entry, hentry, congrArg Prod.fst heq, ?_⟩
  have hslot : entry.slot.isSome = entry'.slot.isSome := congrArg Prod.snd heq
  rw [← Option.not_isSome_iff_eq_none, ← Option.not_isSome_iff_eq_none, hslot]

/-- The renames leave the entries ready. -/
theorem Ready.congr_kinds (h : Ready stored phy name bss list entries)
    (hkinds : entries'.map Entry.kind = entries.map Entry.kind) :
    Ready stored phy name bss list entries' := by
  have hlength : entries'.length = entries.length := by
    rw [← List.length_map Entry.kind, hkinds, List.length_map]
  refine ⟨?_, h.reserved, fun addr k hlist => ?_, fun k entry' hpos hget hslot hdefault => ?_⟩
  · refine List.forall₂_iff_get.mpr ⟨h.entryOf.length_eq.trans hlength.symm, fun k hlt hlt' => ?_⟩
    obtain ⟨entry, hentry, hbss, hslot⟩ :=
      exists_of_kinds hkinds (List.getElem?_eq_getElem hlt')
    obtain ⟨b, hb, hof⟩ := exists_of_forall₂ h.entryOf hentry
    rw [List.getElem?_eq_getElem hlt] at hb
    cases hb
    exact ⟨hbss ▸ hof.default, hbss ▸ hof.mld, fun hnone => hbss ▸ hof.new (hslot.mpr hnone)⟩
  · obtain ⟨entry, hget, hcase⟩ := h.values addr k hlist
    obtain ⟨entry', hget', hbss, hslot⟩ := exists_of_kinds hkinds.symm hget
    exact ⟨entry', hget', hcase.imp (fun hne hnone => hne (hslot.mp hnone)) fun hfalse => hbss ▸ hfalse⟩
  · obtain ⟨entry, hget', hbss, hnone⟩ := exists_of_kinds hkinds hget
    rw [← hbss] at hdefault ⊢
    exact h.assigned k entry hpos hget' (hnone.mpr hslot) hdefault

/-- Giving the addresses, from entries that are ready and safe. -/
theorem unique_of_assignBssids {marks : Marks} {matched : List Entry}
    (hassigned : UserAssigned stored config.phy name config.bss)
    (hready : Ready stored config.phy name config.bss marks.macaddrs matched)
    (hsafe : ReloadSafe env.phydev stored name config marks matched)
    (hkinds : entries.map Entry.kind = matched.map Entry.kind)
    (h : assignBssids env marks.macaddrs entries = some entries') :
    BssidsUnique stored config.phy name (entries'.map Entry.bss) := by
  have hstart := (hready.congr_kinds hkinds).macaddrInit env.phydev
  obtain ⟨state, hfold, rfl⟩ := Option.map_eq_some_iff.mp h
  have hkept : ∀ (k : ℕ) entry, entries[k]? = some entry → entry.slot ≠ none →
      (env.phydev.macaddrInit marks.macaddrs).get entry.bss.bssid = some (k : ℤ) := by
    intro k entry hget hslot
    obtain ⟨old, hold, hbss, hnone⟩ := exists_of_kinds hkinds hget
    have hlisted := hsafe.listed k old hold fun heq => hslot (hnone.mp heq)
    rw [hbss] at hlisted
    cases hbssid : entry.bss.bssid with
    | none =>
      rw [hbssid] at hlisted
      cases hlisted
    | some addr =>
      rw [hbssid] at hlisted
      rcases macaddrInit_apply env.phydev marks.macaddrs addr with heq | ⟨hfree, -⟩
      · exact heq.trans hlisted
      · rw [MacaddrList.get_some, hfree] at hlisted
        cases hlisted
  have hassigning : Assigning env.phydev stored config.phy name
      (env.phydev.macaddrInit marks.macaddrs, entries) entries.length 0 fun k =>
        ∃ entry, entries[k]? = some entry ∧
          (env.phydev.macaddrInit marks.macaddrs).get entry.bss.bssid = some (k : ℤ) := by
    refine ⟨hstart.settled, rfl, fun k entry hget hslot => ⟨entry, hget, hkept k entry hget hslot⟩,
      fun addr k hlist _ => hstart.values addr k hlist,
      fun k entry _ hpos hget hslot hdefault => ?_, ?_⟩
    · exact (hstart.assigned k entry hpos hget hslot hdefault).imp_left fun hown =>
      ⟨hown, entry, hget, hown⟩
    · refine hsafe.reuse.congr fun b' hb' => ?_
      obtain ⟨entry, hentry, rfl⟩ := List.mem_map.mp hb'
      obtain ⟨k, hlt, rfl⟩ := List.mem_iff_getElem.mp hentry
      obtain ⟨b, hb, hof⟩ := exists_of_forall₂ hstart.entryOf (List.getElem?_eq_getElem hlt)
      exact ⟨b, List.mem_of_getElem? hb, hof.mld.symm⟩
  have hfirst : FirstTurn stored config.phy name
      (env.phydev.macaddrInit marks.macaddrs, entries) fun k =>
        ∃ entry, entries[k]? = some entry ∧
          (env.phydev.macaddrInit marks.macaddrs).get entry.bss.bssid = some (k : ℤ) := by
    refine ⟨fun k => Iff.rfl, fun entry hget hslot hdefault addr hbssid => ?_⟩
    obtain ⟨b, hb, hof⟩ := exists_of_forall₂ hstart.entryOf hget
    rw [hof.new hslot] at hdefault hbssid ⊢
    exact hassigned.mayHave (List.mem_of_getElem? hb) hdefault hbssid
  rw [List.range_eq_range'] at hfold
  obtain ⟨settled, hdone, hall⟩ := hassigning.run rfl (fun k hk => nomatch hk)
    (fun _ => hfirst) (Nat.zero_add _) hfold
  refine hdone.all.unique fun k hk => hall k ?_
  rwa [List.length_map, hdone.length] at hk

theorem unique_of_reloadBss {reloaded : Reloaded}
    (hassigned : UserAssigned stored config.phy name config.bss)
    (hsafe : PreserveSafe env stored name config old iface)
    (h : reloadBss env stored name config old iface = some reloaded) :
    BssidsUnique stored config.phy name (reloaded.entries.map Entry.bss) := by
  obtain ⟨run⟩ := reloadRun_of_reloadBss h
  have hsafe' := reloadSafe_of_preserve hassigned hsafe run.preserve
  refine unique_of_assignBssids hassigned (ready_of_preserve hassigned run.preserve hsafe') hsafe'
    ?_ run.assign
  exact run.finish.kinds.trans run.rename.kinds

end Reload

/-! ## Every way to apply a configuration -/

/-- What the way needs. Where nothing is left to do, the addresses must be in order already. -/
def SetPath.Safe (env : SetEnv) (stored : Stored) (name : String) (config : Config)
    (iface : Iface) : SetPath → Prop
  | .unchanged => BssidsUnique stored config.phy name config.bss
  | .reload prev _ => PreserveSafe env.reload stored name config prev iface
  | .restart found prevBss =>
    RestartSafe env.reload.phydev stored name { config with bss := found } prevBss

/-- A radio without interfaces, that generates two addresses. -/
def idleEnv : SetEnv where
  reload := { swapEnv with phydev := { swapEnv.phydev with wdevMacaddrs := [] } }
  channel := ⟨false, false, false⟩

/-- An access point with an address that the user assigned. -/
def assignedBss (ifname content bssid : String) : Bss :=
  { generatedBss ifname content (some bssid) with defaultMacaddr := false }

/-- The first access point has an address of its own, the second one a generated address. -/
def movedOld : Config :=
  configWith [assignedBss "phy0-ap0" "home" "02:00:00:00:00:09",
    generatedBss "phy0-ap1" "guest" (some "02:00:00:00:00:01")]

/-- The first access point is assigned the address of the second one. -/
def movedNew : Config :=
  configWith [assignedBss "phy0-ap0" "home" "02:00:00:00:00:01",
    generatedBss "phy0-ap1" "guest" (some "02:00:00:00:00:00")]

end OpenWrt.Hostapd
