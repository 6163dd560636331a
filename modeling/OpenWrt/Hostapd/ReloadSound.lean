/-
# A reload reaches the new configuration

The results of the steps are put together: where a reload ends well, the running BSSs are
those of the new configuration in order, every BSS that ran before and still runs is
preserved for one index, and no rename goes to a name in use.
-/

import OpenWrt.Hostapd.RadioRun
import OpenWrt.Hostapd.ReloadReach

namespace OpenWrt.Hostapd

open Iface

variable {env : ReloadEnv} {iface : Iface}

/-- A reload that ends well, step by step. -/
structure ReloadRun (env : ReloadEnv) (stored : Stored) (name : String) (config old : Config)
    (iface : Iface) (reloaded : Reloaded) where
  marks : Marks
  matched : List Entry
  deleted : Iface
  halfway : Iface × List Entry
  renamed : Iface × List Entry
  filled : Iface × List ℕ
  ordered : Iface
  preserve : preserve env stored name config old iface = some (marks, matched)
  delete : deleteUnused marks.old 0 marks.prevHash iface = some deleted
  rename : PassRun (renameSlot env) deleted matched halfway.1 halfway.2
  finish : PassRun (renameTemp env) halfway.1 halfway.2 renamed.1 renamed.2
  assign : assignBssids env marks.macaddrs renamed.2 = some reloaded.entries
  add : addMissing env 0 reloaded.entries renamed.1 = some filled
  order : filled.1.setBssOrder filled.2 = some ordered
  update : updateConfig env 0 reloaded.entries ordered = some reloaded.iface

theorem reloadRun_of_reloadBss {stored : Stored} {name : String} {config old : Config}
    {reloaded : Reloaded} (h : reloadBss env stored name config old iface = some reloaded) :
    Nonempty (ReloadRun env stored name config old iface reloaded) := by
  unfold reloadBss at h
  split at h
  case isTrue => cases h
  case isFalse =>
    simp only [Option.bind_eq_bind, Option.bind_eq_some_iff, Prod.exists, Option.pure_def,
      Option.some.injEq] at h
    obtain ⟨marks, matched, hpreserve, deleted, hdelete, first, half, hrename, second, full,
      hfinish, assigned, hassign, third, order, hadd, ordered, horder, last, hupdate, rfl⟩ := h
    exact ⟨⟨marks, matched, deleted, (first, half), (second, full), (third, order), ordered,
      hpreserve, hdelete, passRun_of_passSlots hrename, passRun_of_passSlots hfinish, hassign,
      hadd, horder, hupdate⟩⟩

/-- What a reload is for: the running BSSs are those of the new configuration. -/
structure ReachesConfig (config old : Config) (iface : Iface) (reloaded : Reloaded) : Prop where
  /-- The running BSSs are exactly those of the new configuration, in its order. -/
  names : reloaded.iface.names = config.bss.map Bss.ifname
  /-- There is one entry for each new index. -/
  entries : reloaded.entries.map Entry.ifname = config.bss.map Bss.ifname
  /-- The preserved BSSs ran entries of the old configuration. -/
  prev : ∀ slot ∈ slots reloaded.entries, getConfigBss iface old.bss slot.prev = some slot.handle
  /-- A BSS that ran before and still runs is preserved. -/
  kept : ∀ handle ∈ reloaded.iface.handles, handle ∈ iface.handles →
    handle ∈ (slots reloaded.entries).map Slot.handle
  /-- Where the old names are distinct, the same for the entries of the old configuration. -/
  left : (old.bss.map Bss.ifname).Nodup → ∀ p handle, getConfigBss iface old.bss p = some handle →
    handle ∈ reloaded.iface.handles → p ∈ (slots reloaded.entries).map Slot.prev
  /-- Each old BSS is preserved for one new index. -/
  once : ((slots reloaded.entries).map Slot.prev).Nodup
  /-- So is each BSS that runs. -/
  onceHandle : ((slots reloaded.entries).map Slot.handle).Nodup

/-- The renames of a driver that refuses a name that a device has, or of names that are
apart. -/
def NamesSafe (env : ReloadEnv) (config old : Config) : Prop :=
  (∀ running handle name, env.driver.rename running handle name = true →
    name ∉ running.map RunningBss.name) ∨
  NamesApart env.tempName (old.bss.map Bss.ifname) (config.bss.map Bss.ifname)

namespace ReloadRun

variable {stored : Stored} {name : String} {config old : Config} {reloaded : Reloaded}
  (run : ReloadRun env stored name config old iface reloaded)

include run

theorem preserved : Preserved iface config old run.marks run.matched :=
  preserved_of_preserve run.preserve

theorem keys : reloaded.entries.map Entry.key = run.renamed.2.map Entry.key :=
  keys_of_assignBssids run.assign

theorem slots_eq : slots reloaded.entries = slots run.renamed.2 := by
  have hkeys : ∀ entries : List Entry, slots entries = (entries.map Entry.key).filterMap Prod.snd := by
    intro entries
    rw [List.filterMap_map]
    rfl
  rw [hkeys, hkeys, run.keys]

theorem ifnames : reloaded.entries.map Entry.ifname = config.bss.map Bss.ifname := by
  have hkeys : ∀ entries : List Entry,
      entries.map Entry.ifname = (entries.map Entry.key).map Prod.fst := by
    intro entries
    rw [List.map_map]
    rfl
  rw [hkeys, run.keys, ← hkeys, (run.finish.shape onlyRenames_renameTemp).1,
    (run.rename.shape onlyRenames_renameSlot).1, run.preserved.ifnames]

theorem slotOrigins :
    (slots reloaded.entries).map Slot.origin = (slots run.matched).map Slot.origin := by
  rw [run.slots_eq, (run.finish.shape onlyRenames_renameTemp).2.1,
    (run.rename.shape onlyRenames_renameSlot).2.1]

theorem slotHandles :
    (slots reloaded.entries).map Slot.handle = (slots run.matched).map Slot.handle := by
  rw [run.slots_eq, run.finish.slotHandles onlyRenames_renameTemp,
    run.rename.slotHandles onlyRenames_renameSlot]

/-- The preserved BSSs ran entries of the old configuration, each one of its own. -/
theorem prev_spec : ((slots reloaded.entries).map Slot.prev).Nodup ∧
    ∀ slot ∈ slots reloaded.entries, getConfigBss iface old.bss slot.prev = some slot.handle := by
  constructor
  · have hprevs := congrArg (List.map Prod.fst) run.slotOrigins
    rw [List.map_map, List.map_map] at hprevs
    exact hprevs.symm ▸ run.preserved.prevs
  · intro slot hslot
    have hmem : slot.origin ∈ (slots run.matched).map Slot.origin :=
      run.slotOrigins ▸ List.mem_map_of_mem hslot
    obtain ⟨other, hother, heq⟩ := List.mem_map.mp hmem
    have hprev : other.prev = slot.prev := congrArg Prod.fst heq
    have hhandle : other.handle = slot.handle := congrArg Prod.snd heq
    rw [← hprev, ← hhandle]
    exact (run.preserved.slotOf other hother).found

theorem next_renamed : run.renamed.1.next = iface.next := by
  rw [(run.finish.shape onlyRenames_renameTemp).2.2.2,
    (run.rename.shape onlyRenames_renameSlot).2.2.2, (deleteUnused_spec run.delete).2.1]

theorem handles_renamed : run.renamed.1.handles = run.deleted.handles := by
  rw [(run.finish.shape onlyRenames_renameTemp).2.2.1,
    (run.rename.shape onlyRenames_renameSlot).2.2.1]

theorem slot_lt : ∀ handle ∈ (slots reloaded.entries).map Slot.handle, handle < iface.next := by
  intro handle hhandle
  rw [run.slotHandles] at hhandle
  obtain ⟨slot, hslot, rfl⟩ := List.mem_map.mp hhandle
  obtain ⟨entry, hentry, hfound, -⟩ :=
    exists_of_find (run.preserved.slotOf slot hslot).named
  exact hfound ▸ iface.fresh entry hentry

theorem order_spec : List.Forall₂ (fun handle entry =>
  (∀ slot ∈ entry.slot, handle = slot.handle) ∧ (entry.slot = none → iface.next ≤ handle))
    run.filled.2 reloaded.entries := by
  have horder := (added_of_addMissing run.add).1.order
  rwa [run.next_renamed] at horder

/-- The order has the preserved BSSs among new ones. -/
theorem mem_slots_of_mem_order {handle : ℕ} (h : handle ∈ run.filled.2)
    (hlt : handle < iface.next) : handle ∈ (slots reloaded.entries).map Slot.handle := by
  have horder := run.order_spec
  obtain ⟨i, hi, rfl⟩ := List.mem_iff_getElem.mp h
  have hlength := horder.length_eq
  have hpair := List.forall₂_iff_get.mp horder |>.2 i hi (hlength ▸ hi)
  cases hslot : (reloaded.entries.get ⟨i, hlength ▸ hi⟩).slot with
  | none => exact absurd (hpair.2 hslot) (Nat.not_le_of_lt hlt)
  | some slot =>
    have hmem : slot ∈ slots reloaded.entries :=
      mem_slots.mpr ⟨_, List.get_mem _ _, hslot⟩
    have heq : run.filled.2[i] = slot.handle := hpair.1 slot hslot
    rw [heq]
    exact List.mem_map_of_mem hmem

theorem slotHandles_nodup : ((slots reloaded.entries).map Slot.handle).Nodup := by
  have hnodup := (setBssOrder_spec run.order).1
  have hsub : ∀ {order : List ℕ} {entries : List Entry}, List.Forall₂ (fun handle entry =>
    (∀ slot ∈ entry.slot, handle = slot.handle) ∧ (entry.slot = none → iface.next ≤ handle))
      order entries → ((slots entries).map Slot.handle).Sublist order := by
    intro order entries hforall
    induction hforall with
    | nil => exact .slnil
    | @cons handle entry order rest hpair _ ih =>
      obtain ⟨bss, slot⟩ := entry
      cases slot with
      | none => exact ih.cons _
      | some slot =>
        rw [hpair.1 slot rfl]
        exact ih.cons_cons _
  exact hnodup.sublist (hsub run.order_spec)

theorem named_deleted : SlotsNamed run.deleted run.matched := by
  intro slot hslot entry hentry heq
  have hnamed := namedBy_of_find (run.preserved.slotOf slot hslot).named
  exact hnamed entry ((deleteUnused_spec run.delete).1 entry hentry) heq

theorem nodup_matched : ((slots run.matched).map Slot.handle).Nodup :=
  run.slotHandles ▸ run.slotHandles_nodup

theorem named_halfway : SlotsNamed run.halfway.1 run.halfway.2 :=
  (run.rename.named onlyRenames_renameSlot run.nodup_matched run.named_deleted).1

theorem nodup_halfway : ((slots run.halfway.2).map Slot.handle).Nodup :=
  run.rename.slotHandles onlyRenames_renameSlot ▸ run.nodup_matched

theorem named_renamed : SlotsNamed run.renamed.1 run.renamed.2 :=
  (run.finish.named onlyRenames_renameTemp run.nodup_halfway run.named_halfway).1

theorem temporary_matched : ∀ slot ∈ slots run.matched, slot.temporary = false :=
  fun slot hslot => (run.preserved.slotOf slot hslot).temporary

theorem halfRenamed : ∀ entry ∈ run.halfway.2, HalfRenamed env entry :=
  run.rename.halfRenamed run.temporary_matched

theorem fullyRenamed : ∀ entry ∈ reloaded.entries, FullyRenamed entry := by
  have hfull := run.finish.fullyRenamed run.halfRenamed
  intro entry hentry slot hslot
  have hmem : entry.key ∈ run.renamed.2.map Entry.key := run.keys ▸ List.mem_map_of_mem hentry
  obtain ⟨other, hother, hkey⟩ := List.mem_map.mp hmem
  have hname : other.ifname = entry.ifname := congrArg Prod.fst hkey
  have hslots : other.slot = entry.slot := congrArg Prod.snd hkey
  rw [← hname]
  exact hfull other hother slot (hslots ▸ hslot)

theorem named_filled : List.Forall₂ (fun handle entry =>
  run.filled.1.NamedBy handle entry.ifname) run.filled.2 reloaded.entries := by
  refine (added_of_addMissing run.add).2 ?_ (fun slot hslot => ?_) run.fullyRenamed
  · unfold SlotsNamed
    rw [run.slots_eq]
    exact run.named_renamed
  · rw [run.next_renamed]
    exact run.slot_lt _ (List.mem_map_of_mem hslot)

theorem ordered_eq : reloaded.iface.bss = run.ordered.bss ∧
    reloaded.iface.renames = run.ordered.renames := by
  refine updateConfig_spec run.update fun entry hentry slot hslot running hrunning heq => ?_
  obtain ⟨i, hi, rfl⟩ := List.mem_iff_getElem.mp hentry
  have hlength := run.order_spec.length_eq
  have hpair := (List.forall₂_iff_get.mp run.order_spec).2 i (hlength ▸ hi) hi
  have hnamed := (List.forall₂_iff_get.mp run.named_filled).2 i (hlength ▸ hi) hi
  refine hnamed running ((setBssOrder_spec run.order).2.2.2.2 running hrunning) ?_
  rw [heq]
  exact (hpair.1 slot hslot).symm

theorem handles_eq : reloaded.iface.handles = run.filled.2 := by
  rw [Iface.handles, run.ordered_eq.1]
  exact (setBssOrder_spec run.order).2.1

theorem names_eq : reloaded.iface.names = config.bss.map Bss.ifname := by
  rw [← run.ifnames]
  refine names_eq_of_order run.handles_eq (fun entry hentry => ?_) run.named_filled
  rw [run.ordered_eq.1] at hentry
  exact (setBssOrder_spec run.order).2.2.2.2 entry hentry

theorem covered_deleted : Covered run.deleted run.matched := by
  intro handle hhandle
  rw [← run.slotHandles]
  have hlt : handle < iface.next := by
    obtain ⟨entry, hentry, rfl⟩ := List.mem_map.mp hhandle
    exact iface.fresh entry ((deleteUnused_spec run.delete).1 entry hentry)
  refine run.mem_slots_of_mem_order ?_ hlt
  refine (setBssOrder_spec run.order).2.2.1.subset ?_
  obtain ⟨added, heq, -⟩ := (added_of_addMissing run.add).1.handles
  rw [heq, run.handles_renamed]
  exact List.mem_append_left _ hhandle

theorem covered_halfway : Covered run.halfway.1 run.halfway.2 := by
  obtain ⟨-, -, hiface, -⟩ := run.rename.shape onlyRenames_renameSlot
  intro handle hhandle
  rw [run.rename.slotHandles onlyRenames_renameSlot]
  rw [hiface] at hhandle
  exact run.covered_deleted handle hhandle

/-- Both passes go to free names where they are safe. -/
theorem renamesFree_of_safe {First Second : List Entry → List Entry → Prop}
    (hfirst : PassSafe (renameSlot env) First) (hsecond : PassSafe (renameTemp env) Second)
    (hstart : First [] run.matched) (hhalf : Second [] run.halfway.2) :
    RenamesFree iface reloaded.iface := by
  have hone : RenamesFree run.deleted run.halfway.1 :=
    run.rename.renamesFree onlyRenames_renameSlot hfirst hstart run.nodup_matched
      run.named_deleted run.covered_deleted
  have htwo : RenamesFree run.halfway.1 run.renamed.1 :=
    run.finish.renamesFree onlyRenames_renameTemp hsecond hhalf run.nodup_halfway
      run.named_halfway run.covered_halfway
  obtain ⟨added, heq, hfree⟩ := hone.trans htwo
  refine ⟨added, ?_, hfree⟩
  rw [run.ordered_eq.2, (setBssOrder_spec run.order).2.2.2.1,
    (added_of_addMissing run.add).1.renames, heq, (deleteUnused_spec run.delete).2.2]

theorem renamesFree (hsafe : NamesSafe env config old) : RenamesFree iface reloaded.iface := by
  rcases hsafe with hdriver | hapart
  · exact run.renamesFree_of_safe (passSafe_of_driver hdriver onlyRenames_renameSlot)
      (passSafe_of_driver hdriver onlyRenames_renameTemp) trivial trivial
  · refine run.renamesFree_of_safe (passSafe_renaming hapart) (passSafe_finishing hapart)
      ⟨run.preserved.ifnames, (fun _ h => nomatch h), fun slot hslot => ?_⟩
      ⟨?_, (fun _ h => nomatch h), run.halfRenamed⟩
    · exact ⟨(run.preserved.slotOf slot hslot).mem, run.temporary_matched slot hslot⟩
    · exact (run.rename.shape onlyRenames_renameSlot).1.trans run.preserved.ifnames

end ReloadRun

/-- With distinct names, a BSS runs one entry of the old configuration. -/
theorem prev_eq_of_running {old : List Bss} {slot : Slot} {p handle : ℕ}
    (hnodup : (old.map Bss.ifname).Nodup) (hfound : getConfigBss iface old p = some handle)
    (hslot : getConfigBss iface old slot.prev = some handle) : slot.prev = p := by
  obtain ⟨entry, hentry, hfind⟩ := getConfigBss_eq_some hfound
  obtain ⟨other, hother, hfind'⟩ := getConfigBss_eq_some hslot
  obtain ⟨running, hrunning, hhandle, hname⟩ := exists_of_find hfind
  obtain ⟨running', hrunning', hhandle', hname'⟩ := exists_of_find hfind'
  have hsame : running' = running := eq_of_handle_eq hrunning' hrunning (hhandle'.trans hhandle.symm)
  have hnames : other.ifname = entry.ifname := by rw [← hname', hsame, hname]
  have hlt : slot.prev < (old.map Bss.ifname).length := by
    rw [List.length_map]
    exact (List.getElem?_eq_some_iff.mp hother).1
  refine (List.getElem?_inj hlt hnodup).mp ?_
  rw [List.getElem?_map, List.getElem?_map, hentry, hother, Option.map_some, Option.map_some,
    hnames]

/-- A reload that ends well leaves the BSSs of the new configuration running, and its
renames go to free names. -/
theorem reload_reaches_config {stored : Stored} {name : String} {config old : Config}
    {reloaded : Reloaded} (h : reloadBss env stored name config old iface = some reloaded) :
    ReachesConfig config old iface reloaded ∧
      (NamesSafe env config old → RenamesFree iface reloaded.iface) := by
  obtain ⟨run⟩ := reloadRun_of_reloadBss h
  obtain ⟨honce, hprev⟩ := run.prev_spec
  have hkept : ∀ handle ∈ reloaded.iface.handles, handle ∈ iface.handles →
      handle ∈ (slots reloaded.entries).map Slot.handle := by
    intro handle hrunning hbefore
    obtain ⟨entry, hentry, rfl⟩ := List.mem_map.mp hbefore
    rw [run.handles_eq] at hrunning
    exact run.mem_slots_of_mem_order hrunning (iface.fresh entry hentry)
  refine ⟨⟨run.names_eq, run.ifnames, hprev, hkept, ?_, honce, run.slotHandles_nodup⟩,
    run.renamesFree⟩
  intro hnodup p handle hfound hrunning
  obtain ⟨entry, hentry, hfind⟩ := getConfigBss_eq_some hfound
  obtain ⟨slot, hslot, rfl⟩ := List.mem_map.mp (hkept handle hrunning (mem_handles_of_find hfind))
  rw [← prev_eq_of_running hnodup hfound (hprev slot hslot)]
  exact List.mem_map_of_mem hslot

/-! ## Two BSSs that change their names -/

def generatedBss (ifname content : String) (bssid : Option String) : Bss where
  ifname := ifname
  data := [("ssid=" ++ content).toList]
  hash := []
  bssid := bssid
  defaultMacaddr := true
  randomMacaddr := false
  nasid := none
  mldAp := false
  mldBssid := none
  forceReload := false

def configWith (bss : List Bss) : Config where
  phy := "phy0"
  radioIdx := none
  radio := radioOf ht40Plus
  bss := bss
  mbssid := none
  numGlobalMacaddr := none
  macaddrBase := none

/-- Two access points, and the same with their names exchanged. -/
def swapOld : Config :=
  configWith [generatedBss "phy0-ap0" "home" (some "02:00:00:00:00:00"),
    generatedBss "phy0-ap1" "guest" (some "02:00:00:00:00:01")]

@[inherit_doc swapOld]
def swapNew : Config :=
  configWith [generatedBss "phy0-ap0" "guest" (some "02:00:00:00:00:00"),
    generatedBss "phy0-ap1" "home" (some "02:00:00:00:00:01")]

/-- A driver that refuses only names in use. -/
def swapEnv : ReloadEnv where
  driver := ⟨fun running _ name => name ∉ running.map RunningBss.name, fun _ _ => true,
    fun _ => true⟩
  fullmac := false
  configHash data := String.ofList data.flatten
  tempName name := if name = "phy0-ap0" then "tmp_caea40ba" else "tmp_62ddbd7e"
  phydev := ⟨none, fun id => ["02:00:00:00:00:00", "02:00:00:00:00:01"][id]?,
    ["02:00:00:00:00:00", "02:00:00:00:00:01"]⟩
  enabled := true
  pending := false

def swapIface : Iface where
  bss := [⟨0, "phy0-ap0"⟩, ⟨1, "phy0-ap1"⟩]
  next := 2
  renames := []
  nodup := by decide
  fresh := by decide

/-- The exchange succeeds, by way of a temporary name. -/
theorem swap_reaches_config : ∃ reloaded,
    reloadBss swapEnv ⟨[("phy0", swapNew)], []⟩ "phy0" swapNew swapOld swapIface = some reloaded ∧
      ReachesConfig swapNew swapOld swapIface reloaded ∧ RenamesFree swapIface reloaded.iface := by
  have hsome : (reloadBss swapEnv ⟨[("phy0", swapNew)], []⟩ "phy0" swapNew swapOld
      swapIface).isSome = true := by decide +kernel
  obtain ⟨reloaded, h⟩ := Option.isSome_iff_exists.mp hsome
  have hdriver : NamesSafe swapEnv swapNew swapOld :=
    .inl fun running handle name haccept => of_decide_eq_true haccept
  have hreach := reload_reaches_config h
  exact ⟨reloaded, h, hreach.1, hreach.2 hdriver⟩

end OpenWrt.Hostapd
