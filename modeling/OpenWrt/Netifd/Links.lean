/-
# The links of a device

A device raises its links in the networks when it gets up, and releases the links that its
data then names when it is torn down. What is raised is what the data names as long as the
data is not rebuilt or changed under its links: a configuration that is applied to a device
that is up drops the data of the interfaces without releasing anything.
-/

import Mathlib.Data.Finset.Basic
import Mathlib.Data.Finset.Lattice.Lemmas
import OpenWrt.Netifd.Lifecycle

namespace OpenWrt.Netifd

open Lib

/-! ## The calls -/

variable {links : Finset (String × String)} {data : List (String × LinkData)}

/-- The networks and devices that the data names. -/
def linkPairs (data : List (String × LinkData)) : Finset (String × String) :=
  ((Wdev.handleLinks data true).map fun call => (call.net, call.ifname)).toFinset

theorem foldl_raise (calls : List LinkCall) (hup : ∀ call ∈ calls, call.up = true) :
    calls.foldl LinkCall.apply links =
      links ∪ (calls.map fun call => (call.net, call.ifname)).toFinset := by
  induction calls generalizing links with
  | nil => simp
  | cons call calls ih =>
    have happly : LinkCall.apply links call = insert (call.net, call.ifname) links :=
      if_pos (hup call List.mem_cons_self)
    rw [List.foldl_cons, happly, ih fun other hother => hup other (List.mem_cons_of_mem _ hother),
      List.map_cons, List.toFinset_cons, Finset.insert_union, Finset.union_insert]

theorem foldl_release (calls : List LinkCall) (hup : ∀ call ∈ calls, call.up = false) :
    calls.foldl LinkCall.apply links =
      links \ (calls.map fun call => (call.net, call.ifname)).toFinset := by
  induction calls generalizing links with
  | nil => simp
  | cons call calls ih =>
    have happly : LinkCall.apply links call = links.erase (call.net, call.ifname) := by
      refine if_neg ?_
      rw [hup call List.mem_cons_self]
      exact nofun
    rw [List.foldl_cons, happly, ih fun other hother => hup other (List.mem_cons_of_mem _ hother),
      List.map_cons, List.toFinset_cons, Finset.sdiff_insert, Finset.erase_sdiff_comm]

theorem mem_handleLinks {up : Bool} {call : LinkCall} (h : call ∈ Wdev.handleLinks data up) :
    call.up = up := by
  obtain ⟨entry, -, hcall⟩ := List.mem_flatMap.mp h
  split at hcall
  · split at hcall
    · cases hcall
    · obtain ⟨net, -, rfl⟩ := List.mem_map.mp hcall
      rfl
  · cases hcall

/-- The calls that raise and those that release are about the same pairs. -/
theorem map_handleLinks (up : Bool) :
    ((Wdev.handleLinks data up).map fun call => (call.net, call.ifname)).toFinset =
      linkPairs data := by
  unfold linkPairs Wdev.handleLinks
  rw [List.map_flatMap, List.map_flatMap]
  congr 2
  funext entry
  split
  · split
    · rfl
    · simp [Wdev.handleLink]
  · rfl

theorem raise_links : (Wdev.handleLinks data true).foldl LinkCall.apply links =
    links ∪ linkPairs data :=
  foldl_raise _ fun _ h => mem_handleLinks h

theorem release_links : (Wdev.handleLinks data false).foldl LinkCall.apply links =
    links \ linkPairs data := by
  rw [foldl_release _ fun _ h => mem_handleLinks h, map_handleLinks]

theorem mem_linkPairs {pair : String × String} :
    pair ∈ linkPairs data ↔ ∃ entry ∈ data, pair ∈ linkPairs [entry] := by
  unfold linkPairs Wdev.handleLinks
  simp only [List.mem_toFinset, List.mem_map, List.mem_flatMap, List.mem_singleton, exists_eq_left]
  constructor
  · rintro ⟨call, ⟨entry, hentry, hcall⟩, rfl⟩
    exact ⟨entry, hentry, call, hcall, rfl⟩
  · rintro ⟨entry, hentry, call, hcall, rfl⟩
    exact ⟨call, ⟨entry, hentry, hcall⟩, rfl⟩

theorem linkPairs_mono {data' : List (String × LinkData)} (h : ∀ entry ∈ data, entry ∈ data') :
    linkPairs data ⊆ linkPairs data' := by
  intro pair hpair
  obtain ⟨entry, hentry, hmem⟩ := mem_linkPairs.mp hpair
  exact mem_linkPairs.mpr ⟨entry, h entry hentry, hmem⟩

/-! ## One device -/

/-- What is raised for a device, by its state. -/
def Wdev.Linked (wdev : Wdev) (links : Finset (String × String)) : Prop :=
  match wdev.state with
  | .down => links = ∅
  | .up => links = linkPairs wdev.handlerData
  | .setup | .teardown => links ⊆ linkPairs wdev.handlerData

/-- The same of an outcome; nothing is raised for a device that is gone. -/
def Outcome.Linked (outcome : Outcome) (links : Finset (String × String)) : Prop :=
  match outcome.wdev with
  | none => outcome.links.foldl LinkCall.apply links = ∅
  | some wdev => wdev.Linked (outcome.links.foldl LinkCall.apply links)

namespace Wdev

variable {wdev : Wdev}

/-- The entry of the device itself, which is all that `wdev_config_init` keeps. -/
def ownData (wdev : Wdev) : List (String × LinkData) :=
  wdev.handlerData.filter fun entry => entry.1 = wdev.name

/-- The data of the interfaces can be dropped: it names no other pair. -/
def Droppable (wdev : Wdev) : Prop :=
  linkPairs wdev.handlerData ⊆ linkPairs wdev.ownData

theorem Droppable.eq (h : wdev.Droppable) : linkPairs wdev.ownData = linkPairs wdev.handlerData :=
  Finset.Subset.antisymm (linkPairs_mono fun _ hentry => (List.mem_filter.mp hentry).1) h

theorem Linked.subset (h : wdev.Linked links) : links ⊆ linkPairs wdev.handlerData := by
  unfold Linked at h
  cases hs : wdev.state with
  | down =>
    rw [hs] at h
    rw [h]
    exact Finset.empty_subset _
  | up =>
    rw [hs] at h
    exact h.subset
  | setup =>
    rw [hs] at h
    exact h
  | teardown =>
    rw [hs] at h
    exact h

theorem Linked.down (h : wdev.Linked links) (hs : wdev.state = .down) : links = ∅ := by
  unfold Linked at h
  rw [hs] at h
  exact h

theorem Linked.up (h : wdev.Linked links) (hs : wdev.state = .up) :
    links = linkPairs wdev.handlerData := by
  unfold Linked at h
  rw [hs] at h
  exact h

theorem Linked.congr {wdev' : Wdev} (h : wdev.Linked links) (hstate : wdev'.state = wdev.state)
    (hdata : wdev'.handlerData = wdev.handlerData) : wdev'.Linked links := by
  unfold Linked at h ⊢
  rw [hstate, hdata]
  exact h

theorem linked_setup (h : wdev.Linked links) : wdev.setup.Linked links := by
  unfold setup
  split
  · exact h
  · split
    · exact h
    · exact h.subset

variable (env : NetEnv)

/-- The data can be built anew for a device that is down, and for one that is up where it can
be dropped. -/
theorem linked_configInit (h : wdev.Linked links)
    (hstate : wdev.state = .down ∨ wdev.state = .up ∧ wdev.Droppable) :
    (wdev.configInit env).Linked links := by
  unfold Linked
  rcases hstate with hs | ⟨hs, hdrop⟩
  · rw [show (wdev.configInit env).state = .down from hs]
    exact h.down hs
  · rw [show (wdev.configInit env).state = .up from hs]
    exact (h.up hs).trans hdrop.eq.symm

theorem linked_teardown (h : wdev.Linked links) : wdev.teardown.Linked links := by
  unfold teardown
  split
  · exact h.congr rfl rfl
  · exact h.subset

theorem linked_check (h : wdev.Linked links)
    (hup : wdev.state = .up → (wdev.updateDisabledVifs env).configChange = true →
      wdev.Droppable) : (wdev.check env).Linked links := by
  unfold check
  dsimp only
  split
  case isTrue => exact h.congr rfl rfl
  case isFalse hchange =>
    split
    case isTrue => exact h.congr rfl rfl
    case isFalse hidle =>
      refine linked_setup (linked_configInit env (h.congr rfl rfl) ?_)
      rw [not_and_or, not_not, not_not] at hidle
      rcases hidle with hs | hs
      · exact .inr ⟨hs, hup hs (not_not.mp hchange)⟩
      · exact .inl hs

theorem linked_update (data : Option DeviceData) (h : wdev.Linked links)
    (hup : wdev.state = .up → (∀ d, data = some d → wdev.data ≠ d) → wdev.Droppable) :
    (wdev.update env data).Linked links := by
  unfold update
  split
  case h_1 => exact linked_check env (h.congr rfl rfl) fun hs _ => hup hs nofun
  case h_2 data =>
    split
    case isTrue => exact h
    case isFalse hne =>
      refine linked_check env (h.congr rfl rfl) fun hs _ => hup hs fun d heq => ?_
      cases heq
      exact hne

theorem linked_start (h : wdev.Linked links) : (wdev.start env).Linked links := by
  unfold start
  split
  · exact h
  · dsimp only
    split
    · exact h.congr rfl rfl
    case isFalse hdown =>
      have hs : wdev.state = .down := not_not.mp hdown
      split
      · exact linked_setup (linked_configInit env (h.congr rfl rfl) (.inl hs))
      · exact linked_setup (h.congr rfl rfl)

theorem linked_retrySetup (h : wdev.Linked links) : (wdev.retrySetup env).Linked links := by
  unfold retrySetup
  split
  · exact h
  · split
    · exact h
    · exact linked_start env h

theorem linked_stop (h : wdev.Linked links) : wdev.stop.Linked links := by
  unfold stop
  dsimp only
  split
  · exact h.congr rfl rfl
  · exact linked_teardown (h.congr rfl rfl)
  · exact h.congr rfl rfl
  · exact h.congr rfl rfl

theorem linked_destroy (h : wdev.Linked links) : wdev.destroy.Linked links := by
  unfold destroy
  dsimp only
  split
  case isTrue => exact linked_stop (h.congr rfl rfl)
  case isFalse hdown => exact h.down (not_not.mp hdown)

/-- The callback of a setup script applies a new configuration only where the data can be
dropped. -/
theorem linked_setupCb (h : wdev.Linked links)
    (hup : wdev.state = .up → wdev.configChange = true → wdev.Droppable) :
    (wdev.setupCb env).Linked links := by
  unfold setupCb
  split
  · split
    case isTrue hcond =>
      exact linked_setup (linked_configInit env h (.inr ⟨hcond.1, hup hcond.1 hcond.2⟩))
    case isFalse => exact h
  · split
    · exact linked_teardown (h.congr rfl rfl)
    · exact linked_teardown (h.congr rfl rfl)

/-- The callback of a teardown script releases everything. -/
theorem linked_teardownCb (h : wdev.Linked links) : (wdev.teardownCb env).Linked links := by
  have hnone : (handleLinks wdev.handlerData false).foldl LinkCall.apply links = ∅ := by
    rw [release_links]
    exact Finset.sdiff_eq_empty_iff_subset.mpr h.subset
  have hdown : (wdev.tornDown env).state = .down := by
    unfold tornDown
    dsimp only
    split <;> rfl
  unfold teardownCb
  dsimp only
  split
  · exact hnone
  · have hlinked : (wdev.tornDown env).Linked ∅ := by
      unfold Linked
      rw [hdown]
    have hsetup := linked_setup hlinked
    have hcalls : (wdev.tornDown env).setup.links = [] := by
      unfold setup
      split
      · rfl
      · split <;> rfl
    unfold Outcome.Linked at hsetup ⊢
    rw [hcalls] at hsetup
    dsimp only
    rw [hnone]
    exact hsetup

theorem linked_callback (op : Op) (h : wdev.Linked links)
    (hup : op = .setup → wdev.state = .up → wdev.configChange = true → wdev.Droppable) :
    (wdev.callback env op).Linked links := by
  cases op with
  | setup => exact linked_setupCb env h (hup rfl)
  | teardown => exact linked_teardownCb env h

theorem linked_markUp (h : wdev.Linked links) : wdev.markUp.Linked links := by
  unfold markUp
  split
  case isTrue => exact h
  case isFalse =>
    split
    case isTrue => exact linked_teardown (h.congr rfl rfl)
    case isFalse =>
      change (handleLinks wdev.handlerData true).foldl LinkCall.apply links =
        linkPairs wdev.handlerData
      rw [raise_links]
      exact Finset.union_eq_right.mpr h.subset

/-! ## Reports -/

/-- The key and the networks of what a notification is about. -/
def reported (wdev : Wdev) : Target → Option (String × List String)
  | .device => some (wdev.name, [])
  | .vif idx => wdev.handlerConfig.interfaces[idx]?.map fun vif => (vif.name, vif.config.network)
  | .vlan idx vlan => do
      let vif ← wdev.handlerConfig.interfaces[idx]?
      let vlan ← vif.vlans[vlan]?
      some (vif.name ++ "/" ++ vlan.name, vlan.config.network)

/-- The name that a report gives to its target; the device itself has none. -/
def reportedName (ifname : Option String) : Target → Option String
  | .device => none
  | .vif _ | .vlan _ _ => ifname

def pairsWith (wdev : Wdev) (key : String) (data : LinkData) : Finset (String × String) :=
  linkPairs (wdev.handlerData.filter fun entry => entry.1 ≠ key) ∪ linkPairs [(key, data)]

theorem setData_eq (target : Target) (ifname : Option String) :
    wdev.setData target ifname =
      match wdev.reported target with
      | none => wdev
      | some (key, network) => wdev.putData key ⟨reportedName ifname target, network⟩ := by
  cases target with
  | device => rfl
  | vif idx =>
    unfold setData reported
    dsimp only
    cases wdev.handlerConfig.interfaces[idx]? with
    | none => rfl
    | some vif => rfl
  | vlan idx vlan =>
    unfold setData reported
    dsimp only
    cases wdev.handlerConfig.interfaces[idx]? with
    | none => rfl
    | some vif =>
      dsimp only [bind, Option.bind]
      cases vif.vlans[vlan]? with
      | none => rfl
      | some vlan => rfl

theorem linkPairs_putData (key : String) (data : LinkData) :
    linkPairs (wdev.putData key data).handlerData = wdev.pairsWith key data := by
  have hmem : ∀ entry, entry ∈ (wdev.putData key data).handlerData ↔
      (entry ∈ wdev.handlerData ∧ entry.1 ≠ key) ∨ entry = (key, data) := by
    intro entry
    unfold putData
    dsimp only
    split
    case isTrue hany =>
      obtain ⟨old, hold, hkey⟩ := List.any_eq_true.mp hany
      rw [List.mem_map]
      constructor
      · rintro ⟨other, hother, rfl⟩
        split
        case isTrue => exact .inr rfl
        case isFalse hne => exact .inl ⟨hother, hne⟩
      · rintro (⟨hentry, hne⟩ | rfl)
        · exact ⟨entry, hentry, if_neg hne⟩
        · exact ⟨old, hold, if_pos (of_decide_eq_true hkey)⟩
    case isFalse hany =>
      rw [List.mem_append, List.mem_singleton]
      refine or_congr_left ⟨fun hentry => ⟨hentry, fun hkey => hany ?_⟩, And.left⟩
      exact List.any_eq_true.mpr ⟨entry, hentry, decide_eq_true hkey⟩
  ext pair
  rw [mem_linkPairs, pairsWith, Finset.mem_union, mem_linkPairs]
  constructor
  · rintro ⟨entry, hentry, hpair⟩
    rcases (hmem entry).mp hentry with ⟨hold, hne⟩ | rfl
    · exact .inl ⟨entry, List.mem_filter.mpr ⟨hold, decide_eq_true hne⟩, hpair⟩
    · exact .inr hpair
  · rintro (⟨entry, hentry, hpair⟩ | hpair)
    · obtain ⟨hold, hne⟩ := List.mem_filter.mp hentry
      exact ⟨entry, (hmem entry).mpr (.inl ⟨hold, of_decide_eq_true hne⟩), hpair⟩
    · exact ⟨(key, data), (hmem _).mpr (.inr rfl), hpair⟩

/-- The pairs that the data names with a report are right for the state of the device. -/
def ReportFits (wdev : Wdev) (links : Finset (String × String)) (target : Target)
    (ifname : Option String) : Prop :=
  ∀ key network, wdev.reported target = some (key, network) →
    match wdev.state with
    | .down => True
    | .up => links = wdev.pairsWith key ⟨reportedName ifname target, network⟩
    | .setup | .teardown => links ⊆ wdev.pairsWith key ⟨reportedName ifname target, network⟩

theorem linked_setData {target : Target} {ifname : Option String} (h : wdev.Linked links)
    (hfits : wdev.ReportFits links target ifname) : (wdev.setData target ifname).Linked links := by
  rw [setData_eq]
  cases hreported : wdev.reported target with
  | none => exact h
  | some found =>
    obtain ⟨key, network⟩ := found
    have hfit := hfits key network hreported
    dsimp only
    unfold Linked
    rw [linkPairs_putData]
    change match wdev.state with
      | .down => links = ∅
      | .up => links = _
      | .setup | .teardown => links ⊆ _
    cases hs : wdev.state with
    | down => exact h.down hs
    | setup =>
      rw [hs] at hfit
      exact hfit
    | up =>
      rw [hs] at hfit
      exact hfit
    | teardown =>
      rw [hs] at hfit
      exact hfit

theorem linked_processAdd (proc : Proc) (h : wdev.Linked links) :
    (wdev.processAdd proc).Linked links := by
  unfold processAdd
  split
  · exact h
  · split
    · exact h
    · exact h.congr rfl rfl

theorem linked_procCheck (active : Proc → Bool) (h : wdev.Linked links) :
    (wdev.procCheck active).Linked links := by
  unfold procCheck
  split
  · exact h
  · exact linked_teardown h

end Wdev

/-! ## The system -/

namespace Slot

variable {slot : Slot}

/-- What is raised for the device of a slot; nothing is without a device. -/
def Linked (slot : Slot) : Prop :=
  match slot.device with
  | none => slot.links = ∅
  | some wdev => wdev.Linked slot.links

theorem linked_take {outcome : Outcome} (h : outcome.Linked slot.links) :
    (slot.take outcome).Linked := h

theorem linked_call {f : Wdev → Outcome} (h : slot.Linked)
    (hf : ∀ wdev, slot.device = some wdev → wdev.Linked slot.links →
      (f wdev).Linked slot.links) : (slot.call f).Linked := by
  unfold Linked at h
  unfold call
  cases hdevice : slot.device with
  | none =>
    rw [hdevice] at h
    unfold Linked
    rw [hdevice]
    exact h
  | some wdev =>
    rw [hdevice] at h
    exact linked_take (hf wdev hdevice h)

/-- A reload that changes the data of a device that is up only where the old data can be
dropped. -/
theorem linked_reload (env : NetEnv) {new : Option DeviceData} (h : slot.Linked)
    (hup : ∀ wdev, slot.device = some wdev → wdev.state = .up →
      ∀ data, new = some data → wdev.data ≠ data → wdev.Droppable) :
    (slot.reload env new).Linked := by
  unfold Linked at h
  change (slot.updateConfig env new).Linked
  unfold updateConfig
  cases hdevice : slot.device with
  | none =>
    rw [hdevice] at h
    cases new with
    | none =>
      unfold Linked
      rw [hdevice]
      exact h
    | some data => exact h
  | some wdev =>
    rw [hdevice] at h
    cases new with
    | none => exact linked_take (Wdev.linked_destroy h)
    | some data =>
      refine linked_take (Wdev.linked_update env (some data) h fun hs hne => ?_)
      exact hup wdev hdevice hs data rfl (hne data rfl)

end Slot

namespace System

variable {s : System}

/-- What is raised is right for every device. -/
def Linked (s : System) : Prop :=
  ∀ name, (s.slots name).Linked

theorem linked_on {name : String} {f : Slot → Slot} (h : s.Linked)
    (hf : (f (s.slots name)).Linked) : (s.on name f).Linked := by
  intro other
  change (Function.update s.slots name (f (s.slots name)) other).Linked
  by_cases heq : other = name
  · subst heq
    rw [Function.update_self]
    exact hf
  · rw [Function.update_of_ne heq]
    exact h other

theorem linked_onCall {name : String} {f : Wdev → Outcome} (h : s.Linked)
    (hf : ∀ wdev, (s.slots name).device = some wdev → wdev.Linked (s.slots name).links →
      (f wdev).Linked (s.slots name).links) : (s.on name (Slot.call f)).Linked :=
  linked_on h (Slot.linked_call (h name) hf)

/-- The callback of the operation builds the data of the device anew only where the old data
can be dropped. -/
def CallbackFits (s : System) (name : String) (op : Op) : Prop :=
  op = .setup → ∀ wdev, (s.slots name).device = some wdev → wdev.state = .up →
    wdev.configChange = true → wdev.Droppable

theorem linked_complete (env : NetEnv) {task : String × Op} (h : s.Linked)
    (hfits : s.CallbackFits task.1 task.2) : (s.complete env task).Linked := by
  unfold complete
  split
  · exact h
  · split
    · exact h
    · exact linked_onCall (s := { s with cur := none }) h fun wdev hdevice hw =>
      Wdev.linked_callback env task.2 hw fun hop => hfits hop wdev hdevice

theorem linked_runNext (env : NetEnv) (name : String) (starts : Bool) (h : s.Linked)
    (hfits : starts = false → ∀ op, (s.slots name).handler = some op → s.CallbackFits name op) :
    (s.runNext env name starts).Linked := by
  unfold runNext
  split
  case h_2 => exact h
  case h_1 op hcur hhandler =>
    have hslots : ({ s with cur := some (name, op) }.on name (Slot.dequeue op)).Linked :=
      linked_on (s := { s with cur := some (name, op) }) h (h name)
    split
    case isTrue => exact hslots
    case isFalse hstarts =>
      refine linked_complete env hslots fun hop wdev hdevice => ?_
      refine hfits (Bool.eq_false_iff.mpr hstarts) op hhandler hop wdev ?_
      change (Function.update s.slots name _ name).device = some wdev at hdevice
      rw [Function.update_self] at hdevice
      exact hdevice

theorem linked_exit (env : NetEnv) {task : String × Op} (h : s.Linked)
    (hfits : task ∈ s.tasks → s.CallbackFits task.1 task.2) : (s.exit env task).Linked := by
  unfold exit
  split
  case isTrue hmem =>
    exact linked_complete (s := { s with tasks := s.tasks.erase task }) env h (hfits hmem)
  case isFalse => exact h

/-- The step builds the data of a device anew, or changes it, only where that keeps the links
of the device. -/
def LinksFit (s : System) : Event → Prop
  | .reload _ new => ∀ name wdev, (s.slots name).device = some wdev → wdev.state = .up →
      ∀ data, new name = some data → wdev.data ≠ data → wdev.Droppable
  | .reconf _ name => ∀ wdev, (s.slots name).device = some wdev → wdev.state = .up →
      wdev.Droppable
  | .checkInterfaces env name => ∀ wdev, (s.slots name).device = some wdev → wdev.state = .up →
      wdev.autostart = true → (wdev.updateDisabledVifs env).configChange = true → wdev.Droppable
  | .next _ name starts => starts = false → ∀ op, (s.slots name).handler = some op →
      s.CallbackFits name op
  | .exit _ task => task ∈ s.tasks → s.CallbackFits task.1 task.2
  | .timeout _ => ∀ task, s.cur = some task → task ∈ s.tasks → s.CallbackFits task.1 task.2
  | .setData name target ifname => ∀ wdev, (s.slots name).device = some wdev →
      wdev.ReportFits (s.slots name).links target ifname
  | _ => True

theorem linked_step {event : Event} (h : s.Linked) (hfits : s.LinksFit event) :
    (s.step event).Linked := by
  cases event with
  | reload env new => exact fun name => Slot.linked_reload env (h name) (hfits name)
  | up env name => exact linked_onCall h fun _ _ hw => Wdev.linked_start env hw
  | down name => exact linked_on h (Slot.linked_call (h name) fun _ _ hw => Wdev.linked_stop hw)
  | retry env name => exact linked_onCall h fun _ _ hw => Wdev.linked_retrySetup env hw
  | reconf env name =>
    exact linked_onCall h fun wdev hdevice hw =>
      Wdev.linked_update env none hw fun hs _ => hfits wdev hdevice hs
  | checkInterfaces env name =>
    refine linked_onCall h fun wdev hdevice hw => ?_
    split
    case isTrue hauto =>
      exact Wdev.linked_check env hw fun hs hchange => hfits wdev hdevice hs hauto hchange
    case isFalse => exact hw
  | next env name starts => exact linked_runNext env name starts h hfits
  | exit env task => exact linked_exit env h hfits
  | timeout env =>
    change (s.timeout env).Linked
    unfold timeout
    split
    case h_1 => exact h
    case h_2 task hcur => exact linked_exit env h (hfits task hcur)
  | markUp name => exact linked_onCall h fun _ _ hw => Wdev.linked_markUp hw
  | setData name target ifname =>
    exact linked_onCall h fun wdev hdevice hw => Wdev.linked_setData hw (hfits wdev hdevice)
  | processAdd name proc => exact linked_onCall h fun _ _ hw => Wdev.linked_processAdd proc hw
  | setRetry name retry => exact linked_onCall h fun _ _ hw => hw.congr rfl rfl
  | procCheck name active => exact linked_onCall h fun _ _ hw => Wdev.linked_procCheck active hw

/-! ## Balance -/

/-- The links of a device that is up are the pairs that its data names; a device that is down
or gone has none. -/
structure Balanced (s : System) : Prop where
  up : ∀ name wdev, (s.slots name).device = some wdev → wdev.state = .up →
    (s.slots name).links = linkPairs wdev.handlerData
  down : ∀ name wdev, (s.slots name).device = some wdev → wdev.state = .down →
    (s.slots name).links = ∅
  gone : ∀ name, (s.slots name).device = none → (s.slots name).links = ∅

theorem Linked.balanced (h : s.Linked) : s.Balanced := by
  have hslot : ∀ name wdev, (s.slots name).device = some wdev →
      wdev.Linked (s.slots name).links := by
    intro name wdev hdevice
    have hlinked := h name
    unfold Slot.Linked at hlinked
    rw [hdevice] at hlinked
    exact hlinked
  refine ⟨fun name wdev hdevice => (hslot name wdev hdevice).up,
    fun name wdev hdevice => (hslot name wdev hdevice).down, fun name hdevice => ?_⟩
  have hlinked := h name
  unfold Slot.Linked at hlinked
  rw [hdevice] at hlinked
  exact hlinked

/-- In every run whose steps keep the links of the devices, the links are balanced. -/
theorem links_balanced_of_fit (events : List Event) (h : Along step LinksFit events start) (n : ℕ) :
    ((events.take n).foldl step start).Balanced := by
  have hstart : start.Linked := fun _ => rfl
  exact (invariant_take_of_along (fun _ _ _ hs hfits => linked_step hs hfits) h hstart n).balanced

/-! ## Moving an interface to another network -/

/-- A radio with one interface in the network. -/
def bridgedRadio (net : String) : DeviceData :=
  ⟨"radio0", [("type", "mac80211")], [⟨"default_radio0", ⟨[net], [("mode", "ap")]⟩, [], []⟩]⟩

def onlyBridged (net name : String) : Option DeviceData :=
  if name = "radio0" then some (bridgedRadio net) else none

def bridgedUp : List Event :=
  [.reload noNets (onlyBridged "lan"), .up noNets "radio0", .next noNets "radio0" true,
    .setData "radio0" (.vif 0) (some "phy0-ap0"), .markUp "radio0",
    .exit noNets ("radio0", .setup)]

/-- The radio is set up and torn down again. -/
def bridgedUpDown : List Event :=
  bridgedUp ++ [.down "radio0", .next noNets "radio0" true, .exit noNets ("radio0", .teardown)]

/-- The interface of the radio moves to another network while it is up. -/
def bridgedMove : List Event :=
  bridgedUp ++ [.reload noNets (onlyBridged "guest"), .next noNets "radio0" true,
    .setData "radio0" (.vif 0) (some "phy0-ap0"), .markUp "radio0"]

/-- Setting a radio up raises its link, and tearing it down releases it. -/
theorem links_balanced_of_upDown :
    ((bridgedUp.foldl step start).slots "radio0").links = {("lan", "phy0-ap0")} ∧
      ((bridgedUpDown.foldl step start).slots "radio0").links = ∅ ∧
      ∀ n, ((bridgedUpDown.take n).foldl step start).Balanced := by
  have hreport : ∀ wdev ∈ (((bridgedUp.take 3).foldl step start).slots "radio0").device,
      wdev.state = .setup ∧
        (((bridgedUp.take 3).foldl step start).slots "radio0").links = ∅ := by decide +kernel
  have hexit : ∀ wdev ∈ (((bridgedUp.take 5).foldl step start).slots "radio0").device,
      wdev.configChange = false := by decide +kernel
  have hfit : Along step LinksFit bridgedUpDown start := by
    refine ⟨(fun name wdev hdevice => nomatch hdevice), trivial, (fun hstarts => nomatch hstarts),
      fun wdev hdevice key network _ => ?_, trivial,
      fun _ _ wdev hdevice _ hchange => ?_, trivial, (fun hstarts => nomatch hstarts),
      (fun _ hop => nomatch hop), trivial⟩
    · obtain ⟨hs, hlinks⟩ := hreport wdev hdevice
      rw [hs]
      change (((bridgedUp.take 3).foldl step start).slots "radio0").links ⊆ _
      rw [hlinks]
      exact Finset.empty_subset _
    · exact nomatch (hexit wdev hdevice).symm.trans hchange
  exact ⟨by decide +kernel, by decide +kernel, links_balanced_of_fit bridgedUpDown hfit⟩

/-- The radio is up again, and its old network still has the link. -/
theorem not_links_balanced_of_move :
    ¬ ∀ n, ((bridgedMove.take n).foldl step start).Balanced := by
  intro hall
  have hbalanced : (bridgedMove.foldl step start).Balanced := hall bridgedMove.length
  have hslot : ∀ wdev ∈ ((bridgedMove.foldl step start).slots "radio0").device,
      wdev.state = .up ∧ ((bridgedMove.foldl step start).slots "radio0").links ≠
        linkPairs wdev.handlerData := by decide +kernel
  obtain ⟨wdev, hdevice⟩ : ∃ wdev, ((bridgedMove.foldl step start).slots "radio0").device = some wdev :=
    Option.isSome_iff_exists.mp (by decide +kernel)
  obtain ⟨hup, hne⟩ := hslot wdev hdevice
  exact hne (hbalanced.up "radio0" wdev hdevice hup)

end System

end OpenWrt.Netifd
