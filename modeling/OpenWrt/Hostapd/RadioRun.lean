/-
# The radio parameters in effect

A radio runs with the section its interface was last started with or switched to. This
module follows `config_set` through the three ways it takes, the reload without a change of
the radio, the channel switch and the restart, and states exactly when the section in effect
stays that of the stored configuration.
-/

import OpenWrt.Hostapd.Radio
import OpenWrt.Lib.Run

namespace OpenWrt.Hostapd

open Lib

/-- One radio: its entry of `hostapd.data.config`, and the section that its interface was
last started with or switched to, where it has one. An interface that follows a station has
the section of its fallback channel. -/
structure RadioState where
  stored : Option Config
  inEffect : Option (List Line)

/-- A call of `config_set`, with what it finds outside of the configuration. -/
structure ConfigSet where
  /-- The radio it is about. -/
  name : String
  /-- The configuration of the file, with the BSSs that `iface_check_mld` leaves in it. -/
  config : Config
  /-- The configuration of `prev_config`, where the argument is given. -/
  prevConfig : Option Config
  /-- `phy_open` finds the radio: one that is not there has nothing in effect. -/
  opened : Bool
  env : ChannelEnv
  /-- The changes of the BSSs are made without a restart. -/
  bssReloaded : Bool
  /-- The BSSs with the addresses they are given. -/
  assigned : List Bss
  /-- A restart brings the interface up. -/
  started : Bool

/-- The stored configuration that the call compares with: a previous one takes the place of
one that is missing, without the lines of its radio. -/
def ConfigSet.oldConfig (call : ConfigSet) (stored : Option Config) : Option Config :=
  stored <|> call.prevConfig.map fun prev => { prev with radio := { prev.radio with data := [] } }

/-- `iface_reload_config`: whether the new configuration needs no restart. -/
def ConfigSet.ifaceReloadConfig (call : ConfigSet) : Option Config → Bool
  | none => false
  | some old =>
    let bssReloaded := old.bss = call.config.bss ∨ call.bssReloaded = true
    match radioReloadClass old.radio call.config.radio with
    | .restart => false
    | .channel => ifaceChannelSwitch call.env call.config && decide bssReloaded
    | .same => decide bssReloaded

/-- The section in effect after a reload that needed no restart. -/
def ConfigSet.reloadedSection (call : ConfigSet) (old : Option Config)
    (inEffect : Option (List Line)) : Option (List Line) :=
  if ∃ prev ∈ old, radioReloadClass prev.radio call.config.radio = .channel then
    inEffect.map fun _ => radioSection call.config.radio
  else inEffect

def ConfigSet.restartedSection (call : ConfigSet) : Option (List Line) :=
  if call.started then some (radioSection call.config.radio) else none

/-- `iface_set_config` of the radio the call is about. -/
def RadioState.configSet (radio : RadioState) (call : ConfigSet) : RadioState :=
  let old := call.oldConfig radio.stored
  if ¬ call.opened then ⟨some call.config, none⟩
  else if call.config.bss = [] then ⟨some call.config, none⟩
  else if call.ifaceReloadConfig old then
    ⟨some { call.config with bss := call.assigned }, call.reloadedSection old radio.inEffect⟩
  else ⟨some { call.config with bss := call.assigned }, call.restartedSection⟩

/-- The radios of the daemon by name. -/
abbrev Radios := String → RadioState

/-- The daemon before its first call. -/
def Radios.start : Radios := fun _ => ⟨none, none⟩

/-- `config_set`. -/
def Radios.configSet (radios : Radios) (call : ConfigSet) : Radios :=
  Function.update radios call.name ((radios call.name).configSet call)

/-! ## Agreement with the stored configuration -/

def RadioState.Agrees (radio : RadioState) : Prop :=
  ∀ lines ∈ radio.inEffect, ∃ config ∈ radio.stored, lines = radioSection config.radio

def Radios.Agree (radios : Radios) : Prop :=
  ∀ name, (radios name).Agrees

/-- The call takes a hidden edit of a running radio for no change. -/
structure HidesEdit (radio : RadioState) (call : ConfigSet) : Prop where
  running : radio.inEffect ≠ none
  opened : call.opened = true
  bss : call.config.bss ≠ []
  edit : ∃ old ∈ radio.stored, HiddenEdit old.radio call.config.radio ∧
    (old.bss = call.config.bss ∨ call.bssReloaded = true)

namespace RadioState

variable {radio : RadioState} {call : ConfigSet}

theorem agrees_of_none {stored : Option Config} : Agrees ⟨stored, none⟩ := by
  intro lines hlines
  cases hlines

theorem agrees_restartedSection {config : Config} (h : config.radio = call.config.radio) :
    Agrees ⟨some config, call.restartedSection⟩ := by
  intro lines hlines
  unfold ConfigSet.restartedSection at hlines
  split at hlines
  · cases hlines
    exact ⟨config, rfl, by rw [h]⟩
  · cases hlines

theorem inEffect_eq_none (hagree : radio.Agrees) (hstored : radio.stored = none) :
    radio.inEffect = none := by
  rw [Option.eq_none_iff_forall_not_mem]
  intro lines hlines
  obtain ⟨config, hconfig, -⟩ := hagree lines hlines
  rw [hstored] at hconfig
  cases hconfig

theorem section_eq_or_hiddenEdit {old new : Radio} (h : radioReloadClass old new = .same) :
    radioSection old = radioSection new ∨ HiddenEdit old new := by
  by_cases hedit : HiddenEdit old new
  · exact .inr hedit
  · exact .inl ((classSound_iff.mpr hedit).same h)

theorem class_of_hiddenEdit {old new : Radio} (h : HiddenEdit old new) :
    radioReloadClass old new = .same :=
  class_same_iff.mpr (.inr ⟨h.base, h.follow, h.channel, h.chanLines⟩)

theorem section_ne_of_hiddenEdit {old new : Radio} (h : HiddenEdit old new) :
    radioSection old ≠ radioSection new := fun heq => h.data (radioSection_inj.mp heq).1

/-- After a reload without restart, the sections agree unless the edit was hidden. -/
theorem agrees_reloaded_iff (hagree : radio.Agrees) (hopened : call.opened = true)
    (hbss : call.config.bss ≠ [])
    (hreload : call.ifaceReloadConfig (call.oldConfig radio.stored) = true) {config : Config}
    (hconfig : config.radio = call.config.radio) :
    Agrees ⟨some config, call.reloadedSection (call.oldConfig radio.stored) radio.inEffect⟩ ↔
      ¬ HidesEdit radio call := by
  cases hstored : radio.stored with
  | none =>
    have hnone := inEffect_eq_none hagree hstored
    have hsection : call.reloadedSection (call.oldConfig none) radio.inEffect = none := by
      unfold ConfigSet.reloadedSection
      rw [hnone]
      split <;> rfl
    rw [hsection]
    exact ⟨fun _ hhides => hhides.running hnone, fun _ => agrees_of_none⟩
  | some old =>
    have hold : call.oldConfig (some old) = some old := rfl
    rw [hstored, hold] at hreload
    simp only [hold, ConfigSet.reloadedSection, Option.mem_def, Option.some.injEq,
      exists_eq_left']
    simp only [ConfigSet.ifaceReloadConfig] at hreload
    split at hreload
    case h_1 => cases hreload
    case h_2 hclass =>
      rw [if_pos hclass]
      have hnot : ¬ HidesEdit radio call := by
        rintro ⟨-, -, -, prev, hprev, hedit, -⟩
        rw [hstored] at hprev
        cases hprev
        rw [class_of_hiddenEdit hedit] at hclass
        cases hclass
      refine ⟨fun _ => hnot, fun _ lines hlines => ⟨config, rfl, ?_⟩⟩
      obtain ⟨-, -, rfl⟩ := Option.map_eq_some_iff.mp hlines
      rw [hconfig]
    case h_3 hclass =>
      rw [if_neg (by rw [hclass]; decide)]
      have hreloaded : old.bss = call.config.bss ∨ call.bssReloaded = true :=
        of_decide_eq_true hreload
      constructor
      · rintro hafter ⟨hrunning, -, -, prev, hprev, hedit, -⟩
        rw [hstored] at hprev
        cases hprev
        obtain ⟨lines, hlines⟩ := Option.ne_none_iff_exists'.mp hrunning
        obtain ⟨current, hcurrent, hsection⟩ := hagree lines hlines
        obtain ⟨after, hmem, hnew⟩ := hafter lines hlines
        rw [hstored] at hcurrent
        cases hcurrent
        cases hmem
        rw [hconfig] at hnew
        exact section_ne_of_hiddenEdit hedit (hsection.symm.trans hnew)
      · intro hnot lines hlines
        obtain ⟨current, hcurrent, hsection⟩ := hagree lines hlines
        rw [hstored] at hcurrent
        cases hcurrent
        rcases section_eq_or_hiddenEdit hclass with heq | hedit
        · exact ⟨config, rfl, by rw [hsection, heq, hconfig]⟩
        · exact absurd ⟨Option.ne_none_iff_exists'.mpr ⟨lines, hlines⟩, hopened, hbss, old,
            hstored, hedit, hreloaded⟩ hnot

/-- One call keeps the agreement of its radio unless it hides an edit. -/
theorem agrees_configSet_iff (hagree : radio.Agrees) :
    (radio.configSet call).Agrees ↔ ¬ HidesEdit radio call := by
  unfold configSet
  by_cases hopened : call.opened = true
  · rw [if_neg (not_not_intro hopened)]
    by_cases hbss : call.config.bss = []
    · rw [if_pos hbss]
      exact ⟨fun _ hhides => hhides.bss hbss, fun _ => agrees_of_none⟩
    · rw [if_neg hbss]
      by_cases hreload : call.ifaceReloadConfig (call.oldConfig radio.stored) = true
      · rw [if_pos hreload]
        exact agrees_reloaded_iff hagree hopened hbss hreload rfl
      · rw [if_neg hreload]
        refine ⟨fun _ hhides => hreload ?_, fun _ => agrees_restartedSection rfl⟩
        obtain ⟨-, -, -, old, hold, hedit, hbssReloaded⟩ := hhides
        have hstored : call.oldConfig radio.stored = some old := by
          rw [Option.mem_def.mp hold]
          rfl
        rw [hstored, ConfigSet.ifaceReloadConfig]
        simp only [class_of_hiddenEdit hedit]
        exact decide_eq_true hbssReloaded
  · rw [if_pos hopened]
    exact ⟨fun _ hhides => hopened hhides.opened, fun _ => agrees_of_none⟩

end RadioState

namespace Radios

theorem agree_start : start.Agree := fun _ => RadioState.agrees_of_none

theorem agree_configSet_iff (radios : Radios) (call : ConfigSet) (hagree : radios.Agree) :
    (radios.configSet call).Agree ↔ ¬ HidesEdit (radios call.name) call := by
  have hupdate := Function.forall_update_iff radios (a := call.name)
    (b := (radios call.name).configSet call) (p := fun _ radio => RadioState.Agrees radio)
  unfold Agree configSet
  rw [hupdate, RadioState.agrees_configSet_iff (hagree call.name)]
  exact and_iff_left fun name _ => hagree name

end Radios

/-- A radio on channel 6 of 40 MHz width, with the secondary channel by the flag. -/
def radioOf (flag : Line) : Radio where
  data := ["driver=nl80211".toList, "hw_mode=g".toList, "ieee80211n=1".toList, htCapab ++ flag]
  channel := some "6".toList
  frequency := some 2437
  channelFollow := some false

/-- The access point of that radio. -/
def configOf (flag : Line) : Config where
  phy := "phy0"
  radioIdx := none
  radio := radioOf flag
  bss := [⟨"phy0-ap0", ["ssid=OpenWrt".toList], [], some "02:00:00:00:00:01", false, false, none,
    false, none, false⟩]
  mbssid := none
  numGlobalMacaddr := none
  macaddrBase := none

/-- The call that sets it, a restart bringing the interface up. -/
def configSetOf (flag : Line) : ConfigSet where
  name := "phy0"
  config := configOf flag
  prevConfig := none
  opened := true
  env := ⟨false, true, true⟩
  bssReloaded := true
  assigned := (configOf flag).bss
  started := true

end OpenWrt.Hostapd
