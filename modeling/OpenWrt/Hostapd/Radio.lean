/-
# How a change of the radio is applied

A reload compares the radio of the stored configuration with the new one. Nothing has to be
done where the two are the same, a change of the channel is made by a channel switch of the
running interface, and everything else by a restart. The comparison works on projections of
the lines: the channel lines, and the base without the direction of the secondary channel.
-/

import OpenWrt.Hostapd.Config
import OpenWrt.Lib.EraseAll

namespace OpenWrt.Hostapd

open Lib

/-- `radio_chan_fields`. -/
def radioChanFields : List Line :=
  ["op_class".toList,
    "vht_oper_chwidth".toList, "vht_oper_centr_freq_seg0_idx".toList,
    "he_oper_chwidth".toList, "he_oper_centr_freq_seg0_idx".toList,
    "eht_oper_chwidth".toList, "eht_oper_centr_freq_seg0_idx".toList]

/-- `radio_line_is_chan`. -/
def radioLineIsChan (line : Line) : Bool :=
  radioChanFields.contains (lineKey line)

def htCapab : Line := "ht_capab=".toList

/-- The flag of a secondary channel above the primary one. -/
def ht40Plus : Line := "[HT40+]".toList

/-- The flag of a secondary channel below the primary one. -/
def ht40Minus : Line := "[HT40-]".toList

/-- The line without the flags for the direction of the secondary channel. -/
def lineBase (line : Line) : Line :=
  if htCapab.isPrefixOf line then eraseAll ht40Minus (eraseAll ht40Plus line) else line

/-- `radio_base`. -/
def radioBase (radio : Radio) : List Line :=
  (radio.data.filter fun line => !radioLineIsChan line).map lineBase

/-- The results of the comparison of two radios. -/
inductive ReloadClass
  | same
  | channel
  | restart
deriving DecidableEq

/-- `radio_reload_class`. -/
def radioReloadClass (oldRadio newRadio : Radio) : ReloadClass :=
  if oldRadio = newRadio then .same
  else if radioBase oldRadio ≠ radioBase newRadio ∨
      oldRadio.channelFollow.getD false ≠ newRadio.channelFollow.getD false then .restart
  -- the frequency is derived from the channel, so it alone is no change
  else if oldRadio.channel = newRadio.channel ∧
      oldRadio.data.filter radioLineIsChan = newRadio.data.filter radioLineIsChan then .same
  else .channel

/-- `iface_channel_is_dfs`. -/
def ifaceChannelIsDfs (radio : Radio) : Bool :=
  match radio.frequency with
  | none => false
  | some freq => (5250 ≤ freq && freq ≤ 5330) || (5490 ≤ freq && freq ≤ 5730)

/-- What a channel switch finds outside of the configuration. -/
structure ChannelEnv where
  /-- `hostapd.data.apsta_freq` has a frequency for the radio. -/
  apstaFreq : Bool
  /-- The interface is there and in the state `ENABLED`. -/
  enabled : Bool
  /-- The target is a valid channel, and the driver takes the switch. -/
  switched : Bool

/-- `iface_channel_switch`: whether the new channel needs no restart. -/
def ifaceChannelSwitch (env : ChannelEnv) (config : Config) : Bool :=
  if config.radio.channelFollow.getD false && env.apstaFreq then true
  else if config.bss.any Bss.mldAp then false
  else if config.radio.frequency.getD 0 = 0 || ifaceChannelIsDfs config.radio then false
  else env.enabled && env.switched

/-! ## What the class says about the two radios -/

/-- The second line has one flag for the direction of the secondary channel more in its HT
capabilities. -/
def Ht40Inserted (shorter longer : Line) : Prop :=
  ∃ flag ∈ [ht40Plus, ht40Minus], ∃ first second, Inserted flag first second ∧
    shorter = htCapab ++ first ∧ longer = htCapab ++ second

/-- The two lines differ in no more than the direction of the secondary channel. -/
def SameButHt40 (first second : Line) : Prop :=
  Relation.EqvGen Ht40Inserted first second

/-- The two radios differ in nothing but the channel, the lines of the channel and the
direction of the secondary channel. -/
structure DiffersInChannel (oldRadio newRadio : Radio) : Prop where
  lines : List.Forall₂ SameButHt40
    (oldRadio.data.filter fun line => !radioLineIsChan line)
    (newRadio.data.filter fun line => !radioLineIsChan line)
  follow : oldRadio.channelFollow.getD false = newRadio.channelFollow.getD false

/-- What a reload relies on: no difference is hidden in the class it goes by. -/
structure ClassSound (oldRadio newRadio : Radio) : Prop where
  same : radioReloadClass oldRadio newRadio = .same →
    radioSection oldRadio = radioSection newRadio
  channel : radioReloadClass oldRadio newRadio = .channel →
    DiffersInChannel oldRadio newRadio

/-- The lines differ, yet the channel and the projections that are compared do not: the
direction of the secondary channel is another one, or the lines of the channel stand at
other places among the rest. -/
structure HiddenEdit (oldRadio newRadio : Radio) : Prop where
  data : oldRadio.data ≠ newRadio.data
  base : radioBase oldRadio = radioBase newRadio
  chanLines : oldRadio.data.filter radioLineIsChan = newRadio.data.filter radioLineIsChan
  channel : oldRadio.channel = newRadio.channel
  follow : oldRadio.channelFollow.getD false = newRadio.channelFollow.getD false

section Lines

theorem sameButHt40_of_inserted {flag first second : Line} (hflag : flag ∈ [ht40Plus, ht40Minus])
    (h : Relation.EqvGen (Inserted flag) first second) :
    SameButHt40 (htCapab ++ first) (htCapab ++ second) := by
  induction h with
  | rel shorter longer hins => exact .rel _ _ ⟨flag, hflag, shorter, longer, hins, rfl, rfl⟩
  | refl line => exact .refl _
  | symm first second _ ih => exact .symm _ _ ih
  | trans first second third _ _ ihfirst ihsecond => exact .trans _ _ _ ihfirst ihsecond

theorem eraseAll_htCapab_append {flag : Line} (hflag : flag ∈ [ht40Plus, ht40Minus])
    (line : Line) : eraseAll flag (htCapab ++ line) = htCapab ++ eraseAll flag line := by
  have hall : htCapab.all (· != '[') = true := by decide +kernel
  have hkey : ∀ a ∈ htCapab, a ≠ '[' := fun a ha => by
    simpa using List.all_eq_true.mp hall a ha
  rcases List.mem_pair.mp hflag with rfl | rfl
  · exact eraseAll_append_of_forall_ne htCapab line hkey
  · exact eraseAll_append_of_forall_ne htCapab line hkey

theorem lineBase_htCapab_append (line : Line) :
    lineBase (htCapab ++ line) = htCapab ++ eraseAll ht40Minus (eraseAll ht40Plus line) := by
  have hstarts : htCapab.isPrefixOf (htCapab ++ line) = true := by
    rw [List.isPrefixOf_iff_prefix]
    exact List.prefix_append htCapab line
  rw [lineBase, if_pos hstarts, eraseAll_htCapab_append (by simp),
    eraseAll_htCapab_append (by simp)]

/-- The base of a line is the line up to the direction of the secondary channel. -/
theorem sameButHt40_lineBase (line : Line) : SameButHt40 (lineBase line) line := by
  by_cases hstarts : htCapab <+: line
  · obtain ⟨rest, rfl⟩ := hstarts
    rw [lineBase_htCapab_append]
    have hminus := eqvGen_inserted_eraseAll (by decide : ht40Minus ≠ []) (eraseAll ht40Plus rest)
    have hplus := eqvGen_inserted_eraseAll (by decide : ht40Plus ≠ []) rest
    exact .trans _ _ _ (sameButHt40_of_inserted (by simp) hminus)
      (sameButHt40_of_inserted (by simp) hplus)
  · have hnone : ¬ htCapab.isPrefixOf line = true := by
      rwa [List.isPrefixOf_iff_prefix]
    rw [lineBase, if_neg hnone]
    exact .refl _

theorem sameButHt40_of_lineBase_eq {first second : Line} (h : lineBase first = lineBase second) :
    SameButHt40 first second :=
  .trans _ _ _ (.symm _ _ (sameButHt40_lineBase first)) (h ▸ sameButHt40_lineBase second)

theorem forall₂_sameButHt40 {first second : List Line}
    (h : first.map lineBase = second.map lineBase) : List.Forall₂ SameButHt40 first second := by
  induction first generalizing second with
  | nil =>
    have hnil : second = [] := by simpa using h.symm
    subst hnil
    exact .nil
  | cons line lines ih =>
    cases second with
    | nil => simp at h
    | cons line' lines' =>
      rw [List.map_cons, List.map_cons, List.cons_eq_cons] at h
      exact .cons (sameButHt40_of_lineBase_eq h.1) (ih h.2)

end Lines

variable {oldRadio newRadio : Radio}

theorem base_of_class_channel (h : radioReloadClass oldRadio newRadio = .channel) :
    radioBase oldRadio = radioBase newRadio ∧
      oldRadio.channelFollow.getD false = newRadio.channelFollow.getD false := by
  unfold radioReloadClass at h
  split at h
  · cases h
  · split at h
    · cases h
    · rename_i hbase
      simpa only [not_or, not_not] using hbase

theorem differsInChannel_of_class (h : radioReloadClass oldRadio newRadio = .channel) :
    DiffersInChannel oldRadio newRadio := by
  obtain ⟨hbase, hfollow⟩ := base_of_class_channel h
  exact ⟨forall₂_sameButHt40 hbase, hfollow⟩

/-- What the class `same` was decided by. -/
theorem class_same_iff : radioReloadClass oldRadio newRadio = .same ↔
    oldRadio = newRadio ∨
      radioBase oldRadio = radioBase newRadio ∧
        oldRadio.channelFollow.getD false = newRadio.channelFollow.getD false ∧
        oldRadio.channel = newRadio.channel ∧
        oldRadio.data.filter radioLineIsChan = newRadio.data.filter radioLineIsChan := by
  unfold radioReloadClass
  by_cases heq : oldRadio = newRadio
  · simp [heq]
  · rw [if_neg heq]
    by_cases hrestart : radioBase oldRadio ≠ radioBase newRadio ∨
        oldRadio.channelFollow.getD false ≠ newRadio.channelFollow.getD false
    · rw [if_pos hrestart]
      grind
    · rw [if_neg hrestart]
      split <;> grind

theorem radioSection_inj :
    radioSection oldRadio = radioSection newRadio ↔
      oldRadio.data = newRadio.data ∧
        channelLine oldRadio.channel = channelLine newRadio.channel := by
  simp [radioSection]

/-- The class tells the two radios apart exactly where the edit is not a hidden one. -/
theorem classSound_iff : ClassSound oldRadio newRadio ↔ ¬ HiddenEdit oldRadio newRadio := by
  constructor
  · intro hsound hedit
    have hsame : radioReloadClass oldRadio newRadio = .same :=
      class_same_iff.mpr (.inr ⟨hedit.base, hedit.follow, hedit.channel, hedit.chanLines⟩)
    exact hedit.data (radioSection_inj.mp (hsound.same hsame)).1
  · intro hedit
    refine ⟨fun hsame => ?_, differsInChannel_of_class⟩
    rcases class_same_iff.mp hsame with rfl | ⟨hbase, hfollow, hchannel, hlines⟩
    · rfl
    · by_contra hsection
      refine hedit ⟨fun hdata => hsection ?_, hbase, hlines, hchannel, hfollow⟩
      exact radioSection_inj.mpr ⟨hdata, by rw [hchannel]⟩

end OpenWrt.Hostapd
