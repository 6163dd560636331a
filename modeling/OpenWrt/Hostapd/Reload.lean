/-
# Changing the BSSs without a restart

A reload takes the running BSSs to the new configuration in place. BSSs of the old and the
new configuration with the same content are matched, the BSSs without a match are deleted,
the matched ones are renamed in two passes, missing ones are added, and last the order and
the remaining settings are updated. Every step may find that a restart is needed.
-/

import OpenWrt.Hostapd.Iface
import OpenWrt.Hostapd.Macaddr
import OpenWrt.Hostapd.Radio

namespace OpenWrt.Hostapd

/-- `hostapd.data.file_fields`. -/
def fileFields : List Line :=
  ["vlan_file".toList, "wpa_psk_file".toList, "sae_password_file".toList, "rxkh_file".toList,
    "accept_mac_file".toList, "deny_mac_file".toList, "eap_user_file".toList, "ca_cert".toList,
    "server_cert".toList, "server_cert2".toList, "private_key".toList, "private_key2".toList,
    "dh_file".toList, "eap_sim_db".toList]

/-- `remove_file_fields`: without the lines that name a file, empty lines and comments. -/
def removeFileFields (data : List Line) : List Line :=
  data.filter fun line =>
    let text := line.dropWhile Char.isWhitespace
    text ≠ [] && text.head? ≠ some '#' && lineKey line ∉ fileFields

/-- `bss_remove_file_fields`. -/
def bssRemoveFileFields (bss : Bss) : Bss :=
  { bss with
    data := removeFileFields bss.data
    hash := bss.hash.filter fun entry =>
      entry.1 ∉ ["wpa_psk_file".toList, "sae_password_file".toList, "vlan_file".toList] }

/-- The digests that `bss_reload_psk` and `bss_reload_rxkhs` bring up to date. -/
def reloadedFields : List Line := ["wpa_psk_file".toList, "rxkh_file".toList]

def reloadHashes (old new : Bss) : Bss :=
  { old with
    hash := old.hash.map fun entry =>
      if entry.1 ∈ reloadedFields then (entry.1, (new.hash.lookup entry.1).getD entry.2) else entry }

/-- What a reload finds outside of the configurations. -/
structure ReloadEnv where
  driver : Driver
  /-- `phy_is_fullmac`. -/
  fullmac : Bool
  /-- `bss_config_hash`. -/
  configHash : List Line → String
  /-- The name `tmp_` with the digest of the name. -/
  tempName : String → String
  phydev : PhyDev
  /-- The interface is there and in the state `ENABLED`. -/
  enabled : Bool
  /-- A bring-up is pending. -/
  pending : Bool

/-- A matched BSS of the old configuration: its index, the BSS that runs it, its entry in
the old configuration, and whether it has a temporary name. -/
structure Slot where
  prev : ℕ
  handle : ℕ
  cfg : Bss
  temporary : Bool

/-- An entry of the new configuration with the BSS that is preserved for it. -/
structure Entry where
  bss : Bss
  slot : Option Slot

/-- What the matching changes as it goes: the old entries, their hashes, of which the
consumed ones are gone, and the address list. -/
structure Marks where
  old : List Bss
  prevHash : List (Option String)
  macaddrs : MacaddrList

/-- `get_config_bss`. -/
def getConfigBss (iface : Iface) (bss : List Bss) (idx : ℕ) : Option ℕ :=
  bss[idx]?.bind fun entry => if entry.ifname = "" then none else iface.find entry.ifname

/-- The index `bss_find_existing` finds, or the first for the master of a fullmac device. -/
def findPrev (env : ReloadEnv) (i : ℕ) (cur : Bss) (prevHash : List (Option String)) : Option ℕ :=
  if i = 0 ∧ env.fullmac then some 0
  else prevHash.findIdx? (· = some (env.configHash cur.data))

/-- Whether the BSS takes over the address of the old one: the address is not in the list,
or its value is the index 0. -/
def takesMacaddr (macaddrs : MacaddrList) (cur prev : Bss) : Prop :=
  (cur.defaultMacaddr ∨ cur.randomMacaddr) ∧ cur.randomMacaddr = prev.randomMacaddr ∧
    cur.defaultMacaddr = prev.defaultMacaddr ∧ (macaddrs.get prev.bssid).getD 0 = 0

instance (macaddrs : MacaddrList) (cur prev : Bss) : Decidable (takesMacaddr macaddrs cur prev) :=
  inferInstanceAs (Decidable (_ ∧ _))

/-- One turn of step 1, the new BSS with index `i`. -/
def matchBss (env : ReloadEnv) (iface : Iface) (i : ℕ) (cur : Bss) (marks : Marks) :
    Option (Marks × Entry) :=
  match findPrev env i cur marks.prevHash with
  | none => some (marks, ⟨cur, none⟩)
  | some p =>
    let consumed := { marks with prevHash := marks.prevHash.set p none }
    match marks.old[p]? with
    | none => none
    | some prev =>
      if prev.forceReload then
        some ({ consumed with old := marks.old.set p { prev with forceReload := false } },
          ⟨cur, none⟩)
      else
        match getConfigBss iface marks.old p with
        | none => none
        | some handle =>
          let slot : Slot := ⟨p, handle, prev, false⟩
          if takesMacaddr marks.macaddrs cur prev then
            some ({ consumed with macaddrs := marks.macaddrs.put prev.bssid i },
              ⟨{ cur with bssid := prev.bssid }, some slot⟩)
          else some (consumed, ⟨cur, some slot⟩)

/-- Step 1: find the BSSs with the same config. -/
def matchAll (env : ReloadEnv) (iface : Iface) :
    ℕ → List Bss → Marks → Option (Marks × List Entry)
  | _, [], marks => some (marks, [])
  | i, cur :: rest, marks => do
      let (marks, entry) ← matchBss env iface i cur marks
      let (marks, entries) ← matchAll env iface (i + 1) rest marks
      return (marks, entry :: entries)

/-- Step 2: if none were found, preserve the first one. -/
def preserveFirst (iface : Iface) (marks : Marks) (entries : List Entry) :
    Option (Marks × List Entry) :=
  if ∃ entry ∈ entries, entry.slot.isSome then some (marks, entries)
  else
    match entries, marks.old with
    | entry :: rest, prev :: _ =>
      -- the address of the first BSS cannot be changed
      if entry.bss.bssid ≠ prev.bssid ∧ ¬ entry.bss.defaultMacaddr then none
      else (getConfigBss iface marks.old 0).map fun handle =>
        ({ marks with
            prevHash := marks.prevHash.set 0 none
            macaddrs := marks.macaddrs.put prev.bssid 0 },
          ⟨{ entry.bss with bssid := prev.bssid }, some ⟨0, handle, prev, false⟩⟩ :: rest)
    | _, _ => none

/-- Step 3: delete all unused old interfaces, from index `i` on. -/
def deleteUnused (old : List Bss) : ℕ → List (Option String) → Iface → Option Iface
  | _, [], iface => some iface
  | i, none :: hashes, iface => deleteUnused old (i + 1) hashes iface
  | i, some _ :: hashes, iface => do
      let handle ← getConfigBss iface old i
      deleteUnused old (i + 1) hashes (iface.delete handle)

/-- Step 4 for a preserved BSS: rename it, with a temporary name where its own is in use. -/
def renameSlot (env : ReloadEnv) (iface : Iface) (ifname : String) (slot : Slot) :
    Option (Iface × Slot) :=
  if slot.cfg.ifname = ifname then some (iface, slot)
  else
    let taken := (iface.find ifname).isSome
    let target := if taken then env.tempName ifname else ifname
    (iface.rename env.driver slot.handle target).map fun iface =>
      (iface, { slot with cfg := { slot.cfg with ifname := target }, temporary := taken })

/-- Step 5 for a preserved BSS: rename it if it has a temporary name. -/
def renameTemp (env : ReloadEnv) (iface : Iface) (ifname : String) (slot : Slot) :
    Option (Iface × Slot) :=
  if slot.temporary then
    (iface.rename env.driver slot.handle ifname).map fun iface =>
      (iface, { slot with cfg := { slot.cfg with ifname } })
  else some (iface, slot)

def passSlots (step : Iface → String → Slot → Option (Iface × Slot)) :
    Iface → List Entry → Option (Iface × List Entry)
  | iface, [] => some (iface, [])
  | iface, ⟨bss, none⟩ :: rest => do
      let (iface, entries) ← passSlots step iface rest
      return (iface, ⟨bss, none⟩ :: entries)
  | iface, ⟨bss, some slot⟩ :: rest => do
      let (iface, slot) ← step iface bss.ifname slot
      let (iface, entries) ← passSlots step iface rest
      return (iface, ⟨bss, some slot⟩ :: entries)

/-- One turn of step 6: an address for the new BSS with index `i`. -/
def assignBssid (env : ReloadEnv) (state : MacaddrList × List Entry) (i : ℕ) :
    Option (MacaddrList × List Entry) :=
  match state.2[i]? with
  | some ⟨bss, none⟩ =>
    let macIdx := state.1.get bss.bssid
    let macaddrs := if macIdx.any (· < 0) then state.1.put bss.bssid i else state.1
    if macIdx = some (i : ℤ) then some (macaddrs, state.2)
    -- the address of the first BSS cannot be changed
    else if ¬ bss.defaultMacaddr ∧ macIdx.getD 0 ≤ 0 then none
    else
      -- a BSS that was given a configured address is the one that gets another
      let target := if bss.defaultMacaddr then i else (macIdx.getD 0).toNat
      match state.2[target]? with
      | none => none
      | some entry =>
        (bssMacaddrNext env.phydev macaddrs entry.bss i).map fun next =>
          (next.2, state.2.set target
            { entry with bss := { entry.bss with bssid := some next.1 } })
  | _ => some state

/-- Step 6: assign addresses to new BSSs. -/
def assignBssids (env : ReloadEnv) (macaddrs : MacaddrList) (entries : List Entry) :
    Option (List Entry) :=
  ((List.range entries.length).foldlM (assignBssid env)
    (env.phydev.macaddrInit macaddrs, entries)).map Prod.snd

/-- Step 7: fill in the gaps with new BSSs, from index `i` on; the handles in order. -/
def addMissing (env : ReloadEnv) : ℕ → List Entry → Iface → Option (Iface × List ℕ)
  | _, [], iface => some (iface, [])
  | i, ⟨_, some slot⟩ :: rest, iface => do
      let (iface, handles) ← addMissing env (i + 1) rest iface
      return (iface, slot.handle :: handles)
  | i, ⟨bss, none⟩ :: rest, iface => do
      let (handle, iface) ← iface.addBss env.driver i bss.ifname
      let (iface, handles) ← addMissing env (i + 1) rest iface
      return (iface, handle :: handles)

/-- Step 9 for a preserved BSS: set what is left of its new configuration. -/
def updateBss (env : ReloadEnv) (i : ℕ) (bss : Bss) (slot : Slot) (iface : Iface) :
    Option Iface :=
  if bss = slot.cfg then some iface
  else if bssRemoveFileFields bss = bssRemoveFileFields slot.cfg then
    iface.setConfig env.driver slot.handle i bss.ifname true
  else if bss = reloadHashes slot.cfg bss then some iface
  else iface.setConfig env.driver slot.handle i bss.ifname false

/-- Step 9: update config, from index `i` on. -/
def updateConfig (env : ReloadEnv) : ℕ → List Entry → Iface → Option Iface
  | _, [], iface => some iface
  | i, ⟨_, none⟩ :: rest, iface => updateConfig env (i + 1) rest iface
  | i, ⟨bss, some slot⟩ :: rest, iface => do
      let iface ← updateBss env i bss slot iface
      updateConfig env (i + 1) rest iface

/-- What a reload that ends well leaves. -/
structure Reloaded where
  entries : List Entry
  iface : Iface

def preserve (env : ReloadEnv) (stored : Stored) (name : String) (config old : Config)
    (iface : Iface) : Option (Marks × List Entry) := do
  let prevHash := old.bss.map fun bss => some (env.configHash bss.data)
  let (marks, entries) ← matchAll env iface 0 config.bss
    ⟨old.bss, prevHash, ifaceConfigMacaddrList stored name config⟩
  if config.mbssid.getD 0 ≠ 0 ∧ (entries.head?.bind Entry.slot).isNone then none
  else preserveFirst iface marks entries

/-- The rest of `iface_reload_config`, once the radio is in order and the BSSs differ. -/
def reloadBss (env : ReloadEnv) (stored : Stored) (name : String) (config old : Config)
    (iface : Iface) : Option Reloaded :=
  if env.pending ∨ ¬ env.enabled ∨ (getConfigBss iface old.bss 0).isNone then none
  else do
    let (marks, entries) ← preserve env stored name config old iface
    let iface ← deleteUnused marks.old 0 marks.prevHash iface
    let (iface, entries) ← passSlots (renameSlot env) iface entries
    let (iface, entries) ← passSlots (renameTemp env) iface entries
    let entries ← assignBssids env marks.macaddrs entries
    let (iface, order) ← addMissing env 0 entries iface
    let iface ← iface.setBssOrder order
    let iface ← updateConfig env 0 entries iface
    return ⟨entries, iface⟩

end OpenWrt.Hostapd
