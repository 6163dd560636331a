/-
# The table of the multi-link devices

`mld_set` brings a new list of multi-link devices. A device of the new list takes over the record
of the first old device that has the same configuration and is not taken over yet, but only under
its own name: renaming one is not done. So a device can miss its own record when another one with
the same configuration stands before it.
-/

import Mathlib.Algebra.Group.Int.Defs
import Mathlib.Algebra.Group.Nat.Defs
import Mathlib.Data.List.Nodup
import OpenWrt.Hostapd.Config

namespace OpenWrt.Hostapd

/-- The configuration of a multi-link device; the other members are only compared. Two
configurations are equal as `is_equal` compares them, by content. -/
structure MldConfig where
  phy : Option String
  macaddr : Option String
  radios : List (Option ℕ)
  other : List (String × String)
deriving DecidableEq

/-- A record of `hostapd.data.mld`. -/
structure MldData where
  config : MldConfig
  /-- The interfaces that have a link of the device. -/
  iface : List String
  /-- The name, once the device is set up. -/
  ifname : Option String
  macaddr : Option String
  defaultMacaddr : Bool
  radioMask : ℕ
  hasWdev : Bool
deriving DecidableEq

/-- A record before `mld_add_bss`. -/
def MldData.new (config : MldConfig) : MldData := ⟨config, [], none, none, false, 0, false⟩

/-- `hostapd.data.mld`: the records by name, in the order they were added. A device that is set up
has the name it is found under. -/
structure MldTable where
  entries : List (String × MldData)
  nodup : (entries.map Prod.fst).Nodup
  named : ∀ entry ∈ entries, ∀ ifname ∈ entry.2.ifname, ifname = entry.1

/-- The argument of `mld_set`, in the order of its members. -/
structure MldConfigs where
  entries : List (String × MldConfig)
  nodup : (entries.map Prod.fst).Nodup

/-- What `mld_set_config` finds outside of the table. -/
structure MldEnv where
  /-- `hostapd.bss`: the names of the running BSSs of each interface. -/
  bss : List (String × List String)
  /-- The names in `hostapd.data.config`, and the BSSs of each as they were loaded. -/
  order : List String
  stored : String → Option (List Bss)
  /-- `phy_open` for the interface. -/
  opens : String → Bool
  /-- There is a network device of that name when the interface is checked. -/
  access : String → String → Bool
  /-- `wdev_add` for a link of the interface. -/
  wdevAdd : String → String → Bool
  /-- `phy_open` for the radio of a new device, and the address it gets. -/
  openPhy : String → Bool
  macaddrNext : String → Option String

/-- What is done to a network device of a multi-link device. -/
inductive WdevOp
  | add (name : String)
  | remove (name : String)
deriving DecidableEq

/-! ## The reload of an interface -/

/-- `bss_check_mld`, as far as it is about the record of the device. -/
def bssCheckMld (env : MldEnv) (iface name : String) (found : MldData × List WdevOp) :
    MldData × List WdevOp :=
  let (data, ops) := found
  if data.ifname = none ∨ data.macaddr = none then found
  else
    let data := { data with iface := iface :: data.iface.filter (· ≠ iface) }
    let data := { data with hasWdev := data.hasWdev && env.access iface name }
    if data.hasWdev then (data, ops)
    else if env.wdevAdd iface name then ({ data with hasWdev := true }, ops ++ [.add name])
    else ({ data with iface := data.iface.filter (· ≠ iface) }, ops ++ [.add name])

/-- `iface_check_mld`, for one record: the BSSs of other devices do not touch it. -/
def ifaceCheckMld (env : MldEnv) (iface : String) (bss : List Bss) (name : String)
    (data : MldData) : MldData × List WdevOp :=
  let links := bss.filter fun bss => bss.mldAp && bss.ifname ≠ "" && bss.ifname = name
  let (data, ops) := links.foldl (fun found _ => bssCheckMld env iface name found)
    ({ data with iface := data.iface.filter (· ≠ iface) }, [])
  if data.iface = [] then ({ data with hasWdev := false }, ops ++ [.remove name]) else (data, ops)

/-- `mld_reload_interface`, for one record. -/
def mldReloadInterface (env : MldEnv) (name : String) (found : MldData × List WdevOp)
    (iface : String) : MldData × List WdevOp :=
  match env.stored iface with
  | none => found
  | some bss =>
    if env.opens iface then
      let (data, ops) := ifaceCheckMld env iface bss name found.1
      (data, found.2 ++ ops)
    else found

def mldReloads (env : MldEnv) (ifaces : List String) (name : String) (data : MldData) :
    MldData × List WdevOp :=
  ifaces.foldl (mldReloadInterface env name) (data, [])

/-! ## The new table -/

/-- Where a record of the new table is from: it is that of an old device, or it is new. -/
inductive MldSource
  | kept (prev : String)
  | new (config : MldConfig)
deriving DecidableEq

/-- `mld_find_matching_config` -/
def mldFindMatchingConfig (list : List (String × MldData)) (config : MldConfig) :
    Option (String × MldData) :=
  list.find? fun entry => entry.2.config = config

/-- The loop that finds the renamed and the new devices: the new table, and what is left of the old
one. A device is taken over only under the name it has (`mld_rename_bss`). -/
def mldMatch : List (String × MldData) → List (String × MldConfig) →
    List (String × MldSource) × List (String × MldData)
  | prevMld, [] => ([], prevMld)
  | prevMld, (name, config) :: rest =>
    match mldFindMatchingConfig prevMld config with
    | some (prev, data) =>
      if data.ifname = some name then
        let (newMld, left) := mldMatch (prevMld.filter fun entry => entry.1 ≠ prev) rest
        ((name, .kept prev) :: newMld, left)
      else
        let (newMld, left) := mldMatch prevMld rest
        ((name, .new config) :: newMld, left)
    | none =>
      let (newMld, left) := mldMatch prevMld rest
      ((name, .new config) :: newMld, left)

/-- `mld_add_bss` -/
def mldAddBss (env : MldEnv) (name : String) (data : MldData) : MldData × List WdevOp :=
  match data.config.phy with
  | none => (data, [])
  | some phy =>
    if env.openPhy phy then
      let macaddr := data.config.macaddr <|> env.macaddrNext name
      let radioMask := data.config.radios.foldl (fun mask r => mask ||| (r.map (2 ^ ·)).getD 0) 0
      ({ data with
          macaddr
          defaultMacaddr := data.config.macaddr.isNone
          radioMask
          ifname := some name }, [.remove name])
    else (data, [.remove name])

/-- The interfaces with a running BSS of one of the devices, in the order they are found in. -/
def ifacesOf (env : MldEnv) (gone : List (String × MldData)) : List String :=
  (gone.flatMap fun (name, data) =>
    if data.ifname = none then []
    else (env.bss.filter fun (_, bssList) => name ∈ bssList).map Prod.fst).eraseDups

/-- A call of `mld_set_config`. -/
structure MldSet where
  table : MldTable
  configs : MldConfigs
  env : MldEnv

namespace MldSet

variable (call : MldSet)

/-- The new table, and the old devices that are left over. -/
def matched : List (String × MldSource) × List (String × MldData) :=
  mldMatch call.table.entries call.configs.entries

/-- The old devices that are removed, each with its network device. -/
def removed : List String := call.matched.2.map Prod.fst

/-- `reload_iface`: the interfaces with a running BSS of a removed device. -/
def reloadIface : List String := ifacesOf call.env call.matched.2

/-- The record that the reloads leave of an old one. -/
def reloaded (name : String) (data : MldData) : MldData × List WdevOp :=
  mldReloads call.env call.reloadIface name data

/-- The names of the new records. -/
def added : List String :=
  call.matched.1.filterMap fun (name, source) =>
    match source with
    | .kept _ => none
    | .new _ => some name

/-- The first devices of all: the interfaces are reloaded for them. -/
def isFirst : Prop := call.table.entries = [] ∧ call.configs.entries ≠ []

instance : Decidable call.isFirst := inferInstanceAs (Decidable (_ ∧ _))

def record (name : String) : MldSource → Option MldData
  | .kept prev => (call.table.entries.find? fun entry => entry.1 = prev).map fun entry =>
    (call.reloaded prev entry.2).1
  | .new config =>
    let data := (mldAddBss call.env name (.new config)).1
    some (if call.isFirst then (mldReloads call.env call.env.order name data).1 else data)

/-- `hostapd.data.mld` after the call. -/
def newMld : List (String × MldData) :=
  call.matched.1.filterMap fun (name, source) => (call.record name source).map fun data => (name, data)

end MldSet

end OpenWrt.Hostapd
