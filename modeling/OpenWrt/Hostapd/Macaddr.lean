/-
# The address list of a radio

The addresses in use are collected in one map. The value of an address is the index of the
BSS that has it, or `-1` where it is reserved: it is the address of a multi-link device, of
a BSS of another configuration of the same phy, or of an interface that exists. Free
addresses are found by trying the addresses that the radio can generate, one after the other.
-/

import Mathlib.Logic.Function.Basic
import OpenWrt.Hostapd.Config

namespace OpenWrt.Hostapd

/-- The map from addresses to the index of their BSS, `-1` for a reserved address. -/
abbrev MacaddrList := String → Option ℤ

namespace MacaddrList

/-- The value of an address; a missing address has none. -/
def get (list : MacaddrList) (addr : Option String) : Option ℤ :=
  addr.bind list

/-- `list[addr] = value`; a missing address is no key. -/
def put (list : MacaddrList) (addr : Option String) (value : ℤ) : MacaddrList :=
  match addr with
  | none => list
  | some addr => Function.update list addr (some value)

def reserve (list : MacaddrList) (addr : Option String) : MacaddrList :=
  list.put addr (-1)

end MacaddrList

/-- An entry of `hostapd.data.mld`. -/
structure Mld where
  macaddr : Option String

/-- What `hostapd.data` has on the addresses: the configurations and the multi-link devices,
by name. -/
structure Stored where
  config : List (String × Config)
  mld : List (String × Mld)

/-- `mld_macaddr_list`. -/
def mldMacaddrList (stored : Stored) : MacaddrList :=
  stored.mld.foldl (fun list mld => list.reserve mld.2.macaddr) fun _ => none

/-- The configurations of the phy other than the one called `skip`. -/
def Stored.others (stored : Stored) (phy skip : String) : List Config :=
  (stored.config.filter fun entry => entry.1 ≠ skip && entry.2.phy = phy).map Prod.snd

/-- `phy_bss_macaddr_add`. -/
def phyBssMacaddrAdd (stored : Stored) (phy skip : String) (list : MacaddrList) : MacaddrList :=
  (stored.others phy skip).foldl
    (fun list config => config.bss.foldl (fun list bss => list.reserve bss.bssid) list) list

/-- The addresses that the BSSs have by their configuration, from index `i` on. -/
def assignedMacaddrs (i : ℕ) (list : MacaddrList) : List Bss → MacaddrList
  | [] => list
  | bss :: rest =>
    assignedMacaddrs (i + 1) (if bss.defaultMacaddr then list else list.put bss.bssid i) rest

/-- `iface_config_macaddr_list` of the configuration with the name. -/
def ifaceConfigMacaddrList (stored : Stored) (name : String) (config : Config) : MacaddrList :=
  assignedMacaddrs 0 (phyBssMacaddrAdd stored config.phy name (mldMacaddrList stored)) config.bss

/-- An open radio: what generating addresses for a configuration depends on. -/
structure PhyDev where
  /-- The index of the radio, where the phy has several. -/
  radio : Option ℕ
  /-- `macaddr_generate` by the number of the address. -/
  macaddrGenerate : ℕ → Option String
  /-- The addresses of the interfaces of the radio. -/
  wdevMacaddrs : List String

/-- `macaddr_init`: the addresses of existing interfaces are reserved unless they are listed. -/
def PhyDev.macaddrInit (phydev : PhyDev) (list : MacaddrList) : MacaddrList :=
  phydev.wdevMacaddrs.foldl
    (fun list addr => if list addr = none then list.reserve (some addr) else list) list

/-- The search of `macaddr_next` through the numbers: the address to use again ends it, the
first free one is kept. -/
def macaddrSearch (generate : ℕ → Option String) (list : MacaddrList) (reuse : Option String) :
    List ℕ → Option String → Option String
  | [], addr => addr
  | id :: ids, addr =>
    match generate id with
    | none => addr
    | some mac =>
      if some mac = reuse then some mac
      else if addr ≠ none ∨ list mac ≠ none then macaddrSearch generate list reuse ids addr
      else if reuse = none then some mac
      else macaddrSearch generate list reuse ids (some mac)

/-- `macaddr_next`, with the list it leaves. -/
def PhyDev.macaddrNext (phydev : PhyDev) (list : MacaddrList) (val : ℤ) (reuse : Option String) :
    Option (String × MacaddrList) :=
  (macaddrSearch phydev.macaddrGenerate list reuse (List.range 32) none).map fun addr =>
    (addr, list.put (some addr) val)

/-- The address of the multi-link device that `bss_macaddr_next` lets the BSS use. -/
def bssReuse (phydev : PhyDev) (list : MacaddrList) (bss : Bss) : Option String :=
  if phydev.radio.getD 0 ≠ 0 ∨ list.get bss.mldBssid ≠ some (-1) then none else bss.mldBssid

/-- `bss_macaddr_next`. -/
def bssMacaddrNext (phydev : PhyDev) (list : MacaddrList) (bss : Bss) (idx : ℤ) :
    Option (String × MacaddrList) :=
  phydev.macaddrNext list idx (bssReuse phydev list bss)

end OpenWrt.Hostapd
