/-
# The addresses of a restart, and of a new configuration

A restart assigns the generated addresses again: a BSS that was there before keeps its
address where that is free, the others get the next free one. A new configuration is
applied by the reload of the running BSSs or else by a restart.
-/

import OpenWrt.Hostapd.Reload

namespace OpenWrt.Hostapd

/-- `prev_bssid[ifname]`: the address that the last old BSS of the name had. -/
def prevBssid (old : List Bss) (ifname : String) : Option String :=
  (old.reverse.find? fun bss => bss.ifname = ifname && bss.ifname ≠ "" && bss.bssid.isSome).bind
    Bss.bssid

/-- The first pass of `iface_restart` from index `i` on: a BSS with a generated address keeps
the one it had, if it is free. The mark says that it was kept. -/
def keepBssids (old : List Bss) :
    ℕ → MacaddrList → List Bss → MacaddrList × List (Bss × Bool)
  | _, macaddrs, [] => (macaddrs, [])
  | i, macaddrs, bss :: rest =>
    match prevBssid old bss.ifname with
    | some prev =>
      if bss.defaultMacaddr ∧ macaddrs prev = none then
        let (last, tail) := keepBssids old (i + 1) (macaddrs.put (some prev) i) rest
        (last, ({ bss with bssid := some prev }, true) :: tail)
      else
        let (last, tail) := keepBssids old (i + 1) macaddrs rest
        (last, (bss, false) :: tail)
    | none =>
      let (last, tail) := keepBssids old (i + 1) macaddrs rest
      (last, (bss, false) :: tail)

/-- The second pass from index `i` on: the other generated addresses. -/
def nextBssids (phydev : PhyDev) : ℕ → MacaddrList → List (Bss × Bool) → List Bss
  | _, _, [] => []
  | i, macaddrs, (bss, keep) :: rest =>
    if bss.defaultMacaddr ∧ ¬ keep then
      match bssMacaddrNext phydev macaddrs bss i with
      | some (addr, macaddrs) =>
        { bss with bssid := some addr } :: nextBssids phydev (i + 1) macaddrs rest
      | none => { bss with bssid := none } :: nextBssids phydev (i + 1) macaddrs rest
    else bss :: nextBssids phydev (i + 1) macaddrs rest

/-- The address list and the BSSs after the first pass of `iface_restart`. -/
def restartKept (phydev : PhyDev) (stored : Stored) (name : String) (config : Config)
    (old : List Bss) : MacaddrList × List (Bss × Bool) :=
  keepBssids old 0 (phydev.macaddrInit (ifaceConfigMacaddrList stored name config)) config.bss

/-- The BSSs of `iface_restart`, with their addresses. -/
def ifaceRestart (phydev : PhyDev) (stored : Stored) (name : String) (config : Config)
    (old : List Bss) : List Bss :=
  let kept := restartKept phydev stored name config old
  nextBssids phydev 0 kept.1 kept.2

/-- What `iface_set_config` finds outside of the configurations. -/
structure SetEnv where
  reload : ReloadEnv
  channel : ChannelEnv

/-- Whether the radio is in order without a restart. -/
def radioReady (env : ChannelEnv) (config old : Config) : Bool :=
  match radioReloadClass old.radio config.radio with
  | .restart => false
  | .channel => ifaceChannelSwitch env config
  | .same => true

/-- What a failed reload may have changed of a BSS: an address that is generated or random. -/
def MayTouch (bss found : Bss) : Prop :=
  found = { bss with bssid := found.bssid } ∧
    (bss.defaultMacaddr = false → bss.randomMacaddr = false → found.bssid = bss.bssid)

/-- The ways `iface_set_config` succeeds: nothing is left to do, the running BSSs are
reloaded, or the interface is restarted. The restart goes by the BSSs it finds: a reload
that failed may have changed addresses of the configuration and names of the old one. -/
inductive SetPath
  | unchanged
  | reload (prev : Config) (reloaded : Reloaded)
  | restart (found prevBss : List Bss)

/-- The BSSs of the configuration at the end of the way. -/
def SetPath.bss (phydev : PhyDev) (stored : Stored) (name : String) (config : Config) :
    SetPath → List Bss
  | .unchanged => config.bss
  | .reload _ reloaded => reloaded.entries.map Entry.bss
  | .restart found prevBss => ifaceRestart phydev stored name { config with bss := found } prevBss

/-- `iface_set_config` takes the way. -/
inductive SetConfig (env : SetEnv) (stored : Stored) (name : String) (config : Config)
    (old : Option Config) (iface : Iface) : SetPath → Prop
  | /-- The BSSs are the same. -/
    unchanged {prev : Config} (hold : old = some prev)
      (hradio : radioReady env.channel config prev = true) (hbss : prev.bss = config.bss) :
      SetConfig env stored name config old iface .unchanged
  | /-- The BSSs are reloaded. -/
    reload {prev : Config} {reloaded : Reloaded} (hold : old = some prev)
      (hradio : radioReady env.channel config prev = true) (hbss : prev.bss ≠ config.bss)
      (hreload : reloadBss env.reload stored name config prev iface = some reloaded) :
      SetConfig env stored name config old iface (.reload prev reloaded)
  | /-- No reload was tried. -/
    restart (hradio : ∀ prev ∈ old, radioReady env.channel config prev = false) :
      SetConfig env stored name config old iface
        (.restart config.bss ((old.map Config.bss).getD []))
  | /-- A reload failed. -/
    failed {prev : Config} {foundBss prevBss : List Bss} (hold : old = some prev)
      (hradio : radioReady env.channel config prev = true) (hbss : prev.bss ≠ config.bss)
      (hreload : reloadBss env.reload stored name config prev iface = none)
      (htouch : List.Forall₂ MayTouch config.bss foundBss) :
      SetConfig env stored name config old iface (.restart foundBss prevBss)

end OpenWrt.Hostapd
