/-
# A wireless device

A wireless device of netifd is set up and torn down by handler scripts. Its functions change
the device itself, may queue a handler, and raise or release links of the networks. What the
scripts are given is built from the data of the device and from the interfaces of the
networks that are enabled at that moment.
-/

import Mathlib.Data.Finset.Insert

namespace OpenWrt.Netifd

/-! ## Data -/

/-- The options of a configuration section; the networks are kept apart. -/
structure SectionConfig where
  network : List String
  options : List (String × String)
deriving DecidableEq

/-- A vlan or a station of an interface. -/
structure Section where
  name : String
  config : SectionConfig
deriving DecidableEq

/-- An interface of a device. -/
structure Vif where
  name : String
  config : SectionConfig
  vlan : List Section
  sta : List Section
deriving DecidableEq

/-- `wdev.data`: the configuration of a device. -/
structure DeviceData where
  name : String
  config : List (String × String)
  vif : List Vif
deriving DecidableEq

/-- `interface_get_enabled` of a network. -/
structure NetState where
  enabled : Bool
  ifindex : Option ℕ

/-- What netifd knows of the networks. -/
structure NetEnv where
  enabled : String → Option NetState
  /-- What `interface_get_bridge` adds for a network with a bridge. -/
  bridge : String → Option String

/-- A vlan in `handler_config`. -/
structure HandlerVlan where
  name : String
  config : SectionConfig
  bridge : Option String
deriving DecidableEq

/-- An entry of `handler_config.interfaces`; the keys are the positions, from 1. -/
structure HandlerVif where
  name : String
  config : SectionConfig
  bridge : Option String
  vlans : List HandlerVlan
  stas : List Section
deriving DecidableEq

/-- `handler_config`: what a script is given. -/
structure HandlerConfig where
  config : List (String × String)
  interfaces : List HandlerVif
deriving DecidableEq

def bridgeOf (env : NetEnv) (config : SectionConfig) : Option String :=
  config.network.findSome? env.bridge

/-- The configuration that `wdev_config_init` builds. -/
def handlerConfigOf (env : NetEnv) (data : DeviceData) (disabledVifs : Finset String) :
    HandlerConfig where
  config := data.config
  interfaces := (data.vif.filter fun vif => vif.name ∉ disabledVifs).map fun vif =>
    { name := vif.name
      config := vif.config
      bridge := bridgeOf env vif.config
      vlans := vif.vlan.map fun vlan => ⟨vlan.name, vlan.config, bridgeOf env vlan.config⟩
      stas := vif.sta }

/-- The state of a device. -/
inductive State
  | down
  | setup
  | up
  | teardown
deriving DecidableEq

/-- The operations of a handler script. -/
inductive Op
  | setup
  | teardown
deriving DecidableEq

/-- An entry of `handler_data`: what a script reported of the device, an interface or a vlan.
Scripts name a device only for the latter two. -/
structure LinkData where
  ifname : Option String
  network : List String
deriving DecidableEq

/-- A process that a script left running. -/
structure Proc where
  pid : ℕ
  exe : String
deriving DecidableEq

/-- A wireless device. A field that is not set counts as `false`, or as zero retries. -/
structure Wdev where
  name : String
  data : DeviceData
  procs : List Proc
  disabledVifs : Finset String
  ifindexCache : String → Option ℕ
  autostart : Bool
  state : State
  retry : ℤ
  retrySetupFailed : Bool
  cancelSetup : Bool
  configChange : Bool
  delete : Bool
  handlerConfig : HandlerConfig
  handlerData : List (String × LinkData)

/-- A call of `interface_handle_link`. -/
structure LinkCall where
  net : String
  ifname : String
  up : Bool

/-- What a function of a device leaves: the device, unless it is deleted, the handler that it
queues, and the links that it changes. -/
structure Outcome where
  wdev : Option Wdev
  handler : Option Op
  links : List LinkCall

/-- The function changes nothing but the device. -/
def Outcome.only (wdev : Wdev) : Outcome := ⟨some wdev, none, []⟩

namespace Wdev

/-! ## Links -/

/-- `handle_link`: the networks of an entry get or lose the device. -/
def handleLink (dev : String) (data : LinkData) (up : Bool) : List LinkCall :=
  data.network.map fun net => ⟨net, dev, up⟩

/-- `handle_link` for each entry of `handler_data` that names a device. -/
def handleLinks (data : List (String × LinkData)) (up : Bool) : List LinkCall :=
  data.flatMap fun entry =>
    match entry.2.ifname with
    | some dev => if dev = "" then [] else handleLink dev entry.2 up
    | none => []

/-! ## The configuration -/

/-- `wdev_config_init`. -/
def configInit (env : NetEnv) (wdev : Wdev) : Wdev :=
  { wdev with
    handlerConfig := handlerConfigOf env wdev.data wdev.disabledVifs
    handlerData := wdev.handlerData.filter fun entry => entry.1 = wdev.name }

/-- Whether one of the networks is enabled, and the index of the last one that has one. -/
def networkState (env : NetEnv) (network : List String) : Option Bool × Option ℕ :=
  network.foldl
    (fun found net =>
      match env.enabled net with
      | none => found
      | some state =>
        (if state.enabled then some true else some (found.1.getD false),
          if state.ifindex.isSome then state.ifindex else found.2))
    (none, none)

/-- What the loop of `wdev_update_disabled_vifs` changes as it goes. -/
structure VifScan where
  disabled : Finset String
  cache : String → Option ℕ
  changed : Bool

/-- One turn of the loop. -/
def scanVif (env : NetEnv) (scan : VifScan) (vif : Section) : VifScan :=
  let (enabled, ifindex) := networkState env vif.config.network
  { disabled := if enabled = some false then insert vif.name scan.disabled else scan.disabled
    cache := fun name => if name = vif.name then ifindex else scan.cache name
    changed := scan.changed || (enabled ≠ some false && ifindex ≠ scan.cache vif.name) }

/-- The interfaces of a device, each followed by its vlans. -/
def sections (data : DeviceData) : List Section :=
  data.vif.flatMap fun vif => ⟨vif.name, vif.config⟩ :: vif.vlan

/-- `wdev_update_disabled_vifs`; it returns the flag `config_change`. -/
def updateDisabledVifs (env : NetEnv) (wdev : Wdev) : Wdev :=
  let scan := (sections wdev.data).foldl (scanVif env) ⟨∅, wdev.ifindexCache, false⟩
  { wdev with
    disabledVifs := scan.disabled
    ifindexCache := scan.cache
    configChange := wdev.configChange || scan.changed || wdev.disabledVifs ≠ scan.disabled }

/-- `DEFAULT_RETRY`. -/
def defaultRetry : ℤ := 3

/-- `wdev_reset`. -/
def reset (wdev : Wdev) : Wdev :=
  { wdev with retry := defaultRetry, retrySetupFailed := false }

/-! ## Setup and teardown -/

/-- `setup`. -/
def setup (wdev : Wdev) : Outcome :=
  if wdev.state ≠ .up ∧ wdev.state ≠ .down then .only wdev
  else if ¬ wdev.autostart ∨ wdev.retrySetupFailed then .only wdev
  else ⟨some { wdev with procs := [], configChange := false, state := .setup }, some .setup, []⟩

/-- `teardown`. -/
def teardown (wdev : Wdev) : Outcome :=
  if wdev.state = .teardown ∨ wdev.state = .down then .only { wdev with cancelSetup := false }
  else
    ⟨some { wdev with cancelSetup := false, procs := [], state := .teardown }, some .teardown, []⟩

/-- `check`. -/
def check (env : NetEnv) (wdev : Wdev) : Outcome :=
  let wdev := wdev.updateDisabledVifs env
  if ¬ wdev.configChange then .only wdev
  -- a running script keeps its configuration, its callback applies the new one
  else if wdev.state ≠ .up ∧ wdev.state ≠ .down then .only wdev
  else (wdev.configInit env).setup

/-- `update`. Without data the configuration is applied again. -/
def update (env : NetEnv) (data : Option DeviceData) (wdev : Wdev) : Outcome :=
  match data with
  | none => check env { wdev.reset with configChange := true }
  | some data =>
    if wdev.data = data then .only wdev
    else
      check env
        { wdev.reset with
          data
          ifindexCache := fun _ => none
          delete := false
          configChange := true }

/-- `start`. -/
def start (env : NetEnv) (wdev : Wdev) : Outcome :=
  if wdev.delete then .only wdev
  else
    let wdev := { wdev.reset with autostart := true }
    if wdev.state ≠ .down then .only wdev
    else
      let wdev := wdev.updateDisabledVifs env
      (if wdev.configChange then wdev.configInit env else wdev).setup

/-- `retry_setup`. -/
def retrySetup (env : NetEnv) (wdev : Wdev) : Outcome :=
  if wdev.delete then .only wdev
  else if wdev.state ≠ .down ∨ ¬ wdev.autostart then .only wdev
  else wdev.start env

/-- `stop`. -/
def stop (wdev : Wdev) : Outcome :=
  let wdev := { wdev with autostart := false }
  match wdev.state with
  | .setup => .only { wdev with cancelSetup := true }
  | .up => wdev.teardown
  | .down | .teardown => .only wdev

/-- `destroy`. -/
def destroy (wdev : Wdev) : Outcome :=
  let wdev := { wdev with autostart := false, delete := true }
  if wdev.state ≠ .down then wdev.stop else ⟨none, none, []⟩

/-! ## Callbacks and notifications -/

/-- `wdev_setup_cb`. -/
def setupCb (env : NetEnv) (wdev : Wdev) : Outcome :=
  if wdev.state ≠ .setup then
    if wdev.state = .up ∧ wdev.configChange then (wdev.configInit env).setup else .only wdev
  else if 0 < wdev.retry then teardown { wdev with retry := wdev.retry - 1 }
  else teardown { wdev with retrySetupFailed := true }

/-- The device that `wdev_teardown_cb` sets up again. -/
def tornDown (env : NetEnv) (wdev : Wdev) : Wdev :=
  let wdev := { wdev with handlerData := [], state := .down }
  if wdev.configChange then wdev.configInit env else wdev

/-- `wdev_teardown_cb`. -/
def teardownCb (env : NetEnv) (wdev : Wdev) : Outcome :=
  let links := handleLinks wdev.handlerData false
  if wdev.delete then ⟨none, none, links⟩
  else { (wdev.tornDown env).setup with links }

def callback (env : NetEnv) : Op → Wdev → Outcome
  | .setup, wdev => wdev.setupCb env
  | .teardown, wdev => wdev.teardownCb env

/-- `wdev_mark_up`. -/
def markUp (wdev : Wdev) : Outcome :=
  if wdev.state ≠ .setup then .only wdev
  else if wdev.cancelSetup ∨ ¬ wdev.autostart ∨ wdev.delete then
    teardown { wdev with cancelSetup := false }
  else
    ⟨some { wdev.reset with state := .up }, none, handleLinks wdev.handlerData true⟩

/-- `handler_data[key] = data`. -/
def putData (wdev : Wdev) (key : String) (data : LinkData) : Wdev :=
  { wdev with
    handlerData :=
      if wdev.handlerData.any (·.1 = key) then
        wdev.handlerData.map fun entry => if entry.1 = key then (key, data) else entry
      else wdev.handlerData ++ [(key, data)] }

/-- What a notification is about: the device, an interface or one of its vlans, by the
position in `handler_config`. -/
inductive Target
  | device
  | vif (idx : ℕ)
  | vlan (idx vlan : ℕ)

/-- `wdev_set_data`; an unknown interface or vlan is refused. -/
def setData (wdev : Wdev) (target : Target) (ifname : Option String) : Wdev :=
  match target with
  | .device => wdev.putData wdev.name ⟨none, []⟩
  | .vif idx =>
    match wdev.handlerConfig.interfaces[idx]? with
    | none => wdev
    | some vif => wdev.putData vif.name ⟨ifname, vif.config.network⟩
  | .vlan idx vlan =>
    match wdev.handlerConfig.interfaces[idx]? with
    | none => wdev
    | some vif =>
      match vif.vlans[vlan]? with
      | none => wdev
      | some vlan => wdev.putData (vif.name ++ "/" ++ vlan.name) ⟨ifname, vlan.config.network⟩

/-- `NOTIFY_CMD_PROCESS_ADD`. -/
def processAdd (wdev : Wdev) (proc : Proc) : Wdev :=
  if wdev.state ≠ .setup ∧ wdev.state ≠ .up then wdev
  else if proc.pid = 0 ∨ proc.exe = "" then wdev
  else { wdev with procs := wdev.procs ++ [proc] }

/-- `NOTIFY_CMD_SET_RETRY`. -/
def setRetry (wdev : Wdev) (retry : Option ℤ) : Wdev :=
  { wdev with retry := retry.getD defaultRetry }

/-- `wdev_proc_check`: the device is torn down when one of its processes is gone. -/
def procCheck (active : Proc → Bool) (wdev : Wdev) : Outcome :=
  if wdev.procs.all active then .only wdev else wdev.teardown

/-- `wdev.new`. -/
def new (env : NetEnv) (data : DeviceData) : Wdev :=
  ({ name := data.name
     data
     procs := []
     disabledVifs := ∅
     ifindexCache := fun _ => none
     autostart := true
     state := .down
     retry := 0
     retrySetupFailed := false
     cancelSetup := false
     configChange := false
     delete := false
     handlerConfig := ⟨[], []⟩
     handlerData := [] : Wdev }.updateDisabledVifs env).configInit env

end Wdev

end OpenWrt.Netifd
