/-
# The supplicant's phys and MLDs

wpa_supplicant keeps a configuration for each phy, or each radio of a phy, with its plain
interfaces, and a list of MLD interfaces that span radios. An MLD has three masks of radios:
those of its configuration, those that are present, and those it was started with. A phy can
be stopped and started on behalf of the access point side.
-/

import Mathlib.Data.Finset.Max

namespace OpenWrt.WpaSupplicant

/-! ## Data -/

/-- The configuration of an interface. -/
structure IfaceConfig where
  iface : String
  mlo : Bool
  /-- The path of the configuration file. -/
  config : String
  /-- The text of that file, which `prepare_config` reads. -/
  configData : Option String
  freqList : Option (List ℕ)
  options : List (String × String)
deriving DecidableEq

/-- An interface of a phy. -/
structure Iface where
  config : IfaceConfig
  running : Bool
deriving DecidableEq

/-- `wpas.data.config[name]`: a phy, or one of its radios. -/
structure Phy where
  name : String
  radio : Option ℕ
  data : List (String × Iface)
deriving DecidableEq

/-- The bit of the radio; a phy without radios has none. -/
def Phy.radioMask (phy : Phy) : Finset ℕ :=
  match phy.radio with
  | none => ∅
  | some r => {r}

/-- The configuration of an MLD. -/
structure MldConfig where
  phy : String
  radios : List (Option ℕ)
  options : List (String × String)
deriving DecidableEq

/-- `wpas.data.mld[name]`. -/
structure Mld where
  name : String
  config : MldConfig
  phy : String
  /-- The configurations of the radios, by the number of the radio. -/
  phyConfig : List (Option IfaceConfig)
  radioMask : Finset ℕ
  radioMaskUp : Finset ℕ
  radioMaskPresent : Finset ℕ
  freqList : Option (List ℕ)

/-- A call of `wpas.add_iface`. -/
inductive Start
  | /-- An interface of the phy configuration. -/
    iface (phyName ifname : String)
  | /-- An MLD with the radios it gets links on; the configuration of the first one is used. -/
    mld (name phy : String) (links : Finset ℕ) (config : Option IfaceConfig)
deriving DecidableEq

/-- `wpas.data`, with the delayed starts and all the interfaces that were started. -/
structure Wpas where
  config : String → Option Phy
  mld : List Mld
  mldPending : Bool
  timers : List String
  started : List Start

/-- What happens outside of the script during one request. -/
structure Env where
  /-- `phy_open` for the phy configuration, for one of the interfaces. -/
  opens : String → String → Bool
  /-- The interface is there after it was added. -/
  found : String → Bool
  /-- The text of a file. -/
  readfile : String → Option String

/-! ## Interfaces -/

/-- `iface_start`. -/
def ifaceStart (iface : Iface) : Iface :=
  { iface with running := true }

/-- `iface_stop`. -/
def ifaceStop (iface : Iface) : Iface :=
  { iface with running := false }

/-- The interface that `iface_cb` leaves for a new configuration. -/
def ifaceCb (new : IfaceConfig) (old : Option Iface) : Iface where
  config := new
  running :=
    match old with
    | some old => if old.config = new then old.running else false
    | none => false

/-- `data[key]` -/
def lookup {Value : Type*} (data : List (String × Value)) (key : String) : Option Value :=
  (data.find? fun entry => entry.1 = key).map Prod.snd

/-- `data[key] = value` -/
def store {Value : Type*} (data : List (String × Value)) (key : String) (value : Value) :
    List (String × Value) :=
  if data.any (·.1 = key) then
    data.map fun entry => if entry.1 = key then (key, value) else entry
  else data ++ [(key, value)]

/-- One turn of the loop of `vlist.update`: the old data without the key, and the new data. A
key that comes again finds no old interface. -/
def vlistTurn (acc : List (String × Iface) × List (String × Iface)) (config : IfaceConfig) :
    List (String × Iface) × List (String × Iface) :=
  (acc.1.filter fun entry => entry.1 ≠ config.iface,
    store acc.2 config.iface (ifaceCb config (lookup acc.1 config.iface)))

/-- `phy.update`. -/
def Phy.update (phy : Phy) (values : List IfaceConfig) : Phy :=
  { phy with data := (values.foldl vlistTurn (phy.data, [])).2 }

/-! ## Phys -/

def radioOf (radio : Option ℤ) : Option ℕ :=
  radio.bind fun r => if 0 ≤ r then some r.toNat else none

/-- `phy_name`. -/
def phyName (phy : String) (radio : Option ℤ) : Option String :=
  if phy = "" then none
  else
    match radioOf radio with
    | none => some phy
    | some r => some (phy ++ "." ++ toString r)

namespace Wpas

/-- `phy_dev_open`, for an interface. -/
def phyDevOpen (env : Env) (w : Wpas) (phyName ifname : String) : Bool :=
  (w.config phyName).isSome && env.opens phyName ifname

/-- `start_pending`. -/
def startPending (env : Env) (name : String) (w : Wpas) : Wpas :=
  match w.config name with
  | none => w
  | some phy =>
    if w.phyDevOpen env name "" then
      { w with
        config := Function.update w.config name
          (some { phy with data := phy.data.map fun entry => (entry.1, ifaceStart entry.2) })
        started := w.started ++
          (phy.data.filter fun entry => ¬ entry.2.running).map fun entry =>
            Start.iface name entry.1 }
    else w

end Wpas

/-! ## MLDs -/

namespace Mld

/-- `mld_remove`. -/
def remove (data : Mld) : Mld :=
  { data with radioMaskUp := ∅ }

/-- `mld_first_phy`. -/
def firstPhy (data : Mld) : Option ℕ :=
  if h : data.radioMaskPresent.Nonempty then some (data.radioMaskPresent.min' h) else none

/-- `data.phy_config[radio]` -/
def phyConfigOf (data : Mld) (radio : ℕ) : Option IfaceConfig :=
  (data.phyConfig[radio]?).join

/-- `data.phy_config[radio] = config`; without a radio nothing is stored. -/
def storeConfig (phyConfig : List (Option IfaceConfig)) (radio : Option ℕ)
    (config : Option IfaceConfig) : List (Option IfaceConfig) :=
  match radio with
  | none => phyConfig
  | some r => (phyConfig ++ List.replicate (r + 1 - phyConfig.length) none).set r config

def freqListOf (phyConfig : List (Option IfaceConfig)) : Option (List ℕ) :=
  phyConfig.foldl
    (fun freqs config =>
      match config.bind IfaceConfig.freqList with
      | none => freqs
      | some more => some (freqs.getD [] ++ more))
    none

/-- `mld_set_iface_config`; a shift by no radio is one by zero. -/
def setIfaceConfig (radio : Option ℕ) (config : Option IfaceConfig) (data : Mld) : Mld :=
  let phyConfig := storeConfig data.phyConfig radio config
  { data with
    phyConfig
    radioMaskPresent :=
      if config.isSome then insert (radio.getD 0) data.radioMaskPresent
      else data.radioMaskPresent.erase (radio.getD 0)
    freqList := freqListOf phyConfig }

/-- `mld_update_iface`. -/
def updateIface (data : Mld) : Mld :=
  if data.radioMaskUp = ∅ then data
  else if data.radioMaskPresent = ∅ then data.remove
  else if data.radioMaskUp \ data.radioMaskPresent = ∅ then data
  else data.remove

def new (name : String) (config : MldConfig) : Mld where
  name
  config
  phy := config.phy
  phyConfig := []
  radioMask := (config.radios.filterMap id).toFinset
  radioMaskUp := ∅
  radioMaskPresent := ∅
  freqList := none

end Mld

namespace Wpas

/-- `mld_set_config`: a record whose configuration is the same stays. -/
def mldSetConfig (config : List (String × MldConfig)) (w : Wpas) : Wpas :=
  { w with
    mld := config.map fun entry =>
      match w.mld.find? fun prev => prev.name = entry.1 with
      | some prev => if prev.config = entry.2 then prev else Mld.new entry.1 entry.2
      | none => Mld.new entry.1 entry.2 }

/-- `mld_update_phy`. -/
def mldUpdatePhy (phy : Phy) (ifaces : List (String × IfaceConfig)) (w : Wpas) : Wpas :=
  { w with
    mld := w.mld.map fun data =>
      if data.phy ≠ phy.name then data
      else (data.setIfaceConfig phy.radio (lookup ifaces data.name)).updateIface }

/-- What the loop of `mld_start` has: the records, the phys that are open, the starts. -/
structure MldScan where
  mld : List Mld
  phyList : List String
  started : List Start

/-- `mld_add`; a phy that is open is not opened again. -/
def mldAdd (env : Env) (w : Wpas) (data : Mld) (scan : MldScan) : MldScan :=
  match data.firstPhy with
  | none => { scan with mld := scan.mld ++ [data] }
  | some radio =>
    let name := data.phy ++ "." ++ toString radio
    if name ∈ scan.phyList ∨ w.phyDevOpen env name data.name then
      { mld := scan.mld ++
          [if env.found data.name then { data with radioMaskUp := data.radioMaskPresent }
            else data]
        phyList := name :: scan.phyList
        started := scan.started ++
          [Start.mld data.name data.phy data.radioMaskPresent (data.phyConfigOf radio)] }
    else { scan with mld := scan.mld ++ [data] }

/-- `mld_add_links`: the MLD is removed and added again. -/
def mldAddLinks (env : Env) (w : Wpas) (data : Mld) (scan : MldScan) : MldScan :=
  { w.mldAdd env data.remove { scan with phyList := [] } with phyList := scan.phyList }

/-- One turn of the loop of `mld_start`. -/
def mldTurn (env : Env) (w : Wpas) (scan : MldScan) (data : Mld) : MldScan :=
  if data.radioMaskPresent \ data.radioMaskUp = ∅ then { scan with mld := scan.mld ++ [data] }
  else if data.radioMaskUp = ∅ then w.mldAdd env data scan
  else w.mldAddLinks env data scan

/-- `mld_start`. -/
def mldStart (env : Env) (w : Wpas) : Wpas :=
  if w.mldPending then w
  else
    let scan := w.mld.foldl (w.mldTurn env) ⟨[], [], w.started⟩
    { w with mld := scan.mld, started := scan.started }

/-! ## Requests -/

/-- The MLD interfaces of a configuration. -/
def mloIfaces (config : List IfaceConfig) : List (String × IfaceConfig) :=
  (config.filter (·.mlo)).foldl (fun ifaces config => store ifaces config.iface config) []

/-- `prepare_config`. -/
def prepareConfig (env : Env) (config : IfaceConfig) : IfaceConfig :=
  { config with configData := env.readfile config.config }

/-- `set_config`. -/
def setConfig (env : Env) (configName phyName : String) (radio : Option ℕ)
    (configList : List IfaceConfig) (w : Wpas) : Wpas :=
  let phy := { (w.config configName).getD ⟨phyName, none, []⟩ with radio }
  let w := w.mldUpdatePhy phy (mloIfaces configList)
  { w with
    config := Function.update w.config configName
      (some (phy.update ((configList.filter (! ·.mlo)).map (prepareConfig env)))) }

/-- `phy_set_state` with `stop`. -/
def phyStop (name : String) (phy : Phy) (w : Wpas) : Wpas :=
  { w with
    config := Function.update w.config name
      (some { phy with data := phy.data.map fun entry => (entry.1, ifaceStop entry.2) })
    mld := w.mld.map fun data =>
      if data.phy ≠ phy.name then data
      else
        let present := { data with radioMaskPresent := data.radioMaskPresent \ phy.radioMask }
        if data.radioMaskUp ∩ phy.radioMask = ∅ then present else present.updateIface }

def OnRadio (phy : Phy) (data : Mld) : Prop :=
  data.phy = phy.name ∧ data.radioMask ∩ phy.radioMask ≠ ∅

instance (phy : Phy) (data : Mld) : Decidable (OnRadio phy data) :=
  inferInstanceAs (Decidable (_ ∧ _))

/-- `phy_set_state` without `stop`. -/
def phyStart (env : Env) (name : String) (phy : Phy) (w : Wpas) : Wpas :=
  let w := w.startPending env name
  let found := w.mld.any fun data => OnRadio phy data
  let w :=
    { w with
      mld := w.mld.map fun data =>
        if OnRadio phy data then
          { data with radioMaskPresent := data.radioMaskPresent ∪ phy.radioMask }
        else data }
  if found then w.mldStart env else w

/-- What wpa_supplicant handles. -/
inductive Request
  | mldSet (config : Option (List (String × MldConfig)))
  | mldStart (env : Env)
  | configSet (env : Env) (phy : String) (radio : Option ℤ) (config : Option (List IfaceConfig))
      (defer : Bool)
  | phySetState (env : Env) (phy : String) (radio : Option ℤ) (stop : Option Bool)
  | /-- The delayed start of a phy configuration. -/
    timer (env : Env) (name : String)

def step (w : Wpas) : Request → Wpas
  | .mldSet none => w
  | .mldSet (some config) => { w with mldPending := true }.mldSetConfig config
  | .mldStart env => { w with mldPending := false }.mldStart env
  | .configSet env phy radio config defer =>
    match phyName phy radio with
    | none => w
    | some name =>
      let w :=
        match config with
        | none => w
        | some config => w.setConfig env name phy (radioOf radio) config
      if defer then w else { w with timers := w.timers ++ [name] }
  | .phySetState env phy radio stop =>
    match phyName phy radio, stop with
    | some name, some stop =>
      match w.config name with
      | none => w
      | some phy => if stop then w.phyStop name phy else w.phyStart env name phy
    | _, _ => w
  | .timer env name =>
    if name ∈ w.timers then { w with timers := w.timers.erase name }.startPending env name else w

def start : Wpas where
  config _ := none
  mld := []
  mldPending := false
  timers := []
  started := []

end Wpas

end OpenWrt.WpaSupplicant
