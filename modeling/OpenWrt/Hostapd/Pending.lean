/-
# The pending bring-up

The interface of a radio is brought up in steps that wait for replies of wpa_supplicant: its
network device is created, the state of the station side is asked for, the station side is stopped
unless the channel is known, the interface is added, and the station side is started again. The
machine that does this keeps the configuration it was started with. A restart aborts it, and other
requests may change what is stored while it waits.
-/

import OpenWrt.Hostapd.Restart

namespace OpenWrt.Hostapd

/-! ## The machine -/

/-- The states of `__iface_pending_next`; the state `done` only removes the machine. -/
inductive PendingState
  | init
  | createBss
  | checkPhy
  | wpasStopped
deriving DecidableEq

/-- How a call ends: it succeeds, it fails, or it raises an exception, before or after the daemon
was called. -/
inductive CallEnd
  | ok
  | failed
  | raised (called : Bool)
deriving DecidableEq

def CallEnd.called : CallEnd → Bool
  | .raised called => called
  | _ => true

/-- What the turns of a machine find, from one reply to the next. -/
structure Answers where
  /-- An exception before the first state is left. -/
  initRaises : Bool
  wdevAdd : CallEnd
  /-- `iface_add` with the state of the station side, and without. -/
  addChecked : CallEnd
  addStopped : CallEnd
  /-- `ubus.defer` takes the call of `phy_status`, and that of `phy_set_state`. -/
  statusDeferred : Bool
  stopDeferred : Bool

/-- The calls for which a configuration is used. -/
inductive UseCall
  | wdevAdd
  | addIface
deriving DecidableEq

/-- A use of a configuration. -/
structure Use where
  call : UseCall
  config : Config

def useOf (call : UseCall) (config : Config) (ends : CallEnd) : List Use :=
  if ends.called then [⟨call, config⟩] else []

/-- What is left of the machine after a turn. -/
inductive AfterTurn
  | /-- The next turn is at once: no call is open. -/
    next (state : PendingState)
  | /-- The next turn is the one of the reply. -/
    wait (state : PendingState)
  | /-- An exception: the machine stays as it is, and waits for nothing. -/
    raised
  | done

/-- A turn: the uses, what is sent with `phy_set_state`, and what comes after it. -/
structure Turn where
  uses : List Use
  /-- The `stop` of each `phy_set_state`. -/
  sent : List Bool
  after : AfterTurn

/-- `__iface_pending_next`, with `completed` for a reply that has the state `COMPLETED`. -/
def ifacePendingTurn (config : Config) (answers : Answers) (completed : Bool) :
    PendingState → Turn
  | .init => ⟨[], [], if answers.initRaises then .raised else .next .createBss⟩
  | .createBss =>
    match config.bss with
    | [] => ⟨[], [], .raised⟩
    | bss :: _ =>
      let asked : AfterTurn :=
        if answers.statusDeferred then .wait .checkPhy else .next .checkPhy
      if bss.mldAp then ⟨[], [], asked⟩
      else
        ⟨useOf .wdevAdd config answers.wdevAdd, [],
          match answers.wdevAdd with
          | .ok => asked
          | .failed => .done
          | .raised _ => .raised⟩
  | .checkPhy =>
    let stopped : AfterTurn :=
      if answers.stopDeferred then .wait .wpasStopped else .next .wpasStopped
    if completed then
      let uses := useOf .addIface config answers.addChecked
      match answers.addChecked with
      | .ok => ⟨uses, [], .done⟩
      | .failed => ⟨uses, [true], stopped⟩
      | .raised _ => ⟨uses, [], .raised⟩
    else ⟨[], [true], stopped⟩
  | .wpasStopped =>
    let uses := useOf .addIface config answers.addStopped
    match answers.addStopped with
    | .raised _ => ⟨uses, [], .raised⟩
    | _ => ⟨uses, [false], .done⟩

/-- `hostapd.data.pending_config[phy]` -/
structure Machine where
  config : Config
  nextState : PendingState
  /-- A call is open. -/
  waiting : Bool

/-- What a machine has done when it waits or ends. -/
structure Progress where
  uses : List Use
  sent : List Bool
  pending : Option Machine

/-- The loop of `iface_pending_next`, from a state on. -/
def ifacePendingLoop (config : Config) (answers : Answers) (completed : Bool) :
    ℕ → PendingState → Progress
  | 0, state => ⟨[], [], some ⟨config, state, false⟩⟩
  | turns + 1, state =>
    let turn := ifacePendingTurn config answers completed state
    match turn.after with
    | .next state =>
      let rest := ifacePendingLoop config answers completed turns state
      ⟨turn.uses ++ rest.uses, turn.sent ++ rest.sent, rest.pending⟩
    | .wait state => ⟨turn.uses, turn.sent, some ⟨config, state, true⟩⟩
    | .raised => ⟨turn.uses, turn.sent, some ⟨config, state, false⟩⟩
    | .done => ⟨turn.uses, turn.sent, none⟩

/-- The turns until the machine is done, at most. -/
def PendingState.turns : PendingState → ℕ
  | .init => 4
  | .createBss => 3
  | .checkPhy => 2
  | .wpasStopped => 1

/-- `iface_pending_next` -/
def ifacePendingNext (config : Config) (answers : Answers) (completed : Bool)
    (state : PendingState) : Progress :=
  ifacePendingLoop config answers completed state.turns state

/-! ## The requests -/

/-- What `hostapd.data` has for one radio. -/
structure PhyState where
  config : Option Config
  pending : Option Machine
  /-- There is a frequency in `apsta_freq`. -/
  apstaFreq : Bool
  csaTimer : Bool
  /-- The last `phy_set_state` for the radio was a stop. -/
  stopped : Bool

/-- What a restart finds. -/
structure RestartAnswers where
  /-- The addresses of the BSSs, by index. -/
  bssid : ℕ → Option String
  answers : Answers

def withBssids (bssid : ℕ → Option String) (bss : List Bss) : List Bss :=
  bss.mapIdx fun i bss => { bss with bssid := bssid i }

/-- What `iface_set_config` finds. -/
structure SetAnswers where
  /-- `phy_open` -/
  opens : Bool
  /-- The address of a multi-link device that takes the BSS as a link (`bss_check_mld`). -/
  mldMacaddr : String → Option String
  /-- The running interface is in the state `ENABLED`, and it takes a channel switch. -/
  enabled : Bool
  switched : Bool
  /-- The BSSs are reloaded without a restart, once the radio is in order. -/
  reloaded : Bool
  restart : RestartAnswers

/-- The BSSs that `iface_check_mld` leaves. -/
def checkMldBss (mldMacaddr : String → Option String) (bss : List Bss) : List Bss :=
  bss.filterMap fun bss =>
    if bss.mldAp then
      if bss.ifname = "" then none
      else (mldMacaddr bss.ifname).map fun addr => { bss with mldBssid := some addr }
    else some bss

namespace PhyState

variable (phy : PhyState)

/-- The radio where the machine has gone on. -/
def progress (done : Progress) : PhyState × List Use :=
  ({ phy with
      pending := done.pending
      stopped := done.sent.getLast?.getD phy.stopped }, done.uses)

/-- `iface_restart`, with the stored configuration: the machine that is pending is aborted. -/
def restart (config : Config) (env : RestartAnswers) : PhyState × List Use :=
  if config.bss = [] then ({ phy with pending := none, csaTimer := false }, [])
  else
    let config := { config with bss := withBssids env.bssid config.bss }
    { phy with config := some config, csaTimer := false }.progress
      (ifacePendingNext config env.answers false .init)

def channelEnv (enabled switched : Bool) : ChannelEnv := ⟨phy.apstaFreq, enabled, switched⟩

/-- A channel switch that is made arms the timer; one that follows the station does not. -/
def armsTimer (env : ChannelEnv) (config : Config) : Bool :=
  !(config.radio.channelFollow.getD false && env.apstaFreq) && ifaceChannelSwitch env config

/-- `iface_set_config` with a configuration. -/
def setConfig (config : Config) (env : SetAnswers) : PhyState × List Use :=
  if env.opens then
    let config := { config with bss := checkMldBss env.mldMacaddr config.bss }
    let stored := { phy with config := some config }
    if config.bss = [] then ({ stored with apstaFreq := false }, [])
    else
      match phy.config with
      | none => stored.restart config env.restart
      | some old =>
        let channel := phy.channelEnv env.enabled env.switched
        let stored := { stored with
          csaTimer := phy.csaTimer ||
            (radioReloadClass old.radio config.radio = .channel && armsTimer channel config) }
        if radioReady channel config old then
          if old.bss = config.bss then (stored, [])
          else if phy.pending.isNone && env.reloaded then
            ({ stored with
                config := some
                  { config with bss := withBssids env.restart.bssid config.bss } }, [])
          else stored.restart config env.restart
        else stored.restart config env.restart
  else ({ phy with config := some config }, [])

/-- What `apsta_state` finds. -/
structure ApstaAnswers where
  /-- The interface is there. -/
  iface : Bool
  enabled : Bool
  switched : Bool
  opens : Bool
  restart : RestartAnswers

/-- The request `apsta_state`, as far as it does not only start or stop the interface. -/
def apstaState (up frequency noLink : Bool) (env : ApstaAnswers) : PhyState × List Use :=
  match phy.config with
  | none => (phy, [])
  | some config =>
    if config.bss.head?.all (·.ifname = "") || !env.iface then (phy, [])
    else if !up then ({ phy with apstaFreq := false }, [])
    else if frequency then ({ phy with apstaFreq := true }, [])
    else if noLink && phy.apstaFreq then
      let phy := { phy with apstaFreq := false }
      let channel := phy.channelEnv env.enabled env.switched
      if ifaceChannelSwitch channel config then
        ({ phy with csaTimer := phy.csaTimer || armsTimer channel config }, [])
      else if env.opens then phy.restart config env.restart
      else (phy, [])
    else (phy, [])

/-- What the timer of a channel switch finds. -/
structure CsaAnswers where
  /-- The interface is there and still in the switch. -/
  inProgress : Bool
  opens : Bool
  restart : RestartAnswers

/-- `iface_csa_check` -/
def csaCheck (env : CsaAnswers) : PhyState × List Use :=
  if phy.csaTimer then
    let phy := { phy with csaTimer := false }
    match phy.config with
    | none => (phy, [])
    | some config =>
      if env.inProgress && env.opens then phy.restart config env.restart else (phy, [])
  else (phy, [])

def reply (completed : Bool) (answers : Answers) : PhyState × List Use :=
  match phy.pending with
  | none => (phy, [])
  | some machine =>
    if machine.waiting then
      phy.progress (ifacePendingNext machine.config answers completed machine.nextState)
    else (phy, [])

end PhyState

/-- What happens to a radio. -/
inductive PhyEvent
  | /-- `config_set`, with the configuration that ran before. -/
    configSet (prev : Option Config) (config : Config) (env : SetAnswers)
  | /-- `reload`, and the reloads of `mld_set`. -/
    reload (config : Config) (env : SetAnswers)
  | /-- `config_reset`, for one of the radios. -/
    configReset
  | apstaState (up frequency noLink : Bool) (env : PhyState.ApstaAnswers)
  | csaCheck (env : PhyState.CsaAnswers)
  | reply (completed : Bool) (answers : Answers)

/-- The configuration that ran before is stored where there is none, without the lines of its
radio. -/
def PhyState.withPrev (phy : PhyState) (prev : Option Config) : PhyState :=
  { phy with
    config := phy.config <|> prev.map fun prev => { prev with radio := { prev.radio with data := [] } } }

def PhyState.step (phy : PhyState) : PhyEvent → PhyState × List Use
  | .configSet prev config env => (phy.withPrev prev).setConfig config env
  | .reload config env =>
    match phy.config with
    | none => (phy, [])
    | some _ => phy.setConfig config env
  | .configReset => ({ phy with config := none, apstaFreq := false }, [])
  | .apstaState up frequency noLink env => phy.apstaState up frequency noLink env
  | .csaCheck env => phy.csaCheck env
  | .reply completed answers => phy.reply completed answers

/-- `hostapd.data`: what it has for each radio, by name. -/
abbrev HostapdData := String → PhyState

namespace HostapdData

/-- Before the first request. -/
def start : HostapdData := fun _ => ⟨none, none, false, false, false⟩

/-- An event for one of the radios; those of several radios come one after the other. -/
def apply (data : HostapdData) (event : String × PhyEvent) : HostapdData :=
  Function.update data event.1 ((data event.1).step event.2).1

end HostapdData

end OpenWrt.Hostapd
