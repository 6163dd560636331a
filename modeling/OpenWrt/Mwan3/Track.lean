/-
# The interface tracker

`mwan3track` probes the tracking hosts of one interface in rounds, keeps a score
and fires hotplug events from it. This module embeds its handlers and its main
loop. Shell arithmetic is `Int`; the status files are fields; every fired hotplug
event, every scored round and every handled signal is appended to a log, newest
first.

A signal only sets its flag, so the loop is a machine with a program counter: a
trap may run between any two steps, and the flags are looked at where the shell
looks at them.
-/

import OpenWrt.Lib.Run

namespace OpenWrt.Mwan3.Track

open OpenWrt.Lib

/-- The values of the `STATUS` variable and of the `STATUS` file. `unset` is the
empty string the variable starts with. -/
inductive Status
  | unset | online | offline | connecting | disconnecting | disabled
  deriving DecidableEq

/-- The hotplug events the tracker fires, `connected` with its `FIRSTCONNECT`. -/
inductive HotplugEvent
  | connected (firstconnect : Bool) | disconnected | connecting | disconnecting
  deriving DecidableEq

/-- What the tracker has done: a fired event, a scored round with its result, a
handled signal. -/
inductive Entry
  | hotplug (event : HotplugEvent)
  | round (success : Bool)
  | ifdown | ifup | reload
  deriving DecidableEq

/-- The options of the interface section that the tracker reads. -/
structure Config where
  reliability : Int
  down : Int
  up : Int
  interval : Int
  failureInterval : Int
  keepFailureInterval : Bool
  recoveryInterval : Int
  checkQuality : Bool
  failureLatency : Int
  recoveryLatency : Int
  failureLoss : Int
  recoveryLoss : Int
  initialState : Status
  /-- How many tracking addresses `mwan3_load_track_ips` collects. -/
  trackIps : ℕ
  deriving DecidableEq

/-- What the outside holds when a handler looks at it: the configuration file,
`network_is_up` together with a non-empty device, and the route monitor's
`ROUTE_STATUS`. -/
structure Env where
  config : Config
  networkIsUp : Bool
  routeIsDown : Bool
  deriving DecidableEq

/-- The outcome of one probe command: its exit status and the quality sample. -/
structure ProbeSample where
  result : Int
  loss : Int
  latency : Int
  deriving DecidableEq

/-- Where the main loop stands. -/
inductive Pc
  | /-- The head of the loop. -/ top
  | /-- Paused in the long sleep of a tracker that is not started. -/ asleep
  | /-- About to look at the pending events. -/ check
  | /-- In a round, with so many hosts left to probe. -/ probing (hosts : ℕ)
  | /-- A round has been scored; sleeping until the next one. -/ roundEnd
  | /-- The ifup test after the sleep. -/ afterIfdown
  | /-- The reload test after the sleep. -/ afterIfup
  deriving DecidableEq

/-- The tracker's variables, its status file and its log. -/
structure Tracker where
  pc : Pc
  config : Config
  trackIps : ℕ
  score : Int
  warnThreshold : Int
  hostUpCount : Int
  lost : Int
  turn : Int
  sleepTime : Int
  status : Status
  statusFile : Option Status
  started : Bool
  ifdownEvent : Bool
  ifupEvent : Bool
  reloadEvent : Bool
  log : List Entry
  deriving DecidableEq

namespace Tracker

def record (s : Tracker) (entry : Entry) : Tracker :=
  { s with log := entry :: s.log }

/-- Whether one of the three signals is pending. -/
def anyEvent (s : Tracker) : Bool :=
  s.ifdownEvent || s.ifupEvent || s.reloadEvent

/-- A trap ends the sleep it interrupts. -/
def wake (s : Tracker) : Tracker :=
  { s with pc := if s.pc = .asleep then .check else s.pc }

/-- Trap on `USR1`. -/
def ifDown (s : Tracker) : Tracker :=
  { s with ifdownEvent := true }.wake

/-- Trap on `USR2`; it marks the tracker started at once. -/
def ifUp (s : Tracker) : Tracker :=
  { s with ifdownEvent := false, ifupEvent := true, started := true }.wake

/-- Trap on `HUP`. -/
def configReload (s : Tracker) : Tracker :=
  { s with reloadEvent := true }.wake

/-- `disconnected`; the flag is its first argument being 1, with which it returns
before the event. The event is fired only when the file said the interface was
online or disconnecting. -/
def disconnected (s : Tracker) (quiet : Bool) : Tracker :=
  let offline : Tracker :=
    { s with status := .offline, statusFile := some .offline, score := 0 }
  if quiet then offline
  else if s.statusFile = some .online ∨ s.statusFile = some .disconnecting then
    offline.record (.hotplug .disconnected)
  else offline

/-- `connected`, with its `FIRSTCONNECT` argument. -/
def connected (s : Tracker) (firstconnect : Bool) : Tracker :=
  { s with
    status := .online
    statusFile := some .online
    score := s.config.down + s.config.up
    hostUpCount := 0
    lost := 0
    turn := 0 }.record (.hotplug (.connected firstconnect))

/-- `disconnecting`. -/
def disconnecting (s : Tracker) : Tracker :=
  if s.status ≠ .disconnecting then
    { s with status := .disconnecting, statusFile := some .disconnecting }.record
      (.hotplug .disconnecting)
  else s

/-- `connecting`. -/
def connecting (s : Tracker) : Tracker :=
  if s.status ≠ .connecting then
    { s with status := .connecting, statusFile := some .connecting }.record
      (.hotplug .connecting)
  else s

/-- `disabled`, which also stops the tracker. -/
def disabled (s : Tracker) : Tracker :=
  { s with status := .disabled, statusFile := some .disabled, started := false }

/-- The status `firstconnect` decides on: one other than online is replaced by
the configured initial state. -/
def firstconnectStatus (s : Tracker) (env : Env) : Status :=
  if s.status ≠ .online then env.config.initialState else s.status

/-- `firstconnect`. -/
def firstconnect (s : Tracker) (env : Env) : Tracker :=
  let s := { s with status := s.firstconnectStatus env }
  if env.networkIsUp = false then s.disabled
  else if s.status = .offline then { s with started := true }.disconnected true
  else { s with started := true }.connected true

/-- The warning threshold the script computes from the two thresholds; shell
division truncates. -/
def warnThresholdOf (config : Config) : Int :=
  config.up + (config.down + 2).tdiv 3

def handleIfdown (s : Tracker) : Tracker :=
  { ((s.record .ifdown).disconnected false).disabled with ifdownEvent := false }

def handleIfup (s : Tracker) (env : Env) : Tracker :=
  { ({ s.record .ifup with trackIps := env.config.trackIps }.firstconnect env) with
    ifupEvent := false }

/-- The score after a reload: clamped to the new maximum. -/
def reloadedScore (score : Int) (config : Config) : Int :=
  if score > config.down + config.up then config.down + config.up else score

/-- The configuration reload: `load_tracking_config`, the clamp of the score and
the new warning threshold. -/
def handleReload (s : Tracker) (env : Env) : Tracker :=
  { s.record .reload with
    config := env.config
    trackIps := env.config.trackIps
    score := reloadedScore s.score env.config
    warnThreshold := warnThresholdOf env.config
    reloadEvent := false }

/-- The head of the loop: a tracker that is not started sleeps first. -/
def loopTop (s : Tracker) : Tracker :=
  { s with pc := if s.started then .check else .asleep }

/-- The events are looked at in this order, one for each pass of the loop;
without one a round begins, which probes nothing while the route is down. -/
def checkEvents (s : Tracker) (env : Env) : Tracker :=
  if s.ifdownEvent then { s.handleIfdown with pc := .top }
  else if s.ifupEvent then { s.handleIfup env with pc := .top }
  else if s.reloadEvent then { s.handleReload env with pc := .top }
  else
    { s with
      sleepTime := s.config.interval
      pc := .probing (if env.routeIsDown then 0 else s.trackIps) }

/-- What one probe says about its host: `none` is a sample between the two
quality thresholds, which counts for neither side. -/
def probeVerdict (config : Config) (sample : ProbeSample) : Option Bool :=
  if !config.checkQuality then some (sample.result = 0)
  else if sample.loss ≥ config.failureLoss ∨ sample.latency ≥ config.failureLatency then
    some false
  else if sample.loss ≤ config.recoveryLoss ∧ sample.latency ≤ config.recoveryLatency then
    some true
  else none

/-- One turn of the host loop. Once enough hosts are up the rest is skipped; a
pending event leaves the loop. -/
def probeHost (s : Tracker) (hosts : ℕ) (sample : ProbeSample) : Tracker :=
  let counted :=
    if s.hostUpCount < s.config.reliability then
      match probeVerdict s.config sample with
      | some true => { s with hostUpCount := s.hostUpCount + 1 }
      | some false => { s with lost := s.lost + 1 }
      | none => s
    else s
  { counted with pc := .probing (if counted.anyEvent then 0 else hosts) }

/-- Set the sleep before the next round. -/
def sleepFor (s : Tracker) (time : Int) : Tracker :=
  { s with sleepTime := time }

/-- `let score--` for a failed round. -/
def lowerScore (s : Tracker) : Tracker :=
  { s.record (.round false) with score := s.score - 1 }

/-- `let score++` and `lost=0` for a successful round. -/
def raiseScore (s : Tracker) : Tracker :=
  { s.record (.round true) with score := s.score + 1, lost := 0 }

/-- A score that fell below `up` is dropped to 0. -/
def dropScore (s : Tracker) : Tracker :=
  { s with
    score := 0
    sleepTime := if s.config.keepFailureInterval then s.config.failureInterval
      else s.sleepTime }

/-- A score above `up` is restored, and a disconnecting interface is online. -/
def restoreScore (s : Tracker) : Tracker :=
  { s with
    status := if s.status = .disconnecting then .online else s.status
    statusFile := some .online
    score := s.config.down + s.config.up }

def roundFailed (s : Tracker) : Tracker :=
  let s := s.lowerScore
  if s.score < s.config.up then s.dropScore
  else if s.score = s.config.up then
    (s.disconnecting.sleepFor s.config.failureInterval).disconnected false
  else
    (if s.score ≤ s.warnThreshold then s.disconnecting else s).sleepFor
      s.config.failureInterval

def roundSucceeded (s : Tracker) : Tracker :=
  let s := s.raiseScore
  if s.score < s.config.up then s.connecting.sleepFor s.config.recoveryInterval
  else if s.score = s.config.up then
    (s.connecting.sleepFor s.config.recoveryInterval).connected false
  else s.restoreScore

/-- The end of a round. An event that came while probing discards it; otherwise
it counts as failed when fewer hosts than `reliability` answered. -/
def finishRound (s : Tracker) : Tracker :=
  if s.anyEvent then { s with hostUpCount := 0, pc := .top }
  else
    let scored :=
      if s.hostUpCount < s.config.reliability then s.roundFailed else s.roundSucceeded
    { scored with turn := scored.turn + 1, hostUpCount := 0, pc := .roundEnd }

/-- The three tests after the sleep, one step each. -/
def afterSleep (s : Tracker) : Tracker :=
  { (if s.ifdownEvent then s.handleIfdown else s) with pc := .afterIfdown }

def afterSleepIfup (s : Tracker) (env : Env) : Tracker :=
  { (if s.ifupEvent then s.handleIfup env else s) with pc := .afterIfup }

def afterSleepReload (s : Tracker) (env : Env) : Tracker :=
  { (if s.reloadEvent then s.handleReload env else s) with pc := .top }

/-- `main` up to the loop: the variables are set, then `firstconnect` runs. A
status file of an earlier process may be left over. -/
def start (env : Env) (oldStatusFile : Option Status) : Tracker :=
  ({ pc := .top
     config := env.config
     trackIps := env.config.trackIps
     score := env.config.down + env.config.up
     warnThreshold := warnThresholdOf env.config
     hostUpCount := 0
     lost := 0
     turn := 0
     sleepTime := 0
     status := .unset
     statusFile := oldStatusFile
     started := false
     ifdownEvent := false
     ifupEvent := false
     reloadEvent := false
     log := [] } : Tracker).firstconnect env

end Tracker

/-- A signal, or the next step of the main loop with what it finds outside. -/
inductive Action
  | ifDownSignal | ifUpSignal | reloadSignal
  | loopTop
  | checkEvents (env : Env)
  | probeHost (sample : ProbeSample)
  | finishRound
  | afterSleep
  | afterSleepIfup (env : Env)
  | afterSleepReload (env : Env)

/-- One step; a loop step is refused where the loop does not stand. -/
def next (s : Tracker) : Action → Option Tracker
  | .ifDownSignal => some s.ifDown
  | .ifUpSignal => some s.ifUp
  | .reloadSignal => some s.configReload
  | .loopTop => if s.pc = .top then some s.loopTop else none
  | .checkEvents env => if s.pc = .check then some (s.checkEvents env) else none
  | .probeHost sample =>
    match s.pc with
    | .probing (hosts + 1) => some (s.probeHost hosts sample)
    | _ => none
  | .finishRound => if s.pc = .probing 0 then some s.finishRound else none
  | .afterSleep => if s.pc = .roundEnd then some s.afterSleep else none
  | .afterSleepIfup env =>
    if s.pc = .afterIfdown then some (s.afterSleepIfup env) else none
  | .afterSleepReload env =>
    if s.pc = .afterIfup then some (s.afterSleepReload env) else none

def IsStart (s : Tracker) : Prop :=
  ∃ env old, s = Tracker.start env old

/-- The tracker under every order of signals and loop steps. -/
def tracker : System Tracker Action :=
  System.ofFn IsStart next

end OpenWrt.Mwan3.Track
