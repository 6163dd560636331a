/-
# The handler queue

Each device has at most one handler in the queue, under its name; a later request replaces
it. One handler is taken at a time, and its callback runs when the script ends, when its time
is over, or at once when it cannot be started. The loop that takes the next handler runs
after every request and from a timer: here it is a step of its own, which may take any of the
queued handlers. All else that is kept under the name of a device is kept beside its handler.
-/

import Mathlib.Data.Finset.Erase
import OpenWrt.Netifd.Wdev

namespace OpenWrt.Netifd

/-- What is kept under the name of a device. -/
structure Slot where
  /-- The device in the last configuration. -/
  config : Option DeviceData
  /-- `wireless.devices[name]` -/
  device : Option Wdev
  /-- `wdev_handler[name]` -/
  handler : Option Op
  /-- The networks with the devices that were raised in them and not released. -/
  links : Finset (String × String)
  /-- What the last run of the setup script was given. -/
  lastSetup : Option HandlerConfig
  /-- The user has stopped the device since it was added to the configuration. -/
  stopped : Bool

def LinkCall.apply (links : Finset (String × String)) (call : LinkCall) :
    Finset (String × String) :=
  if call.up then insert (call.net, call.ifname) links else links.erase (call.net, call.ifname)

namespace Slot

def take (slot : Slot) (outcome : Outcome) : Slot :=
  { slot with
    device := outcome.wdev
    handler := outcome.handler.or slot.handler
    links := outcome.links.foldl LinkCall.apply slot.links }

def call (f : Wdev → Outcome) (slot : Slot) : Slot :=
  match slot.device with
  | none => slot
  | some wdev => slot.take (f wdev)

/-- `update_config` for one device. -/
def updateConfig (env : NetEnv) (new : Option DeviceData) (slot : Slot) : Slot :=
  match slot.device, new with
  | none, none => slot
  | some wdev, none => slot.take wdev.destroy
  | some wdev, some data => slot.take (wdev.update env (some data))
  | none, some data => { slot with device := some (Wdev.new env data) }

def reload (env : NetEnv) (new : Option DeviceData) (slot : Slot) : Slot :=
  { slot.updateConfig env new with
    config := new
    stopped := slot.config.isSome && slot.stopped }

def userStop (slot : Slot) : Slot :=
  { slot.call Wdev.stop with stopped := true }

/-- The handler is taken from the queue. -/
def dequeue (op : Op) (slot : Slot) : Slot :=
  { slot with
    handler := none
    lastSetup := if op = .setup then slot.device.map Wdev.handlerConfig else slot.lastSetup }

end Slot

/-- The devices and the handler that runs. -/
structure System where
  slots : String → Slot
  /-- `wdev_cur` -/
  cur : Option (String × Op)
  /-- The scripts that are running. -/
  tasks : List (String × Op)

/-- What may happen. -/
inductive Event
  | /-- The configuration is loaded again. -/
    reload (env : NetEnv) (new : String → Option DeviceData)
  | /-- The device is started by the user, or by `config_start`. -/
    up (env : NetEnv) (name : String)
  | down (name : String)
  | retry (env : NetEnv) (name : String)
  | reconf (env : NetEnv) (name : String)
  | /-- `check_interfaces`: a network has changed. -/
    checkInterfaces (env : NetEnv) (name : String)
  | /-- `__run_next_handler` takes the handler of the device; the script starts or does not. -/
    next (env : NetEnv) (name : String) (starts : Bool)
  | /-- A script ends. -/
    exit (env : NetEnv) (task : String × Op)
  | /-- The time of the running handler is over. -/
    timeout (env : NetEnv)
  | markUp (name : String)
  | setData (name : String) (target : Wdev.Target) (ifname : Option String)
  | processAdd (name : String) (proc : Proc)
  | setRetry (name : String) (retry : Option ℤ)
  | /-- `wdev_proc_check`, with the processes that are active. -/
    procCheck (name : String) (active : Proc → Bool)

namespace System

/-- Nothing is configured yet. -/
def start : System where
  slots _ := ⟨none, none, none, ∅, none, false⟩
  cur := none
  tasks := []

/-- Change what is kept under a name. -/
def on (s : System) (name : String) (f : Slot → Slot) : System :=
  { s with slots := Function.update s.slots name (f (s.slots name)) }

/-- `run_handler_cb`: the callback runs if the handler is that of the device. -/
def complete (env : NetEnv) (task : String × Op) (s : System) : System :=
  match s.cur with
  | none => s
  | some cur =>
    if task.1 ≠ cur.1 then s
    else { s with cur := none }.on task.1 (Slot.call (Wdev.callback env task.2))

/-- `__run_next_handler`, with the handler of the device. -/
def runNext (env : NetEnv) (name : String) (starts : Bool) (s : System) : System :=
  match s.cur, (s.slots name).handler with
  | none, some op =>
    let s := { s with cur := some (name, op) }.on name (Slot.dequeue op)
    if starts then { s with tasks := s.tasks ++ [(name, op)] } else s.complete env (name, op)
  | _, _ => s

/-- A script ends. -/
def exit (env : NetEnv) (task : String × Op) (s : System) : System :=
  if task ∈ s.tasks then { s with tasks := s.tasks.erase task }.complete env task else s

/-- `run_handler_timeout`: the script is cancelled. -/
def timeout (env : NetEnv) (s : System) : System :=
  match s.cur with
  | none => s
  | some cur => s.exit env cur

def step (s : System) : Event → System
  | .reload env new => { s with slots := fun name => (s.slots name).reload env (new name) }
  | .up env name => s.on name (Slot.call (Wdev.start env))
  | .down name => s.on name Slot.userStop
  | .retry env name => s.on name (Slot.call (Wdev.retrySetup env))
  | .reconf env name => s.on name (Slot.call (Wdev.update env none))
  | .checkInterfaces env name =>
    s.on name (Slot.call fun wdev => if wdev.autostart then wdev.check env else .only wdev)
  | .next env name starts => s.runNext env name starts
  | .exit env task => s.exit env task
  | .timeout env => s.timeout env
  | .markUp name => s.on name (Slot.call Wdev.markUp)
  | .setData name target ifname => s.on name (Slot.call fun wdev => .only (wdev.setData target ifname))
  | .processAdd name proc => s.on name (Slot.call fun wdev => .only (wdev.processAdd proc))
  | .setRetry name retry => s.on name (Slot.call fun wdev => .only (wdev.setRetry retry))
  | .procCheck name active => s.on name (Slot.call (Wdev.procCheck active))

/-- The operation that runs for the device. -/
def running (s : System) (name : String) : Option Op :=
  s.cur.bind fun cur => if cur.1 = name then some cur.2 else none

end System

end OpenWrt.Netifd
