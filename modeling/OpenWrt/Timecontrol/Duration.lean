/-
# The counters of the used time

A device may be limited by the time it has used since the last reset. Each target has a line with
the start of its session and the time used before, and a file with the time of the last reset. That
a session is going on is read from the end of a log that all the targets share.

The times are the seconds of `date +%s`, read anew by each function. The patterns of grep match the
target itself only.
-/

import OpenWrt.Timecontrol.Control

namespace OpenWrt.Timecontrol

/-- The actions in the log. -/
inductive Action
  | connect
  | disconnect
deriving DecidableEq, Repr

/-- The option `reset_cycle`; any other value never ends. -/
inductive Cycle
  | daily
  | weekly
  | monthly
  | other
deriving DecidableEq, Repr

/-- What `date` prints for a time: the day, the week or the month, as a number. -/
structure Calendar where
  key : Cycle → ℕ → ℕ
  mono : ∀ cycle, Monotone (key cycle)
  other : ∀ time time', key .other time = key .other time'

/-- A line of `duration.db`, after the target. -/
structure Record where
  lastConnect : ℕ
  totalUsed : ℕ
  lastReset : ℕ
deriving DecidableEq, Repr

/-- The files of the counters. -/
structure Files where
  /-- `connections.log`, without the times. -/
  log : List (Text × Action)
  /-- `duration.db`. -/
  db : List (Text × Record)
  /-- The files `last_reset_`. -/
  lastReset : Text → Option ℕ

namespace Files

variable (files : Files) (target : Text)

/-- The line of the target, if it has one. The arithmetic of the script fails on several. -/
def record : Option Record :=
  (files.db.find? fun line => line.1 = target).map Prod.snd

/-- `sed -i "/^target,/d"`: a slash in the target ends the pattern, and nothing is deleted. -/
def deleteLine : List (Text × Record) :=
  if '/' ∈ target then files.db else files.db.filter fun line => line.1 ≠ target

/-- `record_connection_time`. -/
def recordConnectionTime (action : Action) (timestamp : ℕ) : Files :=
  let logged := { files with log := files.log ++ [(target, action)] }
  match action, files.record target with
  | .connect, none => { logged with db := files.db ++ [(target, ⟨timestamp, 0, 0⟩)] }
  | .disconnect, some record =>
    { logged with
      db := files.deleteLine target ++
        [(target, ⟨timestamp, record.totalUsed + (timestamp - record.lastConnect),
          record.lastReset⟩)] }
  | _, _ => logged

/-- `tail -n 5` of the log has a connect of the target. -/
def connectInTail : Bool :=
  (target, .connect) ∈ files.log.drop (files.log.length - 5)

/-- `get_connection_time`. -/
def getConnectionTime (currentTime : ℕ) : ℕ :=
  match files.record target with
  | none => 0
  | some record =>
    if files.connectInTail target then
      record.totalUsed + (currentTime - record.lastConnect)
    else record.totalUsed

/-- `should_reset_duration`. -/
def shouldResetDuration (calendar : Calendar) (cycle : Cycle) (currentTime : ℕ) : Bool :=
  match files.lastReset target with
  | none => true
  | some last => calendar.key cycle last ≠ calendar.key cycle currentTime

/-- `reset_duration_counter`. -/
def resetDurationCounter (currentTime : ℕ) : Files :=
  { files with
    db := files.deleteLine target ++ [(target, ⟨currentTime, 0, currentTime⟩)]
    lastReset := fun other => if other = target then some currentTime else files.lastReset other }

def lastAction : Option Action :=
  (files.log.reverse.find? fun line => line.1 = target).map Prod.snd

end Files

/-- The times that one check of a device reads, in their order. -/
structure Readings where
  now : ℕ
  reset : ℕ
  connect : ℕ
  report : ℕ
  update : ℕ
  now_le : now ≤ reset
  reset_le : reset ≤ connect
  connect_le : connect ≤ report
  report_le : report ≤ update

/-- The part of `check_device_control` about the duration, up to the call of
`get_connection_time`. -/
def Files.checkDuration (files : Files) (target : Text) (calendar : Calendar) (cycle : Cycle)
    (readings : Readings) : Files :=
  let files :=
    if files.shouldResetDuration target calendar cycle readings.now then
      files.resetDurationCounter target readings.reset
    else files
  if files.lastAction target ≠ some .connect then
    files.recordConnectionTime target .connect readings.connect
  else files

/-- A check of one device in a round, with the configuration of its time. -/
structure Check where
  config : Config
  id : ℕ
  time : Text
  weekday : Text
  cycle : Cycle
  readings : Readings

namespace Check

variable (check : Check)

/-- The address of the device, as the option has it. -/
def target : Text := configTGet check.config Device.mac check.id []

def seen (used : ℕ) : Now := ⟨check.time, check.weekday, fun _ => used / 60⟩

/-- The check comes to the part about the duration. -/
def reachesDuration : Bool :=
  let timeMode := configTGet check.config Device.timeMode check.id "period".toList
  isWeekdayInRange (check.seen 0) (configTGet check.config Device.week check.id "0".toList) &&
    (timeMode = "duration".toList ||
      (timeMode = "combined".toList &&
        isTimeInRange (check.seen 0)
          (configTGet check.config Device.timestart check.id "00:00".toList)
          (configTGet check.config Device.timeend check.id "00:00".toList) &&
        configTGet check.config Device.useDuration check.id "0".toList = "1".toList))

end Check

/-- The state of the daemon with the counters. -/
structure Counted where
  state : State
  files : Files

namespace Counted

/-- Before the first round. -/
def start : Counted := ⟨.start, ⟨[], [], fun _ => none⟩⟩

variable (calendar : Calendar) (counted : Counted) (check : Check)

/-- The files when the used time is reported. -/
def reportFiles : Files :=
  if check.reachesDuration then
    counted.files.checkDuration check.target calendar check.cycle check.readings
  else counted.files

/-- The used time that `get_connection_time` reports. -/
def reported : ℕ := (counted.reportFiles calendar check).getConnectionTime check.target
  check.readings.report

/-- `check_device_control`: whether the device may use the network. -/
def allows : Bool :=
  checkDeviceControl (check.seen (counted.reported calendar check)) check.config check.id

/-- The device is not blocked. -/
def isAllowed (id : ℕ) : Bool := id ∉ counted.state.idlist

/-- The check with `update_device_status`: where the device changes, a disconnect is recorded. -/
def step : Counted where
  state := updateDeviceStatus check.config counted.state check.id (counted.allows calendar check)
  files :=
    if counted.isAllowed check.id = counted.allows calendar check then
      counted.reportFiles calendar check
    else
      (counted.reportFiles calendar check).recordConnectionTime check.target .disconnect
        check.readings.update

end Counted

end OpenWrt.Timecontrol
