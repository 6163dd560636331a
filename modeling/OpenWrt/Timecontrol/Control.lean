/-
# The time control daemon

Devices are sections of the configuration, known by their index. Once a minute the daemon
asks for each enabled device whether it may use the network now, and adds its address to
the firewall sets or takes it out again. Which devices are blocked is kept in a list of
indices; the address is read from the configuration at each call.

The elements of the firewall sets are the texts that nft is given. The counters of the
used time are files that only the check reads and writes, so they are given to a round.
The log and the comments of the devices are left out, and so are the existing connections,
which are cut but change no set.
-/

import Mathlib.Data.List.Sort

namespace OpenWrt.Timecontrol

/-- The value of an option. -/
abbrev Text := List Char

/-- A section of type `device`; an option may be missing. -/
structure Device where
  enable : Option Text
  mac : Option Text
  timeMode : Option Text
  week : Option Text
  timestart : Option Text
  timeend : Option Text
  duration : Option Text
  useDuration : Option Text
deriving DecidableEq, Repr

/-- The device sections in their order. -/
abbrev Config := List Device

/-- `config_t_get` for an option of a device: the default stands for a missing or empty one. -/
def configTGet (config : Config) (option : Device → Option Text) (id : ℕ) (default : Text) :
    Text :=
  match config[id]? with
  | none => default
  | some device =>
    match option device with
    | none => default
    | some value => if value = [] then default else value

/-! ## Addresses -/

/-- The firewall set an address belongs to. -/
inductive Kind where
  | ipv4
  | ipv6
  | mac
deriving DecidableEq, Repr

/-- An element of the firewall sets. -/
structure Address where
  kind : Kind
  value : Text
deriving DecidableEq, Repr

/-- Blanks are dropped around the words and squeezed between them, as `xargs` does. -/
def xargs (target : Text) : Text :=
  [' '].intercalate
    ((target.splitOnP fun c => c = ' ' || c = '\t' || c = '\n').filter (· ≠ []))

def decimal (digits : Text) : ℕ := digits.foldl (fun n c => 10 * n + (c.toNat - '0'.toNat)) 0

/-- `[0-9]{least,most}`. -/
def isNumber (least most : ℕ) (t : Text) : Bool :=
  least ≤ t.length && t.length ≤ most && t.all Char.isDigit

/-- `[0-9A-Fa-f]{least,most}`. -/
def isHex (least most : ℕ) (t : Text) : Bool :=
  least ≤ t.length && t.length ≤ most &&
    t.all fun c => c.isDigit || ('a' ≤ c && c ≤ 'f') || ('A' ≤ c && c ≤ 'F')

/-- Four numbers with dots between them. -/
def isIpv4 (t : Text) : Bool :=
  let octets := t.splitOn '.'
  octets.length = 4 && octets.all (isNumber 1 3)

/-- Three to eight groups with colons between them. -/
def isIpv6 (t : Text) : Bool :=
  let groups := t.splitOn ':'
  3 ≤ groups.length && groups.length ≤ 8 && groups.all (isHex 0 4)

/-- Six bytes with colons between them. -/
def isMac (t : Text) : Bool :=
  let bytes := t.splitOn ':'
  bytes.length = 6 && bytes.all (isHex 2 2)

/-- `parse_target`, without the subtype that no caller uses. -/
def parseTarget (target : Text) : Option Address :=
  let target := xargs target
  if isIpv4 target then
    if (target.splitOn '.').all (decimal · ≤ 255) then some ⟨.ipv4, target⟩ else none
  else
    match target.splitOn '-', target.splitOn '/' with
    | [first, last], _ =>
      if isIpv4 first && isIpv4 last then some ⟨.ipv4, target⟩ else none
    | _, [ip, mask] =>
      if isIpv4 ip && isNumber 1 2 mask then
        if decimal mask ≤ 32 then some ⟨.ipv4, target⟩ else none
      else if isIpv6 ip && isNumber 1 3 mask then
        if decimal mask ≤ 128 then some ⟨.ipv6, target⟩ else none
      else none
    | _, _ =>
      if isMac target then some ⟨.mac, target.map Char.toLower⟩
      else if isIpv6 target then some ⟨.ipv6, target⟩
      else none

/-- The address of the device with the index, if it has one that is understood. -/
def address (config : Config) (id : ℕ) : Option Address :=
  let target := configTGet config Device.mac id []
  if target = [] then none else parseTarget target

/-! ## The check -/

/-- What a round sees of the clock and the counters. -/
structure Now where
  /-- `date +%H:%M`. -/
  time : Text
  /-- `date +%u`. -/
  weekday : Text
  /-- The used minutes of a target, after the reset that may be due. -/
  usedMinutes : Text → ℕ

/-- `is_time_in_range`. -/
def isTimeInRange (now : Now) (startTime endTime : Text) : Bool :=
  if startTime = endTime then true
  else if startTime < endTime then startTime < now.time && now.time < endTime
  else startTime < now.time || now.time < endTime

/-- `is_weekday_in_range`. -/
def isWeekdayInRange (now : Now) (configured : Text) : Bool :=
  configured = ['0'] ||
    (configured.splitOnP fun c => c = ',' || c = ' ').any fun ww =>
      ww ≠ [] && now.weekday = ww

/-- `[ used -ge duration ]`, which fails where the duration is not a number. -/
def usedUp (now : Now) (target duration : Text) : Bool :=
  isNumber 1 duration.length duration && decimal duration ≤ now.usedMinutes target

/-- `check_device_control`: whether the device may use the network. -/
def checkDeviceControl (now : Now) (config : Config) (id : ℕ) : Bool :=
  let target := configTGet config Device.mac id []
  let timeMode := configTGet config Device.timeMode id "period".toList
  let weekdays := configTGet config Device.week id "0".toList
  let startTime := configTGet config Device.timestart id "00:00".toList
  let endTime := configTGet config Device.timeend id "00:00".toList
  let duration := configTGet config Device.duration id "60".toList
  if !isWeekdayInRange now weekdays then false
  else if timeMode = "period".toList then isTimeInRange now startTime endTime
  else if timeMode = "duration".toList then !usedUp now target duration
  else if timeMode = "combined".toList then
    let useDuration := configTGet config Device.useDuration id "0".toList
    if !isTimeInRange now startTime endTime then false
    else if useDuration = "1".toList then !usedUp now target duration
    else true
  else isTimeInRange now startTime endTime

/-! ## The daemon -/

/-- The firewall sets and the list of the blocked devices. -/
structure State where
  /-- The elements of `blacklist`, `blacklist6` and `blacklist_mac`. -/
  blacklist : List Address
  /-- The lines of `/var/timecontrol.idlist`. -/
  idlist : List ℕ
deriving DecidableEq, Repr

/-- `timecontrol start`: the table is made again and the list removed. -/
def State.start : State := ⟨[], []⟩

/-- `enable='1'` in the section. -/
def isEnabled (config : Config) (id : ℕ) : Bool :=
  (config[id]?.bind Device.enable) = some ['1']

/-- `grep -o '[0-9]'` on an index between brackets: its digits, each on a line of its own. -/
def digitsOf (index : ℕ) : List ℕ := (Nat.toDigits 10 index).map fun c => c.toNat - '0'.toNat

/-- `get_enabled_devices`. -/
def getEnabledDevices (config : Config) : List ℕ :=
  (((List.range config.length).filter (isEnabled config)).flatMap digitsOf).insertionSort (· ≤ ·)

/-- `add_device`. -/
def addDevice (config : Config) (id : ℕ) (blacklist : List Address) : List Address :=
  match address config id with
  | none => blacklist
  | some a => if a ∈ blacklist then blacklist else a :: blacklist

/-- `del_device`. -/
def delDevice (config : Config) (id : ℕ) (blacklist : List Address) : List Address :=
  match address config id with
  | none => blacklist
  | some a => blacklist.filter (· ≠ a)

/-- `update_device_status`. -/
def updateDeviceStatus (config : Config) (s : State) (id : ℕ) (shouldAllow : Bool) : State :=
  let currentBlocked := id ∈ s.idlist
  if shouldAllow then
    if currentBlocked then
      { blacklist := delDevice config id s.blacklist
        idlist := s.idlist.filter (· ≠ id) }
    else s
  else
    if currentBlocked then s
    else
      { blacklist := addDevice config id s.blacklist
        idlist := s.idlist ++ [id] }

/-- One turn of `main_loop`. The test that should stop the daemon when no device is enabled
is no valid expression, so it never does. -/
def round (config : Config) (now : Now) (s : State) : State :=
  (getEnabledDevices config).foldl
    (fun s id => updateDeviceStatus config s id (checkDeviceControl now config id)) s

/-- What happens to the daemon. -/
inductive Event where
  /-- A round under the configuration of its time. -/
  | round (config : Config) (now : Now)
  /-- The service is started again. -/
  | start

def apply (s : State) : Event → State
  | .round config now => round config now s
  | .start => .start

end OpenWrt.Timecontrol
