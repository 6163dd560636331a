/-
# The used time of a device

The time that is used should be the time of the current period in which the device was allowed. It
is kept beside the counters here, and compared at each check: the two agree as long as a blocked
device is only checked when its counter is reset, and the connect of an allowed one is still at the
end of the log.
-/

import OpenWrt.Timecontrol.Duration
import OpenWrt.Timecontrol.Enforced

namespace OpenWrt.Timecontrol

open Lib

/-! ## The allowed time -/

/-- The allowed time of a device: that of the period up to a time, and the times at which the
counter was reset, the latest first. -/
structure Ledger where
  used : ℕ
  mark : ℕ
  resets : List ℕ

namespace Ledger

variable (calendar : Calendar) (ledger : Ledger) (check : Check)

/-- Before the first check. -/
def start : Ledger := ⟨0, 0, []⟩

def usedAt (allowed : Bool) (time : ℕ) : ℕ :=
  ledger.used + if allowed then time - ledger.mark else 0

/-- There was no reset in the period of the time. -/
def IsDue (cycle : Cycle) (now : ℕ) : Prop :=
  ∀ last ∈ ledger.resets, calendar.key cycle last ≠ calendar.key cycle now

instance (cycle : Cycle) (now : ℕ) : Decidable (ledger.IsDue calendar cycle now) :=
  inferInstanceAs (Decidable (∀ _ ∈ _, _))

/-- A new period begins with its reset. -/
def report : Ledger :=
  if check.reachesDuration ∧ ledger.IsDue calendar check.cycle check.readings.now then
    ⟨0, check.readings.reset, check.readings.reset :: ledger.resets⟩
  else ledger

/-- The allowed time up to the end of a check of the device. -/
def step (allowed : Bool) : Ledger :=
  let ledger := ledger.report calendar check
  { ledger with used := ledger.usedAt allowed check.readings.update, mark := check.readings.update }

end Ledger

/-- The daemon, with the allowed time of one device. -/
structure Tracked where
  counted : Counted
  ledger : Ledger

namespace Tracked

variable (calendar : Calendar) (id : ℕ) (target : Text) (tracked : Tracked) (check : Check)

def start : Tracked := ⟨.start, .start⟩

/-- A check; those of other devices leave the allowed time of this one to go on. -/
def apply : Tracked where
  counted := tracked.counted.step calendar check
  ledger :=
    if check.id = id then tracked.ledger.step calendar check (tracked.counted.isAllowed id)
    else tracked.ledger

/-- The counter is reset when there was none in the period, and what is reported is the allowed
time of the period. -/
structure CountsRight : Prop where
  resets : tracked.counted.files.shouldResetDuration check.target calendar check.cycle
      check.readings.now = true ↔
    tracked.ledger.IsDue calendar check.cycle check.readings.now
  used : tracked.counted.reported calendar check =
    (tracked.ledger.report calendar check).usedAt (tracked.counted.isAllowed id)
      check.readings.report

end Tracked

/-- At each check of the duration of the device in the run the counters are right. -/
def CountsAlong (calendar : Calendar) (id : ℕ) (checks : List Check) : Prop :=
  ∀ n, ∀ check ∈ checks[n]?, check.id = id → check.reachesDuration = true →
    ((checks.take n).foldl (Tracked.apply calendar id) .start).CountsRight calendar id check

/-- The device is limited by its duration: in the mode `duration`, or in the mode `combined` with
`use_duration`. -/
def Check.IsLimited (check : Check) : Prop :=
  configTGet check.config Device.timeMode check.id "period".toList = "duration".toList ∨
    (configTGet check.config Device.timeMode check.id "period".toList = "combined".toList ∧
      configTGet check.config Device.useDuration check.id "0".toList = "1".toList)

/-- The check is one of a run: the clock does not go back, the device keeps its address, which no
other one has, and it is limited by its duration. -/
structure IsRun (id : ℕ) (target : Text) (tracked : Tracked) (check : Check) : Prop where
  clock : check.id = id → tracked.ledger.mark ≤ check.readings.now
  target : check.target = target ↔ check.id = id
  limited : check.id = id → check.IsLimited

/-- The check counts right: a blocked device is only checked for its duration when a reset is due,
and within one second; and the connect of an allowed one is at the end of the log, or it is recorded
in this check, or nothing has passed since the reset. -/
structure Countable (calendar : Calendar) (id : ℕ) (target : Text) (tracked : Tracked)
    (check : Check) : Prop where
  noSlash : '/' ∉ target
  blocked : check.id = id → check.reachesDuration = true →
    tracked.counted.isAllowed id = false →
      tracked.ledger.IsDue calendar check.cycle check.readings.now ∧
        check.readings.update = check.readings.reset
  connected : check.id = id → check.reachesDuration = true →
    tracked.counted.files.lastAction target ≠ some .connect ∨
      tracked.counted.files.connectInTail target = true ∨
      (tracked.ledger.IsDue calendar check.cycle check.readings.now ∧
        check.readings.report = check.readings.reset)

instance (check : Check) : Decidable check.IsLimited :=
  inferInstanceAs (Decidable (_ ∨ _))

instance (id : ℕ) (target : Text) (tracked : Tracked) (check : Check) :
    Decidable (IsRun id target tracked check) :=
  decidable_of_iff
    ((check.id = id → tracked.ledger.mark ≤ check.readings.now) ∧
      (check.target = target ↔ check.id = id) ∧ (check.id = id → check.IsLimited))
    ⟨fun ⟨hclock, htarget, hlimited⟩ => ⟨hclock, htarget, hlimited⟩,
      fun h => ⟨h.clock, h.target, h.limited⟩⟩

instance (calendar : Calendar) (id : ℕ) (target : Text) (tracked : Tracked) (check : Check) :
    Decidable (Countable calendar id target tracked check) :=
  decidable_of_iff
    ('/' ∉ target ∧
      (check.id = id → check.reachesDuration = true →
        tracked.counted.isAllowed id = false →
          tracked.ledger.IsDue calendar check.cycle check.readings.now ∧
            check.readings.update = check.readings.reset) ∧
      (check.id = id → check.reachesDuration = true →
        tracked.counted.files.lastAction target ≠ some .connect ∨
          tracked.counted.files.connectInTail target = true ∨
          (tracked.ledger.IsDue calendar check.cycle check.readings.now ∧
            check.readings.report = check.readings.reset)))
    ⟨fun ⟨hslash, hblocked, hconnected⟩ => ⟨hslash, hblocked, hconnected⟩,
      fun h => ⟨h.noSlash, h.blocked, h.connected⟩⟩

/-! ## The files -/

namespace Files

variable {files : Files} {target other : Text} {record : Record} {action : Action} {time : ℕ}

theorem find?_deleteLine_append (hslash : '/' ∉ target) :
    ((files.deleteLine target ++ [(target, record)]).find? fun line => line.1 = target) =
      some (target, record) := by
  have hnone : (files.deleteLine target).find? (fun line => line.1 = target) = none := by
    rw [deleteLine, if_neg hslash]
    exact List.find?_eq_none.mpr fun line hline => by simpa using (List.mem_filter.mp hline).2
  rw [List.find?_append, hnone]
  simp

theorem find?_deleteLine_append_of_ne (hne : other ≠ target) :
    ((files.deleteLine target ++ [(target, record)]).find? fun line => line.1 = other) =
      files.db.find? fun line => line.1 = other := by
  have hlast : ([(target, record)] : List (Text × Record)).find? (fun line => line.1 = other) =
      none := by simp [hne.symm]
  rw [List.find?_append, hlast, Option.or_none, deleteLine]
  by_cases hslash : '/' ∈ target
  · rw [if_pos hslash]
  · rw [if_neg hslash, List.find?_filter]
    congr 1
    funext line
    by_cases hline : line.1 = other
    · simp [hline, hne]
    · simp [hline]

theorem record_resetDurationCounter (hslash : '/' ∉ target) :
    (files.resetDurationCounter target time).record target = some ⟨time, 0, time⟩ := by
  rw [Files.record, resetDurationCounter, find?_deleteLine_append hslash]
  rfl

theorem record_resetDurationCounter_of_ne (hne : other ≠ target) :
    (files.resetDurationCounter target time).record other = files.record other := by
  rw [Files.record, resetDurationCounter, find?_deleteLine_append_of_ne hne]
  rfl

theorem lastReset_resetDurationCounter_of_ne (hne : other ≠ target) :
    (files.resetDurationCounter target time).lastReset other = files.lastReset other :=
  if_neg hne

theorem record_disconnect (hslash : '/' ∉ target) (hrecord : files.record target = some record) :
    (files.recordConnectionTime target .disconnect time).record target =
      some ⟨time, record.totalUsed + (time - record.lastConnect), record.lastReset⟩ := by
  unfold recordConnectionTime
  rw [hrecord]
  dsimp only
  rw [Files.record, find?_deleteLine_append hslash]
  rfl

theorem record_disconnect_of_none (hrecord : files.record target = none) :
    (files.recordConnectionTime target .disconnect time).record target = none := by
  unfold recordConnectionTime
  rw [hrecord]
  exact hrecord

theorem record_connect (hrecord : files.record target = some record) :
    (files.recordConnectionTime target .connect time).record target = some record := by
  unfold recordConnectionTime
  rw [hrecord]
  exact hrecord

theorem record_recordConnectionTime_of_ne (hne : other ≠ target) :
    (files.recordConnectionTime target action time).record other = files.record other := by
  unfold recordConnectionTime
  cases action with
  | connect =>
    cases hrecord : files.record target with
    | none =>
      have hlast : ([(target, ⟨time, 0, 0⟩)] : List (Text × Record)).find?
          (fun line => line.1 = other) = none := by simp [hne.symm]
      dsimp only
      rw [Files.record, List.find?_append, hlast, Option.or_none]
      rfl
    | some found => rfl
  | disconnect =>
    cases hrecord : files.record target with
    | none => rfl
    | some found =>
      dsimp only
      rw [Files.record, find?_deleteLine_append_of_ne hne]
      rfl

@[simp]
theorem lastReset_recordConnectionTime :
    (files.recordConnectionTime target action time).lastReset = files.lastReset := by
  unfold recordConnectionTime
  cases action <;> cases files.record target <;> rfl

@[simp]
theorem log_recordConnectionTime :
    (files.recordConnectionTime target action time).log = files.log ++ [(target, action)] := by
  unfold recordConnectionTime
  cases action <;> cases files.record target <;> rfl

theorem connectInTail_connect :
    (files.recordConnectionTime target .connect time).connectInTail target = true := by
  unfold connectInTail
  rw [log_recordConnectionTime, decide_eq_true_eq, List.length_append,
    List.drop_append_of_le_length (by simp)]
  exact List.mem_append_right _ (List.mem_singleton_self _)

section Check

variable {calendar : Calendar} {cycle : Cycle} {readings : Readings}

theorem record_checkDuration_of_ne (hne : other ≠ target) :
    (files.checkDuration target calendar cycle readings).record other = files.record other ∧
      (files.checkDuration target calendar cycle readings).lastReset other =
        files.lastReset other := by
  unfold checkDuration
  dsimp only
  split <;> split <;>
    simp [record_recordConnectionTime_of_ne hne, record_resetDurationCounter_of_ne hne,
      lastReset_resetDurationCounter_of_ne hne]

/-- A check with a reset starts the counter again. -/
theorem checkDuration_of_due (hslash : '/' ∉ target)
    (hdue : files.shouldResetDuration target calendar cycle readings.now = true) :
    (files.checkDuration target calendar cycle readings).record target =
        some ⟨readings.reset, 0, readings.reset⟩ ∧
      (files.checkDuration target calendar cycle readings).lastReset target =
        some readings.reset := by
  unfold checkDuration
  rw [if_pos hdue]
  have hreset : (files.resetDurationCounter target readings.reset).lastReset target =
      some readings.reset := if_pos rfl
  dsimp only
  split
  · exact ⟨record_connect (record_resetDurationCounter hslash),
      by rw [lastReset_recordConnectionTime, hreset]⟩
  · exact ⟨record_resetDurationCounter hslash, hreset⟩

/-- A check without one leaves it. -/
theorem checkDuration_of_not_due (hrecord : files.record target = some record)
    (hdue : ¬ files.shouldResetDuration target calendar cycle readings.now = true) :
    (files.checkDuration target calendar cycle readings).record target = some record ∧
      (files.checkDuration target calendar cycle readings).lastReset target =
        files.lastReset target := by
  unfold checkDuration
  rw [if_neg hdue]
  dsimp only
  split
  · exact ⟨record_connect hrecord, by rw [lastReset_recordConnectionTime]⟩
  · exact ⟨hrecord, rfl⟩

/-- After a check the connect is at the end of the log if it was there or was recorded. -/
theorem connectInTail_checkDuration
    (h : files.lastAction target ≠ some .connect ∨ files.connectInTail target = true) :
    (files.checkDuration target calendar cycle readings).connectInTail target = true := by
  unfold checkDuration
  dsimp only
  split
  case isTrue hdue =>
    split
    case isTrue => exact connectInTail_connect
    case isFalse hlast => exact h.resolve_left hlast
  case isFalse hdue =>
    split
    case isTrue => exact connectInTail_connect
    case isFalse hlast => exact h.resolve_left hlast

end Check

end Files

end OpenWrt.Timecontrol
