/-
# The counters agree with the allowed time

A line holds the time before its session and the start of that session, so it agrees with the
allowed time of a device as long as the session began when the device was let in. A reset and a
disconnect write the line so; what could go wrong is only what is read from it.
-/

import OpenWrt.Timecontrol.DurationAccount

namespace OpenWrt.Timecontrol

open Lib

/-- The line stands for the allowed time: that before its session, with that of the session. -/
def Ledger.Agrees (ledger : Ledger) (allowed : Bool) (record : Record) : Prop :=
  record.lastConnect ≤ ledger.mark ∧
    ledger.used =
      record.totalUsed + if allowed then ledger.mark - record.lastConnect else 0

/-- The files of a device agree with its allowed time. -/
structure Balanced (id : ℕ) (target : Text) (tracked : Tracked) : Prop where
  latest : tracked.counted.files.lastReset target = tracked.ledger.resets.head?
  ordered : tracked.ledger.resets.Pairwise (· ≥ ·)
  marked : ∀ last ∈ tracked.ledger.resets, last ≤ tracked.ledger.mark
  unused : tracked.ledger.resets = [] → tracked.counted.files.record target = none
  settled : tracked.ledger.resets ≠ [] → ∃ record,
    tracked.counted.files.record target = some record ∧
      tracked.ledger.Agrees (tracked.counted.isAllowed id) record

theorem Balanced.start {id : ℕ} {target : Text} : Balanced id target .start where
  latest := rfl
  ordered := .nil
  marked := by simp [Tracked.start, Ledger.start]
  unused := fun _ => rfl
  settled := fun h => absurd rfl h

/-! ## The reports -/

namespace Files

variable {files : Files} {target : Text} {record : Record} {time lastReset : ℕ}

theorem getConnectionTime_of_connectInTail (hrecord : files.record target = some record)
    (htail : files.connectInTail target = true) :
    files.getConnectionTime target time =
      record.totalUsed + (time - record.lastConnect) := by
  rw [getConnectionTime, hrecord]
  exact if_pos htail

theorem getConnectionTime_of_start (hrecord : files.record target = some ⟨time, 0, lastReset⟩) :
    files.getConnectionTime target time = 0 := by
  rw [getConnectionTime, hrecord]
  dsimp only
  rw [Nat.sub_self, ite_self]

end Files

namespace Ledger

variable {ledger : Ledger} {allowed : Bool} {record : Record} {time : ℕ}

theorem Agrees.usedAt (h : ledger.Agrees allowed record) (htime : ledger.mark ≤ time) :
    ledger.usedAt allowed time =
      record.totalUsed + if allowed then time - record.lastConnect else 0 := by
  obtain ⟨hmark, hused⟩ := h
  rw [Ledger.usedAt, hused]
  cases allowed with
  | false => rfl
  | true =>
    simp only [if_true]
    omega

theorem resets_ne_nil {calendar : Calendar} {cycle : Cycle} {now : ℕ} (ledger : Ledger)
    (h : ¬ ledger.IsDue calendar cycle now) : ledger.resets ≠ [] := by
  rintro hnil
  refine h fun last hmem => ?_
  rw [hnil] at hmem
  cases hmem

theorem Agrees.later (h : ledger.Agrees allowed record) (htime : ledger.mark ≤ time) :
    Ledger.Agrees ⟨ledger.usedAt allowed time, time, ledger.resets⟩ allowed record :=
  ⟨h.1.trans htime, h.usedAt htime⟩

/-- The line that a disconnect writes agrees with the device in either state, where the time since
the connect is allowed or nothing. -/
theorem Agrees.disconnect (h : ledger.Agrees allowed record)
    (hsession : allowed = true ∨ record.lastConnect = time) (htime : ledger.mark ≤ time)
    (allowed' : Bool) (lastReset : ℕ) :
    Ledger.Agrees ⟨ledger.usedAt allowed time, time, ledger.resets⟩ allowed'
      ⟨time, record.totalUsed + (time - record.lastConnect), lastReset⟩ := by
  have hcounted : ledger.usedAt allowed time =
      record.totalUsed + (time - record.lastConnect) := by
    rw [h.usedAt htime]
    rcases hsession with hallowed | hconnect
    · rw [if_pos hallowed]
    · rw [hconnect, Nat.sub_self, ite_self]
  refine ⟨le_rfl, ?_⟩
  rw [hcounted, Nat.sub_self, ite_self, Nat.add_zero]

end Ledger

section Step

variable {calendar : Calendar} {id : ℕ} {target : Text} {tracked : Tracked} {check : Check}

/-- The last reset tells whether one is due, since the periods come in their order. -/
theorem Balanced.shouldResetDuration_iff (h : Balanced id target tracked) {cycle : Cycle}
    {now : ℕ} (hclock : tracked.ledger.mark ≤ now) :
    tracked.counted.files.shouldResetDuration target calendar cycle now = true ↔
      tracked.ledger.IsDue calendar cycle now := by
  rw [Files.shouldResetDuration, h.latest]
  have hordered := h.ordered
  have hmarked := h.marked
  unfold Ledger.IsDue
  cases hresets : tracked.ledger.resets with
  | nil => simp
  | cons last earlier =>
    rw [hresets] at hordered hmarked
    rw [List.head?_cons, decide_eq_true_eq, List.forall_mem_cons]
    refine ⟨fun hne => ⟨hne, fun other hother heq => hne ?_⟩, And.left⟩
    have hother_le : other ≤ last := (List.pairwise_cons.mp hordered).1 other hother
    have hlast_le : last ≤ now := (hmarked last List.mem_cons_self).trans hclock
    -- the key of the last reset lies between that of the other and that of the present
    exact le_antisymm (calendar.mono cycle hlast_le)
      (heq ▸ calendar.mono cycle hother_le)

/-- When the used time is reported, the files agree with the allowed time of the period. -/
theorem Balanced.report (h : Balanced id target tracked) (hslash : '/' ∉ target)
    (htarget : check.target = target) (hclock : tracked.ledger.mark ≤ check.readings.now) :
    Balanced id target ⟨⟨tracked.counted.state, tracked.counted.reportFiles calendar check⟩,
      tracked.ledger.report calendar check⟩ := by
  have hdue : tracked.counted.files.shouldResetDuration target calendar check.cycle
      check.readings.now = true ↔ tracked.ledger.IsDue calendar check.cycle check.readings.now :=
    h.shouldResetDuration_iff hclock
  unfold Counted.reportFiles Ledger.report
  rw [htarget]
  by_cases hreach : check.reachesDuration = true
  · by_cases hreset : tracked.ledger.IsDue calendar check.cycle check.readings.now
    · -- the line and the allowed time start again
      obtain ⟨hrecord, hlast⟩ := Files.checkDuration_of_due hslash (hdue.mpr hreset)
      rw [if_pos hreach, if_pos ⟨hreach, hreset⟩]
      constructor
      case latest => exact hlast
      case ordered =>
        refine List.pairwise_cons.mpr ⟨fun last hmem => ?_, h.ordered⟩
        exact ((h.marked last hmem).trans hclock).trans check.readings.now_le
      case marked =>
        refine List.forall_mem_cons.mpr ⟨le_rfl, fun last hmem => ?_⟩
        exact ((h.marked last hmem).trans hclock).trans check.readings.now_le
      case unused => exact fun hnil => absurd hnil (List.cons_ne_nil _ _)
      case settled =>
        refine fun _ => ⟨_, hrecord, le_rfl, ?_⟩
        rw [Nat.sub_self, ite_self]
    · -- there was a reset, so the device has its line
      have hsome := tracked.ledger.resets_ne_nil hreset
      obtain ⟨record, hrecord, hagrees⟩ := h.settled hsome
      obtain ⟨hkept, hlast⟩ := Files.checkDuration_of_not_due hrecord (mt hdue.mp hreset)
      rw [if_pos hreach, if_neg fun hboth => hreset hboth.2]
      exact ⟨hlast.trans h.latest, h.ordered, h.marked, fun hnil => absurd hnil hsome,
        fun _ => ⟨record, hkept, hagrees⟩⟩
  · rw [if_neg hreach, if_neg fun hboth => hreach hboth.1]
    exact h

theorem Ledger.report_mark_le {ledger : Ledger} (hclock : ledger.mark ≤ check.readings.now) :
    (ledger.report calendar check).mark ≤ check.readings.report := by
  have hreset : check.readings.reset ≤ check.readings.report :=
    check.readings.reset_le.trans check.readings.connect_le
  unfold Ledger.report
  split
  · exact hreset
  · exact (hclock.trans check.readings.now_le).trans hreset

/-- What is reported is the allowed time of the period. -/
theorem Balanced.countsRight (h : Balanced id target tracked) (hrun : IsRun id target tracked check)
    (hcount : Countable calendar id target tracked check) (hid : check.id = id)
    (hreach : check.reachesDuration = true) : tracked.CountsRight calendar id check := by
  have htarget : check.target = target := hrun.target.mpr hid
  have hclock := hrun.clock hid
  have hdue : tracked.counted.files.shouldResetDuration target calendar check.cycle
      check.readings.now = true ↔ tracked.ledger.IsDue calendar check.cycle check.readings.now :=
    h.shouldResetDuration_iff hclock
  have htail : tracked.counted.files.lastAction target ≠ some .connect ∨
      tracked.counted.files.connectInTail target = true →
      (tracked.counted.files.checkDuration target calendar check.cycle
        check.readings).connectInTail target = true :=
    Files.connectInTail_checkDuration
  constructor
  · rw [htarget]
    exact hdue
  rw [Counted.reported, Counted.reportFiles, if_pos hreach, htarget]
  by_cases hreset : tracked.ledger.IsDue calendar check.cycle check.readings.now
  · -- the session begins with the reset
    have hrecord := (Files.checkDuration_of_due hcount.noSlash (hdue.mpr hreset)).1
    have hledger : tracked.ledger.report calendar check =
        ⟨0, check.readings.reset, check.readings.reset :: tracked.ledger.resets⟩ :=
      if_pos ⟨hreach, hreset⟩
    rw [hledger, Ledger.usedAt]
    dsimp only
    have hnothing : check.readings.report = check.readings.reset →
        (tracked.counted.files.checkDuration target calendar check.cycle
          check.readings).getConnectionTime target check.readings.report =
          0 + if tracked.counted.isAllowed id then
            check.readings.report - check.readings.reset else 0 := by
      intro heq
      rw [heq, Files.getConnectionTime_of_start hrecord, Nat.sub_self, ite_self]
    cases hallowed : tracked.counted.isAllowed id with
    | false =>
      rw [hallowed] at hnothing
      obtain ⟨-, hupdate⟩ := hcount.blocked hid hreach hallowed
      have hreport : check.readings.report ≤ check.readings.reset :=
        check.readings.report_le.trans_eq hupdate
      exact hnothing (le_antisymm hreport
        (check.readings.reset_le.trans check.readings.connect_le))
    | true =>
      rw [hallowed] at hnothing
      rcases hcount.connected hid hreach with hlast | hin | ⟨-, heq⟩
      · exact Files.getConnectionTime_of_connectInTail hrecord (htail (.inl hlast))
      · exact Files.getConnectionTime_of_connectInTail hrecord (htail (.inr hin))
      · exact hnothing heq
  · -- the session goes on
    have hallowed : tracked.counted.isAllowed id = true := by
      by_contra hblocked
      exact hreset (hcount.blocked hid hreach (Bool.not_eq_true _ ▸ hblocked)).1
    have hin : (tracked.counted.files.checkDuration target calendar check.cycle
        check.readings).connectInTail target = true := by
      rcases hcount.connected hid hreach with hlast | hin | ⟨hdue', -⟩
      · exact htail (.inl hlast)
      · exact htail (.inr hin)
      · exact absurd hdue' hreset
    obtain ⟨record, hrecord, hagrees⟩ := h.settled (tracked.ledger.resets_ne_nil hreset)
    have hkept := (Files.checkDuration_of_not_due hrecord (mt hdue.mp hreset)).1
    have hledger : tracked.ledger.report calendar check = tracked.ledger :=
      if_neg fun hboth => hreset hboth.2
    have hmark : tracked.ledger.mark ≤ check.readings.report := by
      rw [← hledger]
      exact Ledger.report_mark_le hclock
    rw [Files.getConnectionTime_of_connectInTail hkept hin, hledger, hagrees.usedAt hmark,
      if_pos hallowed]

/-! ## The steps -/

theorem Check.IsLimited.reachesDuration (h : check.IsLimited)
    (hallows : tracked.counted.allows calendar check = true) : check.reachesDuration = true := by
  unfold Counted.allows checkDeviceControl at hallows
  unfold Check.reachesDuration
  dsimp only at hallows ⊢
  have hweek : isWeekdayInRange (check.seen (tracked.counted.reported calendar check))
      (configTGet check.config Device.week check.id "0".toList) =
      isWeekdayInRange (check.seen 0)
        (configTGet check.config Device.week check.id "0".toList) := rfl
  have hrange : isTimeInRange (check.seen (tracked.counted.reported calendar check))
      (configTGet check.config Device.timestart check.id "00:00".toList)
      (configTGet check.config Device.timeend check.id "00:00".toList) =
      isTimeInRange (check.seen 0)
        (configTGet check.config Device.timestart check.id "00:00".toList)
        (configTGet check.config Device.timeend check.id "00:00".toList) := rfl
  rw [hweek, hrange] at hallows
  have hmodes : "duration".toList ≠ "period".toList ∧ "combined".toList ≠ "period".toList ∧
      "combined".toList ≠ "duration".toList := by decide
  rcases h with hmode | ⟨hmode, huse⟩
  · simp only [hmode, hmodes.1, if_false] at hallows ⊢
    split at hallows
    · cases hallows
    · simp_all
  · simp only [hmode, huse, hmodes.2.1, hmodes.2.2, if_false, if_true] at hallows ⊢
    split at hallows
    · cases hallows
    · split at hallows
      · cases hallows
      · simp_all

theorem isAllowed_step {counted : Counted} :
    (counted.step calendar check).isAllowed check.id = counted.allows calendar check := by
  have hturn := @mem_idlist_turn check.config (check.seen (counted.reported calendar check))
    counted.state check.id check.id
  rw [if_pos rfl, MustBlock] at hturn
  unfold Counted.isAllowed
  rw [← Bool.coe_iff_coe, decide_eq_true_eq]
  exact (not_congr hturn).trans (Bool.not_eq_false _).to_iff

theorem isAllowed_step_of_ne {counted : Counted} (hne : check.id ≠ id) :
    (counted.step calendar check).isAllowed id = counted.isAllowed id := by
  have hturn := @mem_idlist_turn check.config (check.seen (counted.reported calendar check))
    counted.state check.id id
  rw [if_neg hne.symm] at hturn
  exact decide_eq_decide.mpr (not_congr hturn)

/-- The status of a device changes with a disconnect. -/
theorem Balanced.update (h : Balanced id target tracked) (hslash : '/' ∉ target) {time : ℕ}
    (htime : tracked.ledger.mark ≤ time) {state : State} {allowed : Bool}
    (hallowed : decide (id ∉ state.idlist) = allowed)
    (hfresh : tracked.counted.isAllowed id = false → allowed = true → ∀ record,
      tracked.counted.files.record target = some record → record.lastConnect = time) :
    Balanced id target
      ⟨⟨state, if tracked.counted.isAllowed id = allowed then tracked.counted.files
          else tracked.counted.files.recordConnectionTime target .disconnect time⟩,
        ⟨tracked.ledger.usedAt (tracked.counted.isAllowed id) time, time,
          tracked.ledger.resets⟩⟩ := by
  have hmarked : ∀ last ∈ tracked.ledger.resets, last ≤ time :=
    fun last hmem => (h.marked last hmem).trans htime
  have hstate : Counted.isAllowed ⟨state, tracked.counted.files⟩ id = allowed := hallowed
  by_cases hsame : tracked.counted.isAllowed id = allowed
  · rw [if_pos hsame]
    refine ⟨h.latest, h.ordered, hmarked, h.unused, fun hsome => ?_⟩
    obtain ⟨record, hrecord, hagrees⟩ := h.settled hsome
    refine ⟨record, hrecord, ?_⟩
    rw [hstate, ← hsame]
    exact hagrees.later htime
  · rw [if_neg hsame]
    refine ⟨?_, h.ordered, hmarked, fun hnil => Files.record_disconnect_of_none (h.unused hnil),
      fun hsome => ?_⟩
    · dsimp only
      rw [Files.lastReset_recordConnectionTime]
      exact h.latest
    · obtain ⟨record, hrecord, hagrees⟩ := h.settled hsome
      refine ⟨_, Files.record_disconnect hslash hrecord, ?_⟩
      refine hagrees.disconnect ?_ htime _ _
      -- the device was allowed until now, or its line was just written
      cases hbefore : tracked.counted.isAllowed id with
      | true => exact .inl rfl
      | false =>
        rw [hbefore] at hsame
        exact .inr (hfresh hbefore (by simpa using Ne.symm hsame) record hrecord)

/-- A check of the device keeps the files right. -/
theorem Balanced.step (h : Balanced id target tracked) (hrun : IsRun id target tracked check)
    (hcount : Countable calendar id target tracked check) (hid : check.id = id) :
    Balanced id target (tracked.apply calendar id check) := by
  have htarget : check.target = target := hrun.target.mpr hid
  have hclock := hrun.clock hid
  have hreport : Balanced id target
      ⟨⟨tracked.counted.state, tracked.counted.reportFiles calendar check⟩,
        tracked.ledger.report calendar check⟩ := h.report hcount.noSlash htarget hclock
  have hmark : (tracked.ledger.report calendar check).mark ≤ check.readings.update :=
    (Ledger.report_mark_le hclock).trans check.readings.report_le
  have hallowed : (tracked.counted.step calendar check).isAllowed id =
      tracked.counted.allows calendar check := by
    rw [← hid]
    exact isAllowed_step
  have hfresh : tracked.counted.isAllowed id = false →
      tracked.counted.allows calendar check = true → ∀ record,
      (tracked.counted.reportFiles calendar check).record target = some record →
        record.lastConnect = check.readings.update := by
    intro hblocked hallows record hrecord
    -- a blocked device is let in by a check with a reset
    have hreach := (hrun.limited hid).reachesDuration hallows
    obtain ⟨hreset, heq⟩ := hcount.blocked hid hreach hblocked
    have hdue := (h.shouldResetDuration_iff hclock).mpr hreset
    have hstart := (Files.checkDuration_of_due hcount.noSlash hdue).1
    rw [Counted.reportFiles, if_pos hreach, htarget, hstart, Option.some.injEq] at hrecord
    rw [← hrecord]
    exact heq.symm
  have hupdate := hreport.update hcount.noSlash hmark hallowed hfresh
  unfold Tracked.apply Counted.step Ledger.step
  rw [if_pos hid, hid, htarget]
  unfold Counted.step at hupdate
  rw [hid] at hupdate
  exact hupdate

/-- Those of other devices do not touch them. -/
theorem Balanced.step_of_ne (h : Balanced id target tracked)
    (hrun : IsRun id target tracked check) (hid : check.id ≠ id) :
    Balanced id target (tracked.apply calendar id check) := by
  have htarget : target ≠ check.target := fun heq => hid (hrun.target.mp heq.symm)
  have hreport : (tracked.counted.reportFiles calendar check).record target =
        tracked.counted.files.record target ∧
      (tracked.counted.reportFiles calendar check).lastReset target =
        tracked.counted.files.lastReset target := by
    unfold Counted.reportFiles
    split
    · exact Files.record_checkDuration_of_ne htarget
    · exact ⟨rfl, rfl⟩
  have hfiles : (tracked.counted.step calendar check).files.record target =
        tracked.counted.files.record target ∧
      (tracked.counted.step calendar check).files.lastReset target =
        tracked.counted.files.lastReset target := by
    unfold Counted.step
    dsimp only
    split
    · exact hreport
    · rw [Files.record_recordConnectionTime_of_ne htarget, Files.lastReset_recordConnectionTime]
      exact hreport
  have hallowed : (tracked.counted.step calendar check).isAllowed id =
      tracked.counted.isAllowed id := isAllowed_step_of_ne hid
  unfold Tracked.apply
  rw [if_neg hid]
  constructor
  case latest => exact hfiles.2.trans h.latest
  case ordered => exact h.ordered
  case marked => exact h.marked
  case unused => exact fun hnil => hfiles.1.trans (h.unused hnil)
  case settled =>
    intro hsome
    obtain ⟨record, hrecord, hagrees⟩ := h.settled hsome
    refine ⟨record, hfiles.1.trans hrecord, ?_⟩
    dsimp only
    rw [hallowed]
    exact hagrees

theorem Balanced.apply (h : Balanced id target tracked) (hrun : IsRun id target tracked check)
    (hcount : Countable calendar id target tracked check) :
    Balanced id target (tracked.apply calendar id check) := by
  by_cases hid : check.id = id
  · exact h.step hrun hcount hid
  · exact h.step_of_ne hrun hid

end Step

/-! ## Runs -/

/-- In a run whose checks meet the condition, the used time that is reported is the allowed time of
the period, and there is one reset in each. -/
theorem countsAlong_of_countable {calendar : Calendar} {id : ℕ} {target : Text}
    {checks : List Check}
    (h : Along (Tracked.apply calendar id)
      (fun tracked check => IsRun id target tracked check ∧
        Countable calendar id target tracked check) checks .start) :
    CountsAlong calendar id checks := by
  intro n check hcheck hid hreach
  have hbalanced := invariant_take_of_along
    (fun _ _ _ hbalanced ⟨hrun, hcount⟩ => Balanced.apply hbalanced hrun hcount) h .start n
  obtain ⟨hrun, hcount⟩ := h.getElem? hcheck
  exact hbalanced.countsRight hrun hcount hid hreach

/-- The days in seconds, and weeks and months of one day. -/
def dayCalendar : Calendar where
  key cycle time := if cycle = .other then 0 else time / 86400
  mono := by
    intro cycle time time' hle
    dsimp only
    split
    · exact le_rfl
    · exact Nat.div_le_div_right hle
  other := fun _ _ => rfl

/-- A device with an address that may use the network for some minutes of a day. -/
def limitedDevice (mac duration : String) : Device where
  enable := some ['1']
  mac := some mac.toList
  timeMode := some "duration".toList
  week := none
  timestart := none
  timeend := none
  duration := some duration.toList
  useDuration := none

/-- A check of one of two devices, of ten minutes and of one, within a second. -/
def checkAt (id time : ℕ) : Check where
  config := [limitedDevice "192.168.1.2" "10", limitedDevice "192.168.1.3" "1"]
  id := id
  time := "12:00".toList
  weekday := "1".toList
  cycle := .daily
  readings := ⟨time, time, time, time, time, le_rfl, le_rfl, le_rfl, le_rfl⟩

/-- Ten minutes are counted beside the checks of another device, and from the start on the next
day. -/
theorem countsAlong_of_day :
    CountsAlong dayCalendar 0
      [checkAt 0 0, checkAt 1 0, checkAt 0 540, checkAt 0 600, checkAt 0 86400] := by
  have h : Along (Tracked.apply dayCalendar 0)
      (fun tracked check => IsRun 0 "192.168.1.2".toList tracked check ∧
        Countable dayCalendar 0 "192.168.1.2".toList tracked check)
      [checkAt 0 0, checkAt 1 0, checkAt 0 540, checkAt 0 600, checkAt 0 86400] .start :=
    ⟨by decide +kernel, by decide +kernel, by decide +kernel, by decide +kernel,
      by decide +kernel, trivial⟩
  exact countsAlong_of_countable h

/-- A device that is blocked after its minute is reported to have used the time since as well. -/
theorem not_countsAlong_of_blocked :
    Along (Tracked.apply dayCalendar 1) (IsRun 1 "192.168.1.3".toList)
        [checkAt 1 0, checkAt 1 60, checkAt 1 120] .start ∧
      ¬ CountsAlong dayCalendar 1 [checkAt 1 0, checkAt 1 60, checkAt 1 120] := by
  constructor
  · exact ⟨by decide +kernel, by decide +kernel, by decide +kernel, trivial⟩
  · intro h
    have hused := (h 2 (checkAt 1 120) rfl rfl (by decide +kernel)).used
    revert hused
    decide +kernel

end OpenWrt.Timecontrol
