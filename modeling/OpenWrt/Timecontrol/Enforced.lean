/-
# Enforcement of the time control

A round takes the enabled devices in the order of their indices, as long as these have one
digit. What it does to one address is decided by the last device of this address that
changes its state, so the sets are right after a round unless they were wrong for the
configuration before it, or a device that is let in takes the address away from another
that is blocked.
-/

import Mathlib.Data.List.Induction
import Mathlib.Tactic.IntervalCases
import OpenWrt.Lib.Run
import OpenWrt.Timecontrol.Control

namespace OpenWrt.Timecontrol

open OpenWrt.Lib

def MustBlock (config : Config) (now : Now) (id : ℕ) : Prop :=
  checkDeviceControl now config id = false

/-- An address is in the sets exactly when some enabled device has it and is to be blocked. -/
def Enforced (config : Config) (now : Now) (s : State) : Prop :=
  ∀ a, a ∈ s.blacklist ↔
    ∃ id, isEnabled config id = true ∧ address config id = some a ∧ MustBlock config now id

/-- The sets are right after a round. -/
def Event.EnforcedAfter (event : Event) (s : State) : Prop :=
  match event with
  | .round config now => Enforced config now (apply s event)
  | .start => True

/-- Device `j` comes off the list in the round and takes its address with it, though device `i`
has the address too and is to be blocked: it was before, or its turn is over. -/
structure Clash (config : Config) (now : Now) (s : State) (i j : ℕ) : Prop where
  blocked : isEnabled config i = true ∧ MustBlock config now i
  released : isEnabled config j = true ∧ ¬ MustBlock config now j ∧ j ∈ s.idlist
  same : address config i ≠ none ∧ address config j = address config i
  late : i ∈ s.idlist ∨ i ≤ j

/-- The state before a round agrees with the configuration of the round. -/
structure Steady (config : Config) (now : Now) (s : State) : Prop where
  /-- The indices of the enabled devices have one digit. -/
  oneDigit : ∀ id, isEnabled config id = true → id < 10
  /-- An enabled device on the list has its address in the sets. -/
  listed : ∀ id ∈ s.idlist, isEnabled config id = true →
    ∀ a, address config id = some a → a ∈ s.blacklist
  /-- An address in the sets is the one of an enabled device on the list. -/
  current : ∀ a ∈ s.blacklist, ∃ id ∈ s.idlist,
    isEnabled config id = true ∧ address config id = some a
  /-- No device takes away the address of another. -/
  shared : ∀ i j, ¬ Clash config now s i j

theorem lt_length_of_isEnabled {config : Config} {id : ℕ} (h : isEnabled config id = true) :
    id < config.length := by
  by_contra hge
  rw [isEnabled, List.getElem?_eq_none (by omega)] at h
  cases h

instance (config : Config) (now : Now) (id : ℕ) : Decidable (MustBlock config now id) := by
  unfold MustBlock
  infer_instance

instance (config : Config) (now : Now) (s : State) (i j : ℕ) :
    Decidable (Clash config now s i j) :=
  decidable_of_iff
    ((isEnabled config i = true ∧ MustBlock config now i) ∧
      (isEnabled config j = true ∧ ¬ MustBlock config now j ∧ j ∈ s.idlist) ∧
      (address config i ≠ none ∧ address config j = address config i) ∧
      (i ∈ s.idlist ∨ i ≤ j))
    ⟨fun ⟨hblocked, hreleased, hsame, hlate⟩ => ⟨hblocked, hreleased, hsame, hlate⟩,
      fun h => ⟨h.blocked, h.released, h.same, h.late⟩⟩

instance (config : Config) (now : Now) (s : State) : Decidable (Steady config now s) :=
  decidable_of_iff
    ((∀ id < config.length, isEnabled config id = true → id < 10) ∧
      (∀ id ∈ s.idlist, isEnabled config id = true →
        ∀ a ∈ address config id, a ∈ s.blacklist) ∧
      (∀ a ∈ s.blacklist, ∃ id ∈ s.idlist,
        isEnabled config id = true ∧ address config id = some a) ∧
      ∀ i < config.length, ∀ j < config.length, ¬ Clash config now s i j)
    ⟨fun ⟨hdigit, hlisted, hcurrent, hshared⟩ =>
      ⟨fun id hid => hdigit id (lt_length_of_isEnabled hid) hid, hlisted, hcurrent,
        fun i j h => hshared i (lt_length_of_isEnabled h.blocked.1) j
          (lt_length_of_isEnabled h.released.1) h⟩,
      fun h => ⟨fun id _ => h.oneDigit id, h.listed, h.current, fun i _ j _ => h.shared i j⟩⟩

def Event.Steady (s : State) : Event → Prop
  | .round config now => Timecontrol.Steady config now s
  | .start => True

/-! ## The devices of a round -/

theorem digitsOf_of_lt {index : ℕ} (h : index < 10) : digitsOf index = [index] := by
  interval_cases index <;> rfl

/-- Indices of one digit are passed on as they are. -/
theorem getEnabledDevices_eq {config : Config}
    (h : ∀ id, isEnabled config id = true → id < 10) :
    getEnabledDevices config =
      ((List.range config.length).filter (isEnabled config)).insertionSort (· ≤ ·) := by
  have hdigits : ∀ ids : List ℕ, (∀ id ∈ ids, isEnabled config id = true) →
      ids.flatMap digitsOf = ids := by
    intro ids hids
    induction ids with
    | nil => rfl
    | cons id ids ih =>
      rw [List.flatMap_cons, digitsOf_of_lt (h id (hids id List.mem_cons_self)),
        ih fun id' hid' => hids id' (List.mem_cons_of_mem _ hid')]
      rfl
  rw [getEnabledDevices, hdigits _ fun id hid => (List.mem_filter.mp hid).2]

theorem mem_getEnabledDevices {config : Config}
    (h : ∀ id, isEnabled config id = true → id < 10) {id : ℕ} :
    id ∈ getEnabledDevices config ↔ isEnabled config id = true := by
  rw [getEnabledDevices_eq h, List.mem_insertionSort, List.mem_filter, List.mem_range]
  exact ⟨And.right, fun hid => ⟨lt_length_of_isEnabled hid, hid⟩⟩

theorem pairwise_getEnabledDevices {config : Config}
    (h : ∀ id, isEnabled config id = true → id < 10) :
    (getEnabledDevices config).Pairwise (· < ·) := by
  rw [getEnabledDevices_eq h]
  have hnodup : (((List.range config.length).filter (isEnabled config)).insertionSort
      (· ≤ ·)).Nodup :=
    (List.perm_insertionSort _ _).nodup_iff.mpr (List.nodup_range.filter _)
  have hsorted := List.pairwise_insertionSort (· ≤ ·)
    ((List.range config.length).filter (isEnabled config))
  exact (hsorted.and hnodup).imp fun ⟨hle, hne⟩ => Nat.lt_of_le_of_ne hle hne

/-! ## What a round does -/

section Round

variable (config : Config) (now : Now) (s : State)

theorem mem_addDevice {id : ℕ} {blacklist : List Address} {a : Address} :
    a ∈ addDevice config id blacklist ↔ address config id = some a ∨ a ∈ blacklist := by
  unfold addDevice
  split
  case h_1 h => simp [h]
  case h_2 b h =>
    rw [h, Option.some.injEq]
    split
    case isTrue hmem => exact ⟨.inr, fun h => h.elim (fun heq => heq ▸ hmem) fun h => h⟩
    case isFalse => rw [List.mem_cons, eq_comm]

theorem mem_delDevice {id : ℕ} {blacklist : List Address} {a : Address} :
    a ∈ delDevice config id blacklist ↔ a ∈ blacklist ∧ address config id ≠ some a := by
  unfold delDevice
  split
  case h_1 h => simp [h]
  case h_2 b h =>
    simp only [List.mem_filter, decide_eq_true_eq, h, Ne, Option.some.injEq, @eq_comm _ b a]

/-- The device puts the address in the sets when the round comes to it. -/
def Adds (id : ℕ) (a : Address) : Prop :=
  address config id = some a ∧ MustBlock config now id ∧ id ∉ s.idlist

/-- The device takes the address out of the sets when the round comes to it. -/
def Removes (id : ℕ) (a : Address) : Prop :=
  address config id = some a ∧ ¬ MustBlock config now id ∧ id ∈ s.idlist

def turn (s : State) (id : ℕ) : State :=
  updateDeviceStatus config s id (checkDeviceControl now config id)

variable {config now s}

theorem mem_idlist_turn {k i : ℕ} :
    i ∈ (turn config now s k).idlist ↔
      if i = k then MustBlock config now k else i ∈ s.idlist := by
  unfold turn updateDeviceStatus MustBlock
  by_cases hik : i = k
  · subst hik
    cases checkDeviceControl now config i <;> by_cases hmem : i ∈ s.idlist <;> simp [hmem]
  · cases checkDeviceControl now config k <;> by_cases hmem : k ∈ s.idlist <;> simp [hmem, hik]

theorem mem_blacklist_turn {k : ℕ} {a : Address} :
    a ∈ (turn config now s k).blacklist ↔
      Adds config now s k a ∨ a ∈ s.blacklist ∧ ¬ Removes config now s k a := by
  unfold turn updateDeviceStatus Adds Removes MustBlock
  cases checkDeviceControl now config k <;> by_cases hmem : k ∈ s.idlist <;>
    simp [hmem, mem_addDevice, mem_delDevice]

/-- The state after the turns of some devices in the order of their indices: each has been
put on the list or taken from it, and an address is in the sets by the last that changed
it. -/
theorem foldl_turn_spec (ids : List ℕ) (hids : ids.Pairwise (· < ·)) :
    (∀ i, i ∈ (ids.foldl (turn config now) s).idlist ↔
      if i ∈ ids then MustBlock config now i else i ∈ s.idlist) ∧
    ∀ a, a ∈ (ids.foldl (turn config now) s).blacklist ↔
      (∃ i ∈ ids, Adds config now s i a ∧ ∀ j ∈ ids, Removes config now s j a → j < i) ∨
        a ∈ s.blacklist ∧ ∀ j ∈ ids, ¬ Removes config now s j a := by
  induction ids using List.reverseRecOn with
  | nil => simp
  | append_singleton ids k ih =>
    obtain ⟨hbefore, -, hlast⟩ := List.pairwise_append.mp hids
    obtain ⟨hlist, hsets⟩ := ih hbefore
    have hk : k ∉ ids := fun hmem => Nat.lt_irrefl k (hlast k hmem k (List.mem_singleton_self k))
    have hlt : ∀ i ∈ ids, i < k := fun i hi => hlast i hi k (List.mem_singleton_self k)
    have hkmem : k ∈ (ids.foldl (turn config now) s).idlist ↔ k ∈ s.idlist := by
      rw [hlist, if_neg hk]
    rw [List.foldl_append, List.foldl_cons, List.foldl_nil]
    refine ⟨fun i => ?_, fun a => ?_⟩
    · rw [mem_idlist_turn, hlist]
      by_cases hik : i = k
      · subst hik
        simp
      · simp [hik]
    · have hadds : Adds config now (ids.foldl (turn config now) s) k a ↔
          Adds config now s k a := by
        rw [Adds, Adds, hkmem]
      have hremoves : Removes config now (ids.foldl (turn config now) s) k a ↔
          Removes config now s k a := by
        rw [Removes, Removes, hkmem]
      rw [mem_blacklist_turn, hadds, hremoves, hsets]
      have hboth : Adds config now s k a → ¬ Removes config now s k a :=
        fun h h' => h.2.2 h'.2.2
      simp only [List.mem_append, List.mem_singleton]
      constructor
      · rintro (hadd | ⟨⟨i, hi, hadd, hafter⟩ | ⟨hmem, hnone⟩, hnot⟩)
        · refine .inl ⟨k, .inr rfl, hadd, ?_⟩
          rintro j (hj | rfl) hrem
          · exact hlt j hj
          · exact absurd hrem (hboth hadd)
        · refine .inl ⟨i, .inl hi, hadd, ?_⟩
          rintro j (hj | rfl) hrem
          · exact hafter j hj hrem
          · exact absurd hrem hnot
        · refine .inr ⟨hmem, ?_⟩
          rintro j (hj | rfl)
          · exact hnone j hj
          · exact hnot
      · rintro (⟨i, hi | rfl, hadd, hafter⟩ | ⟨hmem, hnone⟩)
        · refine .inr ⟨.inl ⟨i, hi, hadd, fun j hj => hafter j (.inl hj)⟩, fun hrem => ?_⟩
          have hki := hafter k (.inr rfl) hrem
          have hik := hlt i hi
          omega
        · exact .inl hadd
        · exact .inr ⟨.inr ⟨hmem, fun j hj => hnone j (.inl hj)⟩, hnone k (.inr rfl)⟩

end Round

theorem round_eq (config : Config) (now : Now) (s : State) :
    round config now s = (getEnabledDevices config).foldl (turn config now) s := rfl

/-- In a state that agrees with the configuration a round makes the sets right. -/
theorem Steady.enforced {config : Config} {now : Now} {s : State}
    (h : Steady config now s) : Enforced config now (round config now s) := by
  intro a
  have hmem := @mem_getEnabledDevices config h.oneDigit
  obtain ⟨-, hsets⟩ := @foldl_turn_spec config now s (getEnabledDevices config)
    (pairwise_getEnabledDevices h.oneDigit)
  have hshared : ∀ i j, isEnabled config i = true → isEnabled config j = true →
      address config i = some a → address config j = some a → MustBlock config now i →
        Removes config now s j a → i ∉ s.idlist ∧ j < i := by
    intro i j hi hj hai haj hblock hrem
    by_contra hnot
    refine h.shared i j ⟨⟨hi, hblock⟩, ⟨hj, hrem.2⟩, ⟨by simp [hai], haj.trans hai.symm⟩, ?_⟩
    by_contra hlate
    rw [not_or] at hlate
    exact hnot ⟨hlate.1, by omega⟩
  rw [round_eq, hsets]
  simp only [hmem]
  constructor
  · rintro (⟨i, hi, hadd, -⟩ | ⟨hin, hnone⟩)
    · exact ⟨i, hi, hadd.1, hadd.2.1⟩
    · obtain ⟨i, hi, henabled, haddr⟩ := h.current a hin
      refine ⟨i, henabled, haddr, ?_⟩
      by_contra hallowed
      exact hnone i henabled ⟨haddr, hallowed, hi⟩
  · rintro ⟨i, henabled, haddr, hblock⟩
    by_cases hi : i ∈ s.idlist
    · refine .inr ⟨h.listed i hi henabled a haddr, fun j hj hrem => ?_⟩
      exact (hshared i j henabled hj haddr hrem.1 hblock hrem).1 hi
    · refine .inl ⟨i, henabled, ⟨haddr, hblock, hi⟩, fun j hj hrem => ?_⟩
      exact (hshared i j henabled hj haddr hrem.1 hblock hrem).2

/-- A device that is on the list exactly when it is to be blocked has nothing done to it. -/
theorem turn_of_agrees {config : Config} {now : Now} {s : State} {id : ℕ}
    (h : id ∈ s.idlist ↔ MustBlock config now id) : turn config now s id = s := by
  unfold MustBlock at h
  unfold turn updateDeviceStatus
  cases hcheck : checkDeviceControl now config id <;> simp [h, hcheck]

theorem mem_idlist_foldl_turn {config : Config} {now : Now} {s : State} (ids : List ℕ) {i : ℕ} :
    i ∈ (ids.foldl (turn config now) s).idlist ↔
      if i ∈ ids then MustBlock config now i else i ∈ s.idlist := by
  induction ids generalizing s with
  | nil => simp
  | cons id ids ih =>
    rw [List.foldl_cons, ih, mem_idlist_turn]
    by_cases hid : i = id
    · subst hid
      simp
    · simp [hid]

/-- A round right after another changes nothing, whatever the state was. -/
theorem round_round (config : Config) (now : Now) (s : State) :
    round config now (round config now s) = round config now s := by
  have hsettled : ∀ (ids : List ℕ) (s : State),
      (∀ id ∈ ids, id ∈ s.idlist ↔ MustBlock config now id) → ids.foldl (turn config now) s = s := by
    intro ids
    induction ids with
    | nil => exact fun _ _ => rfl
    | cons id ids ih =>
      intro s h
      rw [List.foldl_cons, turn_of_agrees (h id List.mem_cons_self)]
      exact ih s fun i hi => h i (List.mem_cons_of_mem _ hi)
  simp only [round_eq]
  refine hsettled _ _ fun id hid => ?_
  rw [mem_idlist_foldl_turn, if_pos hid]

/-! ## Runs -/

/-- After each round of a run the sets are right. -/
def EnforcedAlong (events : List Event) : Prop :=
  Along apply (fun s event => event.EnforcedAfter s) events .start

/-- In a run whose rounds all find a state that agrees with the configuration, the sets are
right after each round. -/
theorem enforcedAlong_of_steady {events : List Event}
    (h : Along apply (fun s event => event.Steady s) events .start) : EnforcedAlong events := by
  refine h.imp fun s event hsteady => ?_
  cases event with
  | round config now => exact hsteady.enforced
  | start => trivial

/-- A round since the last start looked at a device with the address that was to be blocked. -/
def BlockedSince (events : List Event) (a : Address) : Prop :=
  ∃ before config now after, events = before ++ .round config now :: after ∧
    (∀ event ∈ after, event ≠ .start) ∧
      ∃ id ∈ getEnabledDevices config, address config id = some a ∧ MustBlock config now id

/-- Whatever happens to the configuration, no other address is ever in the sets. -/
theorem blockedSince_of_run (events : List Event) :
    ∀ a ∈ (events.foldl apply .start).blacklist, BlockedSince events a := by
  intro a ha
  have hround : ∀ (config : Config) (now : Now) (ids : List ℕ) (s : State),
      a ∈ (ids.foldl (turn config now) s).blacklist → a ∈ s.blacklist ∨
        ∃ id ∈ ids, address config id = some a ∧ MustBlock config now id := by
    intro config now ids
    induction ids with
    | nil => exact fun s h => .inl h
    | cons id ids ih =>
      intro s h
      rcases ih _ h with h | ⟨other, hother, hblock⟩
      · rcases mem_blacklist_turn.mp h with ⟨haddr, hblock, -⟩ | ⟨h, -⟩
        · exact .inr ⟨id, List.mem_cons_self, haddr, hblock⟩
        · exact .inl h
      · exact .inr ⟨other, List.mem_cons_of_mem _ hother, hblock⟩
  induction events using List.reverseRecOn with
  | nil => cases ha
  | append_singleton events event ih =>
    rw [List.foldl_append, List.foldl_cons, List.foldl_nil] at ha
    cases event with
    | start => cases ha
    | round config now =>
      rcases hround config now _ _ ha with h | hblock
      · obtain ⟨before, config', now', after, rfl, hafter, hblock⟩ := ih h
        refine ⟨before, config', now', after ++ [.round config now], by simp, ?_, hblock⟩
        simpa [or_imp, forall_and] using hafter
      · exact ⟨events, config, now, [], rfl, by simp, hblock⟩

/-- A device with an address that may use the network on the days of the week, at any time. -/
def plainDevice (enable mac week : String) : Device where
  enable := some enable.toList
  mac := some mac.toList
  timeMode := none
  week := some week.toList
  timestart := none
  timeend := none
  duration := none
  useDuration := none

/-- Noon on a day of the week, where no time was used. -/
def noon (weekday : String) : Now := ⟨"12:00".toList, weekday.toList, fun _ => 0⟩

theorem blockedSince_noon :
    BlockedSince [.round [plainDevice "1" "192.168.1.2" "1"] (noon "2")]
      ⟨.ipv4, "192.168.1.2".toList⟩ :=
  blockedSince_of_run _ _ (by decide +kernel)

/-- Two devices that are let in on different days are blocked in turn, and the service is started
again between two rounds. -/
theorem enforcedAlong_of_turns :
    EnforcedAlong
      [.round [plainDevice "1" "192.168.1.2" "1", plainDevice "1" "00:11:22:33:44:5A" "2"]
        (noon "1"),
        .round [plainDevice "1" "192.168.1.2" "1", plainDevice "1" "00:11:22:33:44:5A" "2"]
          (noon "2"),
        .start,
        .round [plainDevice "1" "192.168.1.2" "1", plainDevice "1" "00:11:22:33:44:5A" "2"]
          (noon "3")] :=
  enforcedAlong_of_steady
    ⟨by unfold Event.Steady; decide +kernel, by unfold Event.Steady; decide +kernel, trivial,
      by unfold Event.Steady; decide +kernel, trivial⟩

/-- The address of a device that is disabled while it is blocked stays in the sets, and the
eleventh device is never looked at. -/
theorem not_enforcedAlong_of_disabled_of_eleventh :
    ¬ EnforcedAlong
      [.round [plainDevice "1" "192.168.1.2" "1"] (noon "2"),
        .round [plainDevice "0" "192.168.1.2" "1"] (noon "2")] ∧
    ¬ EnforcedAlong
      [.round (List.replicate 10 (plainDevice "0" "192.168.1.3" "0") ++
        [plainDevice "1" "192.168.1.2" "1"]) (noon "2")] := by
  refine ⟨fun h => ?_, fun h => ?_⟩
  · obtain ⟨id, henabled, -⟩ :=
      (h.2.1 ⟨.ipv4, "192.168.1.2".toList⟩).mp (by decide +kernel)
    have hlt := lt_length_of_isEnabled henabled
    simp only [List.length_singleton] at hlt
    obtain rfl : id = 0 := by omega
    revert henabled
    decide
  · have hmem := (h.1 ⟨.ipv4, "192.168.1.2".toList⟩).mpr
      ⟨10, by decide +kernel, by decide +kernel, by decide +kernel⟩
    revert hmem
    decide +kernel

end OpenWrt.Timecontrol
